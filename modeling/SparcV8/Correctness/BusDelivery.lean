import SparcV8.Multicore.Bridge
import Mathlib.Data.List.Chain

/-!
# The bridge delivers every response

One transaction is under way at a time. Each core is between two requests, waiting to be granted,
being served, or has its response on the way, and what the bridge holds says which. So responses go
to the cores that asked, locked pairs are not interrupted, and every request is answered.
-/

namespace SparcV8

open Function SystemAddressMap RoundRobin Option List BridgeSystem

namespace BridgeSystem

open CoherentBridge

variable {n : Nat} {τ : Type} {P : Parameters τ} {w : Workload n} {i j : Fin (n + 1)}
  {port : TargetPort} {q : RequestToken n} {r : ResponseToken n}
  {c : CorePort n} {held : Bool} {served : Option Nat} {s s' s₁ : BridgeSystem n τ} {k k' : Nat}

/-! ## The cores -/

/-- Request `k` of a core follows a locked one. -/
def Follows (w : Workload n) (i : Fin (n + 1)) (k : Nat) : Prop :=
  ∃ j, k = j + 1 ∧ (w.request i j).lock = true

/-- Where the last request of a core is; the bridge serves `served`, and `held` says who has the
lock. -/
inductive CorePhase (w : Workload n) (i : Fin (n + 1)) (c : CorePort n) (held : Bool) :
    Option Nat → Prop
  | idle {cycles : Nat} (hctl : c.control = .idle cycles) (hreq : c.requestNet = none)
      (hresp : c.responseNet = none) (hmade : c.made = c.received.length)
      (hheld : held = true → Follows w i c.received.length) : CorePhase w i c held none
  | waiting (hctl : c.control = .getResponse)
      (hreq : c.requestNet =
        some ⟨i, c.received.length, w.request i c.received.length⟩)
      (hresp : c.responseNet = none) (hmade : c.made = c.received.length + 1)
      (hheld : held = true → Follows w i c.received.length) : CorePhase w i c held none
  | served (hctl : c.control = .getResponse) (hreq : c.requestNet = none)
      (hresp : c.responseNet = none) (hmade : c.made = c.received.length + 1)
      (hheld : held = true → (w.request i c.received.length).lock = true) :
      CorePhase w i c held (some c.received.length)
  | answered {r : ResponseToken n} (hctl : c.control = .getResponse)
      (hreq : c.requestNet = none) (hresp : c.responseNet = some r) (hcore : r.core = i)
      (hnumber : r.number = c.received.length) (hmade : c.made = c.received.length + 1)
      (hheld : held = true → (w.request i c.received.length).lock = true) :
      CorePhase w i c held none

/-- The tags of a core's responses are those of its first requests. -/
def ReceivedInOrder (i : Fin (n + 1)) (c : CorePort n) : Prop :=
  c.received = (range c.received.length).map fun k => (i, k)

section

variable (h : CorePhase w i c held served)
include h

/-- A request on the net is the next one of its core. -/
theorem CorePhase.of_request (hq : c.requestNet = some q) :
    q = ⟨i, c.received.length, w.request i c.received.length⟩ ∧
      (held = true → Follows w i c.received.length) ∧
      CorePhase w i { c with requestNet := none } q.value.lock (some q.number) := by
  cases h with
  | idle _ hnone => rw [hq] at hnone; cases hnone
  | waiting hctl hreq hresp hmade hheld =>
    obtain rfl := some.inj (hq.symm.trans hreq)
    exact ⟨rfl, hheld, .served hctl rfl hresp hmade id⟩
  | served _ hnone => rw [hq] at hnone; cases hnone
  | answered _ hnone => rw [hq] at hnone; cases hnone

/-- The response is pushed by the bridge. -/
theorem CorePhase.returned (hcore : r.core = i) (hserved : served = some r.number) :
    c.responseNet = none ∧ CorePhase w i { c with responseNet := some r } held none := by
  cases h with
  | idle => cases hserved
  | waiting => cases hserved
  | served hctl hreq hresp hmade hheld =>
    exact ⟨hresp, .answered hctl hreq rfl hcore (some.inj hserved).symm hmade
      hheld⟩
  | answered => cases hserved

/-- The phase of a core is that of its nets and requests; the lock may pass on. -/
theorem CorePhase.congr {c' : CorePort n} {held' : Bool} (hctl : c'.control = c.control)
    (hreq : c'.requestNet = c.requestNet) (hresp : c'.responseNet = c.responseNet)
    (hmade : c'.made = c.made) (hreceived : c'.received = c.received)
    (hheld : held' = true → held = true) : CorePhase w i c' held' served := by
  obtain ⟨control, requestNet, responseNet, invalidateNet, made, received, arrived⟩ := c'
  subst hctl hreq hresp hmade hreceived
  cases h with
  | idle hctl hreq hresp hmade hfollows =>
    exact .idle hctl hreq hresp hmade (hfollows ∘ hheld)
  | waiting hctl hreq hresp hmade hfollows =>
    exact .waiting hctl hreq hresp hmade (hfollows ∘ hheld)
  | served hctl hreq hresp hmade hlock =>
    exact .served hctl hreq hresp hmade (hlock ∘ hheld)
  | answered hctl hreq hresp hcore hnumber hmade hlock =>
    exact .answered hctl hreq hresp hcore hnumber hmade (hlock ∘ hheld)

theorem CorePhase.invalidate (net : Option (BitVec 64)) :
    CorePhase w i { c with invalidateNet := net } held served :=
  h.congr rfl rfl rfl rfl rfl id

end

/-- What phase 0 leaves of a core. -/
theorem corePhase0_spec (c : CorePort n) : (corePhase0 c).requestNet = c.requestNet ∧
    (corePhase0 c).arrived = c.arrived ∧ (corePhase0 c).invalidateNet = none := by
  unfold corePhase0
  dsimp only
  split
  · split <;> exact ⟨rfl, rfl, rfl⟩
  · exact ⟨rfl, rfl, rfl⟩
  · exact ⟨rfl, rfl, rfl⟩

/-- In phase 0 a core takes its response, if it is there. -/
theorem CorePhase.phase0 (h : CorePhase w i c held served) (hr : ReceivedInOrder i c) :
    CorePhase w i (corePhase0 c) held served ∧ ReceivedInOrder i (corePhase0 c) ∧
      c.received.length ≤ (corePhase0 c).received.length := by
  have hquiet (hresp : c.responseNet = none) :
      corePhase0 c = { c with invalidateNet := none } := by
    unfold corePhase0
    rw [hresp]
    cases c.control <;> rfl
  have hkept (hresp : c.responseNet = none) :
      CorePhase w i (corePhase0 c) held served ∧ ReceivedInOrder i (corePhase0 c) ∧
        c.received.length ≤ (corePhase0 c).received.length := by
    rw [hquiet hresp]
    exact ⟨h.invalidate none, hr, le_rfl⟩
  cases h with
  | idle _ _ hresp => exact hkept hresp
  | waiting _ _ hresp => exact hkept hresp
  | served _ _ hresp => exact hkept hresp
  | @answered r hctl hreq hresp hcore hnumber hmade hheld =>
    have heq : corePhase0 c =
        { c with
          invalidateNet := none
          control := .idle 0
          responseNet := none
          received := c.received ++ [(i, c.received.length)] } := by
      unfold corePhase0
      rw [hctl, hresp, ← hcore, ← hnumber]
    have hlength : (c.received ++ [(i, c.received.length)]).length = c.received.length + 1 :=
      length_append
    rw [heq]
    refine ⟨.idle rfl hreq rfl (hmade.trans hlength.symm) fun hh => ?_, ?_, ?_⟩
    · exact ⟨c.received.length, hlength, hheld hh⟩
    · change c.received ++ _ = (range (c.received ++ [(i, c.received.length)]).length).map _
      rw [hlength, range_succ, map_append, ← hr]
      rfl
    · rw [hlength]
      exact Nat.le_succ _

/-- In phase 1 a core makes its next request, if its time has come. -/
theorem CorePhase.phase1 (h : CorePhase w i c held served) (grants : Nat) :
    CorePhase w i (corePhase1 w grants i c) held served ∧
      (corePhase1 w grants i c).received = c.received ∧
      ((corePhase1 w grants i c).requestNet = c.requestNet ∧
          (corePhase1 w grants i c).arrived = c.arrived ∨
        c.requestNet = none ∧ (corePhase1 w grants i c).arrived = grants) := by
  by_cases hbusy : c.control = .getResponse
  · rw [corePhase1, hbusy]
    exact ⟨h, rfl, .inl ⟨rfl, rfl⟩⟩
  cases h with
  | @idle cycles hctl hreq hresp hmade hheld =>
    have hlater : CorePhase w i { c with control := .idle (cycles + 1) } held none :=
      .idle rfl hreq hresp hmade hheld
    unfold corePhase1 pushRequest
    rw [hctl]
    dsimp only
    split
    · split
      · rw [hreq]
        refine ⟨.waiting rfl ?_ hresp (congrArg (· + 1) hmade) hheld, rfl, .inr ⟨rfl, rfl⟩⟩
        rw [hmade]
      · exact ⟨hlater, rfl, .inl ⟨rfl, rfl⟩⟩
    · exact ⟨hlater, rfl, .inl ⟨rfl, rfl⟩⟩
  | waiting hctl => exact absurd hctl hbusy
  | served hctl => exact absurd hctl hbusy
  | answered hctl => exact absurd hctl hbusy

/-! ## The transaction -/

/-- What a target does, and what is on its nets. -/
structure TargetAt (m : TargetModule n τ) (control : TargetControl n)
    (request : Option (RequestToken n)) (response : Option (ResponseToken n)) : Prop where
  control : m.control = control
  requestNet : m.requestNet = request
  responseNet : m.responseNet = response

/-- A target with nothing to do. -/
abbrev Quiet (m : TargetModule n τ) : Prop := TargetAt m .getRequest none none

/-- The bridge waits for a target, the only one that is not quiet. -/
structure Awaits (s : BridgeSystem n τ) (port : TargetPort) (q : RequestToken n)
    (control : TargetControl n) (request : Option (RequestToken n))
    (response : Option (ResponseToken n)) : Prop
    extends TargetAt (s.targets port) control request response where
  bridge : s.bridge.control = .getTargetResponse port q
  quiet : ∀ port' ≠ port, Quiet (s.targets port')

/-- The tag of the request that the bridge is serving. -/
def tag : Control n → Option (Fin (n + 1) × Nat)
  | .waiting => none
  | .invalidating _ q | .sendTargetRequest _ q | .getTargetResponse _ q => some (q.core, q.number)
  | .delaying _ r | .sendCoreResponse r => some (r.core, r.number)

/-- The request under way that has not reached its target yet. -/
def unreached (s : BridgeSystem n τ) : Option (RequestToken n) :=
  match s.bridge.control with
  | .invalidating _ q | .sendTargetRequest _ q => some q
  | .getTargetResponse port _ => (s.targets port).requestNet
  | .waiting | .delaying _ _ | .sendCoreResponse _ => none

/-- How far the transaction has got, with the cycles that it still takes; some places are left
within the cycle. -/
inductive Stage (P : Parameters τ) (s : BridgeSystem n τ) : (middle : Bool) → Nat → Prop
  | idle {middle : Bool} (hctl : s.bridge.control = .waiting)
      (hquiet : ∀ port, Quiet (s.targets port)) : Stage P s middle 0
  | sending {port : TargetPort} {q : RequestToken n}
      (hctl : s.bridge.control = .invalidating port q ∨
        s.bridge.control = .sendTargetRequest port q)
      (hquiet : ∀ port, Quiet (s.targets port)) :
      Stage P s true (P.targetDelay port + 1 + (P.delay + 1))
  | requested {port : TargetPort} {q : RequestToken n}
      (hawaits : Awaits s port q .getRequest (some q) none) :
      Stage P s false (P.targetDelay port + 1 + (P.delay + 1))
  | serving {middle : Bool} {port : TargetPort} {q : RequestToken n} {k : Nat}
      {r : ResponseToken n} (hawaits : Awaits s port q (.delaying k r) none none)
      (htag : (r.core, r.number) = (q.core, q.number)) :
      Stage P s middle (k + 1 + (P.delay + 1))
  | responding {port : TargetPort} {q : RequestToken n} {r : ResponseToken n}
      (hawaits : Awaits s port q (.sendResponse r) none none)
      (htag : (r.core, r.number) = (q.core, q.number)) : Stage P s true (P.delay + 1)
  | answered {port : TargetPort} {q : RequestToken n} {r : ResponseToken n}
      (hawaits : Awaits s port q .getRequest none (some r))
      (htag : (r.core, r.number) = (q.core, q.number)) : Stage P s false (P.delay + 1)
  | returning {middle : Bool} {k : Nat} {r : ResponseToken n}
      (hctl : s.bridge.control = .delaying k r) (hquiet : ∀ port, Quiet (s.targets port)) :
      Stage P s middle (k + 1)
  | replying {r : ResponseToken n}
      (hctl : s.bridge.control = .sendCoreResponse r)
      (hquiet : ∀ port, Quiet (s.targets port)) : Stage P s true 0

variable {m : TargetModule n τ}
variable {request : Option (RequestToken n)}

section Targets

theorem Quiet.phase0 (h : Quiet m) : Quiet (targetPhase0 P port m) := by
  unfold targetPhase0
  rw [h.control, h.requestNet]
  exact ⟨rfl, rfl, h.responseNet⟩

theorem Quiet.phase1 (h : Quiet m) : Quiet (targetPhase1 m) := by
  unfold targetPhase1
  rw [h.control]
  exact h

variable {response : Option (ResponseToken n)}

/-- A target takes a request, and answers it after its delay. -/
theorem targetPhase0_of_request (port : TargetPort) (h : TargetAt m .getRequest (some q) response) :
    ∃ r : ResponseToken n, (r.core, r.number) = (q.core, q.number) ∧
      TargetAt (targetPhase0 P port m) (.countdown (P.targetDelay port) r) none response := by
  unfold targetPhase0
  rw [h.control, h.requestNet]
  exact ⟨_, rfl, rfl, rfl, h.responseNet⟩

theorem targetPhase0_of_delaying (port : TargetPort)
    (h : TargetAt m (.delaying k r) request response) :
    TargetAt (targetPhase0 P port m) (.countdown k r) request response := by
  unfold targetPhase0
  rw [h.control]
  exact ⟨rfl, h.requestNet, h.responseNet⟩

theorem Quiet.pulled (h : Quiet m) : pulled m = none := by
  unfold BridgeSystem.pulled
  rw [h.control, h.requestNet]

end Targets

/-! ## What holds between two phases -/

/-- The number of the request of core `i` that is being served. -/
def serving (s : BridgeSystem n τ) (i : Fin (n + 1)) : Option Nat :=
  (tag s.bridge.control).bind fun t => if t.1 = i then some t.2 else none

/-- Core `i` holds the lock. -/
def heldBy (s : BridgeSystem n τ) (i : Fin (n + 1)) : Bool :=
  s.bridge.busLocked && s.bridge.granted == i

/-- The requests that have been granted, in their order. -/
def forwarded (s : BridgeSystem n τ) : List (RequestToken n) :=
  s.reached ++ s.unreached.toList

/-- After a locked request comes one of the same core. -/
def Uninterrupted (a b : RequestToken n) : Prop :=
  a.value.lock = true → b.core = a.core

/-- What holds in the middle of a cycle, and between two cycles. -/
structure Sound (P : Parameters τ) (w : Workload n) (s : BridgeSystem n τ) (middle : Bool)
    (k : Nat) : Prop where
  stage : Stage P s middle k
  owner : ∀ t ∈ tag s.bridge.control, t.1 = s.bridge.granted
  cores : ∀ i, CorePhase w i (s.cores i) (s.heldBy i) (s.serving i)
  received : ∀ i, ReceivedInOrder i (s.cores i)
  chain : s.forwarded.IsChain Uninterrupted
  last : ∀ a ∈ s.forwarded.getLast?,
    a.value.lock = s.bridge.busLocked ∧ a.core = s.bridge.granted
  overtaken : ∀ i, (s.cores i).requestNet.isSome = true →
    (s.cores i).arrived ≤ s.grants.length ∧
      Overtaken i s.bridge.granted s.bridge.busLocked
        (s.grants.drop (s.cores i).arrived)
  invalidateNet : middle = true → ∀ i, (s.cores i).invalidateNet = none

/-- The bus is granted and locked as before. -/
structure SameBus (s s' : BridgeSystem n τ) : Prop where
  granted : s'.bridge.granted = s.bridge.granted
  busLocked : s'.bridge.busLocked = s.bridge.busLocked

theorem SameBus.trans (h : SameBus s s₁) (h₁ : SameBus s₁ s') : SameBus s s' :=
  ⟨h₁.granted.trans h.granted, h₁.busLocked.trans h.busLocked⟩

/-- What a phase leaves when it grants no request. -/
structure SameGrants (s s' : BridgeSystem n τ) : Prop extends SameBus s s' where
  grants : s'.grants = s.grants
  forwarded : s'.forwarded = s.forwarded

/-- What a phase leaves when it neither grants a request nor ends one. -/
structure SameRequest (s s' : BridgeSystem n τ) : Prop extends SameGrants s s' where
  tag : tag s'.bridge.control = tag s.bridge.control

theorem SameRequest.heldBy (h : SameRequest s s') (i : Fin (n + 1)) : s'.heldBy i = s.heldBy i := by
  rw [BridgeSystem.heldBy, BridgeSystem.heldBy, h.busLocked, h.granted]

theorem SameRequest.serving (h : SameRequest s s') (i : Fin (n + 1)) :
    s'.serving i = s.serving i := by
  rw [BridgeSystem.serving, BridgeSystem.serving, h.tag]

/-- Phase 0 when no request is granted. -/
theorem Sound.phase0_same (h : Sound P w s false k) (hstage : Stage P s' true k')
    (hsame : SameRequest s s') (hcores : ∀ i, s'.cores i = corePhase0 (s.cores i)) :
    Sound P w s' true k' := by
  have hphase (i : Fin (n + 1)) := (h.cores i).phase0 (h.received i)
  refine ⟨hstage, ?_, fun i => ?_, fun i => ?_, ?_, ?_, fun i hi => ?_, fun _ i => ?_⟩
  · rw [hsame.tag, hsame.granted]
    exact h.owner
  · rw [hcores, hsame.heldBy, hsame.serving]
    exact (hphase i).1
  · rw [hcores]
    exact (hphase i).2.1
  · rw [hsame.forwarded]
    exact h.chain
  · rw [hsame.forwarded, hsame.busLocked, hsame.granted]
    exact h.last
  · rw [hcores, (corePhase0_spec _).1] at hi
    rw [hcores, (corePhase0_spec _).2.1, hsame.grants, hsame.granted, hsame.busLocked]
    exact h.overtaken i hi
  · rw [hcores]
    exact (corePhase0_spec _).2.2

/-! ## Phase 0 -/

/-- Nothing is pulled where all the targets are quiet. -/
theorem reached_othersPhase0_of_quiet (h : ∀ port, Quiet (s.targets port)) :
    (s.othersPhase0 P).reached = s.reached := by
  change s.reached ++ (pulled (s.targets .memory)).toList ++
    (pulled (s.targets .devices)).toList = s.reached
  rw [(h .memory).pulled, (h .devices).pulled]
  exact (append_nil _).trans (append_nil _)

/-- Only one target can pull a request. -/
theorem reached_othersPhase0 (h : ∀ port' ≠ port, Quiet (s.targets port')) :
    (s.othersPhase0 P).reached = s.reached ++ (pulled (s.targets port)).toList := by
  change s.reached ++ (pulled (s.targets .memory)).toList ++
    (pulled (s.targets .devices)).toList = _
  cases port with
  | memory => rw [(h .devices nofun).pulled, toList_none, append_nil]
  | devices => rw [(h .memory nofun).pulled, toList_none, append_nil]

theorem tag_countdown (cycles : Nat) (r : ResponseToken n) :
    tag (.countdown cycles r) = some (r.core, r.number) := by
  cases cycles <;> rfl

/-- The delay of the bridge, from the response on. -/
theorem Stage.countdown (cycles : Nat) (hctl : s.bridge.control = .countdown cycles r)
    (hquiet : ∀ port, Quiet (s.targets port)) : Stage P s true cycles ∧ s.unreached = none := by
  unfold unreached
  rw [hctl]
  cases cycles with
  | zero => exact ⟨.replying hctl hquiet, rfl⟩
  | succ cycles => exact ⟨.returning hctl hquiet, rfl⟩

variable {cycles : Nat}

/-- Phase 0 in the delay of a target: the bridge waits for its response. -/
theorem phase0_countdown {control : TargetControl n} (h : Awaits s port q control request none)
    (hpulled : pulled (s.targets port) = s.unreached)
    (htarget : TargetAt (targetPhase0 P port (s.targets port)) (.countdown cycles r) none none)
    (htag : (r.core, r.number) = (q.core, q.number)) :
    ∃ s', s.phase0 P = some s' ∧ Stage P s' true (cycles + (P.delay + 1)) ∧ SameRequest s s' ∧
      ∀ i, s'.cores i = corePhase0 (s.cores i) := by
  have hawaits : Awaits (s.othersPhase0 P) port q (.countdown cycles r) none none :=
    ⟨htarget, h.bridge, fun port' hne => (h.quiet port' hne).phase0⟩
  have hunreached : (s.othersPhase0 P).unreached = none := by
    unfold unreached
    rw [hawaits.bridge]
    exact hawaits.requestNet
  refine ⟨s.othersPhase0 P, ?_, ?_, ⟨⟨⟨rfl, rfl⟩, rfl, ?_⟩, rfl⟩, fun _ => rfl⟩
  · rw [phase0, bridgePhase0, h.bridge]
    dsimp only
    rw [h.responseNet]
    rfl
  · cases cycles with
    | zero =>
      rw [Nat.zero_add]
      exact .responding hawaits htag
    | succ cycles => exact .serving hawaits htag
  · rw [forwarded, forwarded, reached_othersPhase0 h.quiet, hunreached, hpulled]
    exact append_nil _

/-- Phase 0 of a transaction under way. -/
theorem Stage.phase0 (h : Stage P s false (k + 1)) :
    ∃ s', s.phase0 P = some s' ∧ Stage P s' true k ∧ SameRequest s s' ∧
      ∀ i, s'.cores i = corePhase0 (s.cores i) := by
  generalize hm : k + 1 = m at h
  cases h with
  | idle => cases hm
  | @requested port q hawaits =>
    obtain ⟨r, htag, htarget⟩ := targetPhase0_of_request (P := P) port hawaits.toTargetAt
    have hpulled : pulled (s.targets port) = s.unreached := by
      unfold pulled unreached
      rw [hawaits.control, hawaits.bridge]
    obtain rfl : k = P.targetDelay port + (P.delay + 1) := by omega
    exact phase0_countdown hawaits hpulled htarget htag
  | @serving _ port q k' r hawaits htag =>
    have hpulled : pulled (s.targets port) = s.unreached := by
      unfold pulled unreached
      rw [hawaits.control, hawaits.bridge]
      exact hawaits.requestNet.symm
    obtain rfl : k = k' + (P.delay + 1) := by omega
    exact phase0_countdown hawaits hpulled (targetPhase0_of_delaying port hawaits.toTargetAt) htag
  | @answered port q r hawaits htag =>
    -- the bridge takes the response, and all the targets are quiet again
    let s₁ : BridgeSystem n τ :=
      { s with
        bridge := { s.bridge with control := .countdown P.delay r }
        targets := update s.targets port { s.targets port with responseNet := none } }
    have hquiet₁ (port' : TargetPort) : Quiet (s₁.targets port') := by
      by_cases hne : port' = port
      · subst hne
        rw [show s₁.targets port' = _ from update_self ..]
        exact ⟨hawaits.control, hawaits.requestNet, rfl⟩
      · rw [show s₁.targets port' = s.targets port' from update_of_ne hne ..]
        exact hawaits.quiet port' hne
    have hunreached : s.unreached = none := by
      unfold unreached
      rw [hawaits.bridge]
      exact hawaits.requestNet
    obtain ⟨hstage, hunreached'⟩ := Stage.countdown (P := P) (s := s₁.othersPhase0 P)
      P.delay rfl fun port' => (hquiet₁ port').phase0
    obtain rfl : k = P.delay := by omega
    refine ⟨s₁.othersPhase0 P, ?_, hstage, ⟨⟨⟨rfl, rfl⟩, rfl, ?_⟩, ?_⟩, fun _ => rfl⟩
    · rw [BridgeSystem.phase0, bridgePhase0, hawaits.bridge]
      dsimp only
      rw [hawaits.responseNet]
      rfl
    · rw [forwarded, forwarded, reached_othersPhase0_of_quiet hquiet₁, hunreached, hunreached']
    · rw [hawaits.bridge]
      exact (tag_countdown _ r).trans (congrArg some htag)
  | @returning _ k' r hctl hquiet =>
    let s₁ : BridgeSystem n τ :=
      { s with bridge := { s.bridge with control := .countdown k' r } }
    have hunreached : s.unreached = none := by
      unfold unreached
      rw [hctl]
    obtain ⟨hstage, hunreached'⟩ := Stage.countdown (s := s₁.othersPhase0 P)
      k' rfl fun port' => (hquiet port').phase0
    obtain rfl : k = k' := by omega
    refine ⟨s₁.othersPhase0 P, ?_, hstage, ⟨⟨⟨rfl, rfl⟩, rfl, ?_⟩, ?_⟩, fun _ => rfl⟩
    · rw [BridgeSystem.phase0, bridgePhase0, hctl]
      rfl
    · rw [forwarded, forwarded, reached_othersPhase0_of_quiet (s := s₁) hquiet, hunreached,
        hunreached']
    · rw [hctl]
      exact tag_countdown _ r

/-- The bridge may choose core `j`: it holds the lock, or none does and its turn has come. -/
def Chooses (s : BridgeSystem n τ) (j : Fin (n + 1)) : Prop :=
  s.bridge.busLocked = true ∧ j = s.bridge.granted ∨ s.bridge.busLocked = false ∧
    next (fun i => (s.cores i).requestNet.isSome) s.bridge.granted = some j

/-- The bus passes to core `j`, for its request. -/
structure Grant (s s' : BridgeSystem n τ) (j : Fin (n + 1)) (q : RequestToken n) : Prop where
  request : (s.cores j).requestNet = some q
  choice : s.Chooses j
  granted : s'.bridge.granted = j
  busLocked : s'.bridge.busLocked = q.value.lock

/-- A request of core `j` is granted. -/
structure Granted (s s' : BridgeSystem n τ) (j : Fin (n + 1)) (q : RequestToken n) : Prop
    extends Grant s s' j q where
  tag : tag s'.bridge.control = some (q.core, q.number)
  grants : s'.grants = s.grants ++ [(j, s.bridge.busLocked)]
  forwarded : s'.forwarded = s.forwarded ++ [q]
  own : s'.cores j = corePhase0 { s.cores j with requestNet := none }
  others : ∀ i ≠ j, s'.cores i = corePhase0 (s.cores i)

theorem choice_of_pullNextRequest (h : s.pullNextRequest = some (j, q)) :
    (s.cores j).requestNet = some q ∧ s.Chooses j := by
  unfold pullNextRequest at h
  split at h
  · next hlocked =>
    obtain ⟨q', hq, heq⟩ := map_eq_some_iff.1 h
    cases heq
    exact ⟨hq, .inl ⟨hlocked, rfl⟩⟩
  · next hlocked =>
    obtain ⟨i, hi, hrest⟩ := bind_eq_some_iff.1 h
    obtain ⟨q', hq, heq⟩ := map_eq_some_iff.1 hrest
    cases heq
    exact ⟨hq, .inr ⟨Bool.eq_false_iff.2 hlocked, hi⟩⟩

/-- Phase 0 with a grant; the request is at its target, or about to be sent. -/
theorem granted_grant (hunreached : s.unreached = none) (hpull : s.pullNextRequest = some (j, q))
    {control : Control n} {reached : List (RequestToken n)}
    (hs₁ : s₁ = { s.grant P j q control with reached := reached })
    (hquiet : ∀ port, Quiet (s.targets port)) (htag : tag control = some (q.core, q.number))
    (hreached : reached ++ (s₁.othersPhase0 P).unreached.toList = s.reached ++ [q]) :
    Granted s (s₁.othersPhase0 P) j q := by
  obtain ⟨hreq, hchoice⟩ := choice_of_pullNextRequest hpull
  have hforwarded : (s₁.othersPhase0 P).forwarded = s.forwarded ++ [q] := by
    have hquiet₁ (port : TargetPort) : Quiet (s₁.targets port) := hs₁ ▸ hquiet port
    rw [forwarded, forwarded, hunreached, reached_othersPhase0_of_quiet hquiet₁, toList_none,
      append_nil, ← hreached, hs₁]
  subst hs₁
  exact ⟨⟨hreq, hchoice, rfl, rfl⟩, htag, rfl, hforwarded, congrArg corePhase0 (update_self ..),
    fun i hi => congrArg corePhase0 (update_of_ne hi ..)⟩

/-- The bridge takes a request, for memory, the devices or nothing. -/
theorem accept_spec (hctl : s.bridge.control = .waiting)
    (hquiet : ∀ port, Quiet (s.targets port)) (hpull : s.pullNextRequest = some (j, q))
    (htarget : decode P.layout q.value.physicalAddress ≠ .APARA_ENGINE) :
    ∃ s₁ k', s.accept P j q = some s₁ ∧ Stage P (s₁.othersPhase0 P) true k' ∧
      Granted s (s₁.othersPhase0 P) j q := by
  have hunreached : s.unreached = none := by
    unfold unreached
    rw [hctl]
  unfold accept
  dsimp only
  split
  · -- an address that maps to nothing is answered by the bridge
    let noData : ResponseToken n := { q with value := { readData := 0, mae := false } }
    let s₁ : BridgeSystem n τ :=
      { s.grant P j q (.countdown P.delay noData) with reached := s.reached ++ [q] }
    obtain ⟨hstage, hnone⟩ := Stage.countdown (s := s₁.othersPhase0 P) P.delay
      rfl fun port => (hquiet port).phase0
    refine ⟨s₁, _, rfl, hstage, granted_grant hunreached hpull rfl hquiet (tag_countdown ..) ?_⟩
    rw [hnone]
    exact append_nil _
  · next hmapped =>
    obtain ⟨port, hport⟩ : ∃ port,
        s.portOf (decode P.layout q.value.physicalAddress) = some port := by
      revert htarget hmapped
      cases decode P.layout q.value.physicalAddress with
      | MAIN_MEMORY => exact fun _ _ => ⟨_, rfl⟩
      | PERIPHERAL_DEVICES => exact fun _ _ => ⟨_, rfl⟩
      | APARA_ENGINE => exact fun htarget => absurd rfl htarget
      | UNMAPPED => exact fun _ hmapped => absurd rfl hmapped
    rw [hport, map_some]
    split
    · exact ⟨_, _, rfl, .sending (.inl rfl) fun port => (hquiet port).phase0,
        granted_grant hunreached hpull rfl hquiet rfl rfl⟩
    · exact ⟨_, _, rfl, .sending (.inr rfl) fun port => (hquiet port).phase0,
        granted_grant hunreached hpull rfl hquiet rfl rfl⟩

/-- Phase 0 of a waiting bridge: a request is granted, or there is none. -/
theorem Stage.phase0_idle (h : Stage P s false 0)
    (htarget : ∀ i q, (s.cores i).requestNet = some q →
      decode P.layout q.value.physicalAddress ≠ .APARA_ENGINE) :
    (∃ s' k' j q, s.phase0 P = some s' ∧ Stage P s' true k' ∧ Granted s s' j q) ∨
      s.pullNextRequest = none ∧ ∃ s', s.phase0 P = some s' ∧ Stage P s' true 0 ∧
        SameRequest s s' ∧ ∀ i, s'.cores i = corePhase0 (s.cores i) := by
  cases h with
  | idle hctl hquiet =>
    rw [BridgeSystem.phase0, bridgePhase0, hctl]
    cases hpull : s.pullNextRequest with
    | none =>
      have hunreached : s.unreached = none := by
        unfold unreached
        rw [hctl]
      have hunreached' : (s.othersPhase0 P).unreached = none := by
        unfold unreached
        rw [show (s.othersPhase0 P).bridge.control = _ from hctl]
      refine .inr ⟨rfl, s.othersPhase0 P, rfl, .idle hctl fun port => (hquiet port).phase0,
        ⟨⟨⟨rfl, rfl⟩, rfl, ?_⟩, rfl⟩, fun _ => rfl⟩
      rw [forwarded, forwarded, reached_othersPhase0_of_quiet hquiet, hunreached, hunreached']
    | some y =>
      obtain ⟨j, q⟩ := y
      obtain ⟨s₁, k', haccept, hstage, hgranted⟩ := accept_spec hctl hquiet hpull
        (htarget j q (choice_of_pullNextRequest hpull).1)
      refine .inl ⟨s₁.othersPhase0 P, k', j, q, ?_, hstage, hgranted⟩
      dsimp only
      rw [haccept]
      rfl

/-- No request is for an APARA engine, which the system does not have, and a locked request is
followed by one more, which is not locked. -/
structure Workload.Disciplined (P : Parameters τ) (w : Workload n) : Prop where
  target : ∀ i k,
    decode P.layout (w.request i k).physicalAddress ≠ .APARA_ENGINE
  partner : ∀ i k, (w.request i k).lock = true →
    (w.request i (k + 1)).lock = false ∧ (w.gap i (k + 1)).isSome = true

theorem Workload.Disciplined.of_follows (hw : w.Disciplined P)
    (h : Follows w i k) : (w.request i k).lock = false ∧ (w.gap i k).isSome = true := by
  obtain ⟨j, rfl, hlock⟩ := h
  exact hw.partner i j hlock

/-- A waiting request is the next one of its core. -/
theorem Sound.request_eq (h : Sound P w s false k) (hq : (s.cores i).requestNet = some q) :
    q = ⟨i, (s.cores i).received.length, w.request i (s.cores i).received.length⟩ ∧
      (s.heldBy i = true → Follows w i (s.cores i).received.length) := by
  obtain ⟨heq, hheld, -⟩ := (h.cores i).of_request hq
  exact ⟨heq, hheld⟩

/-- The partner of a locked request releases the lock. -/
theorem Sound.lock_of_granted (h : Sound P w s false k) (hw : w.Disciplined P)
    (hq : (s.cores j).requestNet = some q)
    (hlocked : s.bridge.busLocked = true) (hj : j = s.bridge.granted) : q.value.lock = false := by
  obtain ⟨rfl, hfollows⟩ := h.request_eq hq
  refine (hw.of_follows (hfollows ?_)).1
  rw [heldBy, hlocked, hj, beq_self_eq_true]
  rfl

/-- Phase 0 when a request is granted. -/
theorem Sound.phase0_granted (h : Sound P w s false k) (hw : w.Disciplined P)
    (hidle : s.bridge.control = .waiting) (hstage : Stage P s' true k') (hg : Granted s s' j q) :
    Sound P w s' true k' := by
  have hserving (i : Fin (n + 1)) : s.serving i = none := by
    rw [serving, hidle]
    rfl
  have hheld : s'.heldBy j = q.value.lock := by
    rw [heldBy, hg.busLocked, hg.granted, beq_self_eq_true, Bool.and_true]
  obtain ⟨heq, -, hphase⟩ := (h.cores j).of_request hg.request
  have hcore : q.core = j := by rw [heq]
  have hserving' : s'.serving j = some q.number := by
    rw [serving, hg.tag, hcore]
    exact if_pos rfl
  have hj := hphase.phase0 (h.received j)
  refine ⟨hstage, ?_, fun i => ?_, fun i => ?_, ?_, ?_, fun i hi => ?_, fun _ i => ?_⟩
  · rw [hg.tag, hg.granted]
    rintro t ht
    cases ht
    exact hcore
  · by_cases hi : i = j
    · subst hi
      rw [hg.own, hserving', hheld]
      exact hj.1
    · have hne : s'.heldBy i = false := by
        rw [heldBy, hg.granted, beq_eq_false_iff_ne.2 (Ne.symm hi), Bool.and_false]
      have hnot : s'.serving i = none := by
        rw [serving, hg.tag, hcore]
        exact if_neg (Ne.symm hi)
      have hfree : CorePhase w i (s.cores i) false none :=
        (hserving i ▸ h.cores i).congr rfl rfl rfl rfl rfl nofun
      rw [hg.others i hi, hne, hnot]
      exact (hfree.phase0 (h.received i)).1
  · by_cases hi : i = j
    · subst hi
      rw [hg.own]
      exact hj.2.1
    · rw [hg.others i hi]
      exact ((h.cores i).phase0 (h.received i)).2.1
  · rw [hg.forwarded]
    refine isChain_append.2 ⟨h.chain, isChain_singleton _, fun a ha b hb hlock => ?_⟩
    cases hb
    obtain ⟨hlast, hgranted⟩ := h.last a ha
    rcases hg.choice with ⟨-, hsame⟩ | ⟨hfree, -⟩
    · rw [hcore, hsame, hgranted]
    · rw [hfree] at hlast
      rw [hlast] at hlock
      cases hlock
  · rw [hg.forwarded, getLast?_concat, hg.busLocked, hg.granted]
    rintro a ha
    cases ha
    exact ⟨rfl, hcore⟩
  · by_cases hij : i = j
    · subst hij
      rw [hg.own, (corePhase0_spec _).1] at hi
      cases hi
    · rw [hg.others i hij, (corePhase0_spec _).1] at hi
      rw [hg.others i hij, (corePhase0_spec _).2.1, hg.grants, hg.granted, hg.busLocked]
      obtain ⟨harrived, hovertaken⟩ := h.overtaken i hi
      refine ⟨?_, ?_⟩
      · rw [length_append]
        omega
      · rw [drop_append_of_le_length harrived]
        rcases hg.choice with ⟨hlocked, hsame⟩ | ⟨hfree, hnext⟩
        · rw [h.lock_of_granted hw hg.request hlocked hsame, hsame, hlocked]
          rw [hlocked] at hovertaken
          exact hovertaken.release fun hc => hij (hc.symm.trans hsame.symm)
        · rw [hfree] at hovertaken ⊢
          exact hovertaken.next hnext hi (Ne.symm hij) _
  · by_cases hi : i = j
    · subst hi
      rw [hg.own]
      exact (corePhase0_spec _).2.2
    · rw [hg.others i hi]
      exact (corePhase0_spec _).2.2

/-! ## Phase 1 -/

/-- Phase 1 of the cores, after the invalidates if there are any. -/
def CoresStep (w : Workload n) (s s' : BridgeSystem n τ) : Prop :=
  ∀ i, ∃ net, s'.cores i =
    corePhase1 w s.grants.length i { s.cores i with invalidateNet := net }

/-- The response is on the net of its core. -/
structure Replied (w : Workload n) (s s' : BridgeSystem n τ)
    (r : ResponseToken n) : Prop extends SameGrants s s' where
  control : s.bridge.control = .sendCoreResponse r
  control' : s'.bridge.control = .waiting
  own : s'.cores s.bridge.granted = corePhase1 w s.grants.length s.bridge.granted
    { s.cores s.bridge.granted with responseNet := some r }
  others : ∀ i ≠ s.bridge.granted, s'.cores i = corePhase1 w s.grants.length i (s.cores i)

/-- What core `j` sees of a transaction: it is served, or its response is there. -/
def Attended (s : BridgeSystem n τ) (j : Fin (n + 1)) (m : Nat) : Prop :=
  s.serving j = some m ∨
    (s.cores j).responseNet.isSome = true ∧ (s.cores j).received.length = m

/-- What phase 1 leaves. -/
structure Phase1 (s s' : BridgeSystem n τ) : Prop extends SameBus s s' where
  requestNet : ∀ i, (s.cores i).requestNet.isSome = true →
    (s'.cores i).requestNet = (s.cores i).requestNet
  received : ∀ i, (s'.cores i).received = (s.cores i).received
  attended : ∀ j m, s.serving j = some m → s'.Attended j m

theorem CorePhase.requestNet_phase1
    (h : CorePhase w i c held served) (grants : Nat) (hsome : c.requestNet.isSome = true) :
    (corePhase1 w grants i c).requestNet = c.requestNet := by
  obtain ⟨-, -, ⟨hsame, -⟩ | ⟨hnone, -⟩⟩ := h.phase1 grants
  · exact hsame
  · rw [hnone] at hsome
    cases hsome

section

variable (h : Sound P w s true k)
include h

/-- Phase 1, whatever the cores get: a request that waits waited before, or is new. -/
theorem Sound.phase1_of_cores (hstage : Stage P s' false k)
    (howner : ∀ t ∈ tag s'.bridge.control, t.1 = s.bridge.granted) (hsame : SameGrants s s')
    (hcores : ∀ i, ∃ c, s'.cores i = corePhase1 w s.grants.length i c ∧ CorePhase w i c (s.heldBy
      i) (s'.serving i) ∧ c.requestNet = (s.cores i).requestNet ∧ c.arrived = (s.cores i).arrived ∧
      c.received = (s.cores i).received) (hattended : ∀ j m, s.serving j = some m →
        s'.Attended j m) :
    Sound P w s' false k ∧ Phase1 s s' := by
  obtain ⟨hbus, hgrants, hforwarded⟩ := hsame
  have ⟨hgranted, hlocked⟩ := hbus
  have hreceived (i : Fin (n + 1)) : (s'.cores i).received = (s.cores i).received := by
    obtain ⟨c, hc, hphase, -, -, hreceived⟩ := hcores i
    rw [hc, (hphase.phase1 _).2.1, hreceived]
  refine ⟨⟨hstage, hgranted ▸ howner, fun i => ?_, fun i => ?_, ?_, ?_, fun i hi => ?_, nofun⟩,
    hbus, fun i hi => ?_, hreceived, hattended⟩
  · obtain ⟨c, hc, hphase, -⟩ := hcores i
    rw [hc, heldBy, hlocked, hgranted]
    exact (hphase.phase1 _).1
  · rw [ReceivedInOrder, hreceived]
    exact h.received i
  · rw [hforwarded]
    exact h.chain
  · rw [hforwarded, hlocked, hgranted]
    exact h.last
  · obtain ⟨c, hc, hphase, hreq, harrived, -⟩ := hcores i
    rw [hc] at hi
    rw [hc, hgrants, hgranted, hlocked]
    obtain ⟨-, -, ⟨hsame, hsame'⟩ | ⟨-, hnew⟩⟩ := hphase.phase1 s.grants.length
    · rw [hsame, hreq] at hi
      rw [hsame', harrived]
      exact h.overtaken i hi
    · rw [hnew, drop_length]
      exact ⟨le_rfl, .nil ..⟩
  · obtain ⟨c, hc, hphase, hreq, -⟩ := hcores i
    rw [hc, hphase.requestNet_phase1 _ (hreq ▸ hi), hreq]

/-- Phase 1 of a transaction that goes on. -/
theorem Sound.phase1_same (hstage : Stage P s' false k) (hsame : SameRequest s s')
    (hcores : CoresStep w s s') : Sound P w s' false k ∧ Phase1 s s' := by
  refine h.phase1_of_cores hstage (hsame.tag ▸ h.owner) hsame.toSameGrants (fun i => ?_)
    fun j m hm => .inl ((hsame.serving j).trans hm)
  obtain ⟨net, hnet⟩ := hcores i
  exact ⟨_, hnet, hsame.serving i ▸ (h.cores i).invalidate net, rfl, rfl, rfl⟩

/-- The core that the bridge replies to is being served. -/
theorem Sound.serving_of_reply (hctl : s.bridge.control = .sendCoreResponse r) :
    r.core = s.bridge.granted ∧ s.serving s.bridge.granted = some r.number ∧
      ∀ i ≠ s.bridge.granted, s.serving i = none := by
  have htag : tag s.bridge.control = some (r.core, r.number) := by
    rw [hctl]
    rfl
  have hcore : r.core = s.bridge.granted := h.owner _ htag
  refine ⟨hcore, ?_, fun i hi => ?_⟩
  · rw [serving, htag, hcore]
    exact if_pos rfl
  · rw [serving, htag, hcore]
    exact if_neg (Ne.symm hi)

/-- Phase 1 that ends a transaction. -/
theorem Sound.phase1_reply (hstage : Stage P s' false k) (hr : Replied w s s' r) :
    Sound P w s' false k ∧ Phase1 s s' := by
  obtain ⟨hcore, hserved, hothers⟩ := h.serving_of_reply hr.control
  have hphase := h.cores s.bridge.granted
  have howner : ∀ t ∈ tag s'.bridge.control, t.1 = s.bridge.granted := by
    rw [hr.control']
    exact fun t ht => nomatch ht
  refine h.phase1_of_cores hstage howner hr.toSameGrants (fun i => ?_) fun j m hm => .inr ?_
  · rw [serving, hr.control']
    by_cases hi : i = s.bridge.granted
    · subst hi
      exact ⟨_, hr.own, (hphase.returned hcore hserved).2, rfl, rfl, rfl⟩
    · have hother := h.cores i
      rw [hothers i hi] at hother
      exact ⟨_, hr.others i hi, hother, rfl, rfl, rfl⟩
  · by_cases hj : j = s.bridge.granted
    · subst hj
      rw [hm] at hphase
      cases hphase with
      | served hctl =>
        have hkept : s'.cores s.bridge.granted =
            { s.cores s.bridge.granted with responseNet := some r } := by
          rw [hr.own]
          unfold corePhase1
          dsimp only
          rw [hctl]
        rw [hkept]
        exact ⟨rfl, rfl⟩
    · rw [hothers j hj] at hm
      cases hm

end

/-- The targets in phase 1, when no response of theirs is pushed. -/
theorem targetPhase1_of_not_sendResponse (h : ∀ r, m.control ≠ .sendResponse r) :
    targetPhase1 m = m := by
  unfold targetPhase1
  split
  · next r hr => exact absurd hr (h r)
  · rfl
  · rfl

/-- The unreached request stays where no target pulls or is given one. -/
theorem unreached_othersPhase1 (w : Workload n) (s : BridgeSystem n τ) :
    (s.othersPhase1 w).unreached = s.unreached := by
  have hnet (port : TargetPort) :
      ((s.othersPhase1 w).targets port).requestNet = (s.targets port).requestNet := by
    change (targetPhase1 (s.targets port)).requestNet = _
    unfold targetPhase1
    split
    · split <;> rfl
    · rfl
    · rfl
  unfold unreached
  rw [show (s.othersPhase1 w).bridge.control = s.bridge.control from rfl]
  cases s.bridge.control with
  | getTargetResponse port q => exact hnet port
  | _ => rfl

theorem SameRequest.othersPhase1 (w : Workload n) (s : BridgeSystem n τ) :
    SameRequest s (s.othersPhase1 w) := by
  refine ⟨⟨⟨rfl, rfl⟩, rfl, ?_⟩, rfl⟩
  rw [forwarded, forwarded, unreached_othersPhase1]
  rfl

/-- A phase 1 in which the bridge pushes nothing. -/
theorem Sound.phase1_quiet (h : Sound P w s true k) (hbridge : s.bridgePhase1 P = some s)
    (hstage : Stage P (s.othersPhase1 w) false k) :
    ∃ s', s.phase1 P w = some s' ∧ Sound P w s' false k ∧ Phase1 s s' := by
  have hcores : CoresStep w s (s.othersPhase1 w) := fun i => ⟨_, rfl⟩
  refine ⟨s.othersPhase1 w, ?_, h.phase1_same hstage (.othersPhase1 w s) hcores⟩
  rw [phase1, hbridge]
  rfl

/-- The request is pushed to its target. -/
theorem stage_pushTargetRequest (port : TargetPort) (q : RequestToken n)
    (hquiet : ∀ port, Quiet (s.targets port)) :
    Stage P ((s.pushTargetRequest port q).othersPhase1 w) false
        (P.targetDelay port + 1 + (P.delay + 1)) ∧
      ((s.pushTargetRequest port q).othersPhase1 w).unreached = some q := by
  have hpush : s.pushTargetRequest port q =
      { s with
        bridge := { s.bridge with control := .getTargetResponse port q }
        targets := update s.targets port
          { s.targets port with requestNet := some q } } := by
    unfold pushTargetRequest
    rw [(hquiet port).requestNet]
  have htarget : ((s.pushTargetRequest port q).othersPhase1 w).targets port =
      { s.targets port with requestNet := some q } := by
    rw [hpush]
    change targetPhase1 (update s.targets port _ port) = _
    rw [update_self]
    refine targetPhase1_of_not_sendResponse fun r hr => ?_
    rw [show _ = _ from (hquiet port).control] at hr
    cases hr
  have hother (port' : TargetPort) (hne : port' ≠ port) :
      Quiet (((s.pushTargetRequest port q).othersPhase1 w).targets port') := by
    rw [hpush]
    change Quiet (targetPhase1 (update s.targets port _ port'))
    rw [update_of_ne hne]
    exact (hquiet port').phase1
  have hctl : ((s.pushTargetRequest port q).othersPhase1 w).bridge.control =
      .getTargetResponse port q := by
    rw [hpush]
    rfl
  constructor
  · refine .requested ⟨?_, hctl, hother⟩
    rw [htarget]
    exact ⟨(hquiet port).control, rfl, (hquiet port).responseNet⟩
  · unfold unreached
    rw [hctl]
    dsimp only
    rw [htarget]

/-- What pushing a request leaves. -/
theorem pushTargetRequest_eq (s : BridgeSystem n τ) (port : TargetPort) (q : RequestToken n) :
    SameBus s (s.pushTargetRequest port q) ∧
      (s.pushTargetRequest port q).grants = s.grants ∧
      (s.pushTargetRequest port q).reached = s.reached ∧
      (s.pushTargetRequest port q).cores = s.cores ∧
      tag (s.pushTargetRequest port q).bridge.control = some (q.core, q.number) := by
  unfold pushTargetRequest
  split <;> exact ⟨⟨rfl, rfl⟩, rfl, rfl, rfl, rfl⟩

/-- Nothing changes but the nets of the invalidates. -/
structure Invalidated (s s₁ : BridgeSystem n τ) : Prop extends SameBus s s₁ where
  grants : s₁.grants = s.grants
  reached : s₁.reached = s.reached
  targets : s₁.targets = s.targets
  cores : ∀ i, ∃ net, s₁.cores i = { s.cores i with invalidateNet := net }

/-- The invalidates find room. -/
theorem exists_sendInvalidates (h : ∀ i, (s.cores i).invalidateNet = none) (pa : BitVec 64) :
    ∃ s₁, s.sendInvalidates P pa = some s₁ ∧ Invalidated s s₁ := by
  unfold sendInvalidates
  rw [if_neg]
  · refine ⟨_, rfl, ⟨rfl, rfl⟩, rfl, rfl, rfl, fun i => ?_⟩
    dsimp only
    split
    · exact ⟨_, rfl⟩
    · exact ⟨_, rfl⟩
  · rintro ⟨c, -, hc⟩
    rw [h c] at hc
    cases hc

/-- A phase 1 in which the bridge pushes a request, after any invalidates. -/
theorem Sound.phase1_push (h : Sound P w s true (P.targetDelay port + 1 + (P.delay + 1)))
    (htag : tag s.bridge.control = some (q.core, q.number)) (hunreached : s.unreached = some q)
    (hbridge : s.bridgePhase1 P = some (s₁.pushTargetRequest port q))
    (hquiet : ∀ port, Quiet (s.targets port)) (hs₁ : Invalidated s s₁) :
    ∃ s', s.phase1 P w = some s' ∧
      Sound P w s' false (P.targetDelay port + 1 + (P.delay + 1)) ∧ Phase1 s s' := by
  obtain ⟨hstage, hunreached'⟩ := stage_pushTargetRequest port q (hs₁.targets ▸ hquiet)
  obtain ⟨hbus, hgr, hre, hc, ht⟩ := pushTargetRequest_eq s₁ port q
  have hsame : SameRequest s ((s₁.pushTargetRequest port q).othersPhase1 w) := by
    refine ⟨⟨hs₁.toSameBus.trans ⟨hbus.1, hbus.2⟩, hgr.trans hs₁.grants, ?_⟩, ht.trans htag.symm⟩
    rw [forwarded, forwarded, hunreached, hunreached']
    exact congrArg (· ++ [q]) (hre.trans hs₁.reached)
  have hcores' : CoresStep w s ((s₁.pushTargetRequest port q).othersPhase1 w) := by
    intro i
    obtain ⟨net, hnet⟩ := hs₁.cores i
    refine ⟨net, ?_⟩
    change corePhase1 w _ i ((s₁.pushTargetRequest port q).cores i) = _
    rw [hgr, hs₁.grants, hc, hnet]
  refine ⟨_, ?_, h.phase1_same hstage hsame hcores'⟩
  rw [phase1, hbridge]
  rfl

/-- Phase 1 ends in a cycle's end, whatever the stage. -/
theorem Sound.phase1 (h : Sound P w s true k) :
    ∃ s', s.phase1 P w = some s' ∧ Sound P w s' false k ∧ Phase1 s s' := by
  have hstage := h.stage
  cases hstage with
  | idle hctl hquiet =>
    refine h.phase1_quiet ?_ (.idle hctl fun port => (hquiet port).phase1)
    rw [bridgePhase1, hctl]
  | @sending port q hctl hquiet =>
    rcases hctl with hctl | hctl
    · obtain ⟨s₁, hsent, hs₁⟩ :=
        exists_sendInvalidates (h.invalidateNet rfl) q.value.physicalAddress
      refine h.phase1_push (by rw [hctl]; rfl) (by rw [unreached, hctl]) ?_ hquiet hs₁
      rw [bridgePhase1, hctl]
      dsimp only
      rw [hsent]
      rfl
    · refine h.phase1_push (by rw [hctl]; rfl) (by rw [unreached, hctl]) ?_ hquiet
        ⟨⟨rfl, rfl⟩, rfl, rfl, rfl, fun i => ⟨_, rfl⟩⟩
      rw [bridgePhase1, hctl]
  | @serving _ port q k' r hawaits htag =>
    have hsame : (s.othersPhase1 w).targets port = s.targets port := by
      refine targetPhase1_of_not_sendResponse fun r' hr => ?_
      rw [hawaits.control] at hr
      cases hr
    refine h.phase1_quiet ?_ (.serving ⟨?_, hawaits.bridge, fun port' hne =>
      (hawaits.quiet port' hne).phase1⟩ htag)
    · rw [bridgePhase1, hawaits.bridge]
    · rw [hsame]
      exact hawaits.toTargetAt
  | @responding port q r hawaits htag =>
    have hpushed : (s.othersPhase1 w).targets port =
        { s.targets port with control := .getRequest, responseNet := some r } := by
      change targetPhase1 (s.targets port) = _
      unfold targetPhase1
      rw [hawaits.control]
      rw [hawaits.responseNet]
    refine h.phase1_quiet ?_ (.answered ⟨?_, hawaits.bridge, fun port' hne =>
      (hawaits.quiet port' hne).phase1⟩ htag)
    · rw [bridgePhase1, hawaits.bridge]
    · rw [hpushed]
      exact ⟨rfl, hawaits.requestNet, rfl⟩
  | returning hctl hquiet =>
    refine h.phase1_quiet ?_ (.returning hctl fun port => (hquiet port).phase1)
    rw [bridgePhase1, hctl]
  | @replying r hctl hquiet =>
    obtain ⟨hcore, hserved, -⟩ := h.serving_of_reply hctl
    have hresp := ((h.cores s.bridge.granted).returned hcore hserved).1
    let s₁ : BridgeSystem n τ :=
      { s with
        bridge := { s.bridge with control := .waiting }
        cores := update s.cores s.bridge.granted
          { s.cores s.bridge.granted with responseNet := some r } }
    have hr : Replied w s (s₁.othersPhase1 w) r := by
      refine ⟨⟨⟨rfl, rfl⟩, rfl, ?_⟩, hctl, rfl, ?_, fun i hi => ?_⟩
      · rw [forwarded, forwarded, unreached_othersPhase1]
        change s.reached ++ _ = s.reached ++ _
        rw [unreached, unreached, hctl]
      · exact congrArg (corePhase1 w _ _) (update_self ..)
      · exact congrArg (corePhase1 w _ _) (update_of_ne hi ..)
    refine ⟨s₁.othersPhase1 w, ?_,
      h.phase1_reply (.idle rfl fun port => (hquiet port).phase1) hr⟩
    rw [BridgeSystem.phase1, bridgePhase1, hctl]
    rw [hresp]
    rfl

/-! ## Cycles -/

/-- The received responses of the cores, after a cycle. -/
def Receives (s s' : BridgeSystem n τ) : Prop :=
  ∀ i, (s'.cores i).received = (corePhase0 (s.cores i)).received

/-- A cycle of a transaction under way. -/
theorem Sound.cycle_busy (h : Sound P w s false (k + 1)) :
    ∃ s', s.cycle P w = some s' ∧ Sound P w s' false k ∧ Receives s s' ∧
      SameBus s s' ∧
      (∀ i, (s.cores i).requestNet.isSome = true →
        (s'.cores i).requestNet = (s.cores i).requestNet) ∧
      ∀ j m, s.serving j = some m → s'.Attended j m := by
  obtain ⟨s₁, hphase0, hstage, hsame, hcores⟩ := h.stage.phase0
  obtain ⟨s', hphase1, hsound, h1⟩ := (h.phase0_same hstage hsame hcores).phase1
  refine ⟨s', ?_, hsound, fun i => ?_, hsame.toSameBus.trans h1.toSameBus, fun i hi => ?_,
    fun j m hm => h1.attended j m ?_⟩
  · rw [cycle, hphase0]
    exact hphase1
  · rw [h1.received, hcores]
  · have hnet : (s₁.cores i).requestNet = (s.cores i).requestNet := by
      rw [hcores, (corePhase0_spec _).1]
    exact (h1.requestNet i (hnet ▸ hi)).trans hnet
  · rw [hsame.serving]
    exact hm

theorem Sound.control_of_idle (h : Sound P w s false 0) : s.bridge.control = .waiting := by
  have hstage := h.stage
  cases hstage with
  | idle hctl => exact hctl

theorem received_corePhase0_taken (c : CorePort n) :
    (corePhase0 { c with requestNet := none }).received = (corePhase0 c).received := by
  unfold corePhase0
  cases c.control with
  | getResponse => cases c.responseNet <;> rfl
  | _ => rfl

/-- A cycle in which a request is granted. -/
structure GrantCycle (s s' : BridgeSystem n τ) (j : Fin (n + 1)) (q : RequestToken n) : Prop
    extends Grant s s' j q where
  requestNet : ∀ i ≠ j, (s.cores i).requestNet.isSome = true →
    (s'.cores i).requestNet = (s.cores i).requestNet
  receives : Receives s s'
  attended : s'.Attended j q.number

/-- A cycle of a waiting bridge: a request is granted, or there is none. -/
theorem Sound.cycle_idle (h : Sound P w s false 0) (hw : w.Disciplined P) :
    (∃ s' k' j q, s.cycle P w = some s' ∧ Sound P w s' false k' ∧ GrantCycle s s' j q) ∨
      s.pullNextRequest = none ∧ ∃ s', s.cycle P w = some s' ∧ Sound P w s' false 0 ∧
        SameBus s s' ∧ ∀ i, s'.cores i = corePhase1 w s.grants.length i
          (corePhase0 (s.cores i)) := by
  have hidle := h.control_of_idle
  have htarget (i : Fin (n + 1)) (q : RequestToken n)
      (hq : (s.cores i).requestNet = some q) :
      decode P.layout q.value.physicalAddress ≠ .APARA_ENGINE := by
    rw [(h.request_eq hq).1]
    exact hw.target i _
  rcases h.stage.phase0_idle htarget with
    ⟨s₁, k', j, q, hphase0, hstage, hg⟩ | ⟨hpull, s₁, hphase0, hstage, hsame, hcores⟩
  · obtain ⟨s', hphase1, hsound, h1⟩ := (h.phase0_granted hw hidle hstage hg).phase1
    have hgrant : Grant s s' j q :=
      ⟨hg.request, hg.choice, h1.granted.trans hg.granted, h1.busLocked.trans hg.busLocked⟩
    refine .inl ⟨s', k', j, q, ?_, hsound, hgrant, fun i hi hnet => ?_, fun i => ?_,
      h1.attended j _ ?_⟩
    · rw [cycle, hphase0]
      exact hphase1
    · have hnet' : (s₁.cores i).requestNet = (s.cores i).requestNet := by
        rw [hg.others i hi, (corePhase0_spec _).1]
      exact (h1.requestNet i (hnet' ▸ hnet)).trans hnet'
    · rw [h1.received]
      by_cases hi : i = j
      · subst hi
        rw [hg.own, received_corePhase0_taken]
      · rw [hg.others i hi]
    · rw [serving, hg.tag, (h.request_eq hg.request).1]
      exact if_pos rfl
  · obtain ⟨s', hphase1, hsound, h1⟩ := (h.phase0_same hstage hsame hcores).phase1
    have hwaiting : s₁.bridge.control = .waiting := by
      cases hstage with
      | idle hctl => exact hctl
      | replying hctl =>
        have htag := hsame.tag
        rw [hctl, hidle] at htag
        cases htag
    have hs' : s' = s₁.othersPhase1 w := by
      rw [BridgeSystem.phase1, bridgePhase1, hwaiting] at hphase1
      exact (some.inj hphase1).symm
    refine .inr ⟨hpull, s', ?_, hsound, hsame.toSameBus.trans h1.toSameBus, fun i => ?_⟩
    · rw [cycle, hphase0]
      exact hphase1
    · rw [hs', ← hcores, ← hsame.grants]
      rfl

/-- Every cycle goes well. -/
theorem Sound.exists_cycle (h : Sound P w s false k) (hw : w.Disciplined P) :
    ∃ s' k', s.cycle P w = some s' ∧ Sound P w s' false k' := by
  cases k with
  | succ k =>
    obtain ⟨s', hcycle, hsound, -⟩ := h.cycle_busy
    exact ⟨s', k, hcycle, hsound⟩
  | zero =>
    rcases h.cycle_idle hw with ⟨s', k', -, -, hcycle, hsound, -⟩ | ⟨-, s', hcycle, hsound, -⟩
    · exact ⟨s', k', hcycle, hsound⟩
    · exact ⟨s', 0, hcycle, hsound⟩

theorem sound_initial (P : Parameters τ) (w : Workload n) (x : TargetPort → τ) :
    Sound P w (initial x) false 0 where
  stage := .idle rfl fun _ => ⟨rfl, rfl, rfl⟩
  owner _ ht := nomatch ht
  cores _ := .idle rfl rfl rfl rfl nofun
  received _ := rfl
  chain := .nil
  last _ ha := nomatch ha
  overtaken _ hi := nomatch hi
  invalidateNet := nofun

/-- After any number of cycles. -/
theorem exists_after (hw : w.Disciplined P) (x : TargetPort → τ) (t : Nat) :
    ∃ s k, after P w t (initial x) = some s ∧ Sound P w s false k := by
  induction t with
  | zero => exact ⟨_, 0, rfl, sound_initial P w x⟩
  | succ t ih =>
    obtain ⟨s, k, hs, hsound⟩ := ih
    obtain ⟨s', k', hcycle, hsound'⟩ := hsound.exists_cycle hw
    refine ⟨s', k', ?_, hsound'⟩
    rw [after, Progress.iterate_add, show Progress.iterate (cycle P w) t (initial x) =
      some s from hs,
      bind_some, Progress.iterate, hcycle]
    rfl

/-! ## Progress -/

section Progress

open SparcV8.Progress (Leads)

/-- Core `i` gets the response to its request `m`. -/
def Gets (P : Parameters τ) (w : Workload n) (s : BridgeSystem n τ) (i : Fin (n + 1)) (m : Nat) :
    Prop :=
  Leads (cycle P w) (fun s' => m < (s'.cores i).received.length) s

/-- A response on the net of its core is taken in the next cycle. -/
theorem Sound.gets_of_response (h : Sound P w s false k) (hw : w.Disciplined P)
    (hi : (s.cores i).responseNet.isSome = true) : Gets P w s i (s.cores i).received.length := by
  have hreceived : (corePhase0 (s.cores i)).received.length = (s.cores i).received.length + 1 := by
    have hcore := h.cores i
    generalize s.serving i = served at hcore
    cases hcore with
    | idle _ _ hnone => rw [hnone] at hi; cases hi
    | waiting _ _ hnone => rw [hnone] at hi; cases hi
    | served _ _ hnone => rw [hnone] at hi; cases hi
    | answered hctl _ hresp =>
      unfold corePhase0
      rw [hctl, hresp]
      exact length_append
  have hstep {s' : BridgeSystem n τ} (hcycle : s.cycle P w = some s') (hr : Receives s s') :
      Gets P w s i (s.cores i).received.length := by
    refine .step hcycle (.now ?_)
    rw [hr i, hreceived]
    exact Nat.lt_succ_self _
  cases k with
  | succ k =>
    obtain ⟨s', hcycle, -, hr, -⟩ := h.cycle_busy
    exact hstep hcycle hr
  | zero =>
    rcases h.cycle_idle hw with ⟨s', k', j, q, hcycle, -, hg⟩ | ⟨-, s', hcycle, -, -, hcores⟩
    · exact hstep hcycle hg.receives
    · refine hstep hcycle fun j => ?_
      rw [hcores]
      exact (((h.cores j).phase0 (h.received j)).1.phase1 _).2.1

/-- A core that is served gets its response. -/
theorem Sound.gets_of_attended (h : Sound P w s false k) (hw : w.Disciplined P) {m : Nat}
    (hi : s.Attended i m) : Gets P w s i m := by
  induction k generalizing s with
  | zero =>
    rcases hi with hserving | ⟨hresp, rfl⟩
    · rw [serving, h.control_of_idle] at hserving
      cases hserving
    · exact h.gets_of_response hw hresp
  | succ k ih =>
    rcases hi with hserving | ⟨hresp, rfl⟩
    · obtain ⟨s', hcycle, hsound, -, -, -, hattended⟩ := h.cycle_busy
      exact .step hcycle (ih hsound (hattended i m hserving))
    · exact h.gets_of_response hw hresp

/-- The request of core `i` waits; the bus was granted to `o`, maybe locked. -/
structure Waits (P : Parameters τ) (w : Workload n) (o : Fin (n + 1)) (locked : Bool)
    (i : Fin (n + 1)) (q : RequestToken n) (s : BridgeSystem n τ) : Prop where
  sound : Sound P w s false 0
  granted : s.bridge.granted = o
  busLocked : s.bridge.busLocked = locked
  request : (s.cores i).requestNet = some q

/-- The transaction under way ends. -/
theorem Sound.leads_idle (h : Sound P w s false k) (hq : (s.cores i).requestNet = some q) :
    Leads (cycle P w) (Waits P w s.bridge.granted s.bridge.busLocked i q) s := by
  induction k generalizing s with
  | zero => exact .now ⟨h, rfl, rfl, hq⟩
  | succ k ih =>
    obtain ⟨s', hcycle, hsound, -, hbus, hnet, -⟩ := h.cycle_busy
    have hq' : (s'.cores i).requestNet = some q := by
      rw [hnet i (by rw [hq]; rfl), hq]
    rw [← hbus.granted, ← hbus.busLocked]
    exact .step hcycle (ih hsound hq')

variable {gap : Nat}

/-- A core idle for `cycles` makes its request, or is idle one cycle more. -/
theorem corePhase1_of_idle (hctl : c.control = .idle cycles)
    (hnet : c.requestNet = none) (hgap : w.gap i c.made = some gap) (grants : Nat) :
    (corePhase1 w grants i c).requestNet.isSome = true ∨
      (corePhase1 w grants i c).control = .idle (cycles + 1) ∧
        (corePhase1 w grants i c).made = c.made ∧ cycles < gap := by
  unfold corePhase1 pushRequest
  rw [hctl]
  rw [hgap]
  dsimp only
  split
  · rw [hnet]
    exact .inl rfl
  · next hlt => exact .inr ⟨rfl, rfl, by omega⟩

section Owner

variable {o : Fin (n + 1)} {locked : Bool}

/-- An idle core has nothing on its nets that phase 0 takes. -/
theorem CorePhase.of_idle (h : CorePhase w i c held served) (hctl : c.control = .idle cycles) :
    c.requestNet = none ∧ corePhase0 c = { c with invalidateNet := none } := by
  cases h with
  | idle _ hreq =>
    refine ⟨hreq, ?_⟩
    unfold corePhase0
    rw [hctl]
  | waiting hbusy => rw [hctl] at hbusy; cases hbusy
  | served hbusy => rw [hctl] at hbusy; cases hbusy
  | answered hbusy => rw [hctl] at hbusy; cases hbusy

/-- A cycle in which the bridge, locked, waits for the owner of the lock. -/
theorem Waits.cycle (h : Waits P w o true i q s) (hw : w.Disciplined P)
    (hnone : (s.cores o).requestNet = none) :
    ∃ s', s.cycle P w = some s' ∧ Waits P w o true i q s' ∧
      s'.cores o = corePhase1 w s.grants.length o (corePhase0 (s.cores o)) := by
  rcases h.sound.cycle_idle hw with
    ⟨s', k', j, q', hcycle, -, hg⟩ | ⟨-, s', hcycle, hsound, hbus, hcores⟩
  · rcases hg.choice with ⟨-, hj⟩ | ⟨hfree, -⟩
    · have hreq := hg.request
      rw [hj, h.granted, hnone] at hreq
      cases hreq
    · rw [h.busLocked] at hfree
      cases hfree
  · refine ⟨s', hcycle, ⟨hsound, hbus.granted.trans h.granted, hbus.busLocked.trans h.busLocked,
      ?_⟩, hcores _⟩
    have hphase := ((h.sound.cores i).phase0 (h.sound.received i)).1
    have hnet : (corePhase0 (s.cores i)).requestNet = some q := by
      rw [(corePhase0_spec _).1, h.request]
    rw [hcores i, hphase.requestNet_phase1 _ (by rw [hnet]; rfl), hnet]

/-- The owner of the lock comes back with its next request. -/
def OwnerReturns (P : Parameters τ) (w : Workload n) (o i : Fin (n + 1)) (q : RequestToken n)
    (s : BridgeSystem n τ) : Prop :=
  Waits P w o true i q s ∧ (s.cores o).requestNet.isSome = true

section

variable (h : Waits P w o true i q s) (hw : w.Disciplined P)
  (hctl : (s.cores o).control = .idle cycles) (hgap : w.gap o (s.cores o).made = some gap)
include h hw hctl hgap

/-- A cycle while the owner of the lock is idle. -/
theorem Waits.cycle_of_idle :
    ∃ s', s.cycle P w = some s' ∧ Waits P w o true i q s' ∧
      ((s'.cores o).requestNet.isSome = true ∨ (s'.cores o).control = .idle (cycles + 1) ∧
        (s'.cores o).made = (s.cores o).made ∧ cycles < gap) := by
  obtain ⟨hnone, hkept⟩ := (h.sound.cores o).of_idle hctl
  obtain ⟨s', hcycle, hwaits, howner⟩ := h.cycle hw hnone
  refine ⟨s', hcycle, hwaits, ?_⟩
  rw [howner, hkept]
  exact corePhase1_of_idle (c := { s.cores o with invalidateNet := none }) hctl hnone hgap _

theorem Waits.leads_of_idle (d : Nat) (hd : gap ≤ cycles + d) :
    Leads (BridgeSystem.cycle P w) (OwnerReturns P w o i q) s := by
  induction d generalizing s cycles with
  | zero =>
    obtain ⟨s', hcycle, hwaits, hsome | ⟨-, -, hlt⟩⟩ := h.cycle_of_idle hw hctl hgap
    · exact .step hcycle (.now ⟨hwaits, hsome⟩)
    · omega
  | succ d ih =>
    obtain ⟨s', hcycle, hwaits, hsome | ⟨hidle, hmade, -⟩⟩ := h.cycle_of_idle hw hctl hgap
    · exact .step hcycle (.now ⟨hwaits, hsome⟩)
    · exact .step hcycle (ih hwaits hidle (hmade ▸ hgap) (by omega))

end

theorem Waits.leads_owner (h : Waits P w o true i q s) (hw : w.Disciplined P) :
    Leads (BridgeSystem.cycle P w) (OwnerReturns P w o i q) s := by
  have hheld : s.heldBy o = true := by
    rw [heldBy, h.busLocked, h.granted, beq_self_eq_true]
    rfl
  have hserving : s.serving o = none := by
    rw [serving, h.sound.control_of_idle]
    rfl
  have hcore := h.sound.cores o
  have hphase := (hcore.phase0 (h.sound.received _)).1
  rw [hserving] at hcore hphase
  cases hcore with
  | idle hctl hreq hresp hmade hfollows =>
    obtain ⟨gap, hgap⟩ := isSome_iff_exists.1 (hw.of_follows (hfollows hheld)).2
    exact h.leads_of_idle hw hctl (hmade ▸ hgap) gap (Nat.le_add_left ..)
  | waiting _ hreq => exact .now ⟨h, by rw [hreq]; rfl⟩
  | answered hctl hreq hresp hr hnumber hmade hlock =>
    obtain ⟨s', hcycle, hwaits, howner⟩ := h.cycle hw hreq
    have hidle : (corePhase0 (s.cores o)).control = .idle 0 ∧
        (corePhase0 (s.cores o)).made =
          (s.cores o).received.length + 1 := by
      unfold corePhase0
      rw [hctl, hresp]
      exact ⟨rfl, hmade⟩
    obtain ⟨gap, hgap⟩ := isSome_iff_exists.1 (hw.partner _ _ (hlock hheld)).2
    refine .step hcycle ?_
    rcases corePhase1_of_idle hidle.1 ((corePhase0_spec _).1.trans hreq)
      (hidle.2 ▸ hgap) s.grants.length with hsome | ⟨hlater, hmade', -⟩
    · exact .now ⟨hwaits, by rw [howner]; exact hsome⟩
    · refine hwaits.leads_of_idle hw (by rw [howner]; exact hlater) ?_ gap
        (Nat.le_add_left ..)
      rw [howner, hmade', hidle.2]
      exact hgap

/-- A bound on the grants before the one to core `i`: two for every core in between, less one that a
lock has left. -/
def grantsLeft (s : BridgeSystem n τ) (i : Fin (n + 1)) : Nat :=
  2 * (if s.bridge.granted = i then n + 1 else distance s.bridge.granted i) +
    s.bridge.busLocked.toNat

/-- The request of core `i` is on its net. -/
def Requests (P : Parameters τ) (w : Workload n) (i : Fin (n + 1))
    (q : RequestToken n) (s : BridgeSystem n τ) : Prop :=
  (∃ k, Sound P w s false k) ∧ (s.cores i).requestNet = some q

/-- The bridge has taken the request of core `i`. -/
def Taken (P : Parameters τ) (w : Workload n) (i : Fin (n + 1))
    (q : RequestToken n) (s : BridgeSystem n τ) : Prop :=
  (∃ k, Sound P w s false k) ∧ s.Attended i q.number

/-- A grant is to core `i`, or brings its own nearer. -/
theorem Sound.grantCycle (h : Sound P w s false 0) (hw : w.Disciplined P)
    (hq : (s.cores i).requestNet = some q) (hsound : Sound P w s' false k')
    {q' : RequestToken n} (hg : GrantCycle s s' j q') :
    Taken P w i q s' ∨ Requests P w i q s' ∧ s'.grantsLeft i < s.grantsLeft i := by
  by_cases hj : j = i
  · subst hj
    have heq : q' = q := some.inj (hg.request.symm.trans hq)
    exact .inl ⟨⟨k', hsound⟩, heq ▸ hg.attended⟩
  · have hkept : (s'.cores i).requestNet = some q := by
      rw [hg.requestNet i (Ne.symm hj) (by rw [hq]; rfl), hq]
    refine .inr ⟨⟨⟨k', hsound⟩, hkept⟩, ?_⟩
    have hlock := Bool.toNat_le q'.value.lock
    rw [grantsLeft, grantsLeft, hg.granted, hg.busLocked, if_neg hj]
    rcases hg.choice with ⟨hlocked, hown⟩ | ⟨hfree, hnext⟩
    · rw [h.lock_of_granted hw hg.request hlocked hown, hlocked, ← hown, if_neg hj]
      exact Nat.lt_succ_self _
    · rw [hfree]
      split
      · have hlt := distance_lt j i
        omega
      · next hne =>
        have hlt := distance_next hnext (by rw [hq]; rfl) hne
        omega

/-- With a request to look at, a bridge that waits grants one. -/
theorem Waits.grants (h : Waits P w s₁.bridge.granted s₁.bridge.busLocked i q s)
    (hw : w.Disciplined P) (howner : s₁.bridge.busLocked = true →
      (s.cores s₁.bridge.granted).requestNet.isSome = true) :
    Leads (BridgeSystem.cycle P w)
      (fun s' => Taken P w i q s' ∨ Requests P w i q s' ∧ s'.grantsLeft i < s₁.grantsLeft i) s := by
  have hleft : s.grantsLeft i = s₁.grantsLeft i := by
    rw [grantsLeft, grantsLeft, h.granted, h.busLocked]
  rcases h.sound.cycle_idle hw with ⟨s', k', j, q', hcycle, hsound, hg⟩ | ⟨hpull, -⟩
  · exact .step hcycle (.now (hleft ▸ h.sound.grantCycle hw h.request hsound hg))
  · exfalso
    unfold pullNextRequest at hpull
    rw [h.busLocked, h.granted] at hpull
    split at hpull
    · next hlocked =>
      obtain ⟨q', hq'⟩ := isSome_iff_exists.1 (howner hlocked)
      rw [hq'] at hpull
      cases hpull
    · obtain ⟨j, hj⟩ : ∃ j, next (fun i => (s.cores i).requestNet.isSome)
          s₁.bridge.granted = some j :=
        exists_next (by rw [h.request]; rfl)
      obtain ⟨q', hq'⟩ := isSome_iff_exists.1 (waiting_of_next hj)
      rw [hj, bind_some, hq'] at hpull
      cases hpull

/-- A request that is on its net is taken. -/
theorem Requests.leads (h : Requests P w i q s) (hw : w.Disciplined P) :
    Leads (BridgeSystem.cycle P w) (Taken P w i q) s := by
  refine .of_measure (fun s => s.grantsLeft i) (fun s hs => ?_) h
  obtain ⟨⟨k, hsound⟩, hq⟩ := hs
  refine (hsound.leads_idle hq).bind fun s₁ h₁ => ?_
  by_cases hlocked : s.bridge.busLocked = true
  · rw [hlocked] at h₁
    exact (h₁.leads_owner hw).bind fun s₂ h₂ => (hlocked ▸ h₂.1).grants hw fun _ => h₂.2
  · exact h₁.grants hw fun hc => absurd hc hlocked

end Owner

/-- Every request that has been made gets its response. -/
theorem Sound.gets (h : Sound P w s false k) (hw : w.Disciplined P) {m : Nat}
    (hm : m < (s.cores i).made) : Gets P w s i m := by
  by_cases hreceived : m < (s.cores i).received.length
  · exact .now hreceived
  have hcore := h.cores i
  generalize hserved : s.serving i = served at hcore
  cases hcore with
  | idle _ _ _ hmade => omega
  | waiting _ hreq _ hmade =>
    obtain rfl : m = (s.cores i).received.length := by omega
    refine (Requests.leads ⟨⟨k, h⟩, hreq⟩ hw).bind fun s' hs' => ?_
    obtain ⟨⟨k', hsound⟩, hattended⟩ := hs'
    exact hsound.gets_of_attended hw hattended
  | served _ _ _ hmade =>
    obtain rfl : m = (s.cores i).received.length := by omega
    exact h.gets_of_attended hw (.inl hserved)
  | answered _ _ hresp _ _ hmade =>
    obtain rfl : m = (s.cores i).received.length := by omega
    exact h.gets_of_attended hw (.inr ⟨by rw [hresp]; rfl, rfl⟩)

end Progress

theorem CorePhase.made_eq
    (h : CorePhase w i c held served) :
    c.made = c.received.length ∨ c.made = c.received.length + 1 := by
  cases h with
  | idle _ _ _ hmade => exact .inl hmade
  | waiting _ _ _ hmade => exact .inr hmade
  | served _ _ _ hmade => exact .inr hmade
  | answered _ _ _ _ _ hmade => exact .inr hmade

/-- After any number of cycles, each core has got one response for every request it made, in
order, but for the last one, and gets that later; no request has reached a target between a locked
one and the next of its core; and a core that waits has seen each other core granted once at most,
and a partner of each locked request. -/
theorem requests_answered (hw : w.Disciplined P) (x : TargetPort → τ) (t : Nat) :
    ∃ s, after P w t (initial x) = some s ∧
      (∀ i, (s.cores i).received = (range (s.cores i).received.length).map (fun m => (i, m)) ∧
        ((s.cores i).made = (s.cores i).received.length ∨
          (s.cores i).made = (s.cores i).received.length + 1)) ∧
      (∀ i, ∀ m < (s.cores i).made, ∃ t' s', t ≤ t' ∧ after P w t' (initial x) = some s' ∧
        m < (s'.cores i).received.length) ∧
      s.reached.IsChain (fun a b => a.value.lock = true → b.core = a.core) ∧
      ∀ i, (s.cores i).requestNet.isSome = true →
        let others := s.grants.drop (s.cores i).arrived
        (∀ e ∈ others, e.1 ≠ i) ∧ (others.filter fun e => e.2 == false).length ≤ n ∧
          ∀ j, others.count (j, true) ≤ 1 := by
  obtain ⟨s, k, hs, hsound⟩ := exists_after hw x t
  refine ⟨s, hs, fun i => ⟨hsound.received i, (hsound.cores i).made_eq⟩, fun i m hm => ?_,
    hsound.chain.left_of_append, fun i hi => ?_⟩
  · obtain ⟨t', s', hs', hlt⟩ := hsound.gets hw hm
    refine ⟨t + t', s', Nat.le_add_right .., ?_, hlt⟩
    rw [after, Progress.iterate_add, show Progress.iterate (cycle P w) t (initial x) =
      some s from hs]
    exact hs'
  · have hovertaken := (hsound.overtaken i hi).2
    refine ⟨fun e he => hovertaken.ne he, hovertaken.length_le false, fun j => ?_⟩
    have hnodup := nodup_iff_count_le_one.1 (hovertaken.nodup true).of_map (j, true)
    rwa [count_filter rfl] at hnodup

end BridgeSystem

/-- Two cores that swap the first word of memory, over and over. -/
def swaps : BridgeSystem.Workload 1 where
  request _ k :=
    { accessType := if k % 2 = 0 then .READ else .WRITE
      lock := k % 2 == 0
      physicalAddress := 0
      data := 1
      byteMask := 0x0F }
  gap _ _ := some 0

/-- Main memory, and devices that answer every request with zero. -/
def swappedMemory : BridgeSystem.Parameters MemCore where
  delay := 1
  coherent := true
  snoopFilter := true
  layout := {}
  target
    | .memory => ⟨fun request m => MainMemory.accessAt (request.physicalAddress.setWidth 32)
      request m⟩
    | .devices => ⟨fun _ m => ({ readData := 0, mae := false }, m)⟩
  targetDelay _ := 2
  tick _ m := m

theorem swaps_disciplined : swaps.Disciplined swappedMemory where
  target _ _ := (by decide : decode {} 0 ≠ .APARA_ENGINE)
  partner _ k hk := by
    have heven : k % 2 = 0 := beq_iff_eq.1 hk
    exact ⟨beq_eq_false_iff_ne.2 (by omega), rfl⟩

/-- In 28 cycles both cores have made their first swap, its halves together. -/
theorem swaps_answered :
    let start := BridgeSystem.initial fun _ => ⟨fun _ => 0⟩
    (after swappedMemory swaps 28 start).map
        (fun s => s.reached.map fun a => (a.core, a.value.lock)) =
      some [(0, true), (0, false), (1, true), (1, false)] ∧
    ∃ s, after swappedMemory swaps 28 start = some s ∧
      s.reached.IsChain (fun a b => a.value.lock = true → b.core = a.core) := by
  refine ⟨by decide, ?_⟩
  obtain ⟨s, hs, -, -, hchain, -⟩ := BridgeSystem.requests_answered
    swaps_disciplined (fun _ => ⟨fun _ => 0⟩) 28
  exact ⟨s, hs, hchain⟩

end SparcV8
