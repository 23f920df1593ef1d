import SparcV8.Core.Machine.Transition
import SparcV8.Processor.BitManipulation
import Mathlib.Data.Finset.Card
import Mathlib.Data.Fintype.Basic
import Mathlib.Data.List.Nodup

/-!
# The ticket lock

Cores take tickets from a counter, whose guard byte is set with `LDSTUB`, and wait until their
number is served. Beside the lock stand the cores whose tickets have not been released, in the order
of the tickets, and how many have been released.
-/

namespace SparcV8.TicketLock

open Option List Function

/-- `atomic_fetch_and_add`, the rest of `ticket_lock_acquire`, the lock held, and
`ticket_lock_release`. -/
inductive Pc where
  | idle | ldstub | spin | read | write (old : Word) | unguard (old : Word)
  | wait (ticket : Word) | held | fetch | store (served : Word)
  deriving DecidableEq

/-- The core has set the guard byte. -/
def Pc.guarding : Pc → Bool
  | .read | .write _ | .unguard _ => true
  | _ => false

/-- The ticket of a core that does not have the lock yet. -/
def Pc.ticket : Pc → Option Word
  | .unguard t | .wait t => some t
  | _ => none

def Pc.holding : Pc → Bool
  | .held | .fetch | .store _ => true
  | _ => false

/-- The lock, the cores, and the history of the lock. -/
structure State (n : Nat) where
  guard : BitVec 8
  value : Word
  nowServing : Word
  pc : Fin n → Pc
  queue : List (Fin n)
  released : Nat
  /-- How many tickets came before the core's last one. -/
  number : Fin n → Nat

variable {n : Nat}

def start : State n := ⟨0, 0, 0, fun _ => .idle, [], 0, fun _ => 0⟩

/-- One memory access of core `i`, or its next call. -/
def step (s : State n) (i : Fin n) : State n :=
  match s.pc i with
  | .idle => { s with pc := update s.pc i .ldstub }
  | .ldstub =>
    { s with guard := 0xFF, pc := update s.pc i (if s.guard = 0 then .read else .spin) }
  | .spin => { s with pc := update s.pc i (if s.guard = 0 then .ldstub else .spin) }
  | .read => { s with pc := update s.pc i (.write s.value) }
  | .write old =>
    { s with
      value := old + 1, pc := update s.pc i (.unguard old)
      queue := s.queue ++ [i]
      number := update s.number i (s.released + s.queue.length) }
  | .unguard old => { s with guard := 0, pc := update s.pc i (.wait old) }
  | .wait ticket =>
    { s with pc := update s.pc i (if s.nowServing = ticket then .held else .wait ticket) }
  | .held => { s with pc := update s.pc i .fetch }
  | .fetch => { s with pc := update s.pc i (.store s.nowServing) }
  | .store served =>
    { s with
      nowServing := served + 1, pc := update s.pc i .idle
      queue := s.queue.tail, released := s.released + 1 }

def machine (n : Nat) : Machine (State n) (Fin n) := ⟨fun s i => some (step s i)⟩

/-- Fewer than `2 ^ 32` cores wait with a ticket. -/
def Few (s : State n) : Prop :=
  (Finset.univ.filter fun i => (s.pc i).ticket.isSome = true).card < 2 ^ 32

instance (s : State n) : Decidable (Few s) :=
  inferInstanceAs (Decidable (_ < _))

/-- What holds of a core that is at `p`. -/
structure CoreInv (s : State n) (i : Fin n) (p : Pc) : Prop where
  guard : p.guarding = true → s.guard ≠ 0
  old : ∀ old, p = .write old → old = s.value
  served : ∀ v, p = .store v → v = s.nowServing
  mem : i ∈ s.queue ↔ p.ticket.isSome = true ∨ p.holding = true
  holder : p.holding = true → s.queue.head? = some i
  ticket : ∀ t, p.ticket = some t → t = BitVec.ofNat 32 (s.number i)

/-- What every state of a run satisfies. -/
structure Inv (s : State n) : Prop where
  core : ∀ i, CoreInv s i (s.pc i)
  guardOne : ∀ i j, (s.pc i).guarding = true → (s.pc j).guarding = true → i = j
  value : s.value = BitVec.ofNat 32 (s.released + s.queue.length)
  serving : s.nowServing = BitVec.ofNat 32 s.released
  nodup : s.queue.Nodup
  number : ∀ k i, s.queue[k]? = some i → s.number i = s.released + k

variable {s : State n}
variable {i : Fin n}

/-- A core that holds the lock is the first of the queue. -/
theorem Inv.head_of_holding (h : Inv s) (hi : (s.pc i).holding = true) :
    ∃ rest, s.queue = i :: rest :=
  ⟨_, eq_cons_of_mem_head? ((h.core i).holder hi)⟩

/-- The queue is no longer than the numbers of 32 bits are many. -/
theorem Inv.length_le (h : Inv s) (hfew : Few s) : s.queue.length ≤ 2 ^ 32 := by
  have hsub : s.queue.tail.toFinset ⊆
      Finset.univ.filter fun i => (s.pc i).ticket.isSome = true := by
    intro i hi
    have hmem := (h.core i).mem.mp (mem_of_mem_tail (mem_toFinset.mp hi))
    rcases hmem with hw | hh
    · simpa using hw
    · obtain ⟨rest, hq⟩ := h.head_of_holding hh
      have := h.nodup
      simp_all
  have := Finset.card_le_card hsub
  rw [toFinset_card_of_nodup h.nodup.tail, length_tail] at this
  unfold Few at hfew
  omega

/-- A waiting core finds its number served when no earlier ticket is left. -/
theorem Inv.served_iff (h : Inv s) (hfew : Few s) {t : Word} (ht : (s.pc i).ticket = some t) :
    (s.nowServing = t ↔ s.released = s.number i) ∧
      (s.released = s.number i → s.queue.head? = some i) := by
  obtain ⟨k, hk, hget⟩ := getElem_of_mem ((h.core i).mem.mpr (.inl (by rw [ht]; rfl)))
  have hnum := h.number k i (by rw [getElem?_eq_getElem hk, hget])
  have hlen := h.length_le hfew
  constructor
  · rw [h.serving, (h.core i).ticket t ht, hnum]
    constructor
    · intro heq
      have := congrArg BitVec.toNat heq
      simp only [BitVec.toNat_ofNat] at this
      omega
    · intro heq
      rw [← heq]
  · intro heq
    obtain rfl : k = 0 := by omega
    rw [head?_eq_getElem?, getElem?_eq_getElem hk, hget]

section Moves

variable {p : Pc} (h : Inv s)
include h

/-- Core `i` moves. -/
theorem Inv.moved {s' : State n} (hpc : s'.pc = update s.pc i p) (hown : CoreInv s' i p)
    (hothers : ∀ j ≠ i, CoreInv s' j (s.pc j))
    (hguard : p.guarding = true → ∀ j ≠ i, (s.pc j).guarding = false)
    (hvalue : s'.value = BitVec.ofNat 32 (s'.released + s'.queue.length))
    (hserving : s'.nowServing = BitVec.ofNat 32 s'.released) (hnodup : s'.queue.Nodup)
    (hnumber : ∀ k j, s'.queue[k]? = some j → s'.number j = s'.released + k) : Inv s' := by
  refine ⟨?_, fun j k => ?_, hvalue, hserving, hnodup, hnumber⟩ <;> rw [hpc]
  · exact (forall_update_iff _ _).2 ⟨hown, hothers⟩
  · by_cases hj : j = i
    · by_cases hk : k = i
      · exact fun _ _ => hj.trans hk.symm
      · rw [hj, update_self, update_of_ne hk]
        exact fun hp hc => absurd hc (by rw [hguard hp k hk]; nofun)
    · by_cases hk : k = i
      · rw [hk, update_self, update_of_ne hj]
        exact fun hc hp => absurd hc (by rw [hguard hp j hj]; nofun)
      · rw [update_of_ne hj, update_of_ne hk]
        exact h.guardOne j k

/-- A core moves, and nothing else changes but the guard byte. -/
theorem Inv.goes {g : BitVec 8} (hown : CoreInv { s with guard := g, pc := update s.pc i p } i p)
    (hothers : ∀ j ≠ i, (s.pc j).guarding = true → g ≠ 0)
    (hguard : p.guarding = true → ∀ j ≠ i, (s.pc j).guarding = false) :
    Inv { s with guard := g, pc := update s.pc i p } :=
  h.moved rfl hown (fun j hj => ⟨hothers j hj, (h.core j).old, (h.core j).served, (h.core j).mem,
    (h.core j).holder, (h.core j).ticket⟩) hguard h.value h.serving h.nodup h.number

/-- Only one core has set the guard byte. -/
theorem Inv.others_of_guarding (hi : (s.pc i).guarding = true) (j : Fin n) (hj : j ≠ i) :
    (s.pc j).guarding = false :=
  Bool.eq_false_iff.2 fun hc => hj (h.guardOne j i hc hi)

/-- A core that takes a ticket goes to the end of the queue. -/
theorem Inv.take {old : Word} (hpc : s.pc i = .write old) : Inv (step s i) := by
  have hi := h.core i
  rw [hpc] at hi
  have hnot : i ∉ s.queue := fun hmem => (hi.mem.1 hmem).elim nofun nofun
  have hguarding : (s.pc i).guarding = true := by rw [hpc]; rfl
  have hnumber (k : Nat) (j : Fin n) (hk : (s.queue ++ [i])[k]? = some j) :
      update s.number i (s.released + s.queue.length) j = s.released + k := by
    rcases Nat.lt_or_ge k s.queue.length with hlt | hge
    · rw [getElem?_append_left hlt] at hk
      have hne : j ≠ i := by
        rintro rfl
        exact hnot (mem_of_getElem? hk)
      rw [update_of_ne hne]
      exact h.number k j hk
    · rw [getElem?_append_right hge, getElem?_singleton] at hk
      split at hk
      · cases hk
        rw [update_self]
        omega
      · cases hk
  rw [step, hpc]
  refine h.moved rfl ?own (fun j hj => ?other) (fun _ => h.others_of_guarding hguarding) ?value
    h.serving ?nodup hnumber
  case own =>
    refine ⟨fun _ => hi.guard rfl, nofun, nofun, ?_, nofun, fun t ht => ?_⟩
    · exact iff_of_true (mem_append_right _ (mem_singleton_self i)) (.inl rfl)
    · cases ht
      dsimp only
      rw [update_self, hi.old old rfl, h.value]
  case other =>
    have hc := h.core j
    refine ⟨hc.guard, fun o ho => ?_, hc.served, ?_, fun hh => ?_, fun t ht => ?_⟩
    · have hother := h.others_of_guarding hguarding j hj
      rw [ho] at hother
      cases hother
    · rw [← hc.mem, mem_append, mem_singleton]
      exact or_iff_left hj
    · exact head?_append.trans (by rw [hc.holder hh, some_or])
    · dsimp only
      rw [update_of_ne hj]
      exact hc.ticket t ht
  case value =>
    dsimp only
    rw [hi.old old rfl, h.value, length_append]
    exact (BitVec.ofNat_add _ 1).symm
  case nodup =>
    dsimp only
    rw [← concat_eq_append]
    exact h.nodup.concat hnot

/-- A core that releases the lock leaves the front of the queue. -/
theorem Inv.release {v : Word} (hpc : s.pc i = .store v) : Inv (step s i) := by
  have hi := h.core i
  rw [hpc] at hi
  obtain ⟨rest, hq⟩ := h.head_of_holding (i := i) (by rw [hpc]; rfl)
  obtain ⟨hnot, hnodup⟩ := nodup_cons.mp (hq ▸ h.nodup)
  rw [step, hpc]
  dsimp only
  rw [hq, tail_cons]
  refine h.moved rfl ⟨nofun, nofun, nofun, ?own, nofun, nofun⟩ (fun j hj => ?other) nofun ?value
    ?serving hnodup fun k j hk => ?number
  case own => exact iff_of_false hnot (by rintro (hc | hc) <;> cases hc)
  case other =>
    have hc := h.core j
    have hholding : (s.pc j).holding = false := Bool.eq_false_iff.2 fun hh => by
      have hhead := hc.holder hh
      rw [hq] at hhead
      exact hj (some.inj hhead).symm
    refine ⟨hc.guard, hc.old, fun w hw => ?_, ?_, fun hh => ?_, hc.ticket⟩
    · rw [hw] at hholding
      cases hholding
    · rw [← hc.mem, hq, mem_cons]
      exact (or_iff_right hj).symm
    · rw [hholding] at hh
      cases hh
  case value =>
    dsimp only
    rw [h.value, hq, length_cons]
    congr 1
    omega
  case serving =>
    dsimp only
    rw [hi.served v rfl, h.serving]
    exact (BitVec.ofNat_add _ 1).symm
  case number =>
    dsimp only
    rw [h.number (k + 1) j (by rw [hq]; exact hk)]
    omega

/-- Every step keeps the invariant. -/
theorem Inv.step (hfew : Few s) (i : Fin n) : Inv (step s i) := by
  have hi := h.core i
  have hothers (j : Fin n) (_ : j ≠ i) := (h.core j).guard
  unfold TicketLock.step
  cases hpc : s.pc i with
  | idle =>
    rw [hpc] at hi
    exact h.goes ⟨nofun, nofun, nofun, hi.mem, nofun, nofun⟩ hothers nofun
  | ldstub =>
    rw [hpc] at hi
    have hset : (0xFF : BitVec 8) ≠ 0 := by decide
    dsimp only
    split
    · next hzero =>
      refine h.goes ⟨fun _ => hset, nofun, nofun, hi.mem, nofun, nofun⟩
        (fun _ _ _ => hset) fun _ j _ => Bool.eq_false_iff.2 fun hc => ?_
      exact (h.core j).guard hc hzero
    · exact h.goes ⟨nofun, nofun, nofun, hi.mem, nofun, nofun⟩ (fun _ _ _ => hset) nofun
  | spin =>
    rw [hpc] at hi
    dsimp only
    split <;> exact h.goes ⟨nofun, nofun, nofun, hi.mem, nofun, nofun⟩ hothers nofun
  | read =>
    have hother := h.others_of_guarding (i := i) (by rw [hpc]; rfl)
    rw [hpc] at hi
    refine h.goes ⟨hi.guard, fun old ho => ?_, nofun, hi.mem, nofun, nofun⟩ hothers fun _ => hother
    cases ho
    rfl
  | write old =>
    have htake := h.take hpc
    rwa [TicketLock.step, hpc] at htake
  | unguard old =>
    have hother := h.others_of_guarding (i := i) (by rw [hpc]; rfl)
    rw [hpc] at hi
    refine h.goes ⟨nofun, nofun, nofun, hi.mem, nofun, hi.ticket⟩ (fun j hj hc => ?_) nofun
    rw [hother j hj] at hc
    cases hc
  | wait t =>
    obtain ⟨hserved, hhead⟩ := h.served_iff hfew (i := i) (by rw [hpc]; rfl)
    rw [hpc] at hi
    dsimp only
    split
    · next hnow =>
      exact h.goes ⟨nofun, nofun, nofun, hi.mem.trans or_comm,
        fun _ => hhead (hserved.1 hnow), nofun⟩
        hothers nofun
    · exact h.goes ⟨nofun, nofun, nofun, hi.mem, nofun, hi.ticket⟩ hothers nofun
  | held =>
    rw [hpc] at hi
    exact h.goes ⟨nofun, nofun, nofun, hi.mem, hi.holder, nofun⟩ hothers nofun
  | fetch =>
    rw [hpc] at hi
    refine h.goes ⟨nofun, nofun, fun v hv => ?_, hi.mem, hi.holder, nofun⟩ hothers nofun
    cases hv
    rfl
  | store v =>
    have hrelease := h.release hpc
    rwa [TicketLock.step, hpc] at hrelease

end Moves

theorem inv_start : Inv (start : State n) where
  core _ := ⟨nofun, nofun, nofun, iff_of_false not_mem_nil (by rintro (h | h) <;> cases h), nofun,
    nofun⟩
  guardOne _ _ := nofun
  value := rfl
  serving := rfl
  nodup := .nil
  number _ _ h := nomatch h

/-- While fewer than `2 ^ 32` cores wait, at most one core holds the lock, the queue has the
cores with tickets in the order of their tickets and only its first gets the lock, and a
waiting core gets it once exactly the tickets before its own have been released. -/
theorem ticket_lock_exclusive_and_fair {es : List (Fin n)}
    (hes : (machine n).AllSteps (fun s _ => Few s) es start) (hs : Few s)
    (h : (machine n).run es start = some s) :
    (∀ i j, (s.pc i).holding = true → (s.pc j).holding = true → i = j) ∧
      (∀ i, (s.pc i).holding = true → s.queue.head? = some i) ∧
      (∀ k i, s.queue[k]? = some i → s.number i = s.released + k) ∧
      ∀ i t, s.pc i = .wait t → ((step s i).pc i = .held ↔ s.released = s.number i) := by
  have hinv : Inv s := by
    refine Machine.invariant_allSteps (fun hs hfew h => ?_) hes inv_start h
    cases h
    exact hs.step hfew _
  have hholder (i : Fin n) := (hinv.core i).holder
  refine ⟨fun i j hi hj => ?_, hholder, hinv.number, fun i t hw => ?_⟩
  · exact some.inj ((hholder i hi).symm.trans (hholder j hj))
  · rw [← (hinv.served_iff hs (by rw [hw]; rfl)).1]
    simp [step, hw]

/-- Core `i` takes a ticket and the lock, core `j` a ticket, and core `i` releases. -/
def handover (i j : Fin n) : List (Fin n) := replicate 6 i ++ replicate 6 j ++ replicate 3 i

/-- Then the one ticket before that of core 1 is released, and core 1 gets the lock. -/
theorem second_ticket_served : ∃ s, (machine 2).run (handover 0 1) start = some s ∧
    s.pc 1 = .wait 1 ∧ s.released = 1 ∧ s.number 1 = 1 ∧ (step s 1).pc 1 = .held := by
  have hes : (machine 2).AllSteps (fun s _ => Few s) (handover 0 1) start := by
    decide
  refine ⟨_, rfl, by decide, by decide, by decide, ?_⟩
  exact ((ticket_lock_exclusive_and_fair hes (by decide) rfl).2.2.2 1 1 (by decide)).2 (by decide)

end SparcV8.TicketLock
