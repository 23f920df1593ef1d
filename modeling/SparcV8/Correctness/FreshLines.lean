import SparcV8.Cache.Stepwise

/-!
# Fills and invalidates

A core whose memory others write to, a step at a time. A line that they change is invalidated before
the next request begins, but in any order with the steps of the request in progress. A line read for
a fill is given up when its invalidate arrives in time, and removed when it arrives later.
-/

namespace SparcV8

open L1CachesCore MmuCore Words CacheArray SystemBus Option Set Machine VirtualMemoryRequest

/-! ## Answers to line reads -/

variable {u : MmuCore} {c c' : Words} {W X X' : Set Nat} {r : VirtualMemoryResponse}

section Fetched

variable {dom : Nat → Bool} {invalidated : List (BitVec 64)} {context va : Word}
  {a : CacheArray}

/-- A line read's answer is a copy of the line that the address is mapped to, if that has not been
invalidated since. -/
structure Fetched (dom : Nat → Bool) (u : MmuCore) (c : Words) (W X : Set Nat)
    (invalidated : List (BitVec 64)) (context va : Word) (r : VirtualMemoryResponse) : Prop where
  mmu : u.mmuIsPresent = true
  settled : u.Settled dom c context va W
  physicalAddress_eq : r.physicalAddress = (u.mappedTo dom c context va).physicalAddr
  acc_eq : r.acc = (u.mappedTo dom c context va).acc
  inMemory : ∀ i < 16, dom (16 * (r.physicalAddress.toNat / 64) + i) = true
  copy : r.physicalAddress >>> LOG_LINE_BYTES ∉ invalidated → ∀ tag,
    (Line.mk tag r.acc (r.physicalAddress >>> LOG_LINE_BYTES) r.line).CopyOff
      dom c X

section

variable (h : Fetched dom u c W X invalidated context va r)
include h

/-- Words outside the tables change, and are exceptions from then on. -/
theorem Fetched.of_change (hk : ∀ i ∈ W, Pte.Kept (c.read dom i) (c'.read dom i)) (hX : X ⊆ X')
    (hchanged : ∀ n, c'.read dom n ≠ c.read dom n → n ∈ X') :
    Fetched dom u c' W X' invalidated context va r := by
  have hmapped := h.settled.mappedTo_of_kept rfl hk
  refine ⟨h.mmu, h.settled.of_kept rfl (Subset.refl W) hk, ?_, ?_, h.inMemory, ?_⟩
  · rw [hmapped]
    exact h.physicalAddress_eq
  · rw [hmapped]
    exact h.acc_eq
  · intro hnot tag
    refine (h.copy hnot tag).of_read_eq fun i _ hn => ⟨fun hmem => hn (hX hmem), ?_⟩
    by_contra hne
    exact hn (hchanged _ hne)

theorem Fetched.mono (hX : X ⊆ X') : Fetched dom u c W X' invalidated context va r :=
  h.of_change (fun _ _ => .inl rfl) hX fun _ hn => absurd rfl hn

/-- An invalidate arrives: the words of its line are no exceptions any more. -/
theorem Fetched.of_invalidate (pa : BitVec 64) :
    Fetched dom u c W (X \ lineWords pa)
      (invalidated ++ [pa >>> LOG_LINE_BYTES]) context va r := by
  refine ⟨h.mmu, h.settled, h.physicalAddress_eq, h.acc_eq, h.inMemory, fun hnot tag => ?_⟩
  rw [List.mem_append, not_or, List.mem_singleton] at hnot
  refine (h.copy hnot.1 tag).of_read_eq fun i hi hn => ⟨fun hmem => hn ⟨hmem, ?_⟩, rfl⟩
  exact notMem_lineWords hnot.2 hi

/-- The line is put in, in the place of any other copy. -/
theorem Fetched.exists_installLine (hctx : context.toNat < 256)
    (ha : a.Consistent dom u c W (X ∪ lineWords r.physicalAddress))
    (hnot : r.physicalAddress >>> LOG_LINE_BYTES ∉ invalidated) {request : VirtualMemoryRequest}
    (hva : request.address = va) :
    ∃ a', installLine a request context r = some a' ∧ a'.Consistent dom u c W X := by
  subst hva
  have hunheld (l : Line)
      (hl : (a.invalidatePhysicalLine r.physicalAddress).Holds l) :
      l.physicalLine ≠ r.physicalAddress >>> LOG_LINE_BYTES :=
    ha.unheld_invalidatePhysicalLine hl
  exact ((ha.invalidatePhysicalLine r.physicalAddress).of_unheld hunheld).exists_fill_of_copy
    hctx h.mmu h.physicalAddress_eq h.acc_eq h.settled h.inMemory (h.copy hnot) hunheld

end

end Fetched

namespace SteppedCore

variable {τ : Type} {phys : PhysicalMemory τ} (p : PlainMemory phys) (s : SteppedCore τ)

/-! ## The steps of a run -/

/-- Stores and atomics are of data, and nobody writes the words of the tables. -/
def Admitted : Event τ → Prop
  | .begin r => r.isWrite = true → r.asi = asiUserData ∨ r.asi = asiSupervisorData
  | .serve => s.caches.downstreamRequest.isWrite = true →
      KeepsTables p.dom s.mmu (s.contents p) s.words s.caches.downstreamRequest
  | .change m => ∀ i ∈ s.words,
      Pte.Kept ((s.contents p).read p.dom i) ((p.contents m).read p.dom i)
  | .downstreamDone | .invalidatePhysicalLine _ => True

/-- Stores and atomics go to doubleword addresses, and the MMU updates no entry whose line is in the
data cache. -/
def KeepsCopies : Event τ → Prop
  | .begin r => r.isWrite = true → r.address.toNat % 8 = 0
  | .serve => ¬ updatesHeldEntry p.dom s.mmu (s.contents p) s.caches.dataCache
      s.caches.downstreamRequest
  | .downstreamDone | .change _ | .invalidatePhysicalLine _ => True

/-! ## The invariant -/

/-- The words that copies may differ in, as their lines are to be invalidated. -/
def staleWords : Set Nat := {n | n / 16 ∈ s.outstanding}

/-- The data cache is consistent off a set of words. -/
def Data (X : Set Nat) : Prop :=
  s.caches.dataCache.Consistent p.dom s.mmu (s.contents p) s.words X

/-- The mapping of the address is settled. -/
def MappingSettled : Prop :=
  s.mmu.Settled p.dom (s.contents p) s.caches.context s.caches.request.address s.words

/-- A store that has not hit finds no line, or the MMU will refuse it. -/
def MissOk : Prop :=
  s.caches.request.accessType = .STORE → s.caches.lastHit = true ∨
    s.caches.dataCache.find s.caches.request.address s.caches.context = none ∨
    s.MappingSettled p ∧ permissionFault (s.mapped p).acc.toNat
      (computeAccessType s.caches.request.asi true) ≠ .NONE

/-- The data of a store or an atomic are in memory, and not yet in the cache. -/
structure Written (r : VirtualMemoryResponse) (pa : BitVec 64) : Prop where
  mmu : s.mmu.mmuIsPresent = true
  kind : s.caches.request.isWrite = true
  mae : r.mae = false
  physicalAddress : r.physicalAddress = pa
  valid : r.physicalAddressValid = true
  settled : s.MappingSettled p
  mapped_eq : pa = (s.mapped p).physicalAddr
  hit : s.caches.request.accessType = .STORE → s.caches.lastHit = true ∨
    s.caches.dataCache.find s.caches.request.address s.caches.context = none
  readable : s.caches.request.accessType = .STORE →
    permissionFault (s.mapped p).acc.toNat (computeAccessType s.caches.request.asi false) = .NONE
  cacheable : s.caches.request.accessType = .STORE →
    r.cacheable = ((s.mapped p).cacheable && s.mmu.isCacheableTarget pa)
  data : s.Data p (s.staleWords ∪ lineWords pa)
  copy : ∀ l, s.caches.dataCache.Holds l →
    l.physicalLine = pa >>> LOG_LINE_BYTES →
      (l.write s.caches.request.address (storeData s.caches.request)
        (s.caches.request.byteMask.setWidth 8)).CopyOff p.dom (s.contents p) s.staleWords

/-- The line of a store is read: old copies may be held under other addresses. -/
structure Allocating (pa : BitVec 64) : Prop where
  mmu : s.mmu.mmuIsPresent = true
  kind : s.caches.request.accessType = .STORE
  settled : s.MappingSettled p
  mapped_eq : pa = (s.mapped p).physicalAddr
  readable :
    permissionFault (s.mapped p).acc.toNat (computeAccessType s.caches.request.asi false) = .NONE
  cacheable : ((s.mapped p).cacheable && s.mmu.isCacheableTarget pa) = true
  find : s.caches.dataCache.find s.caches.request.address s.caches.context = none
  data : s.Data p (s.staleWords ∪ lineWords pa)
  unheld : pa >>> LOG_LINE_BYTES ∈ s.caches.invalidatedDuringFill →
    ∀ l, s.caches.dataCache.Holds l → l.physicalLine ≠ pa >>> LOG_LINE_BYTES

/-- The answer to a line read may be put into the cache. -/
def LineFetched (r : VirtualMemoryResponse) : Prop :=
  Fetched p.dom s.mmu (s.contents p) s.words s.staleWords s.caches.invalidatedDuringFill
    s.caches.context s.caches.request.address r

/-- An answer after which the caches have nothing to do. -/
def NothingToDo (r : VirtualMemoryResponse) : Prop :=
  s.caches.request.isWrite = true → r.mae = true ∨
    s.mmu.mmuIsPresent = false ∧ r.cacheable = false ∧ r.physicalAddressValid = false

/-- Where a core is in a request, and what its data cache holds there. -/
inductive Phase : Step → Option VirtualMemoryResponse → Prop
  | idle (hdata : s.Data p s.staleWords) : Phase .DONE none
  | passing (hd : s.caches.downstreamRequest = s.caches.request) (hdata : s.Data p s.staleWords)
      (hmiss : s.MissOk p) : Phase .FORWARD none
  | passed {r : VirtualMemoryResponse} (hdata : s.Data p s.staleWords)
      (hnothing : s.NothingToDo r) :
      Phase .FORWARD (some r)
  | written {r : VirtualMemoryResponse} {pa : BitVec 64} (hwritten : s.Written p r pa) :
      Phase .FORWARD (some r)
  | reading (hd : s.caches.downstreamRequest = lineRequest s.caches.request)
      (hcached : isCachedAsi s.caches.request.asi = true) (hdata : s.Data p s.staleWords) :
      Phase .FILL_FOR_READ none
  | read {r : VirtualMemoryResponse} (hdata : s.Data p s.staleWords)
      (hline : r.mae = false → r.cacheable = true → s.LineFetched p r) :
      Phase .FILL_FOR_READ (some r)
  | allocating {pa : BitVec 64} (hd : s.caches.downstreamRequest = allocateRequest s.caches.request)
      (halloc : s.Allocating p pa) : Phase .FILL_FOR_WRITE none
  | allocated {r : VirtualMemoryResponse} (hmae : r.mae = false) (hcacheable : r.cacheable = true)
      (halloc : s.Allocating p r.physicalAddress) (hline : s.LineFetched p r) :
      Phase .FILL_FOR_WRITE (some r)

/-- Stores and atomics of data, at doubleword addresses. -/
structure OwnWrite (r : VirtualMemoryRequest) : Prop where
  asi : r.asi = asiUserData ∨ r.asi = asiSupervisorData
  aligned : r.address.toNat % 8 = 0

structure Fresh : Prop where
  tracks : TlbTracks p.dom s.mmu (s.contents p) s.words
  settings : Settings p.dom s.mmu
  instruction : s.caches.instructionCache.Consistent p.dom s.mmu (s.contents p) s.words univ
  request : s.caches.step ≠ .DONE → s.caches.request.isWrite = true →
    OwnWrite s.caches.request
  context : s.caches.step ≠ .DONE → s.caches.context = s.mmu.contextRegister
  phase : s.Phase p s.caches.step s.answer

variable {p s}

theorem Phase.of_eq {k : Step} {a : Option VirtualMemoryResponse} (h : s.Phase p k a)
    (hstep : s.caches.step = k) (hanswer : s.answer = a) : s.Phase p s.caches.step s.answer := by
  rw [hstep, hanswer]
  exact h

/-! ## Others change memory -/

variable {pa : BitVec 64}

section Change

variable {m : τ}

theorem staleWords_subset_changed : s.staleWords ⊆ (s.changed p m).staleWords :=
  fun _ hn => .inl hn

theorem mem_staleWords_of_changed {n : Nat}
    (hn : (p.contents m).read p.dom n ≠ (s.contents p).read p.dom n) :
    n ∈ (s.changed p m).staleWords :=
  .inr ⟨n, hn, rfl⟩

variable (hk : Admitted p s (.change m))
include hk

theorem Data.changed (h : s.Data p X) (hX : X ⊆ X') (hX' : (s.changed p m).staleWords ⊆ X') :
    (s.changed p m).Data p X' :=
  h.of_unaffected rfl (Subset.refl _) hk hX
    fun _ hn hnot => absurd (hX' (mem_staleWords_of_changed hn)) hnot

theorem MappingSettled.changed (h : s.MappingSettled p) : (s.changed p m).MappingSettled p :=
  h.of_kept rfl (Subset.refl _) hk

theorem mapped_changed (h : s.MappingSettled p) : (s.changed p m).mapped p = s.mapped p :=
  h.mappedTo_of_kept rfl hk

theorem MissOk.changed (h : s.MissOk p) : (s.changed p m).MissOk p := by
  intro hstore
  rcases h hstore with hhit | hnone | ⟨hsettled, hrefused⟩
  · exact .inl hhit
  · exact .inr (.inl hnone)
  · refine .inr (.inr ⟨hsettled.changed hk, ?_⟩)
    rw [mapped_changed hk hsettled]
    exact hrefused

theorem LineFetched.changed (h : s.LineFetched p r) : (s.changed p m).LineFetched p r :=
  h.of_change hk staleWords_subset_changed fun _ => mem_staleWords_of_changed

theorem Allocating.changed (h : s.Allocating p pa) : (s.changed p m).Allocating p pa := by
  have hmapped := mapped_changed hk h.settled
  refine ⟨h.mmu, h.kind, h.settled.changed hk, ?_, ?_, ?_, h.find, ?_, h.unheld⟩
  · rw [hmapped]
    exact h.mapped_eq
  · rw [hmapped]
    exact h.readable
  · rw [hmapped]
    exact h.cacheable
  · exact h.data.changed hk (union_subset_union_left _ staleWords_subset_changed)
      subset_union_left

theorem Written.changed (h : s.Written p r pa) : (s.changed p m).Written p r pa := by
  have hmapped := mapped_changed hk h.settled
  refine ⟨h.mmu, h.kind, h.mae, h.physicalAddress, h.valid, h.settled.changed hk, ?_, h.hit, ?_,
    ?_, ?_, ?_⟩
  · rw [hmapped]
    exact h.mapped_eq
  · rw [hmapped]
    exact h.readable
  · rw [hmapped]
    exact h.cacheable
  · exact h.data.changed hk (union_subset_union_left _ staleWords_subset_changed)
      subset_union_left
  · intro l hl hline
    refine (h.copy l hl hline).of_read_eq fun i _ hn =>
      ⟨fun hmem => hn (staleWords_subset_changed hmem), ?_⟩
    by_contra hne
    exact hn (mem_staleWords_of_changed hne)

/-- Others may change any words but those of the tables. -/
theorem Fresh.changed (h : Fresh p s) : Fresh p (s.changed p m) := by
  have hdata (hd : s.Data p s.staleWords) : (s.changed p m).Data p (s.changed p m).staleWords :=
    hd.changed hk staleWords_subset_changed (Subset.refl _)
  refine ⟨⟨fun level e he => ?_, h.tracks.disabled⟩, h.settings, ?_, h.request, h.context, ?_⟩
  · exact (h.tracks.agrees level e he).of_kept (Subset.refl _) hk
  · exact h.instruction.of_kept rfl (Subset.refl _) hk
      fun _ _ _ _ _ hX => absurd (mem_univ _) hX
  · have hphase := h.phase
    change (s.changed p m).Phase p s.caches.step s.answer
    generalize s.caches.step = k, s.answer = a at hphase ⊢
    cases hphase with
    | idle hd => exact .idle (hdata hd)
    | passing hreq hd hmiss => exact .passing hreq (hdata hd) (hmiss.changed hk)
    | passed hd hnothing => exact .passed (hdata hd) hnothing
    | written hwritten => exact .written (hwritten.changed hk)
    | reading hreq hcached hd => exact .reading hreq hcached (hdata hd)
    | read hd hline => exact .read (hdata hd) fun hmae hc => (hline hmae hc).changed hk
    | allocating hreq halloc => exact .allocating hreq (halloc.changed hk)
    | allocated hmae hc halloc hline =>
      exact .allocated hmae hc (halloc.changed hk) (hline.changed hk)

end Change

/-! ## Invalidates -/

section Invalidate

variable {q : BitVec 64}

theorem Data.unheld (h : s.Data p X) {l : Line} (hl : (s.invalidated q).caches.dataCache.Holds l) :
    l.physicalLine ≠ q >>> LOG_LINE_BYTES :=
  h.unheld_invalidatePhysicalLine hl

/-- The words of the line are no exceptions any more. -/
theorem Data.invalidated (h : s.Data p X) (hX : X ⊆ X' ∪ lineWords q) :
    (s.invalidated q).Data p X' :=
  ((h.invalidatePhysicalLine q).mono hX).of_unheld fun _ hl => h.unheld hl

theorem staleWords_subset_invalidated :
    s.staleWords ⊆ (s.invalidated q).staleWords ∪ lineWords q := by
  intro n hn
  by_cases hline : n ∈ lineWords q
  · exact .inr hline
  · exact .inl ⟨hn, hline⟩

theorem union_subset_invalidated (pa : BitVec 64) :
    s.staleWords ∪ lineWords pa ⊆
      ((s.invalidated q).staleWords ∪ lineWords pa) ∪ lineWords q := by
  rintro n (hn | hn)
  · exact (staleWords_subset_invalidated hn).elim (fun h => .inl (.inl h)) .inr
  · exact .inl (.inr hn)

theorem MissOk.invalidated (h : s.MissOk p) : (s.invalidated q).MissOk p := by
  intro hstore
  rcases h hstore with hhit | hnone | hrefused
  · exact .inl hhit
  · exact .inr (.inl (shrunk_invalidated.find_eq_none hnone))
  · exact .inr (.inr hrefused)

theorem LineFetched.invalidated (h : s.LineFetched p r)
    (hstep : s.caches.step = .FILL_FOR_READ ∨ s.caches.step = .FILL_FOR_WRITE) :
    (s.invalidated q).LineFetched p r := by
  rw [LineFetched, invalidatedDuringFill_invalidated hstep]
  exact h.of_invalidate q

theorem Allocating.invalidated (h : s.Allocating p pa) (hstep : s.caches.step = .FILL_FOR_WRITE) :
    (s.invalidated q).Allocating p pa := by
  refine ⟨h.mmu, h.kind, h.settled, h.mapped_eq, h.readable, h.cacheable,
    shrunk_invalidated.find_eq_none h.find, h.data.invalidated (union_subset_invalidated pa), ?_⟩
  intro hmem l hl
  rw [invalidatedDuringFill_invalidated (.inr hstep), List.mem_append, List.mem_singleton] at hmem
  rcases hmem with hmem | heq
  · exact h.unheld hmem l (shrunk_invalidated.holds hl)
  · rw [heq]
    exact h.data.unheld hl

theorem Written.invalidated (h : s.Written p r pa) : (s.invalidated q).Written p r pa := by
  refine ⟨h.mmu, h.kind, h.mae, h.physicalAddress, h.valid, h.settled, h.mapped_eq, ?_, h.readable,
    h.cacheable, h.data.invalidated (union_subset_invalidated pa), ?_⟩
  · intro hstore
    exact (h.hit hstore).imp id shrunk_invalidated.find_eq_none
  · intro l hl hline
    refine (h.copy l (shrunk_invalidated.holds hl) hline).of_read_eq fun i hi hn =>
      ⟨fun hmem => hn ⟨hmem, ?_⟩, rfl⟩
    exact notMem_lineWords (h.data.unheld hl) hi

/-- An invalidate may arrive at any time. -/
theorem Fresh.invalidated (h : Fresh p s) (q : BitVec 64) : Fresh p (s.invalidated q) := by
  have hdata (hd : s.Data p s.staleWords) :
      (s.invalidated q).Data p (s.invalidated q).staleWords :=
    hd.invalidated staleWords_subset_invalidated
  refine ⟨h.tracks, h.settings, h.instruction.invalidatePhysicalLine q, h.request, h.context, ?_⟩
  have hphase := h.phase
  change (s.invalidated q).Phase p s.caches.step s.answer
  generalize hstep : s.caches.step = k, s.answer = a at hphase ⊢
  cases hphase with
  | idle hd => exact .idle (hdata hd)
  | passing hreq hd hmiss => exact .passing hreq (hdata hd) hmiss.invalidated
  | passed hd hnothing => exact .passed (hdata hd) hnothing
  | written hwritten => exact .written hwritten.invalidated
  | reading hreq hcached hd => exact .reading hreq hcached (hdata hd)
  | read hd hline => exact .read (hdata hd) fun hmae hc => (hline hmae hc).invalidated (.inl hstep)
  | allocating hreq halloc => exact .allocating hreq (halloc.invalidated hstep)
  | allocated hmae hc halloc hline =>
    exact .allocated hmae hc (halloc.invalidated hstep) (hline.invalidated (.inr hstep))

end Invalidate

/-! ## The caches take an answer -/

section Done

variable {c : L1CachesCore}

/-- The request is served. -/
theorem Fresh.of_done (h : Fresh p s) (hstep : c.step = .DONE)
    (hi : c.instructionCache.Consistent p.dom s.mmu (s.contents p) s.words univ)
    (hd : c.dataCache.Consistent p.dom s.mmu (s.contents p) s.words s.staleWords) :
    Fresh p (s.taken c) :=
  ⟨h.tracks, h.settings, hi, fun hne => absurd hstep hne, fun hne => absurd hstep hne,
    .of_eq (.idle hd) hstep rfl⟩

theorem OwnWrite.isCachedAsi {r : VirtualMemoryRequest} (h : OwnWrite r) :
    isCachedAsi r.asi = true := by
  rcases h.asi with h | h <;> rw [h] <;> decide

theorem Fresh.context_lt (h : Fresh p s) (hstep : s.caches.step ≠ .DONE) :
    s.caches.context.toNat < 256 := by
  rw [h.context hstep]
  exact h.settings.context_lt

/-- Nothing is left to do. -/
theorem Fresh.taken_passed (h : Fresh p s) (hstep : s.caches.step = .FORWARD)
    (hdata : s.Data p s.staleWords) (hnothing : s.NothingToDo r) :
    ∃ c, s.caches.downstreamDone r = some c ∧ Fresh p (s.taken c) := by
  obtain ⟨c, hdone, hc, hi, hd, hreq, hctx, -⟩ := downstreamDone_forward hstep
  have hkeep : Fresh p (s.taken c) := h.of_done hc (hi ▸ h.instruction) (hd ▸ hdata)
  have hsame (hw : s.caches.request.isWrite = true) :
      storeForwarded c r = c ∧ atomicForwarded c r = c := by
    have hown := h.request (by rw [hstep]; decide) hw
    refine forwarded_of_nothing (hreq ▸ hown.isCachedAsi) ?_
    refine (hnothing hw).imp id fun ⟨hp, hcacheable, hvalid⟩ => ⟨?_, hcacheable, hvalid⟩
    rw [hd]
    exact find_of_absent hdata hp _ _
  refine ⟨_, hdone, ?_⟩
  cases hk : s.caches.request.accessType with
  | STORE =>
    rw [(hsame (by rw [isWrite, hk])).1]
    exact hkeep
  | ATOMIC_LS =>
    rw [(hsame (by rw [isWrite, hk])).2]
    exact hkeep
  | _ => exact hkeep

/-- The line of a store is not in the cache, and is to be read. -/
theorem Written.allocating (hw : s.Written p r pa) (hk : s.caches.request.accessType = .STORE)
    (hcacheable : r.cacheable = true)
    (hfind : s.caches.dataCache.find s.caches.request.address s.caches.context = none)
    (hd : c.dataCache = s.caches.dataCache) (hreq : c.request = s.caches.request)
    (hctx : c.context = s.caches.context) (hnone : c.invalidatedDuringFill = []) :
    (s.taken c).Allocating p pa := by
  have hmapped : (s.taken c).mapped p = s.mapped p := by
    unfold mapped taken
    rw [hreq, hctx]
    rfl
  refine ⟨hw.mmu, ?_, ?_, ?_, ?_, ?_, ?_, ?_, ?_⟩
  · exact (congrArg VirtualMemoryRequest.accessType hreq).trans hk
  · unfold MappingSettled taken
    rw [hreq, hctx]
    exact hw.settled
  · rw [hmapped]
    exact hw.mapped_eq
  · rw [hmapped]
    unfold taken
    rw [hreq]
    exact hw.readable hk
  · rw [hmapped]
    exact (hw.cacheable hk).symm.trans hcacheable
  · unfold taken
    rw [hd, hreq, hctx]
    exact hfind
  · unfold Data taken
    rw [hd]
    exact hw.data
  · intro hmem
    unfold taken at hmem
    rw [hnone] at hmem
    cases hmem

/-- The line of the data is written, or removed, or read. -/
theorem Fresh.taken_written (h : Fresh p s) (hstep : s.caches.step = .FORWARD)
    (hw : s.Written p r pa) : ∃ c, s.caches.downstreamDone r = some c ∧ Fresh p (s.taken c) := by
  obtain ⟨c, hdone, hc, hi, hd, hreq, hctx, hhit, -⟩ := downstreamDone_forward hstep
  have hne : s.caches.step ≠ .DONE := by
    rw [hstep]
    decide
  have hasi : isCachedAsi c.request.asi = true := hreq ▸ (h.request hne hw.kind).isCachedAsi
  have hinstruction : c.instructionCache.Consistent p.dom s.mmu (s.contents p) s.words
      univ := hi ▸ h.instruction
  -- the line that is found is the one of the data
  have hfound (l : Line)
      (hfind : s.caches.dataCache.find s.caches.request.address s.caches.context = some l) :
      Fresh p (s.taken { c with
        dataCache := c.dataCache.writeBytes c.request.address c.context
          (storeData c.request) (c.request.byteMask.setWidth 8) }) := by
    obtain ⟨-, hline, -⟩ := hw.data.of_find (h.context_lt hne) hfind
    have hline' : l.physicalLine = pa >>> LOG_LINE_BYTES := by
      rw [hline, hw.mapped_eq]
      rfl
    obtain ⟨⟨i, hat⟩, -⟩ := at_of_find hfind
    refine h.of_done hc hinstruction ?_
    rw [hd, hreq, hctx]
    exact hw.data.writeBytes_of_copy hfind hline' (hw.copy l hat.holds hline')
  have hpast : Fresh p (s.taken { c with
      dataCache := c.dataCache.invalidatePhysicalLine r.physicalAddress }) := by
    refine h.of_done hc hinstruction ?_
    rw [hd, hw.physicalAddress]
    exact (hw.data.invalidatePhysicalLine pa).of_unheld
      fun l hl => hw.data.unheld_invalidatePhysicalLine hl
  refine ⟨_, hdone, ?_⟩
  have hkind := hw.kind
  rw [isWrite] at hkind
  cases hk : s.caches.request.accessType with
  | STORE =>
    cases hfind : s.caches.dataCache.find s.caches.request.address s.caches.context with
    | some l =>
      have hlast : s.caches.lastHit = true := by
        rcases hw.hit hk with hlast | hnone
        · exact hlast
        · rw [hnone] at hfind
          cases hfind
      have hfind' : c.dataCache.find c.request.address c.context = some l := by
        rw [hd, hreq, hctx, hfind]
      rw [storeForwarded_of_hit hasi hw.mae (hhit ▸ hlast) hfind']
      exact hfound l hfind
    | none =>
      rw [storeForwarded_of_miss hasi hw.mae (by rw [hd, hreq, hctx, hfind]) hw.valid]
      cases hcacheable : r.cacheable with
      | false => exact hpast
      | true =>
        rw [if_pos rfl]
        refine ⟨h.tracks, h.settings, hinstruction, fun _ _ => ?_, fun _ => ?_, ?_⟩
        · exact hreq ▸ h.request hne hw.kind
        · exact hctx.trans (h.context hne)
        · exact .allocating rfl (hw.allocating hk hcacheable hfind hd hreq hctx rfl)
  | ATOMIC_LS =>
    dsimp only
    rw [atomicForwarded_of_let hasi hw.mae hw.valid]
    split
    · next hsome =>
      obtain ⟨l, hfind⟩ := isSome_iff_exists.1 hsome
      rw [hd, hreq, hctx] at hfind
      exact hfound l hfind
    · exact hpast
  | _ =>
    rw [hk] at hkind
    cases hkind

/-- The line of a read is put into its cache, or given up. -/
theorem Fresh.taken_read (h : Fresh p s) (hstep : s.caches.step = .FILL_FOR_READ)
    (hdata : s.Data p s.staleWords)
    (hline : r.mae = false → r.cacheable = true → s.LineFetched p r) :
    ∃ c, s.caches.downstreamDone r = some c ∧ Fresh p (s.taken c) := by
  have hne : s.caches.step ≠ .DONE := by
    rw [hstep]
    decide
  simp only [downstreamDone, hstep]
  split
  · exact ⟨_, rfl, h.of_done rfl h.instruction hdata⟩
  · next hmae =>
    split
    · next hinstall =>
      rw [Bool.not_eq_true] at hmae
      rw [Bool.and_eq_true, Bool.not_eq_true'] at hinstall
      obtain ⟨hcacheable, hnot⟩ := hinstall
      rw [hcacheable, Bool.true_and, isInvalidatedDuringFill_eq_false] at hnot
      have hfetched := hline hmae hcacheable
      cases hi : s.caches.isInstruction with
      | true =>
        obtain ⟨a', hinstall, ha'⟩ :=
          (hfetched.mono (subset_univ _)).exists_installLine (h.context_lt hne)
            (h.instruction.mono subset_union_left) hnot rfl
        simp only [cacheOf, setCacheOf, if_true, hinstall, map_some]
        exact ⟨_, rfl, h.of_done rfl ha' hdata⟩
      | false =>
        obtain ⟨a', hinstall, ha'⟩ := hfetched.exists_installLine (h.context_lt hne)
          (Consistent.mono hdata subset_union_left) hnot rfl
        simp only [cacheOf, setCacheOf, if_off, hinstall, map_some]
        exact ⟨_, rfl, h.of_done rfl h.instruction ha'⟩
    · exact ⟨_, rfl, h.of_done rfl h.instruction hdata⟩

/-- The line of a store is put into the data cache, or given up. -/
theorem Fresh.taken_allocated (h : Fresh p s) (hstep : s.caches.step = .FILL_FOR_WRITE)
    (hmae : r.mae = false) (hcacheable : r.cacheable = true)
    (halloc : s.Allocating p r.physicalAddress) (hline : s.LineFetched p r) :
    ∃ c, s.caches.downstreamDone r = some c ∧ Fresh p (s.taken c) := by
  have hne : s.caches.step ≠ .DONE := by
    rw [hstep]
    decide
  simp only [downstreamDone, hstep, hmae, hcacheable, halloc.find, Bool.not_false,
    isNone_none, Bool.and_self, Bool.true_and]
  split
  · next hnot =>
    rw [Bool.not_eq_true', isInvalidatedDuringFill_eq_false] at hnot
    obtain ⟨a', hinstall, ha'⟩ := hline.exists_installLine (h.context_lt hne) halloc.data hnot rfl
    rw [hinstall]
    exact ⟨_, rfl, h.of_done rfl h.instruction ha'⟩
  · next hnot =>
    rw [Bool.not_eq_true', ← Ne.eq_def, Bool.ne_false_iff, isInvalidatedDuringFill,
      List.contains_iff_mem] at hnot
    exact ⟨_, rfl, h.of_done rfl h.instruction (halloc.data.of_unheld (halloc.unheld hnot))⟩

/-- Every answer is taken. -/
theorem Fresh.taken (h : Fresh p s) (hr : s.answer = some r) :
    ∃ c, s.caches.downstreamDone r = some c ∧ Fresh p (s.taken c) := by
  have hphase := h.phase
  rw [hr] at hphase
  generalize hstep : s.caches.step = k at hphase
  cases hphase with
  | passed hd hnothing => exact h.taken_passed hstep hd hnothing
  | written hwritten => exact h.taken_written hstep hwritten
  | read hd hline => exact h.taken_read hstep hd hline
  | allocated hmae hc halloc hline => exact h.taken_allocated hstep hmae hc halloc hline

end Done

/-! ## The MMU serves a request -/

section Serve

variable {u' : MmuCore}

/-- The line read of a cached address space. -/
theorem fetched_of_access {dom : Nat → Bool} (hu : TlbTracks dom u c W)
    (hs : Settings dom u) {d : VirtualMemoryRequest} (hk : d.accessType = .READ_LINE)
    (hasi : isCachedAsi d.asi = true) (X : Set Nat)
    (heq : access (ram dom) d (u, c) = (r, (u', c'))) (hmae : r.mae = false)
    (hcacheable : r.cacheable = true) (invalidated : List (BitVec 64)) :
    Fetched dom u' c' (tableWords dom u c W d) X invalidated u.contextRegister d.address
      r := by
  have hr : CachedRequest d := ⟨hasi, by rw [isDataRequest, hk]; rfl⟩
  cases hp : u.mmuIsPresent with
  | false =>
    rw [access_readLine_of_absent dom c hp hk] at heq
    cases heq
    cases hcacheable
  | true =>
    rcases access_cases hu.agrees hp hr with ⟨-, heq'⟩ | ⟨-, t, u₁, c₁, ht, heq'⟩
    · rw [heq'] at heq
      cases heq
      rw [mae_refusal hs.noFault] at hmae
      cases hmae
    · rw [heq', complete_readLine hk] at heq
      cases heq
      have hfound : u'.lineFound dom c' t d.byteMask =
          c'.lineAt dom (t.physicalAddr.toNat / 64) := by
        rw [lineFound, if_pos hcacheable]
      refine ⟨?_, ht.settled, ?_, ?_, hs.lines _ (ht.decode_eq hcacheable), fun _ tag => ?_⟩
      · exact (congrArg Prod.fst ht.registers.1).trans hp
      · exact (congrArg Translation.physicalAddr ht.mapped_after).symm
      · exact (congrArg Translation.acc ht.mapped_after).symm
      · rw [hfound]
        exact copyOff_lineAt _ _ _

theorem Settings.of_moved {dom : Nat → Bool} {W' : Set Nat} {x : MmuCore × Words}
    (hs : Settings dom u) (hm : Moved dom W u c W' x) : Settings dom x.1 := by
  refine ⟨?_, ?_, ?_⟩
  · rw [controlRegister_of_setup hm.setup]
    exact hs.noFault
  · rw [hm.context]
    exact hs.context_lt
  · rw [hm.layout]
    exact hs.lines

variable (p s) in
/-- The MMU and memory are where they are once the request has been served. -/
def MovedOn : Prop :=
  Moved p.dom s.words s.mmu (s.contents p) (s.serve p).words
    ((s.serve p).mmu, (s.serve p).contents p)

/-- The core has moved on, with a cache that may be in some phase. -/
theorem Fresh.of_moved (h : Fresh p s) (hm : s.MovedOn p) {k : Step} (hstep : s.caches.step = k)
    (hphase : (s.serve p).Phase p k (some (s.reply p))) : Fresh p (s.serve p) := by
  refine ⟨hm.tracks, Settings.of_moved h.settings hm, ?_, h.request, ?_, hphase.of_eq hstep rfl⟩
  · exact hm.consistent h.instruction unaffected_univ
  · intro hne
    exact (h.context hne).trans hm.context.symm

/-- The MMU's own updates for a read are in no line of the data cache. -/
theorem Data.of_read (hu : TlbTracks p.dom s.mmu (s.contents p) s.words) (hdata : s.Data p X)
    (hread : s.caches.downstreamRequest.isWrite = false)
    (hentry : KeepsCopies p s .serve) : s.MovedOn p ∧ (s.serve p).Data p X := by
  have heq := serve_spec p s
  obtain ⟨hk, hk'⟩ := ne_of_isWrite hread
  have hm := moved_access_of_read heq hu hk hk'
  have hmemory : (access (ram p.dom) s.caches.downstreamRequest
      (s.mmu, s.contents p)).2.2 = _ := (access_of_read hk hk').1
  rw [heq] at hmemory
  refine ⟨hm, hm.consistent hdata ?_⟩
  rw [hmemory]
  exact unaffected_of_not_updatesHeldEntry hentry

/-- The MMU answers a line read. -/
theorem Fresh.served_reading (h : Fresh p s) (hstep : s.caches.step = .FILL_FOR_READ)
    (hd : s.caches.downstreamRequest = lineRequest s.caches.request)
    (hcached : isCachedAsi s.caches.request.asi = true) (hdata : s.Data p s.staleWords)
    (hentry : KeepsCopies p s .serve) : Fresh p (s.serve p) := by
  have heq := serve_spec p s
  obtain ⟨hm, hdata'⟩ := hdata.of_read h.tracks (by rw [hd]; rfl) hentry
  refine h.of_moved hm hstep (.read hdata' fun hmae hcacheable => ?_)
  have hfetched := fetched_of_access h.tracks h.settings (by rw [hd]; rfl)
    (by rw [hd]; exact hcached)
    s.staleWords heq hmae hcacheable s.caches.invalidatedDuringFill
  rw [← h.context (by rw [hstep]; decide)] at hfetched
  have haddress : s.caches.downstreamRequest.address = s.caches.request.address := by
    rw [hd]
    rfl
  rw [haddress] at hfetched
  exact hfetched

/-- What is settled stays so while the MMU serves a request. -/
theorem MappingSettled.served (hsettled : s.MappingSettled p) (hm : s.MovedOn p) :
    (s.serve p).MappingSettled p ∧ (s.serve p).mapped p = s.mapped p := by
  have hk (i : Nat) (hi : i ∈ s.words) := hm.kept i (hm.subset hi)
  exact ⟨hsettled.of_kept hm.setup hm.subset hk, hsettled.mappedTo_of_kept hm.setup hk⟩

/-- The MMU answers the line read that follows a store. -/
theorem Fresh.served_allocating (h : Fresh p s) (hstep : s.caches.step = .FILL_FOR_WRITE)
    (hd : s.caches.downstreamRequest = allocateRequest s.caches.request)
    (halloc : s.Allocating p pa) (hentry : KeepsCopies p s .serve) : Fresh p (s.serve p) := by
  have hne : s.caches.step ≠ .DONE := by
    rw [hstep]
    decide
  have hcached : isCachedAsi s.caches.request.asi = true :=
    (h.request hne (by rw [isWrite, halloc.kind])).isCachedAsi
  have hctx := h.context hne
  have heq := serve_spec p s
  obtain ⟨hm, hdata'⟩ := halloc.data.of_read h.tracks (by rw [hd]; rfl) hentry
  -- the line may be read, and is cacheable
  have hleaf := halloc.settled.leaf
  rw [hctx] at hleaf
  have hr : CachedRequest (allocateRequest s.caches.request) := ⟨hcached, rfl⟩
  have hlet : s.mmu.faultsRequest p.dom (s.contents p) (allocateRequest s.caches.request) =
      false := by
    refine (permissionFault_iff h.tracks.agrees hr rfl hleaf).2 ?_
    rw [← hctx]
    exact halloc.readable
  have hanswer : (s.reply p).mae = false ∧ (s.reply p).cacheable = true ∧
      (s.reply p).physicalAddress = pa := by
    rcases access_cases h.tracks.agrees halloc.mmu hr with ⟨hf, -⟩ | ⟨-, t, u', c', ht, heq'⟩
    · rw [hlet] at hf
      cases hf
    · rw [complete_readLine rfl] at heq'
      have ht' : t = s.mapped p := by
        rw [ht.mapped, mapped, hctx]
        rfl
      have hlayout : u'.layout = s.mmu.layout := by
        have hsame := congrArg layout (ht.same s.mmu.tlb)
        exact hsame
      rw [(serve_eq hd heq').1, ht']
      refine ⟨rfl, ?_, halloc.mapped_eq.symm⟩
      rw [isCacheableTarget, hlayout, ← halloc.mapped_eq]
      exact halloc.cacheable
  obtain ⟨hmae, hcacheable, hpa⟩ := hanswer
  obtain ⟨hsettled, hmapped⟩ := halloc.settled.served hm
  refine h.of_moved hm hstep (.allocated hmae hcacheable ?_ ?_)
  · rw [hpa]
    refine ⟨?_, halloc.kind, hsettled, ?_, ?_, ?_, halloc.find, hdata', halloc.unheld⟩
    · exact (congrArg Prod.fst hm.setup).trans halloc.mmu
    · rw [hmapped]
      exact halloc.mapped_eq
    · rw [hmapped]
      exact halloc.readable
    · have hlayout : (s.serve p).mmu.layout = s.mmu.layout := hm.layout
      rw [hmapped, isCacheableTarget, hlayout]
      exact halloc.cacheable
  · have hfetched := fetched_of_access h.tracks h.settings (by rw [hd]; rfl)
      (by rw [hd]; exact hcached) s.staleWords heq hmae hcacheable s.caches.invalidatedDuringFill
    have haddress : s.caches.downstreamRequest.address = s.caches.request.address := by
      rw [hd]
      rfl
    rw [← hctx, haddress] at hfetched
    exact hfetched

section

variable (hd : s.caches.downstreamRequest = s.caches.request)
include hd

/-- What the MMU answers to a store or an atomic, and leaves. -/
theorem serve_of_complete (hkind : s.caches.request.Stores) {t : Translation}
    (heq : access (ram p.dom) s.caches.request (s.mmu, s.contents p) = u'.complete (ram p.dom)
      s.caches.request t c') :
    (s.reply p).mae = false ∧ (s.reply p).physicalAddress = t.physicalAddr ∧
      (s.reply p).physicalAddressValid = true ∧
      (s.caches.request.accessType = .STORE → (s.reply p).cacheable =
        (t.cacheable && u'.isCacheableTarget t.physicalAddr)) ∧
      (s.serve p).mmu = u'.reached t ∧
      (s.serve p).contents p = writtenTo p.dom c' s.caches.request t.physicalAddr := by
  rcases hkind with hk | hk
  · rw [complete_store hk] at heq
    obtain ⟨hr, hu, hc⟩ := serve_eq hd heq
    rw [hr]
    exact ⟨rfl, rfl, rfl, fun _ => rfl, hu, hc⟩
  · rw [complete_atomic hk] at heq
    obtain ⟨hr, hu, hc⟩ := serve_eq hd heq
    rw [hr]
    refine ⟨rfl, rfl, rfl, fun hk' => ?_, hu, hc⟩
    rw [hk] at hk'
    cases hk'

variable (h : Fresh p s) (hstep : s.caches.step = .FORWARD) (hdata : s.Data p s.staleWords)
  (hmiss : s.MissOk p)
include h hstep hdata hmiss

/-- The MMU has let a store or an atomic through. -/
theorem Fresh.written_of_translated (hw : s.caches.request.isWrite = true)
    (hp : s.mmu.mmuIsPresent = true)
    (hkeep : KeepsTables p.dom s.mmu (s.contents p) s.words s.caches.request)
    (hentry : ¬ updatesHeldEntry p.dom s.mmu (s.contents p) s.caches.dataCache s.caches.request)
    (hlet : s.mmu.faultsRequest p.dom (s.contents p) s.caches.request = false) {t : Translation}
    (ht : Translated p.dom s.words s.mmu (s.contents p) s.caches.request t u' c')
    (heq : access (ram p.dom) s.caches.request (s.mmu, s.contents p) = u'.complete (ram p.dom)
      s.caches.request t c') :
    (s.serve p).Written p (s.reply p) t.physicalAddr := by
  have hne : s.caches.step ≠ .DONE := by
    rw [hstep]
    decide
  have hown := h.request hne hw
  have hcached := hown.isCachedAsi
  have hkind := eq_of_isWrite hw
  have hr : CachedRequest s.caches.request := .of_stores hcached hkind
  have hctx := h.context hne
  obtain ⟨hmae, hpa, hvalid, hcacheable, hmmu, hmemory⟩ := serve_of_complete hd hkind heq
  have hwritten := kept_written ht hcached hkind heq hkeep
  have hkept (i : Nat) (hi : i ∈ tableWords p.dom s.mmu (s.contents p) s.words s.caches.request) :
      Pte.Kept (c'.read p.dom i)
        ((writtenTo p.dom c' s.caches.request t.physicalAddr).read p.dom i) :=
    .inl (hwritten i hi)
  have hsettled : (s.serve p).MappingSettled p := by
    unfold MappingSettled
    rw [hmmu, hmemory, words_serve, hd]
    change Settled _ _ _ s.caches.context s.caches.request.address _
    rw [hctx]
    exact ht.settled.of_kept rfl (Subset.refl _) hkept
  have hmapped : (s.serve p).mapped p = t := by
    unfold mapped
    rw [hmmu, hmemory]
    change mappedTo _ _ _ s.caches.context s.caches.request.address = t
    rw [hctx]
    exact (ht.settled.mappedTo_of_kept rfl hkept).trans ht.mapped_after
  -- the rights that let a store through
  have hperm (hk : s.caches.request.accessType = .STORE) :
      permissionFault t.acc.toNat (computeAccessType s.caches.request.asi true) = .NONE := by
    have hleaf := leaf_of_not_faultsRequest h.tracks.agrees hr hlet
    have hiff := (permissionFault_iff h.tracks.agrees hr (by rw [isAtomic, hk]) hleaf).1 hlet
    rw [hw, ← ht.mapped] at hiff
    exact hiff
  have hacc : t.acc.toNat < 8 := by
    rw [ht.mapped]
    exact toNat_acc_mappedTo_lt _ _
  have hcons : s.caches.dataCache.Consistent p.dom u' c'
      (tableWords p.dom s.mmu (s.contents p) s.words s.caches.request) s.staleWords := by
    refine (ht.moved h.tracks hr.writesTablePointer).consistent hdata ?_
    rw [← ht.translatedMemory_eq hr.translatesRequest]
    exact unaffected_of_not_updatesHeldEntry hentry
  have hpage := s.mmu.offset_mappedTo p.dom (s.contents p) s.mmu.contextRegister
    s.caches.request.address
  rw [← ht.mapped] at hpage
  have hpa8 : t.physicalAddr.toNat % 8 = 0 := by
    have haligned := hown.aligned
    omega
  have hp' : (s.serve p).mmu.mmuIsPresent = true := by
    rw [hmmu]
    exact (congrArg Prod.fst ht.registers.1).trans hp
  refine ⟨hp', hw, hmae, hpa, hvalid, hsettled, ?_, fun hk => ?_, fun hk => ?_,
    fun hk => ?_, ?_, ?_⟩
  · rw [hmapped]
  · rcases hmiss hk with hhit | hnone | ⟨hs, hrefused⟩
    · exact .inl hhit
    · exact .inr hnone
    · have ht' : t = s.mapped p := by
        rw [ht.mapped, mapped, hctx]
      rw [← ht'] at hrefused
      exact absurd (hperm hk) hrefused
  · rw [hmapped]
    exact (rights hacc hcached).2.2 (hperm hk)
  · rw [hmapped, hmmu, hcacheable hk]
    rfl
  · unfold Data
    rw [hmmu, hmemory, words_serve, hd]
    exact (hcons.stored hpa8 _ _ _ hwritten).of_setup rfl
  · intro l hl hline
    obtain ⟨set, i, hat⟩ := hl
    obtain ⟨va, context, hok⟩ := hcons.lines set i l hat
    rw [hmemory]
    refine hok.copy.write ?_ hpa8 hpage hok.inMemory _ _ _
    rw [hline, toNat_physicalLine]

/-- The MMU answers the request itself. -/
theorem Fresh.served_passing (hkeep : Admitted p s .serve) (hentry : KeepsCopies p s .serve) :
    Fresh p (s.serve p) := by
  have heq := serve_spec p s
  cases hw : s.caches.request.isWrite with
  | false =>
    obtain ⟨hm, hdata'⟩ := hdata.of_read h.tracks (by rw [hd]; exact hw) hentry
    refine h.of_moved hm hstep (.passed hdata' fun hwrite => ?_)
    change s.caches.request.isWrite = true at hwrite
    rw [hw] at hwrite
    cases hwrite
  | true =>
    unfold Admitted at hkeep
    unfold KeepsCopies at hentry
    rw [hd] at heq hkeep hentry
    have hcached := (h.request (by rw [hstep]; decide) hw).isCachedAsi
    have hkind := eq_of_isWrite hw
    have hm := moved_access_of_write heq h.tracks hcached hkind (hkeep hw)
    rw [← hd, ← words_serve] at hm
    refine h.of_moved hm hstep ?_
    cases hp : s.mmu.mmuIsPresent with
    | false =>
      have hempty (l : Line) : ¬ s.caches.dataCache.Holds l := fun hl =>
        Bool.false_ne_true (hp.symm.trans (hdata.mmu l hl))
      have hp' : (s.serve p).mmu.mmuIsPresent = false := (congrArg Prod.fst hm.setup).trans hp
      refine .passed (consistent_of_empty hdata.sets hempty) fun _ => .inr ⟨hp', ?_⟩
      rcases hkind with hk | hk
      · rw [(serve_eq hd (access_store_of_absent hp hk)).1]
        exact ⟨rfl, rfl⟩
      · rw [(serve_eq hd (access_atomic_of_absent hp hk)).1]
        exact ⟨rfl, rfl⟩
    | true =>
      rcases access_cases h.tracks.agrees hp (.of_stores hcached hkind) with
        ⟨hf, heq'⟩ | ⟨hlet, t, u', c', ht, heq'⟩
      · obtain ⟨hr, -, hc⟩ := serve_eq hd heq'
        refine .passed (hm.consistent hdata fun n hn => ?_) fun _ => .inl ?_
        · rw [hc] at hn
          exact absurd rfl hn
        · rw [hr]
          exact mae_refusal h.settings.noFault
      · exact .written
          (h.written_of_translated hd hstep hdata hmiss hw hp (hkeep hw) hentry hlet ht heq')

end

/-- The MMU serves what is passed on. -/
theorem Fresh.served (h : Fresh p s) (hneeds : s.caches.step ≠ .DONE) (hanswer : s.answer = none)
    (hkeep : Admitted p s .serve) (hentry : KeepsCopies p s .serve) : Fresh p (s.serve p) := by
  have hphase := h.phase
  rw [hanswer] at hphase
  generalize hstep : s.caches.step = k at hphase
  cases hphase with
  | idle => exact absurd hstep hneeds
  | passing hd hdata hmiss => exact h.served_passing hd hstep hdata hmiss hkeep hentry
  | reading hd hcached hdata => exact h.served_reading hstep hd hcached hdata hentry
  | allocating hd halloc => exact h.served_allocating hstep hd halloc hentry

end Serve

/-! ## A request begins -/

section Begin

variable {r : VirtualMemoryRequest}

theorem Fresh.data_of_done (h : Fresh p s) (hstep : s.caches.step = .DONE) :
    s.answer = none ∧ s.Data p s.staleWords := by
  have hphase := h.phase
  rw [hstep] at hphase
  generalize s.answer = a at hphase ⊢
  cases hphase with
  | idle hdata => exact ⟨rfl, hdata⟩

/-- A store that does not hit finds no line, or is refused by its page. -/
theorem refused_of_not_allowed {dom : Nat → Bool} {a : CacheArray}
    (ha : a.Consistent dom u c W X) {context : Word} (hctx : context.toNat < 256)
    (hasi : isCachedAsi r.asi = true) (hnone : allowedLine a r context true = none) :
    a.find r.address context = none ∨ u.Settled dom c context r.address W ∧
      permissionFault (u.mappedTo dom c context r.address).acc.toNat
        (computeAccessType r.asi true) ≠ .NONE := by
  cases hfind : a.find r.address context with
  | none => exact .inl rfl
  | some l =>
    obtain ⟨hsettled, -, hacc, -⟩ := ha.of_find hctx hfind
    refine .inr ⟨hsettled, fun hperm => ?_⟩
    rw [← hacc] at hperm
    have hallowed := (rights (hacc ▸ toNat_acc_mappedTo_lt _ _) hasi).1 true hperm
    rw [allowedLine, hfind, filter_some, if_pos hallowed] at hnone
    cases hnone

/-- A request begins. -/
theorem Fresh.begun (h : Fresh p s) (hstep : s.caches.step = .DONE)
    (hown : r.isWrite = true → OwnWrite r) : Fresh p (s.begun r) := by
  obtain ⟨hanswer, hdata⟩ := h.data_of_done hstep
  have hbegun := begun_begin s.caches s.mmu.contextRegister r
  change Fresh p { s with caches := s.caches.begin s.mmu.contextRegister r, storedTo := none }
  generalize s.caches.begin s.mmu.contextRegister r = c at hbegun
  cases hbegun with
  | done hdone hinstruction hd =>
    refine ⟨h.tracks, h.settings, ?_, fun hne => absurd hdone hne, fun hne => absurd hdone hne, ?_⟩
    · exact h.instruction.of_at hinstruction.logSets hinstruction.lines
    · exact .of_eq (.idle (hdata.of_at hd.logSets hd.lines)) hdone hanswer
  | forward lastHit hkind hhit =>
    refine ⟨h.tracks, h.settings, h.instruction, fun _ => hown, fun _ => rfl,
      .of_eq (.passing rfl hdata fun hk => ?_) rfl hanswer⟩
    change r.accessType = .STORE at hk
    have hcached := (hown (by rw [isWrite, hk])).isCachedAsi
    rw [hhit hk, hcached, Bool.true_and]
    cases hallowed : allowedLine s.caches.dataCache r s.mmu.contextRegister true with
    | some l => exact .inl rfl
    | none => exact .inr (refused_of_not_allowed hdata h.settings.context_lt hcached hallowed)
  | fill hkind hasi =>
    exact ⟨h.tracks, h.settings, h.instruction, fun _ => hown, fun _ => rfl,
      .of_eq (.reading rfl hasi hdata) rfl hanswer⟩

end Begin

/-! ## Runs -/

variable (p s) in
/-- Nothing is in progress, caches and TLB are empty, and there are at least four sets. The no-fault
bit is clear and the context below 256. -/
structure Start : Prop where
  step : s.caches.step = .DONE
  answer : s.answer = none
  settings : Settings p.dom s.mmu
  tlb : ∀ level e, ¬ s.mmu.tlb.Holds level e
  instructionSets : 2 ≤ s.caches.instructionCache.logSets
  dataSets : 2 ≤ s.caches.dataCache.logSets
  instruction : ∀ l, ¬ s.caches.instructionCache.Holds l
  data : ∀ l, ¬ s.caches.dataCache.Holds l

theorem Fresh.of_start (h : Start p s) : Fresh p s :=
  ⟨tlbTracks_of_empty h.tlb, h.settings,
    consistent_of_empty h.instructionSets h.instruction,
    fun hne => absurd h.step hne, fun hne => absurd h.step hne,
    .of_eq (.idle (consistent_of_empty h.dataSets h.data)) h.step h.answer⟩

/-- One step keeps the invariant. -/
theorem Fresh.step {s' : SteppedCore τ} {e : Event τ} (h : Fresh p s) (ha : Admitted p s e)
    (hk : KeepsCopies p s e) (hstep : s.step p e = some s') : Fresh p s' := by
  cases stepped_of_step hstep with
  | begin hdone => exact h.begun hdone fun hw => ⟨ha hw, hk hw⟩
  | serve hneeds hanswer => exact h.served hneeds hanswer ha hk
  | downstreamDone hr hc =>
    obtain ⟨c', hc', hfresh⟩ := h.taken hr
    obtain rfl := some.inj (hc.symm.trans hc')
    exact hfresh
  | change => exact h.changed ha
  | invalidatePhysicalLine => exact h.invalidated _

/-- In every run whose steps leave the tables, and keep the copies, every answer of the MMU can be
taken, and whenever no request is in progress and no invalidate outstanding every line of the data
cache is the line of main memory. -/
theorem dataLines_fresh (p : PlainMemory phys) (es : List (Event τ)) (s s' : SteppedCore τ)
    (hs : Start p s)
    (hes : (machine p).AllSteps (fun s e => Admitted p s e ∧ KeepsCopies p s e) es s)
    (hrun : (machine p).run es s = some s') :
    (∀ r, s'.answer = some r → (s'.caches.downstreamDone r).isSome = true) ∧
      (s'.caches.needsDownstream = false → s'.outstanding = ∅ →
        ∀ l, s'.caches.dataCache.Holds l →
          l.data = (s'.contents p).lineAt p.dom l.physicalLine.toNat) := by
  have hfresh : Fresh p s' :=
    invariant_allSteps (fun h he hstep => h.step he.1 he.2 hstep) hes (.of_start hs) hrun
  constructor
  · intro r hr
    obtain ⟨c, hc, -⟩ := hfresh.taken hr
    rw [hc]
    rfl
  · intro hdone hnone l hl
    obtain ⟨-, hdata⟩ := hfresh.data_of_done (step_of_needsDownstream.1 hdone)
    have hstale : s'.staleWords = ∅ := by
      ext n
      rw [staleWords, hnone]
      exact Iff.rfl
    rw [hstale] at hdata
    obtain ⟨set, i, hat⟩ := hl
    obtain ⟨va, context, hok⟩ := hdata.lines set i l hat
    exact hok.copy.data_eq

end SteppedCore

/-! ## Two runs over the flat bus -/

open SteppedCore

theorem start_startedCore {mmu : MmuCore} (m : MemCore × Unit)
    (hsettings : Settings dom mmu) (htlb : mmu.tlb = Tlb.empty) :
    Start plain (startedCore mmu m) where
  step := rfl
  answer := rfl
  settings := hsettings
  tlb level e := by
    change ¬ mmu.tlb.Holds level e
    rw [htlb]
    exact Tlb.not_holds_empty level e
  instructionSets := Nat.le_refl 2
  dataSets := Nat.le_refl 2
  instruction := not_holds_configure 2 2
  data := not_holds_configure 2 2

/-- A load of the second doubleword. -/
def eighthByteLoad : VirtualMemoryRequest := wordAccess .LOAD 8 asiUserData 0

/-- Another core changes the line being read; the invalidate arrives before the line. -/
theorem line_changed_while_read :
    ∃ s', (machine plain).run
        [.begin eighthByteLoad, .serve, .change identityBus, .invalidatePhysicalLine 0,
          .downstreamDone] (startedCore cachingMmu zeroBus) = some s' ∧
      (∀ r, s'.answer = some r → (s'.caches.downstreamDone r).isSome = true) ∧
      (s'.caches.needsDownstream = false → s'.outstanding = ∅ →
        ∀ l, s'.caches.dataCache.Holds l →
          l.data = (s'.contents plain).lineAt plain.dom
            l.physicalLine.toNat) := by
  have hsettings : Settings dom cachingMmu := ⟨by decide, by decide, hasLines_flat⟩
  obtain ⟨s', hs'⟩ : ∃ s', (machine plain).run
      [.begin eighthByteLoad, .serve, .change identityBus, .invalidatePhysicalLine 0,
        .downstreamDone] (startedCore cachingMmu zeroBus) = some s' :=
    isSome_iff_exists.1 (by decide)
  refine ⟨s', hs', dataLines_fresh plain _ _ _ (start_startedCore zeroBus hsettings rfl)
    ?_ hs'⟩
  refine ⟨⟨?_, ?_⟩, fun s₁ h₁ => ⟨⟨?_, ?_⟩, fun s₂ h₂ => ⟨⟨?_, trivial⟩, fun _ _ =>
    ⟨⟨trivial, trivial⟩, fun _ _ => ⟨⟨trivial, trivial⟩, fun _ _ => trivial⟩⟩⟩⟩⟩
  · exact nofun
  · exact nofun
  · cases h₁
    exact nofun
  · cases h₁
    exact fun h => absurd h.1 (by decide)
  · cases h₁
    cases h₂
    exact fun i hi => hi.elim

/-- A store to the second doubleword. -/
def eighthByteStore : VirtualMemoryRequest := wordAccess .STORE 8 asiUserData 1

/-- A store to a doubleword in the line of its page table entry: the modified bit is set in memory,
and not in the line. -/
theorem own_update_misses_held_line :
    let es := [.begin eighthByteLoad, .serve, .downstreamDone, .begin eighthByteStore, .serve,
      .downstreamDone]
    let s := startedCore mmuOn identityBus
    Start plain s ∧
      (machine plain).AllSteps (Admitted plain) es s ∧
      ∃ s', (machine plain).run es s = some s' ∧
        s'.caches.needsDownstream = false ∧ s'.outstanding = ∅ ∧
        ∃ l, s'.caches.dataCache.Holds l ∧
          l.data ≠ (s'.contents plain).lineAt plain.dom
            l.physicalLine.toNat := by
  intro es s
  have hsettings : Settings dom mmuOn := ⟨by decide, by decide, hasLines_flat⟩
  refine ⟨start_startedCore identityBus hsettings rfl,
    ⟨?_, fun s₁ h₁ => ⟨?_, fun s₂ h₂ => ⟨trivial, fun s₃ h₃ => ⟨?_, fun s₄ h₄ => ⟨?_, fun _ _ =>
      ⟨trivial, fun _ _ => trivial⟩⟩⟩⟩⟩⟩, ?_⟩
  · exact nofun
  · cases h₁
    exact nofun
  · exact fun _ => .inl rfl
  · have hrun : (machine plain).run
        [.begin eighthByteLoad, .serve, .downstreamDone, .begin eighthByteStore] s = some s₄ := by
      rw [run, h₁, bind_some, run, h₂, bind_some, run, h₃, bind_some, run, h₄]
      rfl
    have hfacts : ((machine plain).run
        [.begin eighthByteLoad, .serve, .downstreamDone, .begin eighthByteStore] s).map (fun s =>
          (tablePath dom s.mmu.contextTablePointerRegister
            (s.contents plain) s.mmu.contextRegister s.caches.downstreamRequest.address,
          (access (ram dom) s.caches.downstreamRequest
            (s.mmu, s.contents plain)).2.2.read dom 0,
          (translatedMemory dom s.mmu (s.contents plain)
            s.caches.downstreamRequest).read dom 0)) = some ([0], 0xEE, 0xEE) := by
      decide
    rw [hrun, map_some, some.injEq] at hfacts
    simp only [Prod.mk.injEq] at hfacts
    obtain ⟨hpath, hmemory, htranslated⟩ := hfacts
    have hzero (n : Nat) (hn : n ∈ s₂.words) : n = 0 := by
      cases h₁
      cases h₂
      rw [words_serve] at hn
      refine eq_zero_of_mem_tableWords (fun n hn => ?_) (by decide) hn
      exact (notMem_empty n hn).elim
    rw [← words_downstreamDone (p := plain) h₃, ← words_begin (p := plain) h₄] at hzero
    intro hw n hn
    rw [eq_zero_of_mem_tableWords hzero (fun n hn => List.mem_singleton.1 (hpath ▸ hn)) hn]
    exact hmemory.trans htranslated.symm
  · have hrun : ((machine plain).run es s).map (fun s' =>
        (s'.caches.needsDownstream, (s'.caches.dataCache.find 8 0).map fun l =>
          (l.data 0, (s'.contents plain).lineAt plain.dom
            l.physicalLine.toNat 0))) = some (false, some (0xAE, 0xEE)) := by
      decide
    obtain ⟨s', hs', hfound⟩ := map_eq_some_iff.mp hrun
    obtain ⟨hdone, hfound⟩ := Prod.mk.inj hfound
    obtain ⟨l, hl, hdata⟩ := map_eq_some_iff.mp hfound
    obtain ⟨⟨i, hi⟩, -⟩ := at_of_find hl
    refine ⟨s', hs', hdone, ?_, l, hi.holds, fun heq => ?_⟩
    · have hchange (e : Event (MemCore × Unit)) (he : e ∈ es) (m : MemCore × Unit) :
          e ≠ .change m := by
        rintro rfl
        simp [es] at he
      refine invariant_allSteps (I := fun s => s.outstanding = ∅) (fun h he hstep => ?_)
        (allSteps_of_forall_mem hchange s) rfl hs'
      exact subset_empty_iff.1 (h ▸ outstanding_subset hstep he)
    · obtain ⟨hheld, hmemory⟩ := Prod.mk.inj hdata
      rw [heq, hmemory] at hheld
      exact absurd hheld (by decide)

end SparcV8
