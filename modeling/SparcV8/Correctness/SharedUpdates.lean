import SparcV8.Multicore.SharedTables

/-!
# Updates of shared page tables

No update of a referenced or modified bit is lost, and none undoes a change another core has made.
The steps of one core alone are the translation of its MMU.
-/

namespace SparcV8

open MmuCore Function Relation

namespace SharedTables

variable {ι : Type} [DecidableEq ι] {dom : Nat → Bool}

/-! ## One core alone -/

/-- A step of the translation that one core is under way with. -/
def OwnStep (dom : Nat → Bool) (i : ι) (s s' : State ι) : Prop :=
  step dom s (.read i) = some s' ∨ step dom s (.update i) = some s'

variable {i : ι}

/-- A step of one core's translation is none of another's. -/
theorem other_of_step {s s' : State ι} {e : Event ι} (h : step dom s e = some s')
    (he : (∃ q, e = .begin i q) ∨ e = .read i ∨ e = .update i) {j : ι} (hj : j ≠ i) :
    s'.mmu j = s.mmu j ∧ s'.phase j = s.phase j := by
  obtain ⟨q, rfl⟩ | rfl | rfl := he
  all_goals
    cases stepped_of_step h
    all_goals exact ⟨update_of_ne hj _ _, update_of_ne hj _ _⟩

variable {q : TranslationRequest} {s : State ι}

/-- The walk ends with the entry it reads now. -/
theorem alone_walkEnd {w : Walk} (hp : s.phase i = .walking q w)
    (hnone : w.recordWalkStep (s.memory.entryAt dom w.curPhyAddr) 3 = none) :
    ∃ s', ReflTransGen (OwnStep dom i) s s' ∧ s'.memory = s.memory ∧
      (s'.mmu i, s'.phase i) =
        found (s.mmu i) q (w.result (s.memory.entryAt dom w.curPhyAddr)) false := by
  have hstep := (show step dom s (.read i) = _ by simp only [step, hp, hnone]; rfl)
  refine ⟨_, .single (.inl hstep), rfl, ?_⟩
  simp [State.set]

/-- The reads of a walk. From level `l` at most `3 - l` further entries are read. -/
theorem alone_walk {steps : Nat} {w : Walk} (hp : s.phase i = .walking q w)
    (hsteps : 3 ≤ w.curLevel.val + steps) :
    ∃ s', ReflTransGen (OwnStep dom i) s s' ∧ s'.memory = s.memory ∧
      (s'.mmu i, s'.phase i) =
        found (s.mmu i) q (w.find (s.memory.entryAt dom) 3 steps) false := by
  induction steps generalizing s w with
  | zero =>
    apply alone_walkEnd hp
    rw [Walk.recordWalkStep, if_neg]
    rintro ⟨-, hlt⟩
    have hval : w.curLevel.val < 3 := hlt
    omega
  | succ steps ih =>
    rw [Walk.find]
    cases hnext : w.recordWalkStep (s.memory.entryAt dom w.curPhyAddr) 3 with
    | none => exact alone_walkEnd hp hnext
    | some w' =>
      let t := (s.wordRead i (w.curPhyAddr.toNat / 4)).set i (s.mmu i, .walking q w')
      have hstep : step dom s (.read i) = some t := by simp only [step, hp, hnext]; rfl
      have hlevel := (Walk.recordWalkStep_eq_some hnext).1
      have hp' : t.phase i = .walking q w' := update_self ..
      obtain ⟨s', halone, hmemory, hfound⟩ := ih hp' (by omega)
      refine ⟨s', .head (.inl hstep) halone, hmemory, ?_⟩
      rw [hfound, show t.mmu i = s.mmu i from update_self ..]
      rfl

/-- The update, if there is one to make, ends the translation. -/
theorem alone_found {r : WalkResult} {hit : Bool} {u : MmuCore}
    (h : (s.mmu i, s.phase i) = found u q r hit)
    (hfault : (checkFault q.asi q.isWrite q.isAtomic r.pte).2 = .NONE) :
    ∃ s', ReflTransGen (OwnStep dom i) s s' ∧ s'.phase i = .done q r ∧
      s'.mmu i = u.afterTranslation q.va r hit q.isWrite ∧
      s'.memory = u.updatedMemory dom s.memory r q.isWrite := by
  simp only [found, checkAndRecordFault, if_pos hfault, if_off] at h
  cases hs : computeAndStageRMUpdate r.pte q.isWrite with
  | none =>
    rw [hs, Prod.mk.injEq] at h
    refine ⟨s, .refl, h.2, ?_, ?_⟩
    · rw [h.1, afterTranslation, hs]
    · rw [updatedMemory, writtenEntry, hs]
      rfl
  | some staged =>
    rw [hs, Prod.mk.injEq] at h
    have hstep := (show step dom s (.update i) = _ by simp only [step, h.2]; rfl)
    refine ⟨_, .single (.inr hstep), ?_, ?_, ?_⟩
    · simp [State.set]
    · simp only [State.set, update_self]
      rw [h.1, afterTranslation, hs]
    · rw [updatedMemory, writtenEntry, hs, h.1, atomicRMUpdates_commitTranslation]
      rfl

/-- The steps up to the one that has found the entry. -/
theorem alone_begin (hbusy : (s.phase i).busy = false) (ht : (s.mmu i).translates = true)
    (q : TranslationRequest) :
    ∃ t t', step dom s (.begin i q) = some t ∧
      ReflTransGen (OwnStep dom i) t t' ∧ t'.memory = s.memory ∧
      (t'.mmu i, t'.phase i) = found (s.mmu i) q ((s.mmu i).foundEntry dom s.memory q.va)
        ((s.mmu i).tlbLookup q.va (s.mmu i).contextRegister).isSome := by
  have hfree : ¬((s.phase i).busy || !(s.mmu i).translates) = true := by simp [hbusy, ht]
  cases hr : (s.mmu i).tlbLookup q.va (s.mmu i).contextRegister with
  | some r =>
    refine ⟨s.set i (found (s.mmu i) q r true), _, ?_, .refl, rfl, ?_⟩
    · simp only [step, hr, if_neg hfree]
    · simp only [State.set, update_self, foundEntry, hr]
      rfl
  | none =>
    let w := (s.mmu i).beginWalk q.va (s.mmu i).contextRegister
    let t := s.set i (s.mmu i, .walking q w)
    have hp : t.phase i = .walking q w := update_self ..
    obtain ⟨t', halone, hmemory, hfound⟩ := alone_walk hp (Nat.le_add_left 3 w.curLevel.val)
    refine ⟨t, t', ?_, halone, hmemory, ?_⟩
    · simp only [step, hr, if_neg hfree]
      rfl
    · rw [hfound, foundEntry, hr, show t.mmu i = s.mmu i from update_self ..]
      rfl

/-- The steps of one core's translation, with nothing between them, are what its MMU does over that
memory; the other cores are left alone. -/
theorem alone_translate (hbusy : (s.phase i).busy = false) (ht : (s.mmu i).translates = true)
    (q : TranslationRequest) :
    ∃ t s', step dom s (.begin i q) = some t ∧ ReflTransGen (OwnStep dom i) t s' ∧
      (∀ j, j ≠ i → s'.mmu j = s.mmu j ∧ s'.phase j = s.phase j) ∧
      (s'.mmu i, s'.memory) = ((s.mmu i).translate (Words.ram dom) q.va q.asi
        q.isInstructionFetch q.isWrite q.isAtomic s.memory).2 ∧
      s'.phase i =
        if (s.mmu i).faults dom s.memory q.va q.asi q.isWrite q.isAtomic then .refused q
        else .done q ((s.mmu i).foundEntry dom s.memory q.va) := by
  obtain ⟨t, t', hbegin, halone, hmemory, hfound⟩ := alone_begin hbusy ht q
  have hother {s' : State ι} (h : ReflTransGen (OwnStep dom i) t s') {j : ι} (hj : j ≠ i) :
      s'.mmu j = s.mmu j ∧ s'.phase j = s.phase j := by
    induction h with
    | refl => exact other_of_step hbegin (.inl ⟨q, rfl⟩) hj
    | tail _ hstep ih =>
      obtain ⟨hmmu, hphase⟩ := hstep.elim (other_of_step · (.inr (.inl rfl)) hj)
        (other_of_step · (.inr (.inr rfl)) hj)
      rwa [hmmu, hphase]
  cases hfaults : (s.mmu i).faults dom s.memory q.va q.asi q.isWrite q.isAtomic with
  | true =>
    refine ⟨t, t', hbegin, halone, fun j hj => hother halone hj, ?_⟩
    rw [translate_of_faults _ _ _ hfaults, hmemory]
    have hrefused := hfaults
    simp only [faults, ht, Bool.true_and, bne_iff_ne] at hrefused
    simp only [found, checkAndRecordFault, if_neg hrefused, if_true, Prod.mk.injEq] at hfound
    rw [hfound.1, hfound.2]
    exact ⟨rfl, rfl⟩
  | false =>
    have hnone : (checkFault q.asi q.isWrite q.isAtomic
        ((s.mmu i).foundEntry dom s.memory q.va).pte).2 = .NONE := by
      simpa [faults, ht, bne_eq_false_iff_eq] using hfaults
    obtain ⟨s', hrest, hdone, hmmu, hupdated⟩ := alone_found hfound hnone
    refine ⟨t, s', hbegin, halone.trans hrest, fun j hj => hother (halone.trans hrest) hj,
      ?_, hdone⟩
    rw [translate_of_not_faults _ _ _ ht hfaults, hmmu, hupdated, hmemory]

/-! ## Updates -/

/-- An MMU only ever sets referenced and modified bits of the words then in memory. Whenever a
translation is complete, the word of its entry has the bits of the access, unless an ordinary write
has changed it since the MMU read the copy of it that the translation uses. -/
theorem updates_lose_nothing {s : State ι} (hs : (machine dom).Reachable Start s) :
    (∀ e s', step dom s e = some s' → (∀ memory, e ≠ .write memory) →
      ∀ n, SetsRM (s.memory.read dom n) (s'.memory.read dom n)) ∧
    ∀ i q r, s.phase i = .done q r → s.copyChanged i (Copy.of (s.mmu i) q r) = false →
      Pte.referenced (s.memory.entryAt dom r.phyAddrOfPte) ≠ 0 ∧
        (q.isWrite = true → Pte.modified (s.memory.entryAt dom r.phyAddrOfPte) ≠ 0) := by
  have hinv : Invariant dom s :=
    hs.invariant (fun _ hstart => invariant_start hstart) invariant_step
  exact ⟨fun e s' hstep hmmu n => setsRM_of_step hinv hstep hmmu n,
    fun i q r hdone hk => hinv.recorded hdone hk⟩

/-- One core, its MMU switched on. -/
def oneCore : State Unit where
  mmu _ := mmuOn
  phase _ := .idle
  memory := ⟨sharedTable.core⟩
  copyChanged _ _ := false
  wordChanged _ _ := false

/-- A translation for data of the supervisor. -/
def supervisorAccess (va : Word) (isWrite : Bool) : TranslationRequest :=
  { va := va, asi := asiSupervisorData, isInstructionFetch := false, isWrite := isWrite,
    isAtomic := false }

/-- The steps of a store set both bits in the page's entry. -/
theorem alone_translate_store :
    ∃ t s', step (fun _ => true) oneCore (.begin () (supervisorAccess 0 true)) = some t ∧
      ReflTransGen (OwnStep (fun _ => true) ()) t s' ∧
      s'.memory.entryAt (fun _ => true) 0x800 = 0x1000006E := by
  obtain ⟨t, s', hbegin, hsteps, -, hstate, -⟩ :=
    @alone_translate Unit _ (fun _ => true) () oneCore rfl (by decide) (supervisorAccess 0 true)
  refine ⟨t, s', hbegin, hsteps, ?_⟩
  rw [show s'.memory = _ from congrArg Prod.snd hstate]
  decide

/-- A store to the page. -/
def storeSteps : List (Event Unit) :=
  [.begin () (supervisorAccess 0 true), .read (), .read (), .read (), .update ()]

/-- Then software clears the modified bit, and the page is read through the other entry and stored
to again. -/
def clearedSteps : List (Event Unit) :=
  storeSteps ++
    [.write (oneCore.memory.write (fun _ => true) 0x200 0x1000002E),
     .begin () (supervisorAccess 0x01000000 false), .read (), .read (), .read (),
     .begin () (supervisorAccess 0 true)]

theorem start_oneCore : Start oneCore := ⟨fun _ => rfl, fun _ => rfl, fun _ => rfl⟩

/-- The state after some steps of the core. -/
def after (es : List (Event Unit)) : State Unit :=
  ((machine fun _ => true).run es oneCore).getD oneCore

/-- A store leaves both bits in the page's entry. -/
theorem updates_lose_nothing_store :
    (after storeSteps).phase () =
        .done (supervisorAccess 0 true) { pte := 0x1000000E, level := 2, phyAddrOfPte := 0x800 } ∧
      Pte.referenced ((after storeSteps).memory.entryAt (fun _ => true) 0x800) ≠ 0 ∧
      Pte.modified ((after storeSteps).memory.entryAt (fun _ => true) 0x800) ≠ 0 := by
  have hdone : (after storeSteps).phase () =
      .done (supervisorAccess 0 true) { pte := 0x1000000E, level := 2, phyAddrOfPte :=
        0x800 } := rfl
  have hreached : (machine fun _ => true).Reachable Start (after storeSteps) :=
    ⟨oneCore, storeSteps, start_oneCore, rfl⟩
  obtain ⟨-, hrecorded⟩ := updates_lose_nothing hreached
  obtain ⟨hreferenced, hmodified⟩ := hrecorded () _ _ hdone rfl
  exact ⟨hdone, hreferenced, hmodified rfl⟩

/-- The modified bit is lost, although the word has not changed since the MMU last read it: what it
read then was not what the store used. -/
theorem modified_lost_on_other_copy :
    (machine fun _ => true).Reachable Start (after clearedSteps) ∧
      (after clearedSteps).phase () =
        .done (supervisorAccess 0 true) { pte := 0x1000006E, level := 2, phyAddrOfPte := 0x800 } ∧
      (after clearedSteps).wordChanged () 0x200 = false ∧
      Pte.modified ((after clearedSteps).memory.entryAt (fun _ => true) 0x800) = 0 :=
  ⟨⟨oneCore, clearedSteps, start_oneCore, rfl⟩, rfl, rfl, by decide⟩

end SharedTables

end SparcV8
