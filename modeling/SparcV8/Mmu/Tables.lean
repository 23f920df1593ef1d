import SparcV8.Mmu.Invariant

/-!
# Walks of unchanged tables

A walk reads one word per level. If these words stay, but for the bits a translation sets in a leaf,
the walk ends at the same place. Two addresses that agree in the bits a level distinguishes have the
same walk down to that level.
-/

namespace SparcV8

open Words List Nat Tlb Walk

namespace Pte

variable (old new : Word)

/-- What translations do to a referenced leaf; a leaf that was not referenced may have become
another. -/
def Kept : Prop :=
  new = old ∨ entryType old = etPte ∧ entryType new = etPte ∧
    (referenced old ≠ 0 → new = setModified old)

/-- A walk that comes to either word goes on in the same way. -/
def SameWay : Prop :=
  new = old ∨ entryType old = etPte ∧ entryType new = etPte

/-- What a translation does leaves the way. -/
theorem Kept.sameWay {old new : Word} (h : Kept old new) : SameWay old new :=
  h.imp id fun ⟨hold, hnew, _⟩ => ⟨hold, hnew⟩

/-- The word in memory of an entry that was cached: it may since have been modified. -/
def Reflects (cached word : Word) : Prop := word = cached ∨ word = setModified cached

variable (pte : Word)

@[simp] theorem entryType_setModified : entryType (setModified pte) = entryType pte :=
  readBits_writeBits_off (by decide)

@[simp] theorem acc_setModified : acc (setModified pte) = acc pte :=
  readBits_writeBits_off (by decide)

@[simp] theorem cacheable_setModified : cacheable (setModified pte) = cacheable pte :=
  readBits_writeBits_off (by decide)

@[simp] theorem ppn_setModified : ppn (setModified pte) = ppn pte :=
  readBits_writeBits_off (by decide)

@[simp] theorem entryType_setReferenced : entryType (setReferenced pte) = entryType pte :=
  readBits_writeBits_off (by decide)

@[simp] theorem modified_setModified : modified (setModified pte) = 1 :=
  readBits_writeBits_self (by decide)

@[simp] theorem setModified_setModified : setModified (setModified pte) = setModified pte := by
  rw [setModified_eq, setModified_eq, BitVec.or_assoc, BitVec.or_self]

/-- A bit that is set is set again. -/
theorem setModified_of_modified {pte : Word} (h : modified pte ≠ 0) : setModified pte = pte := by
  have hset : pte.getLsbD 6 = true := (readBits_ne_zero_iff pte (by decide)).1 h
  apply BitVec.eq_of_getLsbD_eq
  intro i hi
  rw [setModified_eq, BitVec.getLsbD_or, show (0x40 : Word) = BitVec.twoPow 32 6 from rfl,
    BitVec.getLsbD_twoPow]
  by_cases hbit : 6 = i
  · subst hbit
    rw [hset]
    rfl
  · simp [hbit]

variable {cached word : Word}

/-- The referenced bit is that of the word. -/
theorem Reflects.referenced (h : Reflects cached word) :
    Pte.referenced word = Pte.referenced cached := by
  rcases h with rfl | rfl
  · rfl
  · exact referenced_setModified cached

theorem Reflects.entryType (h : Reflects cached word) :
    Pte.entryType word = Pte.entryType cached := by
  rcases h with rfl | rfl
  · rfl
  · exact entryType_setModified cached

/-- A cached entry still reflects its word after a change. -/
theorem Reflects.of_kept {cached old new : Word} (h : Reflects cached old)
    (hr : Pte.referenced cached ≠ 0) (hk : Kept old new) : Reflects cached new := by
  rcases hk with rfl | ⟨-, -, hk⟩
  · exact h
  · right
    have hold : Pte.referenced old ≠ 0 := by
      rw [h.referenced]
      exact hr
    rw [hk hold]
    rcases h with rfl | rfl
    · rfl
    · exact setModified_setModified cached

end Pte

/-! ## The way of a walk -/

namespace Walk

/-- The indices of the words a walk reads. -/
def path (read : BitVec 64 → Word) (stopAtLevel : Level) : Nat → Walk → List Nat
  | 0, w => [w.curPhyAddr.toNat / 4]
  | steps + 1, w =>
    w.curPhyAddr.toNat / 4 ::
      match w.recordWalkStep (read w.curPhyAddr) stopAtLevel with
      | some w' => w'.path read stopAtLevel steps
      | none => []

variable (read : BitVec 64 → Word)

/-- The last word of a way is the one that is found. -/
theorem mem_path_find (stopAtLevel : Level) (steps : Nat) (w : Walk) :
    (w.find read stopAtLevel steps).phyAddrOfPte.toNat / 4 ∈ w.path read stopAtLevel steps := by
  induction steps generalizing w with
  | zero => exact mem_singleton.2 rfl
  | succ steps ih =>
    rw [find, path]
    cases w.recordWalkStep (read w.curPhyAddr) stopAtLevel with
    | none => exact mem_cons_self
    | some w' => exact mem_cons_of_mem _ (ih w')

variable {stopAtLevel : Level}

/-- A walk through words that have kept its way ends at the same word. -/
theorem find_of_sameWay {dom : Nat → Bool} {c c' : Words} {steps : Nat} {w : Walk}
    (h : ∀ i ∈ w.path (c.entryAt dom) stopAtLevel steps, Pte.SameWay (c.read dom i)
      (c'.read dom i)) :
    w.find (c'.entryAt dom) stopAtLevel steps =
        { w.find (c.entryAt dom) stopAtLevel steps with
          pte := c'.entryAt dom (w.find (c.entryAt dom) stopAtLevel steps).phyAddrOfPte } ∧
      w.path (c'.entryAt dom) stopAtLevel steps =
        w.path (c.entryAt dom) stopAtLevel steps := by
  induction steps generalizing w with
  | zero => exact ⟨rfl, rfl⟩
  | succ steps ih =>
    have hstep : w.recordWalkStep (c'.entryAt dom w.curPhyAddr) stopAtLevel =
        w.recordWalkStep (c.entryAt dom w.curPhyAddr) stopAtLevel := by
      rcases h _ mem_cons_self with heq | ⟨hold, hnew⟩
      · rw [entryAt, heq, entryAt]
      · -- a leaf ends the walk, before and after
        rw [recordWalkStep, recordWalkStep, entryAt, entryAt, hold, hnew,
          if_neg fun h => absurd h.1 (by decide), if_neg fun h => absurd h.1 (by decide)]
    rw [find, find, path, path, hstep]
    rw [path] at h
    cases hw : w.recordWalkStep (c.entryAt dom w.curPhyAddr) stopAtLevel with
    | none => exact ⟨rfl, rfl⟩
    | some w' =>
      rw [hw] at h
      have := ih fun i hi => h i (mem_cons_of_mem _ hi)
      exact ⟨this.1, congrArg _ this.2⟩

/-- The index a walk uses in the table below a level. -/
def indexAt (w : Walk) (level : Level) : Word :=
  if level = 0 then w.l1Index else if level = 1 then w.l2Index else w.l3Index

/-- A step goes down one level, by the index of the level it leaves. -/
theorem recordWalkStep_eq_some {w w' : Walk} {pte : Word}
    (h : w.recordWalkStep pte stopAtLevel = some w') :
    w'.curLevel.val = w.curLevel.val + 1 ∧ w'.indexAt = w.indexAt ∧
      w'.curPhyAddr = getPhyAddrFromPTD pte (w.indexAt w.curLevel) := by
  unfold recordWalkStep at h
  split at h
  · next hc =>
    cases h
    refine ⟨?_, rfl, rfl⟩
    have hlt : w.curLevel.val < stopAtLevel.val := hc.2
    rw [Fin.val_add]
    exact mod_eq_of_lt (by show w.curLevel.val + 1 < 4; omega)
  · cases h

/-- No step goes up. -/
theorem curLevel_le_find (stopAtLevel : Level) (steps : Nat) (w : Walk) :
    w.curLevel.val ≤ (w.find read stopAtLevel steps).level.val := by
  induction steps generalizing w with
  | zero => exact le_refl _
  | succ steps ih =>
    rw [find]
    cases hw : w.recordWalkStep (read w.curPhyAddr) stopAtLevel with
    | none => exact le_refl _
    | some w' =>
      have := ih w'
      have := (recordWalkStep_eq_some hw).1
      dsimp only
      omega

/-- Walks that agree in the indices they use are the same. -/
theorem find_congr (stopAtLevel : Level) {steps : Nat} {v w : Walk}
    (hlevel : v.curLevel = w.curLevel) (haddr : v.curPhyAddr = w.curPhyAddr)
    (hindex : ∀ k : Level, w.curLevel.val ≤ k.val → k.val < (w.find read stopAtLevel
      steps).level.val → v.indexAt k = w.indexAt k) :
    v.find read stopAtLevel steps = w.find read stopAtLevel steps ∧
      v.path read stopAtLevel steps = w.path read stopAtLevel steps := by
  induction steps generalizing v w with
  | zero =>
    rw [find, find, path, path, result, result, hlevel, haddr]
    exact ⟨rfl, rfl⟩
  | succ steps ih =>
    rw [find] at hindex
    rw [find, find, path, path, haddr]
    cases hw : w.recordWalkStep (read w.curPhyAddr) stopAtLevel with
    | none =>
      have hv : v.recordWalkStep (read w.curPhyAddr) stopAtLevel = none := by
        unfold recordWalkStep at hw ⊢
        rw [hlevel]
        split at hw
        · cases hw
        · next hc => exact if_neg hc
      rw [hv, result, result, hlevel, haddr]
      exact ⟨rfl, rfl⟩
    | some w' =>
      rw [hw] at hindex
      dsimp only at hindex
      obtain ⟨v', hv⟩ : ∃ v', v.recordWalkStep (read w.curPhyAddr) stopAtLevel = some v' := by
        unfold recordWalkStep at hw ⊢
        rw [hlevel]
        split at hw
        · next hc => exact ⟨_, if_pos hc⟩
        · cases hw
      obtain ⟨hwl, hwi, hwa⟩ := recordWalkStep_eq_some hw
      obtain ⟨hvl, hvi, hva⟩ := recordWalkStep_eq_some hv
      have hle := curLevel_le_find read stopAtLevel steps w'
      -- the walk goes on, so the index of this level is one of those that agree
      have hcur : v.indexAt w.curLevel = w.indexAt w.curLevel :=
        hindex w.curLevel (le_refl _) (by omega)
      rw [hv]
      have := ih (w := w') (Fin.ext (by rw [hvl, hwl, hlevel]))
        (by rw [hva, hwa, hlevel, hcur])
        (fun k hk hlt => by rw [hvi, hwi]; exact hindex k (by omega) hlt)
      exact ⟨this.1, congrArg _ this.2⟩

end Walk

/-! ## Tags -/

/-- A field of a field is a field. -/
theorem readBits_readBits (x : Word) {h l h' l' : Nat} (hh : h < 32) (hin : l + h' ≤ h) :
    readBits (readBits x h l) h' l' = readBits x (l + h') (l + l') := by
  apply BitVec.eq_of_getLsbD_eq
  intro i _
  rw [getLsbD_readBits _ (by omega), getLsbD_readBits _ hh, getLsbD_readBits _ (by omega)]
  by_cases hi : l' + i ≤ h'
  · rw [decide_eq_true hi, decide_eq_true (by omega), decide_eq_true (by omega), Bool.true_and,
      Bool.true_and, Bool.true_and, add_assoc]
  · rw [decide_eq_false hi, Bool.false_and, decide_eq_false (by omega), Bool.false_and]

/-- A tag determines every index above its level. -/
theorem indexAt_start_of_tag {va va' : Word} {level k : Level}
    (h : vaTagForLevel va level = vaTagForLevel va' level) (hk : k.val < level.val)
    (ctp context : Word) :
    (start ctp context va).indexAt k = (start ctp context va').indexAt k := by
  have hfield (t a b : Nat) (ht : t + a ≤ 31) (htag : readBits va 31 t = readBits va' 31 t) :
      readBits va (t + a) (t + b) = readBits va' (t + a) (t + b) := by
    rw [← readBits_readBits va (by decide) ht, ← readBits_readBits va' (by decide) ht, htag]
  fin_cases level <;> fin_cases k <;> try exact absurd hk (by decide)
  · exact h
  · exact hfield 18 13 6 (by decide) h
  · exact hfield 18 5 0 (by decide) h
  · exact hfield 12 19 12 (by decide) h
  · exact hfield 12 11 6 (by decide) h
  · exact hfield 12 5 0 (by decide) h

/-! ## Tables -/

section Tables

variable (dom : Nat → Bool) (ctp : Word) (c : Words) (context va : Word)

/-- Where a walk from a context table ends. -/
def tableWalk : WalkResult := (start ctp context va).find (c.entryAt dom) 3 3

/-- The words that walk reads. -/
def tablePath : List Nat := (start ctp context va).path (c.entryAt dom) 3 3

variable {dom ctp c context va}

/-- The entry that a walk finds is in memory. -/
theorem pte_tableWalk :
    (tableWalk dom ctp c context va).pte =
      c.entryAt dom (tableWalk dom ctp c context va).phyAddrOfPte :=
  pte_find _ _ _ _

/-- The addresses a leaf serves have one walk. -/
theorem tableWalk_of_hits {va' : Word} {e : Entry}
    (hhit : hits va' context (tableWalk dom ctp c context va).level e = true)
    (htag : e.vaTag = vaTagForLevel va (tableWalk dom ctp c context va).level) :
    tableWalk dom ctp c context va' = tableWalk dom ctp c context va ∧
      tablePath dom ctp c context va' = tablePath dom ctp c context va := by
  refine find_congr _ _ rfl rfl fun k _ hk => ?_
  simp only [hits, Bool.and_eq_true, Bool.or_eq_true, beq_iff_eq] at hhit
  change k.val < (tableWalk dom ctp c context va).level.val at hk
  rcases hhit.2 with h0 | h
  · rw [h0] at hk
    exact absurd hk (not_lt_zero _)
  · exact indexAt_start_of_tag (h.symm.trans htag) hk ctp context

variable {c' : Words}

/-- Where every word leaves the way as it is, the walk ends at the same place. -/
theorem tableWalk_of_sameWay
    (h : ∀ i ∈ tablePath dom ctp c context va, Pte.SameWay (c.read dom i) (c'.read dom i)) :
    tableWalk dom ctp c' context va =
        { tableWalk dom ctp c context va with
          pte := c'.entryAt dom (tableWalk dom ctp c context va).phyAddrOfPte } ∧
      tablePath dom ctp c' context va = tablePath dom ctp c context va :=
  find_of_sameWay h

/-- The word where it ends is one that it reads. -/
theorem mem_tablePath :
    (tableWalk dom ctp c context va).phyAddrOfPte.toNat / 4 ∈
      tablePath dom ctp c context va :=
  mem_path_find _ _ _ _

end Tables

end SparcV8
