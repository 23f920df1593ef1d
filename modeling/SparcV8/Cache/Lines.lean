import SparcV8.Cache.CacheArray
import SparcV8.Mmu.Access

/-!
# Cached lines and the lines of memory

A line is a copy of 16 words of memory. A store that reaches both merges the same bytes into both. A
copy may be allowed to differ from memory in the words of a set.
-/

namespace SparcV8

open BitVec Words List Nat

/-! ## Merging -/

theorem and_one_shiftLeft_ne_zero_iff (mask : BitVec 8) {j : Nat} (hj : j < 8) :
    mask &&& ((1 : BitVec 8) <<< j) ≠ 0 ↔ mask.getLsbD j = true := by
  have htwo : ((1 : BitVec 8) <<< j) = twoPow 8 j := rfl
  rw [htwo, and_twoPow]
  cases mask.getLsbD j with
  | false => simp
  | true =>
    have hne : twoPow 8 j ≠ 0 := by
      intro h0
      have hbit := congrArg (fun x => x.getLsbD j) h0
      simp [hj] at hbit
    simpa using hne

theorem getLsbD_lane {i j : Nat} (hi : i < 64) :
    ((0xFF : BitVec 64) <<< (8 * j)).getLsbD i = decide (i / 8 = j) := by
  have hbyte : ∀ k < 64, (0xFF : BitVec 64).getLsbD k = decide (k < 8) := by decide
  rw [getLsbD_shiftLeft, decide_eq_true hi, Bool.true_and, hbyte _ (by omega)]
  by_cases hj : i / 8 = j
  · rw [decide_eq_true hj, decide_eq_false (by omega), decide_eq_true (by omega)]
    rfl
  · rw [decide_eq_false hj]
    by_cases hlt : i < 8 * j
    · rw [decide_eq_true hlt]
      rfl
    · rw [decide_eq_false hlt, decide_eq_false (by omega)]
      rfl

variable {i : Nat}

/-- After `k` rounds of the loop the selected ones of the low `k` bytes are replaced. -/
theorem getLsbD_mergeBytesLoop (dw data : BitVec 64) (mask : BitVec 8) {k : Nat} (hk : k ≤ 8)
    (hi : i < 64) :
    ((range k).foldl
      (fun dw j =>
        if mask &&& ((1 : BitVec 8) <<< j) ≠ 0 then
          let laneMask : BitVec 64 := 0xFF <<< (8 * j)
          (dw &&& ~~~laneMask) ||| (data &&& laneMask)
        else dw) dw).getLsbD i =
      if i / 8 < k ∧ mask.getLsbD (i / 8) = true then data.getLsbD i else dw.getLsbD i := by
  induction k with
  | zero => simp
  | succ k ih =>
    rw [range_succ, foldl_append, foldl_cons, foldl_nil]
    have hround : ∀ x : BitVec 64, (if mask &&& ((1 : BitVec 8) <<< k) ≠ 0 then
          (x &&& ~~~((0xFF : BitVec 64) <<< (8 * k))) |||
            (data &&& ((0xFF : BitVec 64) <<< (8 * k)))
        else x).getLsbD i =
        if i / 8 = k ∧ mask.getLsbD k = true then data.getLsbD i else x.getLsbD i := by
      intro x
      by_cases hm : mask &&& ((1 : BitVec 8) <<< k) ≠ 0
      · have hbit := (and_one_shiftLeft_ne_zero_iff mask (by omega)).1 hm
        rw [if_pos hm, getLsbD_or, getLsbD_and, getLsbD_and, getLsbD_not, getLsbD_lane hi, hbit]
        by_cases hik : i / 8 = k <;> simp [hik, hi]
      · have hbit : mask.getLsbD k = false := by
          rw [← Bool.not_eq_true, ← and_one_shiftLeft_ne_zero_iff mask (show k < 8 by omega)]
          exact hm
        rw [if_neg hm, hbit]
        simp
    refine (hround _).trans ?_
    rw [ih (by omega)]
    by_cases hik : i / 8 = k
    · subst hik
      by_cases hm : mask.getLsbD (i / 8) = true <;> simp [hm]
    · have hlt : i / 8 < k + 1 ↔ i / 8 < k := by omega
      simp [hik, hlt]

variable (dw data : BitVec 64)

theorem getLsbD_mergeBytes (mask : BitVec 8) (hi : i < 64) :
    (mergeBytes dw data mask).getLsbD i =
      if mask.getLsbD (i / 8) = true then data.getLsbD i else dw.getLsbD i := by
  have hbyte : i / 8 < 8 := by omega
  rw [mergeBytes, getLsbD_mergeBytesLoop _ _ _ (by decide) hi]
  simp [hbyte]

/-- The low half of a merged doubleword is the word that memory merges. -/
theorem lowWord_mergeBytes (mask : BitVec 8) :
    lowWord (mergeBytes dw data mask) =
      mergeMaskedBytes (lowWord dw) (lowWord data) (readBits (mask.setWidth 32) 3 0) := by
  apply eq_of_getLsbD_eq
  intro i hi
  have hlow (d : BitVec 64) : (lowWord d).getLsbD i = d.getLsbD i := by
    rw [lowWord, getLsbD_setWidth, decide_eq_true hi, Bool.true_and]
  have hmask : (readBits (mask.setWidth 32) 3 0).getLsbD (i / 8) = mask.getLsbD (i / 8) := by
    rw [getLsbD_readBits _ (by decide), zero_add, getLsbD_setWidth,
      decide_eq_true (by omega), decide_eq_true (by omega), Bool.true_and, Bool.true_and]
  rw [hlow, getLsbD_mergeBytes _ _ _ (by omega), getLsbD_mergeMaskedBytes _ _ _ hi, hmask, hlow,
    hlow]

theorem highWord_mergeBytes (mask : BitVec 8) :
    highWord (mergeBytes dw data mask) =
      mergeMaskedBytes (highWord dw) (highWord data) (readBits (mask.setWidth 32) 7 4) := by
  apply eq_of_getLsbD_eq
  intro i hi
  have hhigh (d : BitVec 64) : (highWord d).getLsbD i = d.getLsbD (32 + i) := by
    rw [highWord, getLsbD_setWidth, decide_eq_true hi, Bool.true_and, getLsbD_ushiftRight]
  have hmask : (readBits (mask.setWidth 32) 7 4).getLsbD (i / 8) = mask.getLsbD (4 + i / 8) := by
    rw [getLsbD_readBits _ (by decide), getLsbD_setWidth, decide_eq_true (by omega),
      decide_eq_true (by omega), Bool.true_and, Bool.true_and]
  have hbyte : (32 + i) / 8 = 4 + i / 8 := by omega
  rw [hhigh, getLsbD_mergeBytes _ _ _ (by omega), getLsbD_mergeMaskedBytes _ _ _ hi, hmask, hhigh,
    hhigh, hbyte]

/-! ## Stores -/

namespace Words

variable (dom : Nat → Bool) (c : Words)

/-- The memory after a store of some bytes of the doubleword at an address. -/
def stored (a : BitVec 64) (word0 word1 mask : Word) : Words :=
  (writePhysicalMaskedDoubleWord (ram dom) a word0 word1 mask c).2

variable (a : BitVec 64)

theorem writePhysicalMaskedDoubleWord_eq (word0 word1 mask : Word) :
    writePhysicalMaskedDoubleWord (ram dom) a word0 word1 mask c =
      (false, c.stored dom a word0 word1 mask) := rfl

theorem atomicReadModifyWritePhysical_eq (word0 word1 mask : Word) :
    atomicReadModifyWritePhysical (ram dom) a word0 word1 mask c =
      ({ word0 := c.read dom (a.toNat / 4), word1 := c.read dom (a.toNat / 4 + 1) },
        c.stored dom a word0 word1 mask) := by
  simp [atomicReadModifyWritePhysical, stored, writePhysicalMaskedDoubleWord, ram, access]

/-- A store merges bytes into two words. -/
theorem read_stored (word0 word1 mask : Word) (n : Nat) :
    (c.stored dom a word0 word1 mask).read dom n =
      if dom n = true ∧ n = a.toNat / 4 then
        mergeMaskedBytes (c.read dom n) word0 (readBits ((mask.setWidth 8).setWidth 32) 3 0)
      else if dom n = true ∧ n = a.toNat / 4 + 1 then
        mergeMaskedBytes (c.read dom n) word1 (readBits ((mask.setWidth 8).setWidth 32) 7 4)
      else c.read dom n := by
  simp only [stored, writePhysicalMaskedDoubleWord, ram, access, read_write,
    lowWord_doubleword, highWord_doubleword]
  have habsent (i : Nat) (h : ¬ dom i = true) : c.read dom i = 0 := if_neg h
  by_cases h1 : n = a.toNat / 4 + 1
  · rw [if_pos h1, if_neg (show ¬(dom n = true ∧ n = a.toNat / 4) by omega)]
    subst h1
    by_cases hp : dom (a.toNat / 4 + 1) = true
    · rw [if_pos hp, if_pos ⟨hp, rfl⟩]
    · rw [if_neg hp, if_neg fun h => hp h.1, habsent _ hp]
  · rw [if_neg h1, if_neg (show ¬(dom n = true ∧ n = a.toNat / 4 + 1) from fun h => h1 h.2)]
    by_cases h0 : n = a.toNat / 4
    · rw [if_pos h0]
      subst h0
      by_cases hp : dom (a.toNat / 4) = true
      · rw [if_pos hp, if_pos ⟨hp, rfl⟩]
      · rw [if_neg hp, if_neg fun h => hp h.1, habsent _ hp]
    · rw [if_neg h0, if_neg fun h => h0 h.2]

/-- A store to another doubleword leaves a word. -/
theorem read_stored_of_ne {a : BitVec 64} (ha : a.toNat % 8 = 0) (word0 word1 mask : Word) {n : Nat}
    (hn : n / 2 ≠ a.toNat / 8) : (c.stored dom a word0 word1 mask).read dom n = c.read dom n := by
  rw [read_stored, if_neg fun h => hn (by omega), if_neg fun h => hn (by omega)]

end Words

/-! ## Copies -/

namespace CacheArray

/-- Word `i` of a line. -/
def Line.word (l : Line) (i : Nat) : Word :=
  let dw := l.data (Fin.ofNat 8 (i / 2))
  if i % 2 = 0 then lowWord dw else highWord dw

/-- The line is a copy of memory, but for the words of a set. -/
def Line.CopyOff (dom : Nat → Bool) (c : Words) (X : Set Nat) (l : Line) : Prop :=
  ∀ i < 16, 16 * l.physicalLine.toNat + i ∉ X →
    l.word i = c.read dom (16 * l.physicalLine.toNat + i)

variable {dom : Nat → Bool} {c c' : Words} {X X' : Set Nat} {l : Line}

/-- A copy stays one for as long as its words do. -/
theorem Line.CopyOff.of_read_eq (h : l.CopyOff dom c X)
    (hread : ∀ i < 16, 16 * l.physicalLine.toNat + i ∉ X' →
      16 * l.physicalLine.toNat + i ∉ X ∧
        c'.read dom (16 * l.physicalLine.toNat + i) =
          c.read dom (16 * l.physicalLine.toNat + i)) :
    l.CopyOff dom c' X' := by
  intro i hi hX'
  obtain ⟨hX, hsame⟩ := hread i hi hX'
  rw [hsame]
  exact h i hi hX

/-- What a line read returns is a copy. -/
theorem copyOff_lineAt (pa : BitVec 64) (tag acc : Word) :
    (Line.mk tag acc (pa >>> LOG_LINE_BYTES) (c.lineAt dom (pa.toNat / 64))).CopyOff dom c
      X := by
  intro i hi _
  have hline : (pa >>> LOG_LINE_BYTES).toNat = pa.toNat / 64 := by
    rw [toNat_ushiftRight, shiftRight_eq_div_pow]
    rfl
  have hfin : (Fin.ofNat 8 (i / 2)).val = i / 2 := mod_eq_of_lt (by omega)
  unfold Line.word lineAt dwordAt
  dsimp only
  rw [hline, hfin]
  by_cases h : i % 2 = 0
  · rw [if_pos h, lowWord_doubleword]
    congr 1
    omega
  · rw [if_neg h, highWord_doubleword]
    congr 1
    omega

/-- A whole copy holds the doublewords of its line of memory. -/
theorem Line.CopyOff.data_eq (h : l.CopyOff dom c ∅) :
    l.data = c.lineAt dom l.physicalLine.toNat := by
  funext k
  have hk := k.isLt
  have hlow := h (2 * k) (by omega) (Set.notMem_empty _)
  have hhigh := h (2 * k + 1) (by omega) (Set.notMem_empty _)
  have hfin (n : Nat) (hn : n / 2 = k.val) : Fin.ofNat 8 (n / 2) = k :=
    Fin.ext (by rw [hn]; exact mod_eq_of_lt hk)
  unfold Line.word at hlow hhigh
  rw [if_pos (by omega), hfin _ (by omega)] at hlow
  rw [if_neg (by omega), hfin _ (by omega)] at hhigh
  rw [← doubleword_words (l.data k), hlow, hhigh, lineAt, dwordAt]
  congr 2 <;> omega

/-- The doubleword that an address selects, after the page offset. -/
theorem toNat_dwordIndex (va : Word) : (dwordIndex va).val = va.toNat / 8 % 8 := by
  have hand : (va >>> 3 &&& 7).toNat = va.toNat / 8 % 8 := by
    rw [toNat_and, toNat_ushiftRight, shiftRight_eq_div_pow]
    exact and_two_pow_sub_one_eq_mod _ 3
  exact hand

theorem word_write (va : Word) (data : BitVec 64) (mask : BitVec 8) (hi : i < 16) :
    (l.write va data mask).word i =
      if i / 2 = va.toNat / 8 % 8 then
        if i % 2 = 0 then
          mergeMaskedBytes (l.word i) (lowWord data) (readBits (mask.setWidth 32) 3 0)
        else mergeMaskedBytes (l.word i) (highWord data) (readBits (mask.setWidth 32) 7 4)
      else l.word i := by
  have hfin : (Fin.ofNat 8 (i / 2)).val = i / 2 := mod_eq_of_lt (by omega)
  unfold Line.word Line.write
  dsimp only
  by_cases hdw : i / 2 = va.toNat / 8 % 8
  · have hindex : dwordIndex va = Fin.ofNat 8 (i / 2) :=
      Fin.ext (by rw [toNat_dwordIndex, hfin, hdw])
    rw [if_pos hdw, hindex, Function.update_self, lowWord_mergeBytes, highWord_mergeBytes]
    split <;> rfl
  · have hindex : Fin.ofNat 8 (i / 2) ≠ dwordIndex va := by
      intro hc
      have hval := congrArg Fin.val hc
      rw [toNat_dwordIndex, hfin] at hval
      exact hdw hval
    rw [if_neg hdw, Function.update_of_ne hindex]

/-- A store that reaches a copy and its line of memory leaves a copy. -/
theorem Line.CopyOff.write (h : l.CopyOff dom c X) {pa : BitVec 64} {va : Word}
    (hline : l.physicalLine.toNat = pa.toNat / 64) (hpa : pa.toNat % 8 = 0)
    (hva : pa.toNat % 4096 = va.toNat % 4096)
    (hdom : ∀ i < 16, dom (16 * l.physicalLine.toNat + i) = true) (word0 word1 mask : Word) :
    (l.write va (doubleword word1 word0) (mask.setWidth 8)).CopyOff dom
      (c.stored dom pa word0 word1 mask) X := by
  intro i hi hX
  have hX' : 16 * l.physicalLine.toNat + i ∉ X := hX
  change _ = (c.stored dom pa word0 word1 mask).read dom (16 * l.physicalLine.toNat + i)
  rw [word_write _ _ _ hi, read_stored, h i hi hX', lowWord_doubleword, highWord_doubleword]
  by_cases hdw : i / 2 = va.toNat / 8 % 8
  · rw [if_pos hdw]
    by_cases heven : i % 2 = 0
    · rw [if_pos heven, if_pos ⟨hdom i hi, by omega⟩]
    · rw [if_neg heven, if_neg fun hc => heven (by omega), if_pos ⟨hdom i hi, by omega⟩]
  · rw [if_neg hdw, if_neg fun hc => hdw (by omega), if_neg fun hc => hdw (by omega)]

end CacheArray

end SparcV8
