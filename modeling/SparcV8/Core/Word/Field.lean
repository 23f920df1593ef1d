import Mathlib.Data.Nat.Bitwise
import Mathlib.Tactic.Common

/-!
# Bit fields of a machine word

A field is a range of bit positions, named by its highest and lowest one. Reading and writing a
field are characterised bit by bit: a field reads back what was last written to it, and a write to a
disjoint field is not seen.
-/

namespace SparcV8

open BitVec Nat

/-! ## Sizes of index types -/

instance neZero_four : NeZero 4 := ⟨by decide⟩

instance neZero_eight : NeZero 8 := ⟨by decide⟩

/-- A branch on a flag that is off. -/
theorem if_off {α : Sort*} {a b : α} : (if false = true then a else b) = b :=
  rfl

variable {w : Nat}

/-- A number below a power of two has no bits from there on. -/
theorem getLsbD_of_toNat_lt {x : BitVec w} {n i : Nat} (h : x.toNat < 2 ^ n) (hn : n ≤ i) :
    x.getLsbD i = false := by
  rw [← BitVec.testBit_toNat]
  exact Nat.testBit_lt_two_pow (h.trans_le (Nat.pow_le_pow_right (by decide) hn))

/-- The bits from position `h` down to `l`, right-justified. -/
def bitField (x : BitVec w) (h l : Nat) : BitVec w :=
  (x <<< (w - 1 - h)) >>> (w - 1 - h + l)

/-- The word with the bits from `h` down to `l` replaced by the low bits of `v`. -/
def setBitField (x : BitVec w) (h l : Nat) (v : BitVec w) : BitVec w :=
  let mask := BitVec.allOnes w >>> (w - 1 - h + l)
  (x &&& ~~~(mask <<< l)) ||| ((v &&& mask) <<< l)

variable (x : BitVec w) {h l : Nat}

/-- Bit `i` of a field is bit `l + i` of the word. -/
theorem getLsbD_bitField (hh : h < w) (i : Nat) :
    (bitField x h l).getLsbD i = (decide (l + i ≤ h) && x.getLsbD (l + i)) := by
  simp only [bitField, getLsbD_ushiftRight, getLsbD_shiftLeft]
  by_cases hi : l + i ≤ h
  · have h1 : w - 1 - h + l + i < w := by omega
    have h2 : ¬ w - 1 - h + l + i < w - 1 - h := by omega
    have h3 : w - 1 - h + l + i - (w - 1 - h) = l + i := by omega
    simp [hi, h1, h2, h3]
  · have h1 : ¬ w - 1 - h + l + i < w := by omega
    simp [hi, h1]

/-- A write changes exactly the positions of its field. -/
theorem getLsbD_setBitField (x v : BitVec w) (hh : h < w) (i : Nat) :
    (setBitField x h l v).getLsbD i =
      if l ≤ i ∧ i ≤ h then v.getLsbD (i - l) else x.getLsbD i := by
  simp only [setBitField, BitVec.getLsbD_or, getLsbD_and, getLsbD_not,
    getLsbD_shiftLeft, getLsbD_ushiftRight, BitVec.getLsbD_allOnes]
  by_cases hi : i < w
  · by_cases h1 : l ≤ i
    · by_cases h2 : i ≤ h
      · have h3 : w - 1 - h + l + (i - l) = w - 1 - h + i := by omega
        have h4 : w - 1 - h + i < w := by omega
        have h5 : ¬ i < l := by omega
        simp [hi, h1, h2, h3, h4, h5]
      · have h3 : ¬ w - 1 - h + l + (i - l) < w := by omega
        simp [hi, h2, h3]
    · have h4 : i < l := by omega
      simp [hi, h1, h4]
  · have h2 : ¬ i ≤ h := by omega
    have hx : x.getLsbD i = false := getLsbD_of_ge x i (by omega)
    simp [hi, h2, hx]

/-- Reading back the field just written gives the cropped value. -/
theorem bitField_setBitField_self (x v : BitVec w) (hh : h < w) (hl : l ≤ h) :
    bitField (setBitField x h l v) h l = bitField v (h - l) 0 := by
  apply eq_of_getLsbD_eq
  intro i hi
  rw [getLsbD_bitField _ hh, getLsbD_setBitField _ _ hh, getLsbD_bitField _ (by omega)]
  by_cases hb : l + i ≤ h
  · have h1 : i ≤ h - l := by omega
    simp [hb, h1]
  · have h1 : ¬ 0 + i ≤ h - l := by omega
    simp only [hb, h1, decide_false, Bool.false_and]

/-- A write to a disjoint field is not seen. -/
theorem bitField_setBitField_of_disjoint (x v : BitVec w) {h l h' l' : Nat} (hh : h < w)
    (hh' : h' < w) (hd : h < l' ∨ h' < l) :
    bitField (setBitField x h' l' v) h l = bitField x h l := by
  apply eq_of_getLsbD_eq
  intro i hi
  rw [getLsbD_bitField _ hh, getLsbD_setBitField _ _ hh', getLsbD_bitField _ hh]
  by_cases hb : l + i ≤ h
  · have hn : ¬ (l' ≤ l + i ∧ l + i ≤ h') := by omega
    simp only [hn, ite_false]
  · simp only [hb, decide_false, Bool.false_and]

/-- A field of width `k` is a number below `2 ^ k`. -/
theorem toNat_bitField_lt (hh : h < w) (hl : l ≤ h) : (bitField x h l).toNat < 2 ^ (h - l + 1) := by
  apply Nat.lt_pow_two_of_testBit
  intro i hi
  rw [testBit_toNat, getLsbD_bitField x hh]
  have hn : ¬ l + i ≤ h := by omega
  simp [hn]

/-- The field from position 0 is the remainder modulo its size. -/
theorem toNat_bitField_zero {h : Nat} (hh : h < w) :
    (bitField x h 0).toNat = x.toNat % 2 ^ (h + 1) := by
  apply eq_of_testBit_eq
  intro i
  rw [testBit_toNat, getLsbD_bitField x hh, Nat.testBit_mod_two_pow, testBit_toNat, Nat.zero_add]
  congr 1
  exact decide_eq_decide.mpr (by omega)

/-- A field as a quotient and remainder. -/
theorem toNat_bitField (hh : h < w) (hl : l ≤ h) :
    (bitField x h l).toNat = x.toNat / 2 ^ l % 2 ^ (h - l + 1) := by
  apply eq_of_testBit_eq
  intro i
  rw [testBit_toNat, getLsbD_bitField x hh, Nat.testBit_mod_two_pow,
    testBit_div_two_pow, testBit_toNat, Nat.add_comm i l]
  congr 1
  exact decide_eq_decide.mpr (by omega)

/-- Clearing the low `k` bits rounds down to a multiple of `2 ^ k`. -/
theorem toNat_and_not_low (k : Nat) :
    (x &&& ~~~(BitVec.ofNat w (2 ^ k - 1))).toNat = x.toNat / 2 ^ k * 2 ^ k := by
  apply eq_of_testBit_eq
  intro i
  rw [testBit_toNat, getLsbD_and, getLsbD_not, BitVec.getLsbD_ofNat, Nat.testBit_two_pow_sub_one,
    Nat.testBit_mul_two_pow, testBit_div_two_pow, testBit_toNat]
  by_cases hi : i < w
  · by_cases hk : i < k
    · simp [hi, hk, Nat.not_le.2 hk]
    · simp [hi, hk, Nat.le_of_not_lt hk, Nat.sub_add_cancel (Nat.le_of_not_lt hk)]
  · have hx : x.getLsbD i = false := getLsbD_of_ge x i (by omega)
    by_cases hk : k ≤ i
    · simp [hx, hk, Nat.sub_add_cancel hk]
    · simp [hx, hk]

/-- Clearing the low `k` bits keeps the others. -/
theorem getLsbD_and_not_low (k i : Nat) :
    (x &&& ~~~(BitVec.ofNat w (2 ^ k - 1))).getLsbD i = (decide (k ≤ i) && x.getLsbD i) := by
  rw [← testBit_toNat, toNat_and_not_low, Nat.testBit_mul_two_pow, testBit_div_two_pow,
    testBit_toNat]
  by_cases hk : k ≤ i
  · rw [Nat.sub_add_cancel hk]
  · rw [decide_eq_false hk, Bool.false_and, Bool.false_and]

/-- The whole word is its own field. -/
theorem bitField_whole (hw : 0 < w) : bitField x (w - 1) 0 = x := by
  apply eq_of_getLsbD_eq
  intro i hi
  rw [getLsbD_bitField x (by omega), Nat.zero_add]
  have h1 : i ≤ w - 1 := by omega
  simp [h1]

end SparcV8
