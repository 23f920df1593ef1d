import SparcV8.Core.Word.Field

/-!
# Bit manipulation of 32-bit words

The helpers of `BitManipulation.cpp`. Their asserts (`h < 32`, `l ≤ h`) are on constant positions at
every call site but one, the arithmetic right shift, whose position is bounded where it is used.
-/

namespace SparcV8

/-- A 32-bit register, address or instruction (`uint32_t`). -/
abbrev Word := BitVec 32

/-- Bits `h` down to `l` of a 32-bit word. -/
def readBits (reg : Word) (h l : Nat) : Word := bitField reg h l

/-- Bits `h` down to `l` of a 64-bit word. -/
def readBits64 (reg : BitVec 64) (h l : Nat) : BitVec 64 := bitField reg h l

/-- Insert the low bits of `value` between positions `h` and `l`. -/
def writeBits (reg : Word) (h l : Nat) (value : Word) : Word := setBitField reg h l value

/-- `A` concatenated with all 32 bits of `B`. -/
def concatBits (A B : Word) : BitVec 64 :=
  (A.setWidth 64 <<< 32) ||| (readBits B 31 0).setWidth 64

/-- Copy the bit at `highestBit` into every position above it. -/
def signExtend (val : Word) (highestBit : Nat) : Word :=
  if readBits val highestBit highestBit = 0 then writeBits val 31 highestBit 0
  else writeBits val 31 highestBit 0xffffffff

/-- Clear every position above `highestBit`. -/
def zeroExtend (val : Word) (highestBit : Nat) : Word :=
  if highestBit < 31 then writeBits val 31 (highestBit + 1) 0 else val

def signExtendByte (byte : Word) : Word := signExtend byte 7

def zeroExtendByte (byte : Word) : Word := zeroExtend byte 7

variable (halfword : Word)

def signExtendHalfword : Word := signExtend halfword 15

def zeroExtendHalfword : Word := zeroExtend halfword 15

/-! ## Reading fields back -/

variable {h l : Nat}
variable (x : Word)

theorem getLsbD_readBits (hh : h < 32) (i : Nat) :
    (readBits x h l).getLsbD i = (decide (l + i ≤ h) && x.getLsbD (l + i)) :=
  getLsbD_bitField x hh i

theorem getLsbD_writeBits (x v : Word) (hh : h < 32) (i : Nat) :
    (writeBits x h l v).getLsbD i =
      if l ≤ i ∧ i ≤ h then v.getLsbD (i - l) else x.getLsbD i :=
  getLsbD_setBitField x v hh i

@[simp] theorem readBits_writeBits_self {x v : Word} (hb : h < 32 ∧ l ≤ h) :
    readBits (writeBits x h l v) h l = readBits v (h - l) 0 :=
  bitField_setBitField_self x v hb.1 hb.2

@[simp] theorem readBits_writeBits_off {x v : Word} {h' l' : Nat}
    (hb : h < 32 ∧ h' < 32 ∧ (h < l' ∨ h' < l)) :
    readBits (writeBits x h' l' v) h l = readBits x h l :=
  bitField_setBitField_of_disjoint x v hb.1 hb.2.1 hb.2.2

/-- Reading a part of the field just written. -/
theorem readBits_writeBits_of_le (x v : Word) {h' l' : Nat} (hh' : h' < 32) (hh : h ≤ h')
    (hl : l' ≤ l) (hlh : l ≤ h) :
    readBits (writeBits x h' l' v) h l = readBits v (h - l') (l - l') := by
  apply BitVec.eq_of_getLsbD_eq
  intro i _
  rw [getLsbD_readBits _ (by omega), getLsbD_readBits _ (by omega), getLsbD_writeBits _ _ hh']
  by_cases hi : l + i ≤ h
  · rw [if_pos (by omega), decide_eq_true hi, decide_eq_true (by omega),
      show l + i - l' = l - l' + i by omega]
  · rw [decide_eq_false hi, decide_eq_false (by omega), Bool.false_and, Bool.false_and]

theorem toNat_readBits_lt (hb : h < 32 ∧ l ≤ h) : (readBits x h l).toNat < 2 ^ (h - l + 1) :=
  toNat_bitField_lt x hb.1 hb.2

theorem toNat_readBits (hb : h < 32 ∧ l ≤ h) :
    (readBits x h l).toNat = x.toNat / 2 ^ l % 2 ^ (h - l + 1) :=
  toNat_bitField x hb.1 hb.2

theorem toNat_readBits_zero (hh : h < 32) : (readBits x h 0).toNat = x.toNat % 2 ^ (h + 1) :=
  toNat_bitField_zero x hh

/-- A one-bit field holds 0 or 1. -/
theorem readBits_bit {i : Nat} (hi : i < 32) : readBits x i i = 0 ∨ readBits x i i = 1 := by
  have hlt := toNat_readBits_lt x ⟨hi, Nat.le_refl i⟩
  rw [Nat.sub_self] at hlt
  rcases (show (readBits x i i).toNat = 0 ∨ (readBits x i i).toNat = 1 by omega) with h | h
  · exact .inl (BitVec.eq_of_toNat_eq h)
  · exact .inr (BitVec.eq_of_toNat_eq h)

variable {v : Word}

/-- A value already of the field's width is written back unchanged. -/
theorem readBits_zero_of_lt (hh : h < 32) (hv : v.toNat < 2 ^ (h + 1)) : readBits v h 0 = v := by
  apply BitVec.eq_of_toNat_eq
  rw [toNat_readBits_zero v hh, Nat.mod_eq_of_lt hv]

/-! ## Word-aligned addresses -/

theorem readBits_low_eq_zero_iff : readBits x 1 0 = 0 ↔ x.toNat % 4 = 0 := by
  rw [← BitVec.toNat_inj, toNat_readBits_zero x (by decide)]
  rfl

/-- The sum of two word-aligned addresses is word-aligned. -/
theorem readBits_low_add {x y : Word} (hx : readBits x 1 0 = 0) (hy : readBits y 1 0 = 0) :
    readBits (x + y) 1 0 = 0 := by
  rw [readBits_low_eq_zero_iff] at *
  rw [BitVec.toNat_add]
  omega

theorem readBits_low_shiftLeft : readBits (x <<< 2) 1 0 = 0 := by
  rw [readBits_low_eq_zero_iff, BitVec.toNat_shiftLeft, Nat.shiftLeft_eq]
  omega

theorem readBits_low_signExtend {b : Nat} (hb : 1 < b) (hb' : b < 32) :
    readBits (signExtend x b) 1 0 = readBits x 1 0 := by
  unfold signExtend
  split_ifs
  · exact readBits_writeBits_off ⟨by decide, by decide, by omega⟩
  · exact readBits_writeBits_off ⟨by decide, by decide, by omega⟩

/-- A single bit, as the test the source makes of it. -/
theorem readBits_ne_zero_iff {i : Nat} (hi : i < 32) : readBits x i i ≠ 0 ↔ x.getLsbD i = true := by
  have h0 : (readBits x i i).getLsbD 0 = x.getLsbD i := by
    rw [getLsbD_readBits x hi, Nat.add_zero]
    simp
  rcases readBits_bit x hi with h | h <;> rw [h] at h0 ⊢ <;> rw [← h0] <;> decide

/-- Sign extension of a narrow value, in terms of the library's. -/
theorem signExtend_eq {k : Nat} (hk : k < 31) (hv : v.toNat < 2 ^ (k + 1)) :
    signExtend v k = (BitVec.ofNat (k + 1) v.toNat).signExtend 32 := by
  apply BitVec.eq_of_getLsbD_eq
  intro i hi
  have hbit : ∀ j, (BitVec.ofNat (k + 1) v.toNat).getLsbD j = v.getLsbD j := by
    intro j
    rw [BitVec.getLsbD_ofNat, BitVec.testBit_toNat]
    by_cases hj : j < k + 1
    · simp [hj]
    · simp [getLsbD_of_toNat_lt hv (Nat.not_lt.1 hj)]
  have hmsb : (BitVec.ofNat (k + 1) v.toNat).msb = v.getLsbD k := by
    rw [BitVec.msb_eq_getLsbD_last, Nat.add_sub_cancel, hbit]
  -- whichever constant is written, all its bits are the sign bit
  have hwrite : ∀ c : Word, (∀ j < 32, c.getLsbD j = v.getLsbD k) →
      (writeBits v 31 k c).getLsbD i =
        ((BitVec.ofNat (k + 1) v.toNat).signExtend 32).getLsbD i := by
    intro c hc
    rw [getLsbD_writeBits _ _ (by decide), BitVec.getLsbD_signExtend, hbit, hmsb]
    simp only [hi, decide_true, Bool.true_and]
    by_cases hki : k ≤ i
    · rw [if_pos ⟨hki, by omega⟩, hc _ (by omega)]
      split
      · next hik => rw [show i = k by omega]
      · rfl
    · rw [if_neg (fun h => hki h.1), if_pos (by omega)]
  have hsign : readBits v k k = 0 ↔ v.getLsbD k = false := by
    rw [← Bool.not_eq_true, ← readBits_ne_zero_iff v (by omega), not_not]
  unfold signExtend
  split
  · next h =>
    apply hwrite
    intro j _
    rw [hsign.1 h]
    exact BitVec.getLsbD_zero
  · next h =>
    apply hwrite
    intro j hj
    rw [hsign, Bool.not_eq_false] at h
    rw [h, show (0xffffffff : Word) = BitVec.allOnes 32 from rfl, BitVec.getLsbD_allOnes]
    simpa using hj

theorem zeroExtend_eq {k : Nat} (hk : k < 31) (hv : v.toNat < 2 ^ (k + 1)) :
    zeroExtend v k = v := by
  rw [zeroExtend, if_pos hk]
  apply BitVec.eq_of_getLsbD_eq
  intro i hi
  rw [getLsbD_writeBits _ _ (by decide)]
  split
  · next h =>
    rw [getLsbD_of_toNat_lt hv h.1]
    exact BitVec.getLsbD_zero
  · rfl

end SparcV8
