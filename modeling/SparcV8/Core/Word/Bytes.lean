import Mathlib.Data.Nat.Bitwise
import Mathlib.Tactic.Common
import Mathlib.Tactic.Ring

/-!
# Big-endian bytes

A byte memory is a function from addresses to bytes. An `n`-byte number occupies
consecutive addresses, the most significant byte at the lowest one.
-/

namespace SparcV8

/-- Byte `k` of an `n`-byte number, counted from the most significant one. -/
def bigEndianByte (n v k : Nat) : BitVec 8 := BitVec.ofNat 8 (v / 256 ^ (n - 1 - k))

/-- The `n`-byte number at address `a`. -/
def readBytes (b : Nat → BitVec 8) (a : Nat) : Nat → Nat
  | 0 => 0
  | n + 1 => readBytes b a n * 256 + (b (a + n)).toNat

/-- The memory with the `n`-byte number `v` stored at address `a`. -/
def writeBytes (b : Nat → BitVec 8) (a n v : Nat) : Nat → BitVec 8 :=
  fun x => if a ≤ x ∧ x < a + n then bigEndianByte n v (x - a) else b x

/-- Only the bytes of the number itself matter. -/
theorem readBytes_congr {b b' : Nat → BitVec 8} {a n : Nat} (h : ∀ i < n, b (a + i) = b' (a + i)) :
    readBytes b a n = readBytes b' a n := by
  induction n with
  | zero => rfl
  | succ n ih => rw [readBytes, readBytes, ih fun i hi => h i (by omega), h n (by omega)]

variable (b : Nat → BitVec 8)

theorem readBytes_lt (a n : Nat) : readBytes b a n < 256 ^ n := by
  induction n with
  | zero => exact Nat.one_pos
  | succ n ih =>
    have hbyte := (b (a + n)).isLt
    rw [readBytes, pow_succ]
    omega

theorem toNat_bigEndianByte (n v k : Nat) :
    (bigEndianByte n v k).toNat = v / 256 ^ (n - 1 - k) % 256 := by
  rw [bigEndianByte, BitVec.toNat_ofNat]

/-- Consecutive bytes of a number read as the part of it that they hold. -/
theorem readBytes_of_bytes {b : Nat → BitVec 8} {a n v o : Nat} (k : Nat) (hk : o + k ≤ n)
    (h : ∀ i < k, b (a + i) = bigEndianByte n v (o + i)) :
    readBytes b a k = v / 256 ^ (n - o - k) % 256 ^ k := by
  induction k with
  | zero => simp [readBytes, Nat.mod_one]
  | succ k ih =>
    rw [readBytes, ih (by omega) (fun i hi => h i (by omega)), h k (by omega), toNat_bigEndianByte]
    have he : n - o - k = (n - o - (k + 1)) + 1 := by omega
    have hl : n - 1 - (o + k) = n - o - (k + 1) := by omega
    rw [he, hl, pow_succ, ← Nat.div_div_eq_div_mul]
    generalize v / 256 ^ (n - o - (k + 1)) = x
    rw [pow_succ', Nat.mod_mul]
    ring

/-- Bytes beyond the size of the number do not matter. -/
theorem bigEndianByte_mod (n v k : Nat) (hk : k < n) :
    bigEndianByte n (v % 256 ^ n) k = bigEndianByte n v k := by
  apply BitVec.eq_of_toNat_eq
  rw [toNat_bigEndianByte, toNat_bigEndianByte]
  have hn : n = (n - 1 - k) + (k + 1) := by omega
  generalize n - 1 - k = i at hn ⊢
  rw [hn, pow_add, Nat.mod_mul_right_div_self, Nat.mod_mod_of_dvd]
  exact Dvd.intro_left (256 ^ k) (pow_succ 256 k).symm

/-- Shifting a number up by `i` bytes moves its bytes to lower addresses. -/
theorem bigEndianByte_shift (n v : Nat) {k i : Nat} (h : k + i < n) :
    bigEndianByte n (v * 256 ^ i) k = bigEndianByte n v (k + i) := by
  unfold bigEndianByte
  have hn : n - 1 - k = (n - 1 - (k + i)) + i := by omega
  rw [hn, pow_add, Nat.mul_div_mul_right _ _ (Nat.pow_pos (by decide))]

/-- The low bytes of a number, as a shorter number. -/
theorem bigEndianByte_low (n v : Nat) {m k : Nat} (hm : m ≤ n) (hk : k < m) :
    bigEndianByte n v (n - m + k) = bigEndianByte m v k := by
  unfold bigEndianByte
  have hn : n - 1 - (n - m + k) = m - 1 - k := by omega
  rw [hn]

variable {n m hi lo k : Nat}

/-- The upper half of a concatenation. -/
theorem bigEndianByte_concat_high (hlo : lo < 256 ^ m) (hk : k < n) :
    bigEndianByte (n + m) (hi * 256 ^ m + lo) k = bigEndianByte n hi k := by
  unfold bigEndianByte
  have hn : n + m - 1 - k = m + (n - 1 - k) := by omega
  rw [hn, pow_add, ← Nat.div_div_eq_div_mul, Nat.add_comm,
    Nat.add_mul_div_right _ _ (Nat.pow_pos (by decide)), Nat.div_eq_of_lt hlo, Nat.zero_add]

/-- The lower half of a concatenation. -/
theorem bigEndianByte_concat_low (hk : k < m) :
    bigEndianByte (n + m) (hi * 256 ^ m + lo) (n + k) = bigEndianByte m lo k := by
  have hlow := bigEndianByte_low (n + m) (hi * 256 ^ m + lo) (Nat.le_add_left m n) hk
  rw [Nat.add_sub_cancel] at hlow
  rw [hlow, ← bigEndianByte_mod m _ k hk, Nat.mul_add_mod', bigEndianByte_mod m lo k hk]

/-- The bytes of the number that bytes are. -/
theorem bigEndianByte_readBytes (a : Nat) {n k : Nat} (hk : k < n) :
    bigEndianByte n (readBytes b a n) k = b (a + k) := by
  induction n with
  | zero => exact absurd hk (Nat.not_lt_zero k)
  | succ n ih =>
    have hlt : (b (a + n)).toNat < 256 ^ 1 := (b (a + n)).isLt
    rw [readBytes, ← pow_one 256]
    by_cases hlast : k < n
    · rw [bigEndianByte_concat_high hlt hlast, ih hlast]
    · obtain rfl : k = n := by omega
      have hlow := @bigEndianByte_concat_low k 1 (readBytes b a k) (b (a + k)).toNat 0 Nat.one_pos
      refine hlow.trans ?_
      apply BitVec.eq_of_toNat_eq
      rw [toNat_bigEndianByte, Nat.sub_self, pow_zero, Nat.div_one,
        Nat.mod_eq_of_lt (b (a + k)).isLt]

/-- A number of consecutive bytes is that of the first ones and the others. -/
theorem readBytes_add (a n m : Nat) :
    readBytes b a (n + m) = readBytes b a n * 256 ^ m + readBytes b (a + n) m := by
  induction m with
  | zero => rw [Nat.add_zero, pow_zero, mul_one, readBytes, Nat.add_zero]
  | succ m ih =>
    rw [← Nat.add_assoc, readBytes, ih, readBytes, Nat.add_assoc a n m]
    ring

/-- The bits of a byte of a word. -/
theorem getLsbD_bigEndianByte {w n : Nat} (x : BitVec w) (k i : Nat) :
    (bigEndianByte n x.toNat k).getLsbD i =
      (decide (i < 8) && x.getLsbD (8 * (n - 1 - k) + i)) := by
  have h256 : (256 : Nat) ^ (n - 1 - k) = 2 ^ (8 * (n - 1 - k)) := by
    rw [pow_mul]
    rfl
  rw [bigEndianByte, BitVec.getLsbD_ofNat, h256, Nat.testBit_div_two_pow, BitVec.testBit_toNat]
  rw [Nat.add_comm]

end SparcV8
