import Mathlib.Data.Nat.Digits.Defs
import Mathlib.Tactic.LinearCombination
import Mathlib.Tactic.Linarith
import Mathlib.Tactic.Ring

/-!
# Numbers of several words

A list of words, lowest first, as an unsigned and as a two's complement number, and the carry and
borrow of one word by the signs of its operands and its result.
-/

namespace SparcV8

open List Nat

/-! ## Words of one width, lowest first -/

section Limbs

variable {w : Nat}

/-- The unsigned number that the words make up. -/
def limbValue (xs : List (BitVec w)) : Nat := Nat.ofDigits (2 ^ w) (xs.map BitVec.toNat)

theorem limbValue_nil : limbValue ([] : List (BitVec w)) = 0 := rfl

theorem limbValue_cons (x : BitVec w) (xs : List (BitVec w)) :
    limbValue (x :: xs) = x.toNat + 2 ^ w * limbValue xs :=
  Nat.ofDigits_cons

/-- The two's complement number of the words: the highest word has the sign. -/
def limbSigned : List (BitVec w) → Int
  | [] => 0
  | [x] => x.toInt
  | x :: y :: xs => x.toNat + 2 ^ w * limbSigned (y :: xs)

variable {xs : List (BitVec w)}

theorem limbSigned_cons (x : BitVec w) (h : xs ≠ []) :
    limbSigned (x :: xs) = x.toNat + 2 ^ w * limbSigned xs := by
  cases xs with
  | nil => exact absurd rfl h
  | cons y ys => rfl

theorem limbValue_lt (hw : 0 < w) (xs : List (BitVec w)) : limbValue xs < 2 ^ (w * xs.length) := by
  have hbase : 1 < 2 ^ w := Nat.one_lt_two_pow hw.ne'
  have hdigits : ∀ d ∈ xs.map BitVec.toNat, d < 2 ^ w := by
    intro d hd
    obtain ⟨x, -, rfl⟩ := mem_map.1 hd
    exact x.isLt
  have h := Nat.ofDigits_lt_base_pow_length hbase hdigits
  rwa [length_map, ← Nat.pow_mul] at h

/-- The words as one wide word. -/
def wide (n : Nat) (xs : List (BitVec w)) : BitVec (w * n) := BitVec.ofNat (w * n) (limbValue xs)

theorem toNat_wide {n : Nat} (hw : 0 < w) (h : xs.length = n) :
    (wide n xs).toNat = limbValue xs := by
  subst h
  rw [wide, BitVec.toNat_ofNat, Nat.mod_eq_of_lt (limbValue_lt hw xs)]

/-- The two numbers differ by a multiple of the range; the signed one is in its half. -/
theorem limbSigned_spec (hw : 0 < w) (h : xs ≠ []) :
    (limbSigned xs = limbValue xs ∨
      limbSigned xs = limbValue xs - 2 * (2 ^ (w * xs.length - 1) : Nat)) ∧
      -((2 ^ (w * xs.length - 1) : Nat) : Int) ≤ limbSigned xs ∧
      limbSigned xs < (2 ^ (w * xs.length - 1) : Nat) := by
  induction xs with
  | nil => exact absurd rfl h
  | cons x xs ih =>
    have hx := x.isLt
    by_cases hxs : xs = []
    · subst hxs
      have hpow : 2 ^ w = 2 * 2 ^ (w - 1) := by rw [← Nat.pow_succ']; congr 1; omega
      rw [limbSigned, limbValue_cons, limbValue_nil, length_singleton, Nat.mul_one,
        BitVec.toInt_eq_toNat_cond]
      generalize hg : 2 ^ (w - 1) = g at *
      split <;> omega
    · obtain ⟨hval, hlo, hhi⟩ := ih hxs
      have hpos : 0 < w * xs.length := mul_pos hw (length_pos_iff.2 hxs)
      have hpow : 2 ^ (w * (x :: xs).length - 1) = 2 ^ w * 2 ^ (w * xs.length - 1) := by
        rw [← pow_add, length_cons, mul_succ]
        congr 1
        omega
      rw [limbSigned_cons x hxs, limbValue_cons, hpow]
      push_cast at hval hlo hhi ⊢
      have hx' : (x.toNat : Int) < 2 ^ w := by exact_mod_cast hx
      have hB : (0 : Int) < 2 ^ w := by positivity
      refine ⟨?_, ?_, ?_⟩
      · rcases hval with hval | hval
        · exact .inl (by rw [hval])
        · exact .inr (by rw [hval]; ring)
      · nlinarith
      · nlinarith

theorem toInt_wide {n : Nat} (hw : 0 < w) (h : xs.length = n) (hn : 0 < n) :
    (wide n xs).toInt = limbSigned xs := by
  have hne : xs ≠ [] := ne_nil_of_length_pos (h ▸ hn)
  obtain ⟨hval, hlo, hhi⟩ := limbSigned_spec hw hne
  have hpos : 0 < w * n := mul_pos hw hn
  have hpow : 2 ^ (w * n) = 2 * 2 ^ (w * n - 1) := by rw [← Nat.pow_succ']; congr 1; omega
  rw [BitVec.toInt_eq_toNat_cond, toNat_wide hw h]
  rw [h] at hval hlo hhi
  generalize 2 ^ (w * n - 1) = g at *
  split <;> omega

/-! ## Carries and borrows from word to word -/

/-- The words `rs` are the sum of the words `xs` and `ys` and a carry in. -/
structure LimbSum (xs ys rs : List (BitVec w)) (c : Nat) (carry overflow : Bool) : Prop where
  value : limbValue xs + limbValue ys + c = limbValue rs + 2 ^ (w * xs.length) * carry.toNat
  /-- The sum of the two's complement numbers is out of range. -/
  overflow_iff : overflow = true ↔
    ¬(-((2 ^ (w * xs.length - 1) : Nat) : Int) ≤ limbSigned xs + limbSigned ys + c ∧
      limbSigned xs + limbSigned ys + c < (2 ^ (w * xs.length - 1) : Nat))

/-- The words `rs` are the difference of `xs` and `ys` and a borrow in. -/
structure LimbDifference (xs ys rs : List (BitVec w)) (c : Nat) (borrow less : Bool) : Prop where
  value : limbValue xs + 2 ^ (w * xs.length) * borrow.toNat = limbValue ys + c + limbValue rs
  /-- The difference of the two's complement numbers is negative. -/
  less_iff : less = true ↔ limbSigned xs < limbSigned ys + c

variable {x y r : BitVec w} {ys rs : List (BitVec w)} {c : Nat} {b b' v : Bool}

theorem two_pow_length_cons (x : BitVec w) (xs : List (BitVec w)) :
    2 ^ (w * (x :: xs).length) = 2 ^ w * 2 ^ (w * xs.length) := by
  rw [← pow_add, length_cons, mul_succ, Nat.add_comm]

/-- One more word below: its carry out is the carry in of the words above. -/
theorem LimbSum.cons (hw : 0 < w) (h : LimbSum xs ys rs b.toNat b' v) (hxs : xs ≠ [])
    (hlen : xs.length = ys.length) (hxy : x.toNat + y.toNat + c = r.toNat + 2 ^ w * b.toNat) :
    LimbSum (x :: xs) (y :: ys) (r :: rs) c b' v where
  value := by
    have hv := h.value
    rw [two_pow_length_cons, limbValue_cons, limbValue_cons, limbValue_cons]
    calc x.toNat + 2 ^ w * limbValue xs + (y.toNat + 2 ^ w * limbValue ys) + c
        = (x.toNat + y.toNat + c) + 2 ^ w * (limbValue xs + limbValue ys) := by ring
      _ = r.toNat + 2 ^ w * (limbValue xs + limbValue ys + b.toNat) := by rw [hxy]; ring
      _ = r.toNat + 2 ^ w * limbValue rs + 2 ^ w * 2 ^ (w * xs.length) * b'.toNat := by
        rw [hv]; ring
  overflow_iff := by
    have hys : ys ≠ [] := length_pos_iff.1 (hlen ▸ length_pos_iff.2 hxs)
    have hpos : 0 < w * xs.length := mul_pos hw (length_pos_iff.2 hxs)
    have hpow : 2 ^ (w * (x :: xs).length - 1) = 2 ^ w * 2 ^ (w * xs.length - 1) := by
      rw [← pow_add, length_cons, mul_succ]
      congr 1
      omega
    rw [h.overflow_iff, limbSigned_cons x hxs, limbSigned_cons y hys, hpow]
    have hr : (r.toNat : Int) < 2 ^ w := by exact_mod_cast r.isLt
    have hB : (0 : Int) < 2 ^ w := by positivity
    have hsum : (x.toNat + 2 ^ w * limbSigned xs + (y.toNat + 2 ^ w * limbSigned ys) + c : Int) =
        r.toNat + 2 ^ w * (limbSigned xs + limbSigned ys + b.toNat) := by
      have : (x.toNat + y.toNat + c : Int) = r.toNat + 2 ^ w * b.toNat := by exact_mod_cast hxy
      linear_combination this
    rw [hsum]
    push_cast
    generalize limbSigned xs + limbSigned ys + (b.toNat : Int) = s
    generalize (2 : Int) ^ (w * xs.length - 1) = g
    refine not_congr (and_congr ⟨fun h => ?_, fun h => ?_⟩ ⟨fun h => ?_, fun h => ?_⟩)
    · nlinarith
    · by_contra hlt
      have : s + 1 ≤ -g := by omega
      nlinarith
    · have : s + 1 ≤ g := by omega
      nlinarith
    · by_contra hlt
      have : g ≤ s := by omega
      nlinarith

/-- One more word below: its borrow is the borrow in of the words above. -/
theorem LimbDifference.cons (h : LimbDifference xs ys rs b.toNat b' v) (hxs : xs ≠ [])
    (hlen : xs.length = ys.length) (hxy : x.toNat + 2 ^ w * b.toNat = y.toNat + c + r.toNat) :
    LimbDifference (x :: xs) (y :: ys) (r :: rs) c b' v where
  value := by
    have hv := h.value
    rw [two_pow_length_cons, limbValue_cons, limbValue_cons, limbValue_cons]
    have hxy' : (x.toNat + 2 ^ w * b.toNat : Int) = y.toNat + c + r.toNat := by exact_mod_cast hxy
    zify at hv ⊢
    linear_combination hxy' + 2 ^ w * hv
  less_iff := by
    have hys : ys ≠ [] := length_pos_iff.1 (hlen ▸ length_pos_iff.2 hxs)
    rw [h.less_iff, limbSigned_cons x hxs, limbSigned_cons y hys]
    have hr : (r.toNat : Int) < 2 ^ w := by exact_mod_cast r.isLt
    have hxy' : (x.toNat + 2 ^ w * b.toNat : Int) = y.toNat + c + r.toNat := by exact_mod_cast hxy
    constructor
    · intro hlt
      have : limbSigned xs + 1 ≤ limbSigned ys + b.toNat := by omega
      nlinarith
    · intro hlt
      by_contra hle
      have : limbSigned ys + b.toNat ≤ limbSigned xs := by omega
      nlinarith

end Limbs

end SparcV8
