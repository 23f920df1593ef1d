import Mathlib.Logic.Function.Iterate
import SparcV8.Core.Word.Limbs
import SparcV8.Processor.Arithmetic

/-!
# Multiplication by steps

Thirty-two `MULScc` on an accumulator and a multiplicand, and a last one with `%g0`, multiply a
signed number by the unsigned number in `Y`. Accumulator and `Y` are one number, which a step
halves, adding the multiplicand above if it was odd.
-/

namespace SparcV8

open Opcode SparcCore

variable {nw : Nat} {σ : Type}

/-! ## Shift and add -/

/-- Halve, and add `a` if the number was odd. -/
def shiftAdd (a z : Int) : Int := z / 2 + z % 2 * a

/-- After `k` steps the `k` lowest bits are used up, each of them with its weight. -/
theorem shiftAdd_iterate (m : Int) {n k : Nat} (hk : k ≤ n) (e : Int) {q : Int} (hq : 0 ≤ q)
    (hlt : q < 2 ^ k) :
    (shiftAdd (m * 2 ^ n))^[k] (2 ^ k * e + q) = e + 2 * m * 2 ^ (n - k) * q := by
  induction k generalizing e q with
  | zero =>
    have hzero : q = 0 := by
      rw [pow_zero] at hlt
      omega
    rw [hzero, Function.iterate_zero_apply]
    ring
  | succ k ih =>
    have hstep : shiftAdd (m * 2 ^ n) (2 ^ (k + 1) * e + q) =
        2 ^ k * (e + q % 2 * m * 2 ^ (n - k)) + q / 2 := by
      have heven : (2 : Int) ^ (k + 1) * e + q = q + 2 ^ k * e * 2 := by ring
      have hpow : (2 : Int) ^ n = 2 ^ k * 2 ^ (n - k) := by
        rw [← pow_add]
        congr 1
        omega
      rw [shiftAdd, heven, Int.add_mul_ediv_right _ _ (by decide), Int.add_mul_emod_self_right,
        hpow]
      ring
    have hhalf : q / 2 < 2 ^ k := by
      rw [pow_succ] at hlt
      omega
    have hpow : (2 : Int) ^ (n - k) = 2 * 2 ^ (n - (k + 1)) := by
      rw [← pow_succ']
      congr 1
      omega
    rw [Function.iterate_succ_apply, hstep, ih (by omega) _ (by omega) hhalf, hpow]
    linear_combination 2 * m * 2 ^ (n - (k + 1)) * Int.emod_add_mul_ediv q 2

/-! ## One step -/

/-- The accumulator with its true sign, `N` xor `V`. -/
def accumulator (t : Word) (negative : Bool) : Int :=
  t.toNat - if negative then 2 ^ 32 else 0

/-- The sign goes into the bit that the shift has freed. -/
theorem toNat_xor_sign {x : Word} (hx : x.toNat < 2 ^ 31) (b : Bool) :
    (x ^^^ (wordOfBool b <<< 31)).toNat = x.toNat + 2 ^ 31 * b.toNat := by
  have hor : x ^^^ (wordOfBool b <<< 31) = (wordOfBool b <<< 31) ||| x := by
    have hsign : x.getLsbD 31 = false := getLsbD_of_toNat_lt hx le_rfl
    apply BitVec.eq_of_getLsbD_eq
    intro i hi
    rw [BitVec.getLsbD_xor, BitVec.getLsbD_or]
    by_cases h : i = 31
    · rw [h, hsign, Bool.false_xor, Bool.or_false]
    · have hlow : (wordOfBool b <<< 31).getLsbD i = false := by
        rw [BitVec.getLsbD_shiftLeft]
        simp [show i < 31 by omega]
      rw [hlow, Bool.xor_false, Bool.false_or]
  rw [hor, BitVec.toNat_or]
  cases b with
  | false => exact Nat.zero_or x.toNat
  | true =>
    have h := Nat.two_pow_add_eq_or_of_lt hx 1
    rw [Nat.mul_one] at h
    change 2 ^ 31 ||| x.toNat = _
    rw [← h, Bool.toNat_true]
    omega

/-- The operand of a step is the accumulator, halved. -/
theorem toInt_halved (t : Word) (b : Bool) :
    (readBits t 31 1 ^^^ (wordOfBool b <<< 31)).toInt = accumulator t b / 2 := by
  have ht := t.isLt
  have hread : (readBits t 31 1).toNat = t.toNat / 2 := by
    rw [toNat_readBits t (by decide)]
    omega
  rw [BitVec.toInt_eq_toNat_cond, toNat_xor_sign (by omega), hread, accumulator]
  cases b with
  | false =>
    rw [Bool.toNat_false, if_pos (by omega), if_off]
    omega
  | true =>
    rw [Bool.toNat_true, if_neg (by omega), if_pos rfl]
    omega

/-- The sum of a step has its true sign in `N` xor `V`. -/
theorem accumulator_add (x y : Word) :
    accumulator (x + y) ((x + y).msb ^^ addOverflow x.msb y.msb (x + y).msb) =
      x.toInt + y.toInt := by
  have hsum : (x + y).toNat = (x.toNat + y.toNat) % 2 ^ 32 := BitVec.toNat_add x y
  generalize x + y = r at hsum
  have hxlt := x.isLt
  have hylt := y.isLt
  have hrlt := r.isLt
  rcases msb_cases x with ⟨hx, hxn, hxi⟩ | ⟨hx, hxn, hxi⟩ <;>
    rcases msb_cases y with ⟨hy, hyn, hyi⟩ | ⟨hy, hyn, hyi⟩ <;>
    rcases msb_cases r with ⟨hr, hrn, -⟩ | ⟨hr, hrn, -⟩ <;>
    simp [accumulator, addOverflow, hx, hy, hr, hxi, hyi] <;>
    omega

/-- `Y` is shifted, with the lowest bit of the accumulator on top. -/
theorem toNat_shiftedY (t y : Word) :
    ((t <<< 31) ||| readBits y 31 1).toNat = t.toNat % 2 * 2 ^ 31 + y.toNat / 2 := by
  have hy := y.isLt
  have hread : (readBits y 31 1).toNat = y.toNat / 2 := by
    rw [toNat_readBits y (by decide)]
    omega
  have hshift : (t <<< 31).toNat = 2 ^ 31 * (t.toNat % 2) := by
    rw [BitVec.toNat_shiftLeft, Nat.shiftLeft_eq]
    omega
  rw [BitVec.toNat_or, hread, hshift, ← Nat.two_pow_add_eq_or_of_lt (by omega), Nat.mul_comm]

/-- Accumulator and `Y` stand for one number. -/
structure Stands (s : SparcCore nw) (t : RegNum) (z : Int) : Prop where
  trap : s.trap = false
  number : ∃ n v, s.reg.rN = wordOfBool n ∧ s.reg.rV = wordOfBool v ∧
    z = accumulator (s.reg.rR t) (n ^^ v) * 2 ^ 32 + s.reg.Y.toNat

variable {s : SparcCore nw} {r t : RegNum}

section Step

variable {z : Int}
variable (fpu : FloatingPointFunctions)

theorem executeInstruction_MULScc {b : Bool} (hsign : s.reg.rN ^^^ s.reg.rV = wordOfBool b) :
    executeInstruction fpu MULScc s =
      let x := readBits s.operand1 31 1 ^^^ (wordOfBool b <<< 31)
      let y := if readBits s.reg.Y 0 0 = 0 then 0 else s.operand2
      some (((s.writeY ((s.operand1 <<< 31) ||| readBits s.reg.Y 31 1)).writeRd (x + y)).writeIcc
        (wordOfBool (x + y).msb) (wordOfBool (x + y == 0))
        (wordOfBool (addOverflow x.msb y.msb (x + y).msb))
        (wordOfBool (addCarry x.msb y.msb (x + y).msb))) := by
  change some s.executeMulStep = _
  simp only [executeMulStep, writeNonzeroRd_eq, readBits_sign, signBit_eq_msb, hsign]

theorem registerWord_MULScc (s : SparcCore nw) (t r : RegNum) :
    RegisterWord s (formatThree 0x24 t t r) MULScc t t r :=
  registerWord_formatThree s 0x24 t t r rfl (by decide)

/-- What a step leaves: the sum of the halved accumulator and the multiplicand or 0. -/
theorem exists_mulStep (mem : VirtualMemory σ) (m : σ) {word : Word}
    (h : RegisterWord s word MULScc t t r) (hs : Stands s t z) (ht : t ≠ 0) :
    ∃ s' x y, executeWord fpu mem word s m = some (s', m) ∧ Wrote s s' t (x + y) ∧
      x.toInt = z / 2 ^ 33 ∧ y = (if z % 2 = 0 then 0 else s.reg.rR r) ∧
      Stands s' t (z / 2 + y.toInt * 2 ^ 32) := by
  obtain ⟨n, v, hn, hv, hz⟩ := hs.number
  have hsign : (s.ready word).reg.rN ^^^ (s.ready word).reg.rV = wordOfBool (n ^^ v) := by
    rw [rN_ready, rV_ready, hn, hv]
    cases n <;> cases v <;> rfl
  have hexecute := executeInstruction_MULScc fpu hsign
  simp only [h.operand1_eq, h.operand2_eq, Y_ready] at hexecute
  obtain ⟨s', hword, hwrote, hflags, hY⟩ :=
    exists_executeWord h.decode rfl rfl hs.trap hexecute m
  rw [h.rd_eq] at hwrote
  have hx := toInt_halved (s.reg.rR t) (n ^^ v)
  generalize readBits (s.reg.rR t) 31 1 ^^^ (wordOfBool (n ^^ v) <<< 31) = x at hwrote hflags hx
  have hy : (if readBits s.reg.Y 0 0 = 0 then 0 else s.reg.rR r) =
      if z % 2 = 0 then 0 else s.reg.rR r := by
    refine if_congr ?_ rfl rfl
    rw [← BitVec.toNat_inj, toNat_readBits_zero _ (by decide), hz]
    change s.reg.Y.toNat % 2 = 0 ↔ _
    omega
  rw [hy] at hwrote hflags
  have hlt := s.reg.Y.isLt
  refine ⟨s', x, _, hword, hwrote, ?_, rfl, hwrote.trap.trans hs.trap, _, _, hflags.n_eq,
    hflags.v_eq, ?_⟩
  · rw [hx, hz]
    omega
  · rw [hwrote.result ht, accumulator_add, hx, hY, toNat_shiftedY, hz, accumulator]
    push_cast
    cases n ^^ v with
    | false =>
      rw [if_off]
      omega
    | true =>
      rw [if_pos rfl]
      omega

end Step

/-! ## The whole multiplication -/

/-- The multiplicand stays in its register; as the accumulator itself, it is 0. -/
theorem kept_multiplicand {s' : SparcCore nw} {z : Int} {x y : Word} (hnw : 2 ≤ nw)
    (hwrote : Wrote s s' t (x + y)) (ht : t ≠ 0) (hx : x.toInt = z / 2 ^ 33)
    (hy : y = if z % 2 = 0 then 0 else s.reg.rR r)
    (hr : r ≠ t ∨ s.reg.rR r = 0 ∧ 0 ≤ z ∧ z < 2 ^ 32) : s'.reg.rR r = s.reg.rR r := by
  rcases hr with hr | ⟨hzero, hlo, hhi⟩
  · exact hwrote.others hnw r hr
  · by_cases heq : r = t
    · have hx0 : x = 0 := by
        apply BitVec.eq_of_toInt_eq
        rw [hx]
        change z / 2 ^ 33 = 0
        omega
      rw [hzero, heq, hwrote.result ht, hx0, hy, hzero, ite_self]
      rfl
    · exact hwrote.others hnw r heq

/-- Any number of steps, before the rest of a program. -/
theorem exists_mulSteps (fpu : FloatingPointFunctions) (mem : VirtualMemory σ) (m : σ)
    (hnw : 2 ≤ nw) (ht : t ≠ 0) (k : Nat) (rest : List Word) {z : Int} (hs : Stands s t z)
    (hr : r ≠ t ∨ s.reg.rR r = 0 ∧ 0 ≤ z ∧ z < 2 ^ 32) :
    ∃ s', executeWords fpu mem (List.replicate k (formatThree 0x24 t t r) ++ rest) s m =
        executeWords fpu mem rest s' m ∧
      Stands s' t ((shiftAdd ((s.reg.rR r).toInt * 2 ^ 32))^[k] z) := by
  induction k generalizing s z with
  | zero => exact ⟨s, rfl, hs⟩
  | succ k ih =>
    obtain ⟨s₁, x, y, hword, hwrote, hx, hy, hs₁⟩ := exists_mulStep fpu mem m
      (registerWord_MULScc s t r) hs ht
    have hkept := kept_multiplicand hnw hwrote ht hx hy hr
    have hnumber : z / 2 + y.toInt * 2 ^ 32 = shiftAdd ((s.reg.rR r).toInt * 2 ^ 32) z := by
      rw [shiftAdd, hy]
      rcases Int.emod_two_eq_zero_or_one z with h | h
      · rw [h, if_pos rfl]
        change z / 2 + 0 * 2 ^ 32 = _
        ring
      · rw [h, if_neg (by decide)]
        ring
    rw [hnumber] at hs₁
    obtain ⟨s', hrun, hs'⟩ := ih hs₁ (by
      rw [hkept]
      refine hr.imp id fun ⟨hzero, hlo, hhi⟩ => ⟨hzero, ?_⟩
      rw [shiftAdd, hzero]
      change 0 ≤ z / 2 + z % 2 * (0 * 2 ^ 32) ∧ z / 2 + z % 2 * (0 * 2 ^ 32) < 2 ^ 32
      omega)
    rw [hkept] at hs'
    exact ⟨s', (executeWords_cons _ hword).trans hrun, hs'⟩

/-- Thirty-two steps with the multiplicand and one with `%g0`. -/
def multiplyProgram (t r : RegNum) : List Word :=
  List.replicate 32 (formatThree 0x24 t t r) ++ [formatThree 0x24 t t 0]

/-- The program leaves the product of the signed multiplicand and the unsigned multiplier in the
accumulator and `Y`. -/
theorem multiplyProgram_product (fpu : FloatingPointFunctions) (mem : VirtualMemory σ) (m : σ)
    (hnw : 2 ≤ nw) {t : RegNum} (ht : t ≠ 0) (r : RegNum) (s : SparcCore nw)
    (htrap : s.trap = false) (hzero : s.reg.rR t = 0) (hn : s.reg.rN = 0) (hv : s.reg.rV = 0) :
    ∃ s', executeWords fpu mem (multiplyProgram t r) s m = some (s', m) ∧
      (concatBits (s'.reg.rR t) s'.reg.Y).toInt = (s.reg.rR r).toInt * s.reg.Y.toNat := by
  have hq := s.reg.Y.isLt
  have hs : Stands s t s.reg.Y.toNat := by
    refine ⟨htrap, false, false, hn, hv, ?_⟩
    rw [hzero]
    change _ = ((0 : Int) - 0) * 2 ^ 32 + _
    ring
  have hr : r ≠ t ∨ s.reg.rR r = 0 ∧ (0 : Int) ≤ s.reg.Y.toNat ∧
      (s.reg.Y.toNat : Int) < 2 ^ 32 := by
    by_cases heq : r = t
    · exact .inr ⟨heq ▸ hzero, by omega, by omega⟩
    · exact .inl heq
  obtain ⟨s₁, hrun, hs₁⟩ := exists_mulSteps fpu mem m hnw ht 32 [formatThree 0x24 t t 0] hs hr
  -- all bits of the multiplier are used up
  have hproduct := shiftAdd_iterate (s.reg.rR r).toInt (Nat.le_refl 32) 0
    (show (0 : Int) ≤ s.reg.Y.toNat by omega) (by omega)
  rw [mul_zero, zero_add, zero_add, Nat.sub_self, pow_zero, mul_one] at hproduct
  rw [hproduct] at hs₁
  obtain ⟨s', x, y, hword, hwrote, hx, hy, hs'⟩ := exists_mulStep fpu mem m
    (registerWord_MULScc s₁ t 0) hs₁ ht
  have hy0 : y = 0 := by
    rw [hy]
    exact ite_self _
  have hresult : s'.reg.rR t = x := by
    rw [hwrote.result ht, hy0]
    exact BitVec.add_zero x
  obtain ⟨n, v, -, -, hnumber⟩ := hs'.number
  have hlt := s'.reg.Y.isLt
  refine ⟨s', hrun.trans (executeWords_cons _ hword), ?_⟩
  rw [toInt_concatBits, hresult, hx]
  rw [hy0, mul_assoc] at hnumber
  rw [mul_assoc]
  generalize (s.reg.rR r).toInt * (s.reg.Y.toNat : Int) = p at hnumber
  omega

/-- A core with -3 in `%r10` and 5 in `Y`. -/
def multiplyCore : SparcCore 8 :=
  let s : SparcCore 8 := SparcCore.initial 0 0 0 0 false
  { s with reg := { s.reg.wR 10 0xFFFFFFFD with Y := 5 } }

theorem multiplyProgram_product_minus_fifteen :
    multiplyCore.reg.rR 10 = -3 ∧ multiplyCore.reg.Y = 5 ∧
      ∃ s', executeWords default MemCore.virtualMemory (multiplyProgram 8 10) multiplyCore
          zeroMemory = some (s', zeroMemory) ∧
        (concatBits (s'.reg.rR 8) s'.reg.Y).toInt = -15 := by
  refine ⟨by decide, rfl, ?_⟩
  exact multiplyProgram_product default MemCore.virtualMemory zeroMemory (by decide) (by decide) 10
    multiplyCore rfl (by decide) (by decide) (by decide)

end SparcV8
