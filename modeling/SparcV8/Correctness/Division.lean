import SparcV8.Correctness.Handled
import SparcV8.Processor.Arithmetic

/-!
# Integer division

The 64-by-32 divisions leave the quotient, truncated toward zero and limited to the range of a word,
and tell in `V` whether it was limited. The exception is the signed division of the least 64-bit
number by -1, which the host does not complete.
-/

namespace SparcV8

open Opcode SparcCore BitVec

variable {nw : Nat}

/-! ## What the architecture defines -/

/-- The instruction divides signed numbers. -/
def signedDivide (op : Opcode) : Bool := op == SDIV || op == SDIVcc

/-- The instruction sets the condition codes. -/
def setsIcc (op : Opcode) : Bool := op == UDIVcc || op == SDIVcc

/-- The quotient, truncated toward zero. -/
def exactQuotient (op : Opcode) (dividend : BitVec 64) (divisor : Word) : Int :=
  if signedDivide op then dividend.toInt.tdiv divisor.toInt
  else (dividend.toNat / divisor.toNat : Nat)

/-- The least and the greatest quotient that a word can hold. -/
def leastQuotient (op : Opcode) : Int := if signedDivide op then -2 ^ 31 else 0

def greatestQuotient (op : Opcode) : Int := if signedDivide op then 2 ^ 31 - 1 else 2 ^ 32 - 1

/-- The quotient does not fit in a word. -/
def quotientOverflows (op : Opcode) (dividend : BitVec 64) (divisor : Word) : Bool :=
  decide (exactQuotient op dividend divisor < leastQuotient op ∨
    greatestQuotient op < exactQuotient op dividend divisor)

/-- The quotient as a word, limited to the nearest number that fits. -/
def limitedQuotient (op : Opcode) (dividend : BitVec 64) (divisor : Word) : Word :=
  BitVec.ofInt 32 (max (leastQuotient op) (min (greatestQuotient op)
    (exactQuotient op dividend divisor)))

/-- What a division leaves. -/
structure Divided (op : Opcode) (s s' : SparcCore nw) : Prop where
  trap : s'.trap = s.trap
  result : s.reg.rRd ≠ 0 →
    s'.reg.rR s.reg.rRd = limitedQuotient op (concatBits s.reg.Y s.operand1) s.operand2
  /-- The condition codes of the `cc` forms. -/
  flags : setsIcc op = true →
    Flags s'.reg (limitedQuotient op (concatBits s.reg.Y s.operand1) s.operand2).msb
      (limitedQuotient op (concatBits s.reg.Y s.operand1) s.operand2 == 0)
      (quotientOverflows op (concatBits s.reg.Y s.operand1) s.operand2) false
  /-- The plain forms leave the condition codes. -/
  psr : setsIcc op = false → s'.reg.PSR = s.reg.PSR

/-! ## What the code computes -/

theorem toNat_readBits64 (x : BitVec 64) {h l : Nat} (hh : h < 64) (hl : l ≤ h) :
    (readBits64 x h l).toNat = x.toNat / 2 ^ l % 2 ^ (h - l + 1) :=
  toNat_bitField x hh hl

/-- The low word of a quotient. -/
theorem lowWord_eq_ofInt (t : BitVec 64) {q : Int} (hq : q = t.toNat ∨ q = t.toNat - 2 ^ 64) :
    (readBits64 t 31 0).setWidth 32 = BitVec.ofInt 32 q := by
  apply BitVec.eq_of_toNat_eq
  rw [toNat_setWidth, toNat_readBits64 t (by decide) (by decide), BitVec.toNat_ofInt]
  push_cast
  omega

variable {op : Opcode}

theorem unsignedQuotient_eq (hop : signedDivide op = false) (dividend : BitVec 64)
    (divisor : Word) :
    unsignedQuotient dividend divisor =
      (limitedQuotient op dividend divisor, quotientOverflows op dividend divisor) := by
  have hdivisor := divisor.isLt
  have hq : exactQuotient op dividend divisor = (dividend / divisor.setWidth 64).toNat := by
    rw [exactQuotient, hop, if_off, BitVec.toNat_udiv, toNat_setWidth, Nat.mod_eq_of_lt (by omega)]
  have hhigh : readBits64 (dividend / divisor.setWidth 64) 63 32 = 0 ↔
      (dividend / divisor.setWidth 64).toNat < 2 ^ 32 := by
    have hlt := (dividend / divisor.setWidth 64).isLt
    rw [← toNat_inj, toNat_readBits64 _ (by decide) (by decide)]
    change _ = 0 ↔ _
    omega
  simp only [unsignedQuotient, limitedQuotient, quotientOverflows, leastQuotient, greatestQuotient,
    hop, hq, hhigh, if_off]
  generalize dividend / divisor.setWidth 64 = t
  by_cases hfits : t.toNat < 2 ^ 32
  · rw [if_pos hfits, decide_eq_false (by omega), lowWord_eq_ofInt t (.inl rfl)]
    congr 2
    omega
  · rw [if_neg hfits, decide_eq_true (by omega),
      show max 0 (min (2 ^ 32 - 1) (t.toNat : Int)) = 2 ^ 32 - 1 by omega]
    rfl

theorem signedQuotient_eq (hop : signedDivide op = true) {dividend : BitVec 64} {divisor : Word}
    (h : ¬(dividend = intMin 64 ∧ divisor = 0xFFFFFFFF)) :
    signedQuotient dividend divisor =
      some (limitedQuotient op dividend divisor, quotientOverflows op dividend divisor) := by
  have hne : dividend ≠ intMin 64 ∨ divisor.signExtend 64 ≠ -1#64 := by
    by_cases hmin : dividend = intMin 64
    · refine .inr fun hminus => h ⟨hmin, ?_⟩
      apply BitVec.eq_of_toInt_eq
      rw [← toInt_signExtend_of_le (show 32 ≤ 64 by decide), hminus]
      decide
    · exact .inl hmin
  have hq : exactQuotient op dividend divisor = (dividend.sdiv (divisor.signExtend 64)).toInt := by
    rw [exactQuotient, hop, if_pos rfl, BitVec.toInt_sdiv_of_ne_or_ne _ _ hne,
      toInt_signExtend_of_le (by decide)]
  rw [signedQuotient, if_neg h]
  simp only [limitedQuotient, quotientOverflows, leastQuotient, greatestQuotient, hop, hq, if_true]
  generalize dividend.sdiv (divisor.signExtend 64) = t
  have hint : t.toInt = t.toNat ∧ t.toNat < 2 ^ 63 ∨
      t.toInt = t.toNat - 2 ^ 64 ∧ 2 ^ 63 ≤ t.toNat := by
    rw [BitVec.toInt_eq_toNat_cond]
    split <;> omega
  have hsign : readBits64 t 63 31 = 0 ∨ readBits64 t 63 31 = 0x1FFFFFFFF ↔
      -2 ^ 31 ≤ t.toInt ∧ t.toInt < 2 ^ 31 := by
    have hlt := t.isLt
    rw [← toNat_inj, ← toNat_inj, toNat_readBits64 _ (by decide) (by decide)]
    change _ = 0 ∨ _ = 0x1FFFFFFFF ↔ _
    omega
  by_cases hfits : -2 ^ 31 ≤ t.toInt ∧ t.toInt < 2 ^ 31
  · rw [if_pos (hsign.2 hfits), decide_eq_false (by omega),
      lowWord_eq_ofInt t (hint.imp And.left And.left)]
    congr 3
    omega
  · rw [if_neg fun hf => hfits (hsign.1 hf), decide_eq_true (by omega)]
    by_cases hpos : 0 < t.toInt
    · rw [if_pos hpos, show max (-2 ^ 31) (min (2 ^ 31 - 1) t.toInt) = 2 ^ 31 - 1 by omega]
      rfl
    · rw [if_neg hpos, show max (-2 ^ 31) (min (2 ^ 31 - 1) t.toInt) = -2 ^ 31 by omega]
      rfl

theorem quotient_eq (hop : between UDIV op SDIVcc = true) {s : SparcCore nw}
    (h : ¬(signedDivide op = true ∧ s.divisionOverflow)) :
    quotient op (concatBits s.reg.Y s.operand1) s.operand2 =
      some (limitedQuotient op (concatBits s.reg.Y s.operand1) s.operand2,
        quotientOverflows op (concatBits s.reg.Y s.operand1) s.operand2) := by
  have hsigned : (op == UDIV || op == UDIVcc) = !signedDivide op := by
    cases op <;> first | exact absurd hop (by decide) | rfl
  rw [quotient, hsigned]
  cases hs : signedDivide op with
  | false => rw [Bool.not_false, if_pos rfl, unsignedQuotient_eq hs]
  | true => rw [Bool.not_true, if_off, signedQuotient_eq hs fun ho => h ⟨hs, ho⟩]

/-- A division by a number other than 0 leaves what the architecture defines, unless the host's
division overflows. -/
theorem divided_iff {op : Opcode} (hop : between UDIV op SDIVcc = true) (s : SparcCore nw)
    (hdivisor : s.operand2 ≠ 0) :
    (∃ s', executeDiv op s = some s' ∧ Divided op s s') ↔
      ¬(signedDivide op = true ∧ concatBits s.reg.Y s.operand1 = intMin 64 ∧
        s.operand2 = 0xFFFFFFFF) := by
  constructor
  · rintro ⟨s', hs', -⟩ ⟨hsigned, hoverflow⟩
    have hsome : (executeDiv op s).isSome := by rw [hs']; rfl
    refine (isSome_executeDiv_iff hop s).1 hsome ⟨?_, hoverflow⟩
    rwa [signedDivide, Bool.or_eq_true, beq_iff_eq, beq_iff_eq] at hsigned
  · intro h
    have hquotient := quotient_eq hop h
    rw [executeDiv, if_neg hdivisor, hquotient]
    simp only [Option.bind_eq_bind, Option.bind_some, writeNonzeroRd_eq, readBits_sign]
    cases hicc : setsIcc op with
    | false =>
      rw [setsIcc] at hicc
      rw [hicc, if_off]
      refine ⟨_, rfl, rfl, fun hrd => Registers.rR_wR_self _ _ hrd, fun hset => ?_, fun _ => rfl⟩
      rw [setsIcc, hicc] at hset
      cases hset
    | true =>
      rw [setsIcc] at hicc
      rw [hicc, if_pos rfl]
      refine ⟨_, rfl, rfl, fun hrd => ?_, fun _ => flags_writeIcc _ _ _ _ false, fun hset => ?_⟩
      · rw [rR_writeIcc]
        exact Registers.rR_wR_self _ _ hrd
      · rw [setsIcc, hicc] at hset
        exact absurd hset.symm Bool.false_ne_true

/-- A core whose instruction divides `Y` and `%g0` by the immediate -1. -/
def dividingCore (word y : Word) : SparcCore 8 :=
  let s : SparcCore 8 := SparcCore.initial 0 0 0 0 false
  { s with reg := { s.reg with instruction := word, Y := y } }

/-- `UDIV %g0, -1, %g1` with 1 in `Y`: `2 ^ 32` divided by `2 ^ 32 - 1`. -/
theorem divided_unsigned :
    ∃ s', executeDiv UDIV (dividingCore 0x82703FFF 1) = some s' ∧
      Divided UDIV (dividingCore 0x82703FFF 1) s' :=
  (divided_iff (by decide) _ (by decide)).2 (by decide)

/-- `SDIV %g0, -1, %g1` with the least number in `Y`: the host raises a signal. -/
theorem least_dividend_not_completed :
    (dividingCore 0x82783FFF 0x80000000).operand2 ≠ 0 ∧
      executeDiv SDIV (dividingCore 0x82783FFF 0x80000000) = none := by
  decide

end SparcV8
