import SparcV8.Processor.Arithmetic

/-!
# Comparisons

After `SUBcc a, b` a `Bicc` is taken, and a `Ticc` traps, exactly if the relation its condition is
named for holds of `a` and `b`. A branch that is not taken, and a branch always, skips its delay
slot if its annul bit is set.
-/

namespace SparcV8

open Opcode SparcCore

variable {nw : Nat} {σ : Type}

/-! ## Conditions and relations -/

/-- The sixteen conditions of branches and traps. -/
inductive Condition where
  | never | equal | lessOrEqual | less | lessOrEqualUnsigned | lessUnsigned | negative | overflow
  | always | notEqual | greater | greaterOrEqual | greaterUnsigned | greaterOrEqualUnsigned
  | positive | noOverflow
  deriving DecidableEq, Repr

namespace Condition

/-- The branch with a condition. -/
def bicc : Condition → Opcode
  | never => BN
  | equal => BE
  | lessOrEqual => BLE
  | less => BL
  | lessOrEqualUnsigned => BLEU
  | lessUnsigned => BCS
  | negative => BNEG
  | overflow => BVS
  | always => BA
  | notEqual => BNE
  | greater => BG
  | greaterOrEqual => BGE
  | greaterUnsigned => BGU
  | greaterOrEqualUnsigned => BCC
  | positive => BPOS
  | noOverflow => BVC

/-- The trap with a condition. -/
def ticc : Condition → Opcode
  | never => TN
  | equal => TE
  | lessOrEqual => TLE
  | less => TL
  | lessOrEqualUnsigned => TLEU
  | lessUnsigned => TCS
  | negative => TNEG
  | overflow => TVS
  | always => TA
  | notEqual => TNE
  | greater => TG
  | greaterOrEqual => TGE
  | greaterUnsigned => TGU
  | greaterOrEqualUnsigned => TCC
  | positive => TPOS
  | noOverflow => TVC

/-- The relation that a condition is named for; the last two pairs are sign and overflow of `a - b`.
-/
def relation (a b : Word) : Condition → Bool
  | never => false
  | equal => a == b
  | lessOrEqual => a.sle b
  | less => a.slt b
  | lessOrEqualUnsigned => a.ule b
  | lessUnsigned => a.ult b
  | negative => decide ((a - b).toInt < 0)
  | overflow => BitVec.ssubOverflow a b
  | always => true
  | notEqual => a != b
  | greater => b.slt a
  | greaterOrEqual => b.sle a
  | greaterUnsigned => b.ult a
  | greaterOrEqualUnsigned => b.ule a
  | positive => decide (0 ≤ (a - b).toInt)
  | noOverflow => !BitVec.ssubOverflow a b

/-- The condition as a function of the flags. -/
def eval (n z v c : Bool) : Condition → Bool
  | never => false
  | equal => z
  | lessOrEqual => z || (n ^^ v)
  | less => n ^^ v
  | lessOrEqualUnsigned => c || z
  | lessUnsigned => c
  | negative => n
  | overflow => v
  | always => true
  | notEqual => !z
  | greater => !(z || (n ^^ v))
  | greaterOrEqual => !(n ^^ v)
  | greaterUnsigned => !c && !z
  | greaterOrEqualUnsigned => !c
  | positive => !n
  | noOverflow => !v

variable {reg : Registers nw} {n z v c : Bool}

theorem wordOfBool_bne (b : Bool) : (wordOfBool b != 0) = b := by
  cases b <;> rfl

theorem evalIcc_bicc (h : Flags reg n z v c) (cond : Condition) :
    evalIcc cond.bicc reg = some (cond.eval n z v c) := by
  cases cond <;>
    simp only [evalIcc, bicc, eval, h.n_eq, h.z_eq, h.v_eq, h.c_eq, wordOfBool_bne]

theorem trapEvalIcc_ticc (h : Flags reg n z v c) (cond : Condition) :
    trapEvalIcc cond.ticc reg = some (cond.eval n z v c) := by
  cases cond <;>
    simp only [trapEvalIcc, ticc, eval, h.n_eq, h.z_eq, h.v_eq, h.c_eq, wordOfBool_bne]

section Relations

variable (a b : Word)

theorem sub_beq_zero : (a - b == 0) = (a == b) := by
  rw [Bool.eq_iff_iff, beq_iff_eq, beq_iff_eq, ← BitVec.toNat_inj, ← BitVec.toNat_inj,
    BitVec.toNat_sub]
  have ha := a.isLt
  have hb := b.isLt
  change _ = 0 ↔ _
  omega

theorem subCarry_eq_ult : subCarry a.msb b.msb (a - b).msb = a.ult b := by
  obtain ⟨hvalue, -⟩ := sub_flags a b false (BitVec.sub_zero (a - b)).symm
  have hlt := (a - b).isLt
  rw [BitVec.ult]
  cases hc : subCarry a.msb b.msb (a - b).msb with
  | false =>
    rw [hc, Bool.toNat_false] at hvalue
    exact (decide_eq_false (by omega)).symm
  | true =>
    rw [hc, Bool.toNat_true, Bool.toNat_false] at hvalue
    exact (decide_eq_true (by omega)).symm

theorem msb_xor_subOverflow_eq_slt :
    ((a - b).msb ^^ subOverflow a.msb b.msb (a - b).msb) = a.slt b := by
  obtain ⟨-, hless, -⟩ := sub_flags a b false (BitVec.sub_zero (a - b)).symm
  rw [Bool.eq_iff_iff, hless, BitVec.slt, decide_eq_true_eq, Bool.toNat_false]
  simp

theorem subOverflow_eq_ssubOverflow :
    subOverflow a.msb b.msb (a - b).msb = BitVec.ssubOverflow a b := by
  obtain ⟨-, -, hoverflow⟩ := sub_flags a b false (BitVec.sub_zero (a - b)).symm
  rw [Bool.eq_iff_iff, hoverflow, BitVec.ssubOverflow, Bool.or_eq_true, decide_eq_true_eq,
    decide_eq_true_eq, Bool.toNat_false]
  push_cast
  omega

theorem beq_or_slt : (a == b || a.slt b) = a.sle b := by
  rw [Bool.eq_iff_iff, Bool.or_eq_true, beq_iff_eq, BitVec.slt, BitVec.sle, decide_eq_true_eq,
    decide_eq_true_eq, ← BitVec.toInt_inj]
  omega

theorem ult_or_beq : (a.ult b || a == b) = a.ule b := by
  rw [Bool.eq_iff_iff, Bool.or_eq_true, beq_iff_eq, BitVec.ult, BitVec.ule, decide_eq_true_eq,
    decide_eq_true_eq, ← BitVec.toNat_inj]
  omega

/-- The flags of a subtraction tell the relations. -/
theorem eval_eq_relation (cond : Condition) :
    cond.eval (a - b).msb (a - b == 0) (subOverflow a.msb b.msb (a - b).msb)
      (subCarry a.msb b.msb (a - b).msb) = cond.relation a b := by
  have hnegative : (a - b).msb = decide ((a - b).toInt < 0) := by
    rw [BitVec.msb_eq_toInt]
  cases cond <;> simp only [eval, relation, msb_xor_subOverflow_eq_slt]
  case equal => exact sub_beq_zero a b
  case lessOrEqual => rw [sub_beq_zero, beq_or_slt]
  case lessOrEqualUnsigned => rw [subCarry_eq_ult, sub_beq_zero, ult_or_beq]
  case lessUnsigned => exact subCarry_eq_ult a b
  case negative => exact hnegative
  case overflow => exact subOverflow_eq_ssubOverflow a b
  case notEqual => rw [sub_beq_zero]; rfl
  case greater =>
    rw [sub_beq_zero, beq_or_slt, BitVec.sle, BitVec.slt, ← decide_not]
    simp only [not_le]
  case greaterOrEqual =>
    rw [BitVec.sle, BitVec.slt, ← decide_not]
    simp only [not_lt]
  case greaterUnsigned =>
    rw [← Bool.not_or, subCarry_eq_ult, sub_beq_zero, ult_or_beq, BitVec.ule, BitVec.ult,
      ← decide_not]
    simp only [not_le]
  case greaterOrEqualUnsigned =>
    rw [subCarry_eq_ult, BitVec.ule, BitVec.ult, ← decide_not]
    simp only [not_lt]
  case positive =>
    rw [hnegative, ← decide_not]
    simp only [not_lt]
  case noOverflow => rw [subOverflow_eq_ssubOverflow]

end Relations

end Condition

/-! ## Branches -/

/-- The annul bit of a branch. -/
def annulBit (word : Word) : Bool := readBits word 29 29 == 1

/-- Four times the signed displacement of a branch. -/
def branchOffset (word : Word) : Word := BitVec.ofInt 32 (4 * (word.setWidth 22).toInt)

theorem signExtend_disp22 (word : Word) :
    signExtend (readBits word 21 0 <<< 2) 23 = branchOffset word := by
  have hdisp : (readBits word 21 0).toNat = (word.setWidth 22).toNat := by
    rw [toNat_readBits_zero word (by decide), BitVec.toNat_setWidth]
  have hlt := (word.setWidth 22).isLt
  have hshift : (readBits word 21 0 <<< 2).toNat = 4 * (word.setWidth 22).toNat := by
    rw [BitVec.toNat_shiftLeft, hdisp, Nat.shiftLeft_eq]
    omega
  rw [signExtend_eq (by decide) (by omega), hshift, branchOffset, BitVec.signExtend]
  congr 1
  rw [BitVec.toInt_eq_toNat_cond, BitVec.toInt_eq_toNat_cond, BitVec.toNat_ofNat,
    Nat.mod_eq_of_lt (by omega)]
  split <;> split <;> omega

/-- Where a branch goes on, as the architecture manual defines it. -/
structure Branched (s s' : SparcCore nw) (word : Word) (taken always : Bool) : Prop where
  trap : s'.trap = false
  pc : s'.reg.PC = s.reg.nPC
  npc : s'.reg.nPC = if taken then s.reg.PC + branchOffset word else s.reg.nPC + 4
  annul : s'.annul = (annulBit word && (always || !taken) || s.annul)

section Word

variable {s : SparcCore nw} {word : Word} {n z v c : Bool}
variable (fpu : FloatingPointFunctions)

theorem executeInstruction_bicc (cond : Condition) (s : SparcCore nw) :
    executeInstruction fpu cond.bicc s = executeBicc cond.bicc s := by
  cases cond <;> rfl

theorem executeInstruction_ticc (cond : Condition) (s : SparcCore nw) :
    executeInstruction fpu cond.ticc s = executeTicc cond.ticc s := by
  cases cond <;> rfl

theorem flags_ready (h : Flags s.reg n z v c) (word : Word) : Flags (s.ready word).reg n z v c :=
  ⟨h.n_eq, h.z_eq, h.v_eq, h.c_eq⟩

variable {cond : Condition}

/-- A word of a branch. -/
theorem exists_branched (mem : VirtualMemory σ) (m : σ) (h : Flags s.reg n z v c)
    (ht : s.trap = false) (hdecode : (s.fetched word).reg.decode = some cond.bicc) :
    ∃ s', executeWord fpu mem word s m = some (s', m) ∧
      Branched s s' word (cond.eval n z v c) (cond == .always) := by
  have hinteger : cond.bicc.isIntegerInstruction = true := by cases cond <;> rfl
  have hbranch : cond.bicc.isBranchInstruction = true := by cases cond <;> rfl
  have halways : (cond.bicc == BA) = (cond == .always) := by cases cond <;> rfl
  have hexecute : executeInstruction fpu cond.bicc (s.ready word) =
      some ((s.ready word).branch (cond.eval n z v c) (cond == .always)) := by
    rw [executeInstruction_bicc, executeBicc, Condition.evalIcc_bicc (flags_ready h word), halways]
    rfl
  refine ⟨(s.ready word).branch (cond.eval n z v c) (cond == .always), ?_, ?_⟩
  · rw [executeWord_of_decode fpu mem hinteger hdecode ht, hexecute, Option.map_some,
      finishInstruction, hbranch, Bool.not_true, Bool.and_false, if_off]
  · have hoffset := signExtend_disp22 word
    cases cond.eval n z v c with
    | false =>
      refine ⟨ht, rfl, rfl, ?_⟩
      change (if annulBit word = true then true else s.annul) = _
      rw [Bool.not_false, Bool.or_true, Bool.and_true]
      cases annulBit word <;> rfl
    | true =>
      refine ⟨ht, rfl, congrArg (s.reg.PC + ·) hoffset, ?_⟩
      change (if (cond == .always && annulBit word) = true then true else s.annul) = _
      rw [Bool.not_true, Bool.or_false, Bool.and_comm]
      cases annulBit word && cond == .always <;> rfl

/-- A word of a trap on a condition. -/
theorem exists_trapped (mem : VirtualMemory σ) (m : σ) (h : Flags s.reg n z v c)
    (ht : s.trap = false) (hdecode : (s.fetched word).reg.decode = some cond.ticc) :
    ∃ s', executeWord fpu mem word s m = some (s', m) ∧ s'.trap = cond.eval n z v c ∧
      (s'.trap = true → s'.flag .trapInstruction = true) := by
  have hinteger : cond.ticc.isIntegerInstruction = true := by cases cond <;> rfl
  have hbranch : cond.ticc.isBranchInstruction = true := by cases cond <;> rfl
  have hfinish : ∀ t : SparcCore nw, finishInstruction cond.ticc t = t := by
    intro t
    rw [finishInstruction, hbranch, Bool.not_true, Bool.and_false, if_off]
  have heval := Condition.trapEvalIcc_ticc (flags_ready h word) cond
  rw [executeWord_of_decode fpu mem hinteger hdecode ht, executeInstruction_ticc,
    executeTicc, heval]
  cases cond.eval n z v c with
  | false =>
    refine ⟨_, congrArg (fun t => some (t, m)) (hfinish _), ht, fun htrap => ?_⟩
    cases ht.symm.trans htrap
  | true => exact ⟨_, congrArg (fun t => some (t, m)) (hfinish _), rfl, fun _ => rfl⟩

end Word

/-- After `SUBcc` a branch is taken, or a trap raised, exactly if the relation holds. -/
theorem conditions_compare (fpu : FloatingPointFunctions) (mem : VirtualMemory σ) (m : σ)
    (s : SparcCore nw) (ht : s.trap = false) {word : Word}
    (hdecode : (s.fetched word).reg.decode = some SUBcc) (cond : Condition) :
    let a := (s.fetched word).operand1
    let b := (s.fetched word).operand2
    ∃ s', executeWord fpu mem word s m = some (s', m) ∧ s'.trap = false ∧
      (∀ branch, (s'.fetched branch).reg.decode = some cond.bicc →
        ∃ s'', executeWord fpu mem branch s' m = some (s'', m) ∧
          Branched s' s'' branch (cond.relation a b) (cond == .always)) ∧
      ∀ trap, (s'.fetched trap).reg.decode = some cond.ticc →
        ∃ s'', executeWord fpu mem trap s' m = some (s'', m) ∧
          s''.trap = cond.relation a b ∧ (s''.trap = true → s''.flag .trapInstruction = true) := by
  intro a b
  have hsub : executeInstruction fpu SUBcc (s.ready word) =
      some ((((s.ready word).writeY (s.ready word).reg.Y).writeRd (a - b)).writeIcc
        (wordOfBool (a - b).msb) (wordOfBool (a - b == 0))
        (wordOfBool (subOverflow a.msb b.msb (a - b).msb))
        (wordOfBool (subCarry a.msb b.msb (a - b).msb))) := by
    rw [← signBit_eq_msb (a - b), ← signBit_eq_msb a, ← signBit_eq_msb b]
    rfl
  obtain ⟨s', hword, hwrote, hflags, -⟩ := exists_executeWord hdecode rfl rfl ht hsub m
  have ht' : s'.trap = false := hwrote.trap.trans ht
  refine ⟨s', hword, ht', fun branch hbranch => ?_, fun trap htrap => ?_⟩
  · rw [← Condition.eval_eq_relation]
    exact exists_branched fpu mem m hflags ht' hbranch
  · rw [← Condition.eval_eq_relation]
    exact exists_trapped fpu mem m hflags ht' htrap

/-- What a word is decoded to depends on the word only. -/
theorem decode_fetched (s t : SparcCore nw) (word : Word) :
    (s.fetched word).reg.decode = (t.fetched word).reg.decode := rfl

/-- After `SUBcc %g1, 1, %g0` of the least number a branch on less is taken. -/
theorem conditions_compare_less :
    let s : SparcCore 8 :=
      { (SparcCore.initial 0 0 0 0 false : SparcCore 8) with
        reg := (Registers.initial 0).wR 1 0x80000000 }
    ∃ s' s'', executeWord default MemCore.virtualMemory 0x80A06001 s zeroMemory =
        some (s', zeroMemory) ∧
      executeWord default MemCore.virtualMemory 0x06800002 s' zeroMemory =
        some (s'', zeroMemory) ∧
      s''.reg.PC = s'.reg.nPC ∧ s''.reg.nPC = s'.reg.PC + 8 := by
  intro s
  obtain ⟨s', hword, -, hbranch, -⟩ := conditions_compare default MemCore.virtualMemory zeroMemory s
    rfl (show (s.fetched 0x80A06001).reg.decode = some SUBcc by decide) .less
  obtain ⟨s'', hword', hbranched⟩ := hbranch 0x06800002
    ((decode_fetched s' s _).trans (by decide))
  refine ⟨s', s'', hword, hword', hbranched.pc, ?_⟩
  rw [hbranched.npc, if_pos (by decide), show branchOffset 0x06800002 = 8 by decide]

end SparcV8
