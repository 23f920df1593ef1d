import SparcV8.Processor.StateMachine

/-!
# Programs of instruction words

An instruction word is decoded, checked, executed and completed as the driver does it. For an
integer instruction that is its `execute` function and the step to the next instruction.
-/

namespace SparcV8

open Opcode SparcCore Option Registers BitVec

variable {nw : Nat} {σ : Type}

/-- The core with `word` as its current instruction. -/
def SparcCore.fetched (s : SparcCore nw) (word : Word) : SparcCore nw :=
  { s with reg := { s.reg with instruction := word } }

/-- Decode a word, then check, execute and complete it as the driver does. -/
def executeWord (fpu : FloatingPointFunctions) (mem : VirtualMemory σ) (word : Word)
    (s : SparcCore nw) (m : σ) : Option (SparcCore nw × σ) := do
  let s := s.fetched word
  let op ← s.reg.decode
  dispatchInstruction fpu mem op s m

variable (fpu : FloatingPointFunctions) {s : SparcCore nw}

/-- A cycle whose fetch brings a word, not annulled or refused, executes it. -/
theorem fetchAndExecute_eq_executeWord (mem : VirtualMemory σ) {m m' : σ}
    {response : VirtualMemoryResponse} (hm : mem.access s.fetchRequest m = (response, m'))
    (hmae : response.mae = false) (hannul : s.annul = false) (htrap : s.trap = false) :
    fetchAndExecute fpu mem s m =
      executeWord fpu mem response.readWord0 { s with MAE := false } m' := by
  simp [fetchAndExecute, instructionFetch, hm, hmae, recheckFetch, htrap, hannul, executeWord,
    fetched]

/-! ## The check of a decoded instruction -/

theorem reg_checkInstructionException (op : Opcode) (s : SparcCore nw) :
    (checkInstructionException op s).reg = s.reg := by
  simp only [checkInstructionException]
  split_ifs <;> rfl

variable {op : Opcode}

/-- An opcode that is no FPU or coprocessor operation passes the check. -/
theorem checkInstructionException_eq (hop : op ≠ unassigned)
    (hfp : op.isFloatingPointInstruction = false)
    (hcp : (op == CPop1 || op == CPop2 || op == CBccc) = false)
    (hunimp : ¬(s.reg.rOp = 0 ∧ s.reg.rOp2 = 0)) :
    checkInstructionException op s =
      { s with flag := Function.update s.flag .illegalIUInstr false } := by
  have hill : ((s.reg.rOp == 0 && s.reg.rOp2 == 0) ||
      ((s.reg.rOp == 3 || s.reg.rOp == 2) && op == unassigned)) = false := by
    simpa [hop] using hunimp
  simp only [checkInstructionException, hill, hfp, hcp, Bool.false_and, Bool.false_eq_true,
    if_false]

theorem checkInstructionException_trap (ht : s.trap = false) (hop : op ≠ unassigned)
    (hfp : op.isFloatingPointInstruction = false)
    (hcp : (op == CPop1 || op == CPop2 || op == CBccc) = false)
    (hunimp : ¬(s.reg.rOp = 0 ∧ s.reg.rOp2 = 0)) :
    (checkInstructionException op s).trap = false := by
  rw [checkInstructionException_eq hop hfp hcp hunimp]
  exact ht

/-! ## Integer instructions -/

/-- An instruction executed without its own unit and without a check that may fail. -/
def Opcode.isIntegerInstruction (op : Opcode) : Bool :=
  between SETHI op BVS || between TA op TVS

theorem decode_unimp {reg : Registers nw} (h : reg.decode = some op) (hop : op ≠ UNIMP) :
    ¬(reg.rOp = 0 ∧ reg.rOp2 = 0) := by
  rintro ⟨h0, h2⟩
  rw [decode, h0] at h
  rw [decodeFormat2, h2] at h
  exact hop (some.inj h).symm

/-- The state in which a decoded word is executed. -/
def SparcCore.ready (s : SparcCore nw) (word : Word) : SparcCore nw :=
  { s.fetched word with flag := Function.update s.flag .illegalIUInstr false }

/-- A word of an integer instruction is executed, and the next one follows. -/
theorem executeWord_of_decode (mem : VirtualMemory σ) {word : Word}
    (hop : op.isIntegerInstruction = true) (hd : (s.fetched word).reg.decode = some op)
    (ht : s.trap = false) (m : σ) :
    executeWord fpu mem word s m =
      (executeInstruction fpu op (s.ready word)).map fun t => (finishInstruction op t, m) := by
  -- none of the opcodes between `SETHI` and `BVS`, or of the `Ticc`, is of another kind
  have hkind : op ≠ unassigned ∧ op ≠ UNIMP ∧ op.isFloatingPointInstruction = false ∧
      (op == CPop1 || op == CPop2 || op == CBccc) = false ∧ op.isLoadInstruction = false ∧
      op.isStoreInstruction = false ∧ op.isLoadStoreAtomicInstruction = false ∧
      (op == FLUSH) = false ∧ (op.isFpop1Instruction || op.isFpop2Instruction) = false := by
    cases op <;> first | exact absurd hop (by decide) | decide
  obtain ⟨hun, himp, hfp, hcp, hload, hstore, hatomic, hflush, hfpop⟩ := hkind
  have hcheck := checkInstructionException_eq hun hfp hcp
    (decode_unimp hd himp)
  have htrap : (s.ready word).trap = false := ht
  simp only [executeWord, hd, bind_eq_bind, bind_some, dispatchInstruction, hcheck]
  change (if (s.ready word).trap = true then _ else _) = _
  rw [htrap, if_off]
  change (executeCurrentInstruction fpu mem op (s.ready word) m).bind _ = _
  simp only [executeCurrentInstruction, hload, hstore, hatomic, hflush, Bool.false_eq_true,
    if_false, bind_eq_bind]
  cases executeInstruction fpu op (s.ready word) with
  | none => rfl
  | some t =>
    simp [completeFPop, hfpop]

/-- Execute a list of words, one after the other. -/
def executeWords (fpu : FloatingPointFunctions) (mem : VirtualMemory σ) :
    List Word → SparcCore nw → σ → Option (SparcCore nw × σ)
  | [], s, m => some (s, m)
  | word :: words, s, m => do
    let (s, m) ← executeWord fpu mem word s m
    executeWords fpu mem words s m

theorem executeWords_cons {fpu : FloatingPointFunctions} {mem : VirtualMemory σ} {word : Word}
    {s s' : SparcCore nw} {m m' : σ} (words : List Word)
    (h : executeWord fpu mem word s m = some (s', m')) :
    executeWords fpu mem (word :: words) s m = executeWords fpu mem words s' m' := by
  rw [executeWords, h]
  rfl

/-! ## Instructions on registers -/

/-- The word of an arithmetic instruction on two registers. -/
def formatThree (op3 : BitVec 6) (rd rs1 rs2 : RegNum) : Word :=
  BitVec.ofNat 32
    (2 * 2 ^ 30 + rd.toNat * 2 ^ 25 + op3.toNat * 2 ^ 19 + rs1.toNat * 2 ^ 14 + rs2.toNat)

section FormatThree

variable (op3 : BitVec 6) (rd rs1 rs2 : RegNum)

theorem toNat_formatThree : (formatThree op3 rd rs1 rs2).toNat =
    2 * 2 ^ 30 + rd.toNat * 2 ^ 25 + op3.toNat * 2 ^ 19 + rs1.toNat * 2 ^ 14 + rs2.toNat := by
  have h3 := op3.isLt
  have hd := rd.isLt
  have h1 := rs1.isLt
  have h2 := rs2.isLt
  rw [formatThree, BitVec.toNat_ofNat, Nat.mod_eq_of_lt (by omega)]

variable {reg : Registers nw} (h : reg.instruction = formatThree op3 rd rs1 rs2)

include h

theorem rOp_formatThree : reg.rOp.toNat = 2 := by
  have h3 := op3.isLt
  have hd := rd.isLt
  have h1 := rs1.isLt
  have h2 := rs2.isLt
  rw [rOp, h, toNat_readBits _ (by decide), toNat_formatThree]
  omega

theorem rOp3_formatThree : reg.rOp3.toNat = op3.toNat := by
  have h3 := op3.isLt
  have h1 := rs1.isLt
  have h2 := rs2.isLt
  rw [rOp3, h, toNat_readBits _ (by decide), toNat_formatThree]
  omega

theorem rI_formatThree : reg.rI = 0 := by
  have h2 := rs2.isLt
  refine eq_of_toNat_eq ?_
  rw [rI, h, toNat_readBits _ (by decide), toNat_formatThree]
  change _ = 0
  omega

theorem rRd_formatThree : reg.rRd = rd := by
  have h3 := op3.isLt
  have hd := rd.isLt
  have h1 := rs1.isLt
  have h2 := rs2.isLt
  refine eq_of_toNat_eq ?_
  rw [rRd, toNat_setWidth, h, toNat_readBits _ (by decide), toNat_formatThree]
  omega

theorem rRs1_formatThree : reg.rRs1 = rs1 := by
  have h1 := rs1.isLt
  have h2 := rs2.isLt
  refine eq_of_toNat_eq ?_
  rw [rRs1, toNat_setWidth, h, toNat_readBits _ (by decide), toNat_formatThree]
  omega

theorem rRs2_formatThree : reg.rRs2 = rs2 := by
  have h2 := rs2.isLt
  refine eq_of_toNat_eq ?_
  rw [rRs2, toNat_setWidth, h, toNat_readBits _ (by decide), toNat_formatThree]
  omega

/-- The entries of Table F-3 that are decided by `op3` alone. -/
theorem decode_formatThree (hop : arithOpcodes[op3.toNat]? = some op) (hne : op ≠ unassigned) :
    reg.decode = some op := by
  have hspecial : op3.toNat ≠ 0x28 ∧ op3.toNat ≠ 0x30 ∧ op3.toNat ≠ 0x34 ∧ op3.toNat ≠ 0x35 ∧
      op3.toNat ≠ 0x3A := by
    refine ⟨?_, ?_, ?_, ?_, ?_⟩
    all_goals
      intro heq
      rw [heq] at hop
      exact hne (some.inj hop).symm
  rw [decode, rOp_formatThree op3 rd rs1 rs2 h]
  change reg.decodeArith = some op
  rw [decodeArith, rOp3_formatThree op3 rd rs1 rs2 h]
  split
  · next heq => exact absurd heq hspecial.1
  · next heq => exact absurd heq hspecial.2.1
  · next heq => exact absurd heq hspecial.2.2.1
  · next heq => exact absurd heq hspecial.2.2.2.1
  · next heq => exact absurd heq hspecial.2.2.2.2
  · exact hop

end FormatThree

end SparcV8
