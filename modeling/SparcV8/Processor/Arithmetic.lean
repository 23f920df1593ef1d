import SparcV8.Processor.Program

/-!
# Effects of arithmetic instructions

An arithmetic instruction leaves a result in its destination register, the condition codes and
`Y`, and no other register changes.
-/

namespace SparcV8

open Opcode SparcCore Registers Nat

variable {nw : Nat} {σ : Type}

/-! ## Condition codes -/

variable (x : Word)

theorem readBits_sign : readBits x 31 31 = wordOfBool x.msb := by
  have hbit := readBits_ne_zero_iff x (show 31 < 32 by decide)
  rw [BitVec.msb_eq_getLsbD_last]
  cases hx : x.getLsbD 31 with
  | false =>
    rw [hx] at hbit
    exact not_not.1 fun h => Bool.false_ne_true (hbit.1 h)
  | true => exact (readBits_bit x (by decide)).resolve_left (hbit.2 hx)

theorem signBit_eq_msb : signBit x = x.msb := by
  rw [signBit, readBits_sign]
  cases x.msb <;> rfl

/-- The integer condition codes of a state. -/
structure Flags (reg : Registers nw) (n z v c : Bool) : Prop where
  n_eq : reg.rN = wordOfBool n
  z_eq : reg.rZ = wordOfBool z
  v_eq : reg.rV = wordOfBool v
  c_eq : reg.rC = wordOfBool c

theorem readBits_wordOfBool (b : Bool) : readBits (wordOfBool b) 0 0 = wordOfBool b := by
  cases b <;> decide

theorem flags_writeIcc (s : SparcCore nw) (n z v c : Bool) :
    Flags (s.writeIcc (wordOfBool n) (wordOfBool z) (wordOfBool v) (wordOfBool c)).reg n z v c := by
  -- the four fields are written from `N` down to `C`
  have hpsr : (s.writeIcc (wordOfBool n) (wordOfBool z) (wordOfBool v) (wordOfBool c)).reg.PSR =
      writeBits (writeBits (writeBits (writeBits s.reg.PSR 23 23 (wordOfBool n)) 22 22
        (wordOfBool z)) 21 21 (wordOfBool v)) 20 20 (wordOfBool c) := rfl
  constructor
  · rw [rN, hpsr, readBits_writeBits_off (by decide), readBits_writeBits_off (by decide),
      readBits_writeBits_off (by decide), readBits_writeBits_self (by decide)]
    exact readBits_wordOfBool n
  · rw [rZ, hpsr, readBits_writeBits_off (by decide), readBits_writeBits_off (by decide),
      readBits_writeBits_self (by decide)]
    exact readBits_wordOfBool z
  · rw [rV, hpsr, readBits_writeBits_off (by decide), readBits_writeBits_self (by decide)]
    exact readBits_wordOfBool v
  · rw [rC, hpsr, readBits_writeBits_self (by decide)]
    exact readBits_wordOfBool c

theorem rR_writeIcc (s : SparcCore nw) (n z v c : Word) (k : RegNum) :
    (s.writeIcc n z v c).reg.rR k = s.reg.rR k := by
  simp only [writeIcc, wN, wZ, wV, wC]
  rw [rR_wPSRField _ _ (by decide) (by decide), rR_wPSRField _ _ (by decide) (by decide),
    rR_wPSRField _ _ (by decide) (by decide), rR_wPSRField _ _ (by decide) (by decide)]

/-! ## The flags as numbers -/

/-- The sign of a word, and its value as a signed number. -/
theorem msb_cases :
    x.msb = false ∧ x.toNat < 2 ^ 31 ∧ x.toInt = x.toNat ∨
      x.msb = true ∧ 2 ^ 31 ≤ x.toNat ∧ x.toInt = x.toNat - 2 ^ 32 := by
  rw [BitVec.msb_eq_decide, BitVec.toInt_eq_toNat_cond]
  have hx := x.isLt
  by_cases h : 2 ^ 31 ≤ x.toNat
  · exact .inr ⟨decide_eq_true h, h, if_neg (by omega)⟩
  · exact .inl ⟨decide_eq_false h, by omega, if_pos (by omega)⟩

theorem toNat_wordOfBool (b : Bool) : (wordOfBool b).toNat = b.toNat := by
  cases b <;> rfl

/-- The flags of an addition with carry in. -/
theorem add_flags (x y : Word) (c : Bool) {r : Word} (hr : r = x + y + wordOfBool c) :
    x.toNat + y.toNat + c.toNat = r.toNat + 2 ^ 32 * (addCarry x.msb y.msb r.msb).toNat ∧
      (addOverflow x.msb y.msb r.msb = true ↔
        ¬(-2 ^ 31 ≤ x.toInt + y.toInt + c.toNat ∧ x.toInt + y.toInt + c.toNat < 2 ^ 31)) := by
  have hsum : r.toNat = (x.toNat + y.toNat + c.toNat) % 2 ^ 32 := by
    rw [hr, BitVec.toNat_add, BitVec.toNat_add, toNat_wordOfBool]
    omega
  have hc := Bool.toNat_le c
  have hxlt := x.isLt
  have hylt := y.isLt
  have hrlt := r.isLt
  rcases msb_cases x with ⟨hx, hxn, hxi⟩ | ⟨hx, hxn, hxi⟩ <;>
    rcases msb_cases y with ⟨hy, hyn, hyi⟩ | ⟨hy, hyn, hyi⟩ <;>
    rcases msb_cases r with ⟨hz, hzn, -⟩ | ⟨hz, hzn, -⟩ <;>
    simp [addCarry, addOverflow, hx, hy, hz, hxi, hyi] <;>
    omega

/-- The flags of a subtraction with borrow in. -/
theorem sub_flags (x y : Word) (c : Bool) {r : Word} (hr : r = x - y - wordOfBool c) :
    x.toNat + 2 ^ 32 * (subCarry x.msb y.msb r.msb).toNat = y.toNat + c.toNat + r.toNat ∧
      ((r.msb ^^ subOverflow x.msb y.msb r.msb) = true ↔ x.toInt < y.toInt + c.toNat) ∧
      (subOverflow x.msb y.msb r.msb = true ↔
        ¬(-2 ^ 31 ≤ x.toInt - y.toInt - c.toNat ∧ x.toInt - y.toInt - c.toNat < 2 ^ 31)) := by
  have hdiff : r.toNat = (x.toNat + (2 ^ 32 - y.toNat) + (2 ^ 32 - c.toNat)) % 2 ^ 32 := by
    have hc := Bool.toNat_le c
    rw [hr, BitVec.toNat_sub, BitVec.toNat_sub, toNat_wordOfBool]
    omega
  have hc := Bool.toNat_le c
  have hxlt := x.isLt
  have hylt := y.isLt
  have hrlt := r.isLt
  rcases msb_cases x with ⟨hx, hxn, hxi⟩ | ⟨hx, hxn, hxi⟩ <;>
    rcases msb_cases y with ⟨hy, hyn, hyi⟩ | ⟨hy, hyn, hyi⟩ <;>
    rcases msb_cases r with ⟨hz, hzn, -⟩ | ⟨hz, hzn, -⟩ <;>
    simp [subCarry, subOverflow, hx, hy, hz, hxi, hyi] <;>
    omega

/-- The upper word of a pair has the sign. -/
theorem toInt_concatBits (x y : Word) : (concatBits x y).toInt = x.toInt * 2 ^ 32 + y.toNat := by
  have hx := x.isLt
  have hy := y.isLt
  have hnat : (concatBits x y).toNat = 2 ^ 32 * x.toNat + y.toNat := by
    have hlow : readBits y 31 0 = y := bitField_whole y (by decide)
    rw [concatBits, hlow, BitVec.toNat_or, BitVec.toNat_shiftLeft, BitVec.toNat_setWidth,
      BitVec.toNat_setWidth, shiftLeft_eq, mod_eq_of_lt (by omega), mod_eq_of_lt (by omega),
      mod_eq_of_lt (by omega), mul_comm, ← two_pow_add_eq_or_of_lt hy]
  rw [BitVec.toInt_eq_toNat_cond, BitVec.toInt_eq_toNat_cond, hnat]
  split <;> split <;> omega

/-! ## Results -/

/-- A write to register 0 does nothing, so the source's test for it does not matter. -/
theorem writeNonzeroRd_eq (s : SparcCore nw) (value : Word) :
    s.writeNonzeroRd value = s.writeRd value := by
  unfold writeNonzeroRd
  split
  · rfl
  · next h =>
    rw [not_not] at h
    rw [writeRd, h]
    rfl

/-- The result is in its register, and every other register is as before. -/
structure Wrote (s s' : SparcCore nw) (rd : RegNum) (value : Word) : Prop where
  trap : s'.trap = s.trap
  annul : s'.annul = s.annul
  result : rd ≠ 0 → s'.reg.rR rd = value
  others : 2 ≤ nw → ∀ k, k ≠ rd → s'.reg.rR k = s.reg.rR k

theorem wrote_writeIcc (s : SparcCore nw) (y value : Word) (n z v c : Word) :
    Wrote s (((s.writeY y).writeRd value).writeIcc n z v c) s.reg.rRd value where
  trap := rfl
  annul := rfl
  result h := by
    rw [rR_writeIcc]
    exact rR_wR_self _ value h
  others hnw k hk := by
    rw [rR_writeIcc]
    exact rR_wR_of_ne _ hnw value hk

/-! ## One instruction word -/

section Word

variable {fpu : FloatingPointFunctions} {mem : VirtualMemory σ} {op : Opcode} {s : SparcCore nw}
  {word : Word}

theorem instruction_ready (s : SparcCore nw) (word : Word) :
    (s.ready word).reg.instruction = word := rfl

theorem rR_ready (s : SparcCore nw) (word : Word) (k : RegNum) :
    (s.ready word).reg.rR k = s.reg.rR k := rfl

theorem rN_ready (s : SparcCore nw) (word : Word) : (s.ready word).reg.rN = s.reg.rN := rfl

theorem rV_ready (s : SparcCore nw) (word : Word) : (s.ready word).reg.rV = s.reg.rV := rfl

theorem rC_ready (s : SparcCore nw) (word : Word) : (s.ready word).reg.rC = s.reg.rC := rfl

theorem Y_ready (s : SparcCore nw) (word : Word) : (s.ready word).reg.Y = s.reg.Y := rfl

/-- A word of an arithmetic instruction that sets the condition codes. -/
theorem exists_executeWord (hdecode : (s.fetched word).reg.decode = some op)
    (hinteger : op.isIntegerInstruction = true) (hbranch : op.isBranchInstruction = false)
    (ht : s.trap = false) {y value : Word} {n z v c : Bool}
    (h : executeInstruction fpu op (s.ready word) =
      some ((((s.ready word).writeY y).writeRd value).writeIcc
        (wordOfBool n) (wordOfBool z) (wordOfBool v) (wordOfBool c))) (m : σ) :
    ∃ s', executeWord fpu mem word s m = some (s', m) ∧
      Wrote s s' (s.ready word).reg.rRd value ∧ Flags s'.reg n z v c ∧ s'.reg.Y = y := by
  have hwrote := wrote_writeIcc (s.ready word) y value (wordOfBool n) (wordOfBool z)
    (wordOfBool v) (wordOfBool c)
  have hflags := flags_writeIcc (((s.ready word).writeY y).writeRd value) n z v c
  have hy : ((((s.ready word).writeY y).writeRd value).writeIcc (wordOfBool n) (wordOfBool z)
      (wordOfBool v) (wordOfBool c)).reg.Y = y := rfl
  generalize (((s.ready word).writeY y).writeRd value).writeIcc (wordOfBool n) (wordOfBool z)
    (wordOfBool v) (wordOfBool c) = t at h hwrote hflags hy
  have htrap : t.trap = false := hwrote.trap.trans ht
  refine ⟨t.advance, ?_, ⟨hwrote.trap, hwrote.annul, hwrote.result, hwrote.others⟩,
    ⟨hflags.n_eq, hflags.z_eq, hflags.v_eq, hflags.c_eq⟩, hy⟩
  rw [executeWord_of_decode fpu mem hinteger hdecode ht, h, Option.map_some, finishInstruction,
    htrap, hbranch]
  rfl

/-- The word is an instruction on two registers. -/
structure RegisterWord (s : SparcCore nw) (word : Word) (op : Opcode) (rd rs1 rs2 : RegNum) :
    Prop where
  decode : (s.fetched word).reg.decode = some op
  rd_eq : (s.ready word).reg.rRd = rd
  operand1_eq : (s.ready word).operand1 = s.reg.rR rs1
  operand2_eq : (s.ready word).operand2 = s.reg.rR rs2

theorem instruction_fetched (s : SparcCore nw) (word : Word) :
    (s.fetched word).reg.instruction = word := rfl

theorem registerWord_formatThree (s : SparcCore nw) (op3 : BitVec 6) (rd rs1 rs2 : RegNum)
    (hop : arithOpcodes[op3.toNat]? = some op) (hne : op ≠ unassigned) :
    RegisterWord s (formatThree op3 rd rs1 rs2) op rd rs1 rs2 where
  decode := decode_formatThree op3 rd rs1 rs2 (instruction_fetched s _) hop hne
  rd_eq := rRd_formatThree op3 rd rs1 rs2 (instruction_ready s _)
  operand1_eq := by
    rw [operand1, rRs1_formatThree op3 rd rs1 rs2 (instruction_ready s _), rR_ready]
  operand2_eq := by
    rw [operand2, rI_formatThree op3 rd rs1 rs2 (instruction_ready s _), if_pos rfl,
      rRs2_formatThree op3 rd rs1 rs2 (instruction_ready s _), rR_ready]

end Word

end SparcV8
