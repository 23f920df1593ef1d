import SparcV8.Processor.Checks
import SparcV8.Processor.Invariant
import SparcV8.Processor.Program

/-!
# Which instruction words are handled

From every reachable state, executing a word ends in an assertion failure exactly for the words the
decoder calls unimplemented and for one overflow of the signed division.
-/

namespace SparcV8

open Opcode SparcCore List Registers MemCore

variable {nw : Nat} {σ : Type}

/-- A chain of steps fails only if one of them does. -/
theorem isSome_bind {α β : Type} {x : Option α} {f : α → Option β} (hx : x.isSome)
    (hf : ∀ a, (f a).isSome) : (x >>= f).isSome := by
  obtain ⟨a, rfl⟩ := Option.isSome_iff_exists.1 hx
  exact hf a

/-! ## The decoder -/

/-- The word has one of the formats that the decoder calls unimplemented. -/
def Registers.unimplementedFormat (reg : Registers nw) : Prop :=
  (reg.rOp = 0 ∧ (reg.rOp2 = 1 ∨ reg.rOp2 = 3 ∨ reg.rOp2 = 5)) ∨
  (reg.rOp = 2 ∧ reg.rOp3 = 0x34 ∧ fpop1Opcodes.lookup reg.rOpf.toNat = none) ∨
  (reg.rOp = 2 ∧ reg.rOp3 = 0x35 ∧ fpop2Opcodes.lookup reg.rOpf.toNat = none)

/-- The word is `SDIV` or `SDIVcc`. -/
def Registers.signedDivision (reg : Registers nw) : Prop :=
  reg.rOp = 2 ∧ (reg.rOp3 = 0x0F ∨ reg.rOp3 = 0x1F)

/-- What is known of a decoded opcode, apart from the table entry. -/
structure Decoded (reg : Registers nw) (op : Opcode) : Prop where
  unimplemented_iff : op = unimplemented ↔ reg.unimplementedFormat
  division_iff : op = SDIV ∨ op = SDIVcc ↔ reg.signedDivision
  unassigned_op : op = unassigned → reg.rOp = 2 ∨ reg.rOp = 3
  /-- The condition of a coprocessor branch is not decoded. -/
  not_cb : between CBA op CB012 = false

/-- An opcode of a table that holds none of the exceptional opcodes. -/
def ordinary (op : Opcode) : Bool :=
  op != unimplemented && op != SDIV && op != SDIVcc && !between CBA op CB012

variable {reg : Registers nw} {op : Opcode}

/-- Most opcodes say nothing about their word. -/
theorem decoded_of_ordinary (hop : ordinary op = true) (hu : ¬reg.unimplementedFormat)
    (hd : ¬reg.signedDivision) (ha : op = unassigned → reg.rOp = 2 ∨ reg.rOp = 3) :
    Decoded reg op := by
  simp only [ordinary, Bool.and_eq_true, bne_iff_ne, ne_eq, Bool.not_eq_true'] at hop
  obtain ⟨⟨⟨h1, h2⟩, h3⟩, h4⟩ := hop
  exact ⟨by simp [h1, hu], by simp [h2, h3, hd], ha, h4⟩

variable {table : List Opcode}

/-- All entries of a table are such. -/
theorem ordinary_of_getElem? {n : Nat} (h : table[n]? = some op) (ht : table.all ordinary = true) :
    ordinary op = true :=
  all_eq_true.1 ht op (mem_of_getElem? h)

/-- A table has an entry for every field. -/
theorem getElem?_of_lt {n k : Nat} (hk : table.length = k) (h : n < k) :
    ∃ op, table[n]? = some op :=
  ⟨table.get ⟨n, hk ▸ h⟩, getElem?_eq_getElem _⟩

/-- `op` 0: branches, `SETHI` and the unimplemented formats. -/
theorem exists_decoded_format2 (hop : reg.rOp = 0) :
    ∃ op, reg.decodeFormat2 = some op ∧ Decoded reg op := by
  have hd : ¬reg.signedDivision := by simp [signedDivision, hop]
  have hu : reg.unimplementedFormat ↔
      reg.rOp2.toNat = 1 ∨ reg.rOp2.toNat = 3 ∨ reg.rOp2.toNat = 5 := by
    simp [unimplementedFormat, hop, ← BitVec.toNat_inj]
  have hcond : reg.rCond.toNat < 16 := toNat_readBits_lt _ (by decide)
  have hlt : reg.rOp2.toNat < 8 := toNat_readBits_lt _ (by decide)
  -- an entry of a table of branches
  have htable : ∀ table : List Opcode, table.length = 16 → table.all ordinary = true →
      unassigned ∉ table → ¬reg.unimplementedFormat →
      ∃ op, table[reg.rCond.toNat]? = some op ∧ Decoded reg op := by
    intro table hlen hall hun hnu
    obtain ⟨op, h⟩ := getElem?_of_lt hlen hcond
    refine ⟨op, h, decoded_of_ordinary (ordinary_of_getElem? h hall) hnu hd ?_⟩
    rintro rfl
    exact absurd (mem_of_getElem? h) hun
  unfold decodeFormat2
  split
  · next h => exact ⟨_, rfl, decoded_of_ordinary rfl (by simp [hu, h]) hd nofun⟩
  · next h => exact ⟨_, rfl, by simp [hu, h], by simp [hd], nofun, rfl⟩
  · next h => exact htable biccOpcodes rfl rfl (by decide) (by simp [hu, h])
  · next h => exact ⟨_, rfl, by simp [hu, h], by simp [hd], nofun, rfl⟩
  · next h =>
    split
    all_goals exact ⟨_, rfl, decoded_of_ordinary rfl (by simp [hu, h]) hd nofun⟩
  · next h => exact ⟨_, rfl, by simp [hu, h], by simp [hd], nofun, rfl⟩
  · next h => exact htable fbfccOpcodes rfl rfl (by decide) (by simp [hu, h])
  · next h => exact ⟨_, rfl, decoded_of_ordinary rfl (by simp [hu, h]) hd nofun⟩
  · simp only [imp_false] at *
    omega

/-- The table of FPop operations. -/
theorem decoded_fpop {table : List (Nat × Opcode)} (hop : reg.rOp = 2)
    (ht : (table.map Prod.snd).all ordinary = true) (hd : ¬reg.signedDivision)
    (hu : reg.unimplementedFormat ↔ table.lookup reg.rOpf.toNat = none) :
    Decoded reg ((table.lookup reg.rOpf.toNat).getD unimplemented) := by
  cases hn : table.lookup reg.rOpf.toNat with
  | none => exact ⟨by simp [hu, hn], by simp [hd], nofun, rfl⟩
  | some op =>
    obtain ⟨l₁, l₂, rfl, -⟩ := lookup_eq_some_iff.1 hn
    simp only [all_map, all_eq_true] at ht
    have hop' : ordinary op = true := ht (reg.rOpf.toNat, op) (by simp)
    exact decoded_of_ordinary hop' (by simp [hu, hn]) hd (fun _ => .inl hop)

/-- The entries of Table F-3 apart from the two signed divisions. -/
theorem arithOpcodes_spec : ∀ n < 64,
    (n = 0x0F → arithOpcodes.getD n unassigned = SDIV) ∧
      (n = 0x1F → arithOpcodes.getD n unassigned = SDIVcc) ∧
      (n ≠ 0x0F ∧ n ≠ 0x1F → ordinary (arithOpcodes.getD n unassigned) = true) := by
  decide

/-- `op` 2: arithmetic, state registers, FPops and traps. -/
theorem exists_decoded_arith (hop : reg.rOp = 2) :
    ∃ op, reg.decodeArith = some op ∧ Decoded reg op := by
  have hd : reg.signedDivision ↔ reg.rOp3.toNat = 0x0F ∨ reg.rOp3.toNat = 0x1F := by
    simp [signedDivision, hop, ← BitVec.toNat_inj]
  have hu : reg.unimplementedFormat ↔
      (reg.rOp3.toNat = 0x34 ∧ fpop1Opcodes.lookup reg.rOpf.toNat = none) ∨
      (reg.rOp3.toNat = 0x35 ∧ fpop2Opcodes.lookup reg.rOpf.toNat = none) := by
    simp [unimplementedFormat, hop, ← BitVec.toNat_inj]
  have hcond : reg.rCond.toNat < 16 := toNat_readBits_lt _ (by decide)
  have hlt : reg.rOp3.toNat < 64 := toNat_readBits_lt _ (by decide)
  unfold decodeArith
  split
  · next h =>
    split_ifs
    all_goals
      exact ⟨_, rfl, decoded_of_ordinary rfl (by simp [hu, h]) (by simp [hd, h]) nofun⟩
  · next h =>
    split_ifs
    all_goals
      exact ⟨_, rfl, decoded_of_ordinary rfl (by simp [hu, h]) (by simp [hd, h]) nofun⟩
  · next h => exact ⟨_, rfl, decoded_fpop hop rfl (by simp [hd, h]) (by simp [hu, h])⟩
  · next h => exact ⟨_, rfl, decoded_fpop hop rfl (by simp [hd, h]) (by simp [hu, h])⟩
  · next h =>
    obtain ⟨op, ht⟩ : ∃ op, ticcOpcodes[reg.rCond.toNat]? = some op := getElem?_of_lt rfl hcond
    exact ⟨op, ht, decoded_of_ordinary (ordinary_of_getElem? ht rfl) (by simp [hu, h])
      (by simp [hd, h]) (fun _ => .inl hop)⟩
  · next h28 h30 h34 h35 h3A =>
    obtain ⟨op, ht⟩ : ∃ op, arithOpcodes[reg.rOp3.toNat]? = some op := getElem?_of_lt rfl hlt
    have hspec := arithOpcodes_spec _ hlt
    rw [getD_eq_getElem?_getD, ht, Option.getD_some] at hspec
    obtain ⟨h0F, h1F, hother⟩ := hspec
    have hnu : ¬reg.unimplementedFormat := by
      simp only [imp_false] at h34 h35
      simp [hu, h34, h35]
    refine ⟨op, ht, ?_⟩
    by_cases hsd : reg.signedDivision
    · rcases hd.1 hsd with h | h
      · obtain rfl := h0F h
        exact ⟨by simp [hnu], by simp [hsd], nofun, rfl⟩
      · obtain rfl := h1F h
        exact ⟨by simp [hnu], by simp [hsd], nofun, rfl⟩
    · refine decoded_of_ordinary (hother ?_) hnu hsd (fun _ => .inl hop)
      rw [hd] at hsd
      omega

/-- Every word decodes. -/
theorem exists_decoded (reg : Registers nw) : ∃ op, reg.decode = some op ∧ Decoded reg op := by
  have hlt : reg.rOp.toNat < 4 := toNat_readBits_lt _ (by decide)
  have hlt3 : reg.rOp3.toNat < 64 := toNat_readBits_lt _ (by decide)
  unfold decode
  split
  · next h => exact exists_decoded_format2 (BitVec.eq_of_toNat_eq h)
  · next h =>
    have hop : reg.rOp = 1 := BitVec.eq_of_toNat_eq h
    exact ⟨_, rfl, decoded_of_ordinary rfl (by simp [unimplementedFormat, hop])
      (by simp [signedDivision, hop]) nofun⟩
  · next h => exact exists_decoded_arith (BitVec.eq_of_toNat_eq h)
  · next h =>
    have hop : reg.rOp = 3 := BitVec.eq_of_toNat_eq h
    obtain ⟨op, ht⟩ : ∃ op, loadStoreOpcodes[reg.rOp3.toNat]? = some op :=
      getElem?_of_lt rfl hlt3
    exact ⟨op, ht, decoded_of_ordinary (ordinary_of_getElem? ht rfl)
      (by simp [unimplementedFormat, hop]) (by simp [signedDivision, hop])
      (fun _ => .inr hop)⟩
  · simp only [imp_false] at *
    omega

/-! ## Memory instructions -/

variable {s : SparcCore nw}

/-- There is no coprocessor. -/
theorem cpOff_of_wellFormed (h : s.WellFormed) : s.cpOff = true := by
  have hp : s.reg.rBpCPPresent = 0 := by
    rw [rBpCPPresent, h.cpPresent]
    decide
  simp [cpOff, hp]

/-- Two bits choose one of four bytes. -/
theorem isSome_byteLane (word address : Word) : (byteLane word (readBits address 1 0)).isSome := by
  have h : (readBits address 1 0).toNat < 4 := toNat_readBits_lt _ (by decide)
  unfold byteLane
  split <;> first | rfl | (simp only [imp_false] at *; omega)

/-- An even address is at one of two halfwords. -/
theorem readBits_low_of_bit_zero {x : Word} (h : readBits x 0 0 = 0) :
    (readBits x 1 0).toNat = 0 ∨ (readBits x 1 0).toNat = 2 := by
  rw [← BitVec.toNat_inj, toNat_readBits_zero x (by decide)] at h
  rw [toNat_readBits_zero x (by decide)]
  change x.toNat % 2 = 0 at h
  omega

variable {address : Word}

/-- A halfword at an even address is found. -/
theorem isSome_halfwordLane (word : Word) (h : readBits address 0 0 = 0) :
    (halfwordLane word (readBits address 1 0)).isSome := by
  unfold halfwordLane
  rcases readBits_low_of_bit_zero h with h | h <;> rw [h] <;> rfl

/-- A load that is aligned finds its value. -/
theorem isSome_loadedValue (word : Word) (h : loadMisaligned op address = false) :
    (loadedValue op address word).isSome := by
  have hhalf : (op == LDSH || op == LDSHA || op == LDUH || op == LDUHA) = true →
      readBits address 0 0 = 0 := by
    intro hop
    simp only [loadMisaligned, hop, Bool.true_and, Bool.or_eq_false_iff, bne_eq_false_iff_eq] at h
    exact h.2
  unfold loadedValue
  split <;> try rw [Option.isSome_map]
  all_goals first
    | exact isSome_byteLane word address
    | exact isSome_halfwordLane word (hhalf rfl)
    | rfl

/-- The source of a load is known to `writeLoaded` unless it is a doubleword load. -/
theorem isSome_writeLoaded (hload : op.isLoadInstruction = true)
    (hdouble : op.isDoubleLoadInstruction = false) (s : SparcCore nw) (word : Word) :
    (writeLoaded op s word).isSome := by
  cases op <;> first | rfl | exact absurd hload (by decide) | exact absurd hdouble (by decide)

/-- Loads do not fail after their access. -/
theorem isSome_executePostLoad (hload : op.isLoadInstruction = true) (hcp : op ≠ LDDC)
    (h : loadMisaligned op s.address = false) (readWord0 readWord1 : Word) :
    (executePostLoad op readWord0 readWord1 s).isSome := by
  unfold executePostLoad
  split
  · rfl
  split
  · next hdouble =>
    cases op <;> first | rfl | exact absurd hdouble (by decide) | exact absurd rfl hcp
  · next hdouble =>
    refine isSome_bind (isSome_loadedValue _ h) (fun word => ?_)
    split
    · rfl
    · exact isSome_writeLoaded hload (by simpa using hdouble) s word

variable (mem : VirtualMemory σ)

/-- Nor before it: those that would fail have trapped. -/
theorem isSome_executeLoad (hload : op.isLoadInstruction = true) (hs : s.WellFormed) (m : σ) :
    (executeLoad mem op s m).isSome := by
  simp only [executeLoad]
  split
  · rfl
  · next ht =>
    obtain ⟨heq, hal, hcp⟩ := (executePreLoad_cases op s).resolve_left ht
    rw [cpOff_of_wellFormed ((invisible_loadAddress op s).wellFormed hs), Bool.and_true] at hcp
    rw [← heq] at hal
    refine isSome_bind (isSome_executePostLoad hload ?_ ?_ _ _) (fun _ => rfl)
    · rintro rfl
      cases hcp
    · exact hal

/-- Stores have data, but for those of a queue or the coprocessor. -/
theorem isSome_storeData0 (hstore : op.isStoreInstruction = true)
    (hcp : between STC op STDCQ = false) (hq : (op == STDFQ) = false) (s : SparcCore nw) :
    (storeData0 op s).isSome := by
  unfold storeData0
  split <;> try rfl
  -- the halfword and byte lanes, then the stores without data
  · split_ifs <;> rfl
  · split_ifs <;> rfl
  · split <;> rfl
  · split <;> rfl
  · cases op <;> contradiction

/-- So do doubleword stores. -/
theorem isSome_storeData1 (hdouble : op.isDoubleStoreInstruction = true)
    (hcp : between STC op STDCQ = false) (hq : (op == STDFQ) = false) (s : SparcCore nw) :
    (storeData1 op s).isSome := by
  cases op <;> first
    | rfl
    | exact absurd hdouble (by decide)
    | exact absurd hcp (by decide)
    | exact absurd hq (by decide)

theorem umod_eight_of_aligned {x : Word} (h : readBits x 2 0 = 0) : x % 8 = 0 := by
  rw [← BitVec.toNat_inj, toNat_readBits_zero x (by decide)] at h
  rw [← BitVec.toNat_inj, BitVec.toNat_umod]
  exact h

/-- A store that is aligned has its lanes. -/
theorem isSome_placeStore (hstore : op.isStoreInstruction = true)
    (hcp : between STC op STDCQ = false) (hq : (op == STDFQ) = false)
    (hal : storeMisaligned op s.address = false) : (placeStore op s).isSome := by
  refine isSome_bind (isSome_storeData0 hstore hcp hq s) (fun data => ?_)
  simp only
  split
  · next hdouble =>
    have h8 : s.address % 8 = 0 := by
      apply umod_eight_of_aligned
      cases op <;> first | exact absurd hdouble (by decide) | simpa [storeMisaligned] using hal
    refine isSome_bind (isSome_storeData1 hdouble hcp hq s) (fun data1 => ?_)
    rw [if_pos h8]
    rfl
  · split <;> rfl

/-- Stores do not fail. -/
theorem isSome_executeStore (hstore : op.isStoreInstruction = true) (hs : s.WellFormed) (m : σ) :
    (executeStore mem op s m).isSome := by
  refine isSome_bind ?_ (fun t => ?_)
  · rcases executePreStore_cases op s with ⟨t, h, -⟩ | ⟨h, hal, hcp, hq⟩
    · rw [h]
      rfl
    · have haddr := (invisible_storeAddress op s).wellFormed hs
      rw [cpOff_of_wellFormed haddr, Bool.and_true] at hcp
      rw [haddr.fpQueue, Bool.and_true] at hq
      rw [h]
      exact isSome_placeStore hstore hcp hq hal
  · split <;> rfl

/-- A byte has its place in a doubleword. -/
theorem isSome_ldstubMask (address : Word) : (ldstubMask (readBits address 2 0)).isSome := by
  have h : (readBits address 2 0).toNat < 8 := toNat_readBits_lt _ (by decide)
  unfold ldstubMask
  split <;> first | rfl | (simp only [imp_false] at *; omega)

/-- So has a word that is aligned. -/
theorem isSome_swapMask (h : readBits address 1 0 = 0) :
    (swapMask (readBits address 2 0)).isSome := by
  have hcases : (readBits address 2 0).toNat = 0 ∨ (readBits address 2 0).toNat = 4 := by
    rw [readBits_low_eq_zero_iff] at h
    rw [toNat_readBits_zero _ (by decide)]
    omega
  unfold swapMask
  rcases hcases with h | h <;> rw [h] <;> rfl

/-- An atomic that is aligned has its lanes. -/
theorem isSome_placeAtomic
    (hal : ((op == SWAP || op == SWAPA) && readBits s.address 1 0 != 0) = false) :
    (placeAtomic op s).isSome := by
  unfold placeAtomic
  split
  · exact isSome_bind (isSome_ldstubMask _) (fun _ => rfl)
  split
  · next hswap =>
    rw [hswap, Bool.true_and, bne_eq_false_iff_eq] at hal
    exact isSome_bind (isSome_swapMask hal) (fun _ => rfl)
  · rfl

theorem isSome_executePostAtomicLoadStore (op : Opcode) (s : SparcCore nw)
    (rWord0 rWord1 : Word) : (executePostAtomicLoadStore op rWord0 rWord1 s).isSome := by
  unfold executePostAtomicLoadStore
  split
  · rfl
  · refine isSome_bind ?_ (fun _ => rfl)
    unfold atomicValue
    split
    · rw [Option.isSome_map]
      exact isSome_byteLane _ _
    · rfl

/-- Atomics do not fail. -/
theorem isSome_executeAtomic (op : Opcode) (s : SparcCore nw) (m : σ) :
    (executeAtomic mem op s m).isSome := by
  refine isSome_bind ?_ (fun t => ?_)
  · rcases executePreAtomicLoadStore_cases op s with ⟨t, h, -⟩ | ⟨h, hal⟩
    · rw [h]
      rfl
    · rw [h]
      exact isSome_placeAtomic hal
  · split
    · rfl
    · exact isSome_bind (isSome_executePostAtomicLoadStore op _ _ _) (fun _ => rfl)

/-! ## The other instructions -/

/-- Every state register can be read. -/
theorem isSome_executeReadStateReg (hop : between RDY op RDTBR = true) (s : SparcCore nw) :
    (executeReadStateReg op s).isSome := by
  unfold executeReadStateReg
  split
  · rfl
  split
  · rfl
  split
  · rw [Option.isSome_map]
    cases op <;> first | rfl | cases hop
  · rfl

/-- And written. -/
theorem isSome_executeWriteStateReg (hop : between WRY op WRTBR = true) (s : SparcCore nw) :
    (executeWriteStateReg op s).isSome := by
  unfold executeWriteStateReg
  simp only
  split
  · rfl
  · split_ifs <;> rfl
  · split_ifs <;> rfl
  · split_ifs <;> rfl
  · split_ifs <;> rfl
  · cases op <;> contradiction

theorem isSome_executeLogical (hop : between AND op XNORcc = true) (s : SparcCore nw) :
    (executeLogical op s).isSome := by
  cases op <;> first | rfl | exact absurd hop (by decide)

theorem isSome_executeAdd (hop : between ADD op ADDXcc = true) (s : SparcCore nw) :
    (executeAdd op s).isSome := by
  cases op <;> first | rfl | exact absurd hop (by decide)

theorem isSome_executeSub (hop : between SUB op SUBXcc = true) (s : SparcCore nw) :
    (executeSub op s).isSome := by
  cases op <;> first | rfl | exact absurd hop (by decide)

theorem isSome_executeBicc (hop : between BA op BVS = true) (s : SparcCore nw) :
    (executeBicc op s).isSome := by
  cases op <;> first | rfl | exact absurd hop (by decide)

theorem isSome_executeFBfcc (hop : between FBA op FBO = true) (s : SparcCore nw) :
    (executeFBfcc op s).isSome := by
  cases op <;> first | rfl | exact absurd hop (by decide)

/-- Every trap instruction has its condition. -/
theorem isSome_executeTicc (hop : between TA op TVS = true) (s : SparcCore nw) :
    (executeTicc op s).isSome := by
  refine isSome_bind ?_ (fun _ => ?_)
  · cases op <;> first | rfl | cases hop
  · simp only
    split <;> rfl

theorem isSome_shiftResult (hop : between SLL op SRA = true) (operand1 : Word) (shiftCount : Nat) :
    (shiftResult op operand1 shiftCount).isSome := by
  unfold shiftResult
  split
  · rfl
  split
  · rfl
  · rfl
  · split_ifs <;> rfl
  · cases op <;> contradiction

theorem isSome_executeShift (hop : between SLL op SRA = true) (s : SparcCore nw) :
    (executeShift op s).isSome :=
  isSome_bind (isSome_shiftResult hop _ _) (fun _ => rfl)

variable (fpu : FloatingPointFunctions)

/-- Every floating-point operation has its function. -/
theorem isSome_executeFPop (hop : (op.isFpop1Instruction || op.isFpop2Instruction) = true)
    (s : SparcCore nw) : (executeFPop fpu op s).isSome := by
  refine isSome_bind ?_ (fun _ => ?_)
  · cases op <;> first | rfl | cases hop
  · simp only
    split <;> rfl

/-- Opcodes that `executeInstruction` is not called with, or has no branch for. -/
def undispatched (op : Opcode) : Bool :=
  op.isLoadInstruction || op.isStoreInstruction || op.isLoadStoreAtomicInstruction ||
    op == FLUSH || between CBA op CB012 || op == unimplemented || op == unassigned

/-- A choice fails only if what is chosen does. -/
theorem isSome_ite {α : Type} {c : Prop} [Decidable c] {a b : Option α} (ha : c → a.isSome)
    (hb : ¬c → b.isSome) : (if c then a else b).isSome := by
  split
  · next h => exact ha h
  · next h => exact hb h

/-- The branches of `executeInstruction` cover every opcode it is called with. -/
theorem dispatched_cover (hop : undispatched op = false) :
    (op == SETHI || op == NOP || between AND op XNORcc || between SLL op SRA ||
      between ADD op ADDXcc || between TADDcc op TADDccTV || between SUB op SUBXcc ||
      between TSUBcc op TSUBccTV || op == MULScc || between UMUL op SMULcc ||
      between UDIV op SDIVcc || between SAVE op RESTORE || between BA op BVS ||
      between FBA op FBO || op == CBccc || op == CALL || op == JMPL || op == RETT ||
      between TA op TVS || between RDY op RDTBR || between WRY op WRTBR || op == STBAR ||
      op == UNIMP || (op.isFpop1Instruction || op.isFpop2Instruction) ||
      (op == CPop1 || op == CPop2)) = true := by
  cases op <;> first | rfl | contradiction

/-- An instruction is executed without a failure, unless it is a division that fails. -/
theorem isSome_executeInstruction (hop : undispatched op = false)
    (hdiv : between UDIV op SDIVcc = true → (executeDiv op s).isSome) :
    (executeInstruction fpu op s).isSome := by
  have hcover := dispatched_cover hop
  refine isSome_ite (fun _ => rfl) (fun h1 => ?_)
  refine isSome_ite (fun _ => rfl) (fun h2 => ?_)
  refine isSome_ite (fun h => isSome_executeLogical h s) (fun h3 => ?_)
  refine isSome_ite (fun h => isSome_executeShift h s) (fun h4 => ?_)
  refine isSome_ite (fun h => isSome_executeAdd h s) (fun h5 => ?_)
  refine isSome_ite (fun _ => rfl) (fun h6 => ?_)
  refine isSome_ite (fun h => isSome_executeSub h s) (fun h7 => ?_)
  refine isSome_ite (fun _ => rfl) (fun h8 => ?_)
  refine isSome_ite (fun _ => rfl) (fun h9 => ?_)
  refine isSome_ite (fun _ => rfl) (fun h10 => ?_)
  refine isSome_ite hdiv (fun h11 => ?_)
  refine isSome_ite (fun _ => rfl) (fun h12 => ?_)
  refine isSome_ite (fun h => isSome_executeBicc h s) (fun h13 => ?_)
  refine isSome_ite (fun h => isSome_executeFBfcc h s) (fun h14 => ?_)
  refine isSome_ite (fun _ => rfl) (fun h15 => ?_)
  refine isSome_ite (fun _ => rfl) (fun h16 => ?_)
  refine isSome_ite (fun _ => rfl) (fun h17 => ?_)
  refine isSome_ite (fun _ => rfl) (fun h18 => ?_)
  refine isSome_ite (fun h => isSome_executeTicc h s) (fun h19 => ?_)
  refine isSome_ite (fun h => isSome_executeReadStateReg h s) (fun h20 => ?_)
  refine isSome_ite (fun h => isSome_executeWriteStateReg h s) (fun h21 => ?_)
  refine isSome_ite (fun _ => rfl) (fun h22 => ?_)
  refine isSome_ite (fun _ => rfl) (fun h23 => ?_)
  refine isSome_ite (fun h => isSome_executeFPop fpu h s) (fun h24 => ?_)
  refine isSome_ite (fun _ => rfl) (fun h25 => ?_)
  -- no branch is left
  simp only [h1, h2, h3, h4, h5, h6, h7, h8, h9, h10, h11, h12, h13, h14, h15, h16, h17, h18, h19,
    h20, h21, h22, h23, h24, h25, Bool.or_eq_true, or_self, Bool.false_eq_true] at hcover

/-- The operands on which the host's signed division overflows. -/
def SparcCore.divisionOverflow (s : SparcCore nw) : Prop :=
  concatBits s.reg.Y s.operand1 = BitVec.intMin 64 ∧ s.operand2 = 0xFFFFFFFF

/-- One signed division of the host overflows. -/
theorem isSome_signedQuotient_iff (dividend : BitVec 64) (operand2 : Word) :
    (signedQuotient dividend operand2).isSome ↔
      ¬(dividend = BitVec.intMin 64 ∧ operand2 = 0xFFFFFFFF) := by
  unfold signedQuotient
  split
  · next h => simp [h]
  · next h =>
    simp only [h, not_false_eq_true, iff_true]
    split_ifs <;> rfl

/-- Divisions fail just for those operands. -/
theorem isSome_executeDiv_iff (hop : between UDIV op SDIVcc = true) (s : SparcCore nw) :
    (executeDiv op s).isSome ↔ ¬((op = SDIV ∨ op = SDIVcc) ∧ s.divisionOverflow) := by
  have hq : (executeDiv op s).isSome ↔
      s.operand2 = 0 ∨ (quotient op (concatBits s.reg.Y s.operand1) s.operand2).isSome := by
    unfold executeDiv
    split
    · next h => simp [h]
    · next h =>
      simp only [h, false_or]
      cases quotient op (concatBits s.reg.Y s.operand1) s.operand2 with
      | none => rfl
      | some r =>
        simp only [Option.isSome_some, iff_true]
        split <;> rfl
  rw [hq, divisionOverflow]
  unfold quotient
  split
  · next hu =>
    have : ¬(op = SDIV ∨ op = SDIVcc) := by
      rintro (rfl | rfl) <;> cases hu
    simp [this]
  · next hu =>
    have : op = SDIV ∨ op = SDIVcc := by
      cases op <;> first | exact .inl rfl | exact .inr rfl | contradiction
    rw [isSome_signedQuotient_iff]
    simp only [this, true_and, or_iff_right_iff_imp]
    rintro h0 ⟨-, h1⟩
    rw [h0] at h1
    exact absurd h1 (by decide)

/-! ## A decoded instruction -/

/-- The checks leave the operands. -/
theorem divisionOverflow_checkInstructionException (op : Opcode) (s : SparcCore nw) :
    (checkInstructionException op s).divisionOverflow ↔ s.divisionOverflow := by
  simp only [divisionOverflow, operand1, operand2, reg_checkInstructionException]

/-- An unassigned opcode traps in the check. -/
theorem checkInstructionException_unassigned (h : s.reg.rOp = 2 ∨ s.reg.rOp = 3) :
    (checkInstructionException unassigned s).trap = true := by
  have hill : ((s.reg.rOp == 0 && s.reg.rOp2 == 0) ||
      ((s.reg.rOp == 3 || s.reg.rOp == 2) && unassigned == unassigned)) = true := by
    rcases h with h | h <;> simp [h]
  simp only [checkInstructionException, hill, if_true]
  split_ifs <;> rfl

/-- Words that the driver cannot execute: the decoder's unimplemented formats, and a signed
division of the least 64-bit number by -1. -/
def SparcCore.unhandled (s : SparcCore nw) : Prop :=
  s.reg.unimplementedFormat ∨ (s.reg.signedDivision ∧ s.divisionOverflow)

/-- Everything that was decoded and not excluded is executed. -/
theorem isSome_executeCurrentInstruction (mem : VirtualMemory σ) (hs : s.WellFormed) (m : σ)
    (hcb : between CBA op CB012 = false) (hunimp : op ≠ unimplemented) (hunas : op ≠ unassigned)
    (hdiv : ¬((op = SDIV ∨ op = SDIVcc) ∧ s.divisionOverflow)) :
    (executeCurrentInstruction fpu mem op s m).isSome := by
  refine isSome_ite (fun hload => isSome_executeLoad mem hload hs m) (fun hload => ?_)
  refine isSome_ite (fun hstore => isSome_executeStore mem hstore hs m) (fun hstore => ?_)
  refine isSome_ite (fun _ => isSome_executeAtomic mem op s m) (fun hatomic => ?_)
  refine isSome_ite (fun _ => rfl) (fun hflush => ?_)
  refine isSome_bind (isSome_executeInstruction fpu ?_ ?_) (fun _ => rfl)
  · simp only [Bool.not_eq_true] at hload hstore hatomic hflush
    simp [undispatched, hload, hstore, hatomic, hflush, hcb, hunimp, hunas]
  · exact fun h => (isSome_executeDiv_iff h s).2 hdiv

theorem executeCurrentInstruction_division (mem : VirtualMemory σ) (m : σ)
    (hop : op = SDIV ∨ op = SDIVcc) (h : s.divisionOverflow) :
    executeCurrentInstruction fpu mem op s m = none := by
  have hnone : executeDiv op s = none := by
    rw [← Option.not_isSome_iff_eq_none, isSome_executeDiv_iff]
    · exact fun hn => hn ⟨hop, h⟩
    · rcases hop with rfl | rfl <;> rfl
  have hdiv : executeCurrentInstruction fpu mem op s m = (executeDiv op s).map
      (fun t => (t, m)) := by
    rcases hop with rfl | rfl
    all_goals simp only [executeCurrentInstruction]
    all_goals exact bind_pure_comp _ _
  rw [hdiv, hnone, Option.map_none]

theorem dispatchInstruction_eq_none {fpu : FloatingPointFunctions} {mem : VirtualMemory σ} {m : σ}
    (ht : (checkInstructionException op s).trap = false)
    (h : executeCurrentInstruction fpu mem op (checkInstructionException op s) m = none) :
    dispatchInstruction fpu mem op s m = none := by
  simp only [dispatchInstruction, ht, if_off, h]
  rfl

/-- A decoded instruction is executed exactly if its word is handled. -/
theorem dispatchInstruction_isSome_iff (mem : VirtualMemory σ) (hs : s.WellFormed)
    (ht : s.trap = false) (hop : Decoded s.reg op) (m : σ) :
    (dispatchInstruction fpu mem op s m).isSome ↔ ¬s.unhandled := by
  have hcheck := (invisible_checkInstructionException op s).wellFormed hs
  constructor
  · intro h
    contrapose! h
    rw [ne_eq, Option.not_isSome_iff_eq_none]
    rcases h with hu | ⟨hd, ho⟩
    · obtain rfl := hop.unimplemented_iff.2 hu
      refine dispatchInstruction_eq_none ?_ rfl
      refine checkInstructionException_trap ht (by decide) rfl rfl ?_
      rintro ⟨h0, h2⟩
      simp [unimplementedFormat, h0, h2] at hu
    · have hsdiv := hop.division_iff.2 hd
      refine dispatchInstruction_eq_none ?_ (executeCurrentInstruction_division fpu mem m hsdiv
        ((divisionOverflow_checkInstructionException op s).2 ho))
      have hunimp : ¬(s.reg.rOp = 0 ∧ s.reg.rOp2 = 0) := by simp [hd.1]
      rcases hsdiv with rfl | rfl
      all_goals exact checkInstructionException_trap ht (by decide) rfl rfl hunimp
  · intro hun
    simp only [dispatchInstruction]
    split
    · rfl
    · next htrap =>
      refine isSome_bind (isSome_executeCurrentInstruction fpu mem hcheck m hop.not_cb ?_ ?_ ?_)
        (fun _ => rfl)
      · exact fun h => hun (.inl (hop.unimplemented_iff.1 h))
      · rintro rfl
        exact htrap (checkInstructionException_unassigned (hop.unassigned_op rfl))
      · rw [divisionOverflow_checkInstructionException, hop.division_iff]
        exact fun h => hun (.inr h)

/-- No trap is pending after the traps were taken. -/
theorem trap_executeTraps (s : SparcCore nw) : s.executeTraps.trap = false := by
  unfold executeTraps
  split
  · simp only
    split
    · rfl
    · unfold jumpToVector saveReturn
      split_ifs <;> rfl
  · next h => simpa using h

/-- In a state in which the driver executes, a word is executed to its end, or to a trap, exactly
if it is not one of the unhandled words. -/
theorem executeWord_isSome_iff (fpu : FloatingPointFunctions) (mem : VirtualMemory σ)
    {init : σ → Prop} {env : σ → σ → Prop} (hnw : 0 < nw) (hnw' : nw ≤ 32) {s : SparcCore nw}
    {m : σ} (h : Reachable fpu mem init env s m) (word : Word) (n : σ) :
    (executeWord fpu mem word (takeTraps (leaveReset s)) n).isSome ↔
      ¬((takeTraps (leaveReset s)).fetched word).unhandled := by
  have hs := wellFormed_takeTraps hnw hnw' (wellFormed_leaveReset (h.wellFormed hnw hnw'))
  have ht : (takeTraps (leaveReset s)).trap = false := trap_executeTraps _
  generalize takeTraps (leaveReset s) = t at hs ht
  have hs' : (t.fetched word).WellFormed := hs.of_config rfl hs.cwp hs.pc hs.npc hs.tbr
  obtain ⟨op, hdecode, hop⟩ := exists_decoded (t.fetched word).reg
  simp only [executeWord, hdecode, Option.bind_eq_bind, Option.bind_some]
  exact dispatchInstruction_isSome_iff fpu mem hs' ht hop n

/-- A core with 8 windows that starts at address 0. -/
def resetCore : SparcCore 8 := SparcCore.initial 0 0 0 0 false

/-- A signed division by -1 after reset, `SDIV %g0, -1, %g1`, is executed. -/
theorem executeWord_isSome_iff_division :
    ((takeTraps (leaveReset resetCore)).fetched 0x82783FFF).reg.decode = some SDIV ∧
      (executeWord default virtualMemory 0x82783FFF (takeTraps (leaveReset resetCore))
        zeroMemory).isSome = true ∧
      ¬((takeTraps (leaveReset resetCore)).fetched 0x82783FFF).unhandled := by
  have h : Reachable default virtualMemory (fun _ => True) (fun _ _ => False) resetCore
      zeroMemory := Reachable.reset 0 0 0 0 false (by decide) trivial
  have hsome : (executeWord default virtualMemory 0x82783FFF
      (takeTraps (leaveReset resetCore)) zeroMemory).isSome = true := by
    decide
  exact ⟨by decide, hsome, (executeWord_isSome_iff default _ (by decide) (by decide) h _ _).1 hsome⟩

/-- The first instruction after reset, with `op` 0 and `op2` 1, runs into an assertion. -/
theorem executeWord_unimplemented_after_reset :
    Reachable default virtualMemory (fun _ => True) (fun _ _ => False) resetCore
        zeroMemory ∧
      (takeTraps (leaveReset resetCore)).state = .EXECUTE ∧
      (takeTraps (leaveReset resetCore)).annul = false ∧
      executeWord default virtualMemory 0x00400000 (takeTraps (leaveReset resetCore))
        zeroMemory = none :=
  ⟨Reachable.reset 0 0 0 0 false (by decide) trivial, by decide, by decide, rfl⟩

end SparcV8
