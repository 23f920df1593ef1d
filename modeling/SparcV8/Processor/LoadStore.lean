import SparcV8.Processor.State

/-!
# Memory instructions

The steps of loads, stores, atomic load-stores and `FLUSH` before and after the memory access. An
`assert` of the source that fails is `none`.
-/

namespace SparcV8

open Opcode

namespace SparcCore

variable {nw : Nat}
variable (s : SparcCore nw)

/-- The FPU is absent or disabled. -/
def fpuOff : Bool := s.reg.rEF == 0 || s.reg.rBpFPUPresent == 0

/-- The coprocessor is absent or disabled. -/
def cpOff : Bool := s.reg.rEC == 0 || s.reg.rBpCPPresent == 0

/-- `fp_exception` with the given floating-point trap type. -/
def raiseFp (ftt : Word) : SparcCore nw :=
  { s.raise .fpException with reg := s.reg.wFtt ftt }

/-- Floating-point trap types. -/
def ieee754Exception : Word := 1
def unfinishedFPop : Word := 2
def unimplementedFPop : Word := 3
def sequenceError : Word := 4
def invalidFpRegister : Word := 6

/-- The ordinary data space of the current mode. -/
def dataSpace : Word := if s.reg.rS = 0 then 10 else 11

/-- Address and ASI of an access that is not to an alternate space. -/
def setDataAddress : SparcCore nw :=
  { s with address := s.operand1 + s.operand2, addrSpace := s.dataSpace }

/-- Address and ASI of an alternate-space access. -/
def setAlternateAddress : SparcCore nw :=
  { s with address := s.operand1 + s.reg.rR s.reg.rRs2, addrSpace := s.reg.rAsi }

/-! ## Loads -/

variable (op : Opcode)

/-- Effective address and ASI, with the privilege checks of the alternate spaces. -/
def loadAddress (s : SparcCore nw) : SparcCore nw :=
  if between LDSBA op LDDA then
    if s.reg.rS = 0 then s.raise .privilegedInstruction
    else if s.reg.rI = 1 then s.raise .illegalInstruction
    else s.setAlternateAddress
  else s.setDataAddress

/-- The address is not a multiple of the size of the load. -/
def loadMisaligned (address : Word) : Bool :=
  ((op == LDD || op == LDDA || op == LDDF || op == LDDC) && readBits address 2 0 != 0) ||
  ((op == LD || op == LDA || op == LDF || op == LDFSR || op == LDC || op == LDCSR) &&
    readBits address 1 0 != 0) ||
  ((op == LDSH || op == LDSHA || op == LDUH || op == LDUHA) && readBits address 0 0 != 0)

/-- The remaining checks before the memory is read. -/
def loadTraps (s : SparcCore nw) : SparcCore nw :=
  if between LDF op LDFSR && s.fpuOff then s.raise .fpDisabled
  else if between LDC op LDCSR && s.cpOff then s.raise .cpDisabled
  else if loadMisaligned op s.address then s.raise .memAddressNotAligned
  else if op == LDDF && s.reg.rRd.getLsbD 0 then s.raiseFp invalidFpRegister
  else if (op == LDF || op == LDDF || op == LDFSR) && s.anFPUSequenceErrorIsDetected then
    s.raiseFp sequenceError
  else if between LDC op LDCSR && s.aCPSequenceErrorIsDetected then s.raise .cpException
  else s

def executePreLoad (s : SparcCore nw) : SparcCore nw :=
  let s := loadAddress op s
  if s.trap then s else loadTraps op s

/-- The words of the doubleword a load needs. -/
def loadWordMask (s : SparcCore nw) : Word :=
  if op.isDoubleLoadInstruction then 0xFF
  else if s.address &&& 0x4 ≠ 0 then 0xF0 else 0x0F

variable (word a : Word)

/-- The byte of `word` at offset `a`, the most significant one being at offset 0. -/
def byteLane : Option Word :=
  match a.toNat with
  | 0 => some (readBits word 31 24)
  | 1 => some (readBits word 23 16)
  | 2 => some (readBits word 15 8)
  | 3 => some (readBits word 7 0)
  | _ => none

/-- The halfword of `word` at offset `a`. -/
def halfwordLane : Option Word :=
  match a.toNat with
  | 0 => some (readBits word 31 16)
  | 2 => some (readBits word 15 0)
  | _ => none

/-- Select and extend the part of `word` that a load takes. -/
def loadedValue (address word : Word) : Option Word :=
  match op with
  | LDSB | LDSBA => (byteLane word (readBits address 1 0)).map signExtendByte
  | LDUB | LDUBA => (byteLane word (readBits address 1 0)).map zeroExtendByte
  | LDSH | LDSHA => (halfwordLane word (readBits address 1 0)).map signExtendHalfword
  | LDUH | LDUHA => (halfwordLane word (readBits address 1 0)).map zeroExtendHalfword
  | _ => some word

/-- Write a loaded value to the destination of the instruction. -/
def writeLoaded (s : SparcCore nw) (word : Word) : Option (SparcCore nw) :=
  match op with
  | LD | LDA | LDSH | LDSHA | LDUHA | LDUH | LDSB | LDSBA | LDUB | LDUBA =>
    some { s with reg := s.reg.wR s.reg.rRd word }
  | LDF => some { s with reg := s.reg.wF s.reg.rRd word }
  | LDC => some s
  | LDFSR => some { s with reg := { s.reg with FSR := word } }
  | LDCSR => some { s with reg := { s.reg with CSR := word } }
  | _ => none

def executePostLoad (readWord0 readWord1 : Word) (s : SparcCore nw) : Option (SparcCore nw) :=
  if s.MAE then some (s.raise .dataAccessException)
  else if op.isDoubleLoadInstruction then
    match op with
    | LDD | LDDA =>
      some { s with
        reg := (s.reg.wR (s.reg.rRd &&& 0x1E) readWord0).wR (s.reg.rRd ||| 1) readWord1 }
    | LDDF =>
      some { s with
        reg := (s.reg.wF (s.reg.rRd &&& 0x1E) readWord0).wF (s.reg.rRd ||| 1) readWord1 }
    | _ => none
  else do
    let word ← loadedValue op s.address
      (if readBits s.address 2 2 = 0 then readWord0 else readWord1)
    if s.trap then some s else writeLoaded op s word

/-! ## Stores -/

/-- The privilege checks of a store. -/
def storePrivilege (s : SparcCore nw) : SparcCore nw :=
  if s.reg.rS = 0 ∧ (between STBA op STDA || op == STDFQ || op == STDCQ) then
    s.raise .privilegedInstruction
  else if s.reg.rI = 1 ∧ between STBA op STDA then s.raise .illegalInstruction
  else s

/-- Effective address and ASI of a store. -/
def storeAddress (s : SparcCore nw) : SparcCore nw :=
  if between STBA op STDA then s.setAlternateAddress else s.setDataAddress

/-- The unit a store needs is absent or disabled. -/
def storeUnitTraps (s : SparcCore nw) : SparcCore nw :=
  if between STF op STDFQ && s.fpuOff then s.raise .fpDisabled
  else if between STC op STDCQ && s.cpOff then s.raise .cpDisabled
  else s

/-- The address is not a multiple of the size of the store. -/
def storeMisaligned (address : Word) : Bool :=
  ((op == STD || op == STDA || op == STDF || op == STDFQ || op == STDC || op == STDCQ) &&
    readBits address 2 0 != 0) ||
  ((op == .ST || op == STA || op == STF || op == STFSR || op == STC || op == STCSR) &&
    readBits address 1 0 != 0) ||
  ((op == STH || op == STHA) && readBits address 0 0 != 0)

/-- The queue and register checks, one after the other as in the source. -/
def storeFpQueueTrap (s : SparcCore nw) : SparcCore nw :=
  if op == STDFQ && (s.implementationHasNoFloatingPointQueue || s.reg.rQne == 0) then
    s.raiseFp sequenceError
  else s

def storeCpQueueTrap (s : SparcCore nw) : SparcCore nw :=
  if op == STDCQ && s.implementationHasNoCoprocessorQueue then s.raise .cpException else s

def storeRegisterTrap (s : SparcCore nw) : SparcCore nw :=
  if op == STDF && s.reg.rRd.getLsbD 0 then s.raiseFp invalidFpRegister else s

def storeTraps (s : SparcCore nw) : SparcCore nw :=
  if storeMisaligned op s.address then s.raise .memAddressNotAligned
  else storeRegisterTrap op (storeCpQueueTrap op (storeFpQueueTrap op s))

/-- Byte mask and first data word of a store, before they are moved to their lane. -/
def storeData0 (s : SparcCore nw) : Option (Word × Word) :=
  let rd := s.reg.rR s.reg.rRd
  match op with
  | STF => some (0x0F, s.reg.f s.reg.rRd)
  | STDF => some (0x0F, s.reg.f (s.reg.rRd &&& 0x1E))
  | STD | STDA => some (0x0F, s.reg.rR (s.reg.rRd &&& 0x1E))
  | STFSR => some (0x0F, s.reg.FSR)
  | .ST | STA => some (0x0F, rd)
  | STH | STHA =>
    if readBits s.address 1 0 = 0 then some (0x0C, rd <<< 16)
    else if readBits s.address 1 0 = 2 then some (0x03, rd)
    else some (s.byteMask, 0)
  | STB | STBA =>
    match (readBits s.address 1 0).toNat with
    | 0 => some (0x08, rd <<< 24)
    | 1 => some (0x04, rd <<< 16)
    | 2 => some (0x02, rd <<< 8)
    | 3 => some (0x01, rd)
    | _ => some (s.byteMask, 0)
  -- the coprocessor and queue stores assert
  | _ => none

/-- Second data word of a doubleword store. -/
def storeData1 (s : SparcCore nw) : Option Word :=
  match op with
  | STD | STDA => some (s.reg.rR (s.reg.rRd ||| 1))
  | STDF => some (s.reg.f (s.reg.rRd ||| 1))
  | _ => none

/-- Put the data of a store into the lanes of the doubleword it writes. -/
def placeStore (s : SparcCore nw) : Option (SparcCore nw) := do
  let (byteMask, data0) ← storeData0 op s
  if op.isDoubleStoreInstruction then
    let data1 ← storeData1 op s
    if s.address % 8 = 0 then
      some { s with writeWord0 := data0, writeWord1 := data1, byteMask := 0xFF }
    else none
  else
    let address := s.address &&& ~~~3
    if address % 8 = 0 then
      some { s with address := address, writeWord0 := data0, byteMask := byteMask }
    else
      some { s with address := address &&& ~~~4, writeWord1 := data0, byteMask := byteMask <<< 4 }

def executePreStore (s : SparcCore nw) : Option (SparcCore nw) :=
  let s := storePrivilege op s
  if s.trap then some s
  else
    let s := storeUnitTraps op (storeAddress op s)
    if s.trap then some s
    else
      let s := storeTraps op s
      if s.trap then some s else placeStore op s

/-! ## Atomic load-stores and FLUSH -/

/-- Effective address and ASI of an atomic access. -/
def atomicAddress (s : SparcCore nw) : SparcCore nw :=
  if op == LDSTUB || op == SWAP then s.setDataAddress
  else if op == LDSTUBA || op == SWAPA then
    if s.reg.rS = 0 then s.raise .privilegedInstruction
    else if s.reg.rI = 1 then s.raise .illegalInstruction
    else s.setAlternateAddress
  else s

/-- The alignment check of `SWAP`, made even after a privilege trap. -/
def atomicAlignment (s : SparcCore nw) : SparcCore nw :=
  if (op == SWAP || op == SWAPA) && readBits s.address 1 0 != 0 then s.raise .memAddressNotAligned
  else s

/-- The byte `LDSTUB` writes, as a mask over the doubleword. -/
def ldstubMask (a : Word) : Option Word :=
  match a.toNat with
  | 0 => some 0x08
  | 1 => some 0x04
  | 2 => some 0x02
  | 3 => some 0x01
  | 4 => some 0x80
  | 5 => some 0x40
  | 6 => some 0x20
  | 7 => some 0x10
  | _ => none

/-- The word `SWAP` writes, as a mask over the doubleword. -/
def swapMask (a : Word) : Option Word :=
  match a.toNat with
  | 0 => some 0x0F
  | 2 => some 0x03
  | 4 => some 0xF0
  | 6 => some 0x30
  | _ => none

/-- Data and byte mask of the write half of an atomic access. -/
def placeAtomic (s : SparcCore nw) : Option (SparcCore nw) :=
  if op == LDSTUB || op == LDSTUBA then do
    let byteMask ← ldstubMask (readBits s.address 2 0)
    some { s with writeWord0 := 0xffffffff, writeWord1 := 0xffffffff, byteMask := byteMask,
                  reg := s.reg.wPbBlockLdstByte 1 }
  else if op == SWAP || op == SWAPA then do
    let word := s.reg.rR s.reg.rRd
    let byteMask ← swapMask (readBits s.address 2 0)
    some { s with writeWord0 := word, writeWord1 := word, byteMask := byteMask,
                  reg := s.reg.wPbBlockLdstWord 1 }
  else some s

def executePreAtomicLoadStore (s : SparcCore nw) : Option (SparcCore nw) :=
  let s := atomicAlignment op (atomicAddress op s)
  if s.trap then some s else placeAtomic op s

/-- The value an atomic access returns, out of the word it has read. -/
def atomicValue (address word : Word) : Option Word :=
  if op == LDSTUB || op == LDSTUBA then
    (byteLane word (readBits address 1 0)).map zeroExtendByte
  else some word

/-- Release the block signals of the bus. -/
def releaseBlock : SparcCore nw :=
  { s with reg := (s.reg.wPbBlockLdstWord 0).wPbBlockLdstByte 0 }

def executePostAtomicLoadStore (rWord0 rWord1 : Word) (s : SparcCore nw) : Option (SparcCore nw) :=
  if s.MAE then some (s.raise .dataAccessException).releaseBlock
  else do
    let word ← atomicValue op s.address
      (if readBits s.address 2 2 = 0 then rWord0 else rWord1)
    some (SparcCore.releaseBlock { s with reg := s.reg.wR s.reg.rRd word })

def executePreFlush : SparcCore nw :=
  { s with address := s.operand1 + s.operand2 }

end SparcCore

end SparcV8
