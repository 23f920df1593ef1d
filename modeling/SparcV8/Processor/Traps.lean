import SparcV8.Processor.Float

/-!
# Traps and instruction dispatch

Selection and entry of traps, the checks made on a decoded instruction, and the
dispatch of an instruction that needs no memory access.
-/

namespace SparcV8

open Opcode

/-- The trap sources in the order of priority, with their trap types. -/
def trapPriority : List (TrapFlag × Word) :=
  [(.dataStoreError, 0x2B), (.instructionAccessError, 0x21), (.rRegisterAccessError, 0x20),
   (.instructionAccessException, 0x01), (.privilegedInstruction, 0x03),
   (.illegalInstruction, 0x02), (.fpDisabled, 0x04), (.cpDisabled, 0x24),
   (.unimplementedFLUSH, 0x25), (.windowOverflow, 0x05), (.windowUnderflow, 0x06),
   (.memAddressNotAligned, 0x07), (.fpException, 0x08), (.cpException, 0x28),
   (.dataAccessError, 0x29), (.dataAccessException, 0x09), (.tagOverflow, 0x0A),
   (.divisionByZero, 0x2A)]

/-- The sources `selectTrap` clears: not the reset, error and `FLUSH` flags. -/
def selectedFlags : List TrapFlag :=
  [.instructionAccessException, .illegalInstruction, .privilegedInstruction, .fpDisabled,
   .cpDisabled, .windowOverflow, .windowUnderflow, .memAddressNotAligned, .fpException,
   .cpException, .dataAccessException, .tagOverflow, .divisionByZero, .trapInstruction]

namespace SparcCore

variable {nw : Nat}
variable (s : SparcCore nw)

/-- The trap type of the pending source of highest priority. -/
def trapType : Option Word :=
  match trapPriority.find? (fun p => s.flag p.1) with
  | some p => some p.2
  | none =>
    if s.flag .trapInstruction then some (0x80 ||| readBits s.ticcTrapType 6 0)
    else if 0 < s.interruptLevel.toNat then some (0x10 ||| readBits s.interruptLevel 3 0)
    else none

/-- Put the trap type into `tt`, or stop if traps are disabled. -/
def chooseTrap : SparcCore nw :=
  -- a reset ignores ET and leaves tt unchanged
  if s.flag .resetTrap then s
  else if s.reg.rET = 0 then { s with state := .ERROR }
  else
    match s.trapType with
    | some tt => { s with reg := s.reg.wTt tt }
    | none => s

def selectTrap : SparcCore nw :=
  let s := s.chooseTrap
  { s with
    trap := false
    flag := fun t => if t ∈ selectedFlags then false else s.flag t
    interruptLevel := 0 }

/-- Save the return addresses in `r17` and `r18` of the current window. -/
def saveReturn : SparcCore nw :=
  if s.annul = false then { s with reg := (s.reg.wR 17 s.reg.PC).wR 18 s.reg.nPC }
  else { s with reg := (s.reg.wR 17 s.reg.nPC).wR 18 (s.reg.nPC + 4), annul := false }

/-- Continue at the trap vector, or at the reset address. -/
def jumpToVector : SparcCore nw :=
  if s.flag .resetTrap = false then
    { s with reg := (s.reg.wPC s.reg.TBR).wNPC (s.reg.TBR + 4) }
  else
    { s with
      reg := (s.reg.wPC s.resetPC).wNPC (s.resetPC + 4)
      flag := Function.update s.flag .resetTrap false }

/-- Disable traps, remember the mode and move to the window below. -/
def enterWindow (reg : Registers nw) : Registers nw :=
  let reg := reg.wET 0
  let reg := reg.wPS reg.rS
  reg.wCWP reg.previousWindow

def executeTraps : SparcCore nw :=
  if s.trap then
    let s := s.selectTrap
    if s.state = .ERROR then s
    else
      let s := saveReturn { s with reg := enterWindow s.reg }
      jumpToVector { s with reg := s.reg.wS 1 }
  else s

/-- An unmasked interrupt is requested on the pins. -/
def interruptPending : Bool :=
  s.reg.rET == 1 && (s.reg.rBpIRL == 15 || decide (s.reg.rPIL.toNat < s.reg.rBpIRL.toNat))

def checkExternalTraps : SparcCore nw :=
  if s.interruptPending then { s with trap := true, interruptLevel := s.reg.rBpIRL } else s

def checkInstructionException (op : Opcode) (s : SparcCore nw) : SparcCore nw :=
  let illegal := (s.reg.rOp == 0 && s.reg.rOp2 == 0) ||
    ((s.reg.rOp == 3 || s.reg.rOp == 2) && op == unassigned)
  let s := { s with flag := Function.update s.flag .illegalIUInstr illegal }
  let s := if illegal then s.raise .illegalInstruction else s
  let s := if op.isFloatingPointInstruction && s.fpuOff then s.raise .fpDisabled else s
  if (op == CPop1 || op == CPop2 || op == CBccc) && s.cpOff then s.raise .cpDisabled else s

def executeInstruction (fpu : FloatingPointFunctions) (op : Opcode) (s : SparcCore nw) :
    Option (SparcCore nw) :=
  if op == SETHI then some s.executeSETHI
  else if op == NOP then some s
  else if between AND op XNORcc then executeLogical op s
  else if between SLL op SRA then executeShift op s
  else if between ADD op ADDXcc then executeAdd op s
  else if between TADDcc op TADDccTV then some (executeTadd op s)
  else if between SUB op SUBXcc then executeSub op s
  else if between TSUBcc op TSUBccTV then some (executeTsub op s)
  else if op == MULScc then some s.executeMulStep
  else if between UMUL op SMULcc then some (executeMul op s)
  else if between UDIV op SDIVcc then executeDiv op s
  else if between SAVE op RESTORE then some (executeSaveRestore op s)
  else if between BA op BVS then executeBicc op s
  else if between FBA op FBO then executeFBfcc op s
  else if op == CBccc then some s.executeCBccc
  else if op == CALL then some s.executeCALL
  else if op == JMPL then some s.executeJMPL
  else if op == RETT then some s.executeRETT
  else if between TA op TVS then executeTicc op s
  else if between RDY op RDTBR then executeReadStateReg op s
  else if between WRY op WRTBR then executeWriteStateReg op s
  else if op == STBAR then some s.executeSTBAR
  else if op == UNIMP then some s.executeUNIMP
  else if op.isFpop1Instruction || op.isFpop2Instruction then executeFPop fpu op s
  else if op == CPop1 || op == CPop2 then some s.executeCPop
  else none

end SparcCore

end SparcV8
