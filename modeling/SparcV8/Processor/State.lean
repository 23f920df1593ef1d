import SparcV8.Processor.Opcodes
import SparcV8.Processor.Registers

/-!
# The state of a core

`SparcCore` holds the registers, the signals between the steps of one instruction and the pending
traps, here one function from the enumeration of the trap sources.
-/

namespace SparcV8

inductive SparcStateType where
  | RESET | ERROR | EXECUTE
  deriving DecidableEq, Repr

/-- The trap flags of a core, in the order of the source. -/
inductive TrapFlag where
  | resetTrap | instructionAccessException | illegalInstruction | illegalIUInstr | fpDisabled
  | cpDisabled | memAddressNotAligned | privilegedInstruction | fpException | cpException
  | dataAccessException | windowOverflow | windowUnderflow | trapInstruction | dataStoreError
  | instructionAccessError | rRegisterAccessError | unimplementedFLUSH | dataAccessError
  | tagOverflow | divisionByZero
  deriving DecidableEq, Repr

/-- A core with `nw` register windows. Statistics and logging are left out. -/
structure SparcCore (nw : Nat) where
  state : SparcStateType
  reg : Registers nw
  /-- Some trap is pending. -/
  trap : Bool
  /-- The last memory access reported an exception. -/
  MAE : Bool
  /-- The next instruction is annulled. -/
  annul : Bool
  address : Word
  addrSpace : Word
  writeWord0 : Word
  writeWord1 : Word
  byteMask : Word
  interruptLevel : Word
  ticcTrapType : Word
  /-- The individual trap sources. -/
  flag : TrapFlag → Bool
  anFPUSequenceErrorIsDetected : Bool
  aCPSequenceErrorIsDetected : Bool
  implementationHasNoFloatingPointQueue : Bool
  implementationHasNoCoprocessorQueue : Bool
  storeBarrierPending : Bool
  coreID : Word
  threadID : Word
  resetPC : Word

namespace SparcCore

variable {nw : Nat}
variable (s : SparcCore nw)

/-- Set `trap` and one of its sources. -/
def raise (t : TrapFlag) : SparcCore nw :=
  { s with trap := true, flag := Function.update s.flag t true }

/-- The value of `r[rs1]`. -/
def operand1 : Word := s.reg.rR s.reg.rRs1

/-- The value of `r[rs2]` or the sign-extended immediate, as the `i` bit selects. -/
def operand2 : Word :=
  if s.reg.rI = 0 then s.reg.rR s.reg.rRs2 else signExtend s.reg.rSimm13 12

/-- `PC = nPC`, `nPC = nPC + 4`. -/
def advance : SparcCore nw :=
  { s with reg := (s.reg.wPC s.reg.nPC).wNPC (s.reg.nPC + 4) }

/-- The word ASR29 reads as. -/
def coreThreadIdWord : Word :=
  0x50520000 ||| ((s.coreID &&& 0xFF) <<< 8) ||| (s.threadID &&& 0xFF)

def asrCoreThreadId : RegNum := 29

/-- The constructor, `setCoreID` and `setThreadID`. The coprocessor register and the store-barrier
flag are left unset. -/
def initial (coreID threadID resetPC csr : Word) (storeBarrierPending : Bool) : SparcCore nw :=
  let s : SparcCore nw :=
    { state := .RESET, reg := Registers.initial csr, trap := false, MAE := false, annul := false,
      address := 0, addrSpace := 0, writeWord0 := 0, writeWord1 := 0, byteMask := 0,
      interruptLevel := 0, ticcTrapType := 0, flag := fun _ => false,
      anFPUSequenceErrorIsDetected := false, aCPSequenceErrorIsDetected := false,
      implementationHasNoFloatingPointQueue := true, implementationHasNoCoprocessorQueue := true,
      storeBarrierPending := storeBarrierPending, coreID := coreID, threadID := threadID,
      resetPC := resetPC }
  { s with reg := s.reg.wASR asrCoreThreadId s.coreThreadIdWord }

end SparcCore

end SparcV8
