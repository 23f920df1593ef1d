import SparcV8.Processor.Decoder
import SparcV8.Processor.Memory
import SparcV8.Processor.Traps

/-!
# The functional driver

`SparcStateMachine`: one cycle takes pending traps, fetches, decodes and executes one instruction,
with every memory access answered at once. An assertion failure makes the cycle `none`.
-/

namespace SparcV8

open Opcode SparcCore

variable {nw : Nat} {σ : Type}

/-- The address of the doubleword that contains `address`. -/
def dwordAddress (address : Word) : Word := address &&& ~~~7

theorem toNat_dwordAddress (a : Word) : (dwordAddress a).toNat = a.toNat / 8 * 8 :=
  toNat_and_not_low a 3

variable (s : SparcCore nw)

/-- The request of an instruction fetch. -/
def SparcCore.fetchRequest : VirtualMemoryRequest :=
  { accessType := .IFETCH, address := s.reg.PC, asi := if s.reg.rS = 0 then 8 else 9, word0 := 0,
    word1 := 0, byteMask := 0 }

variable (mem : VirtualMemory σ)

/-- Fetch the instruction at `PC`; an exception traps unless it is annulled. -/
def instructionFetch (s : SparcCore nw) (m : σ) : SparcCore nw × σ :=
  let (response, m) := mem.access s.fetchRequest m
  let s := { s with MAE := response.mae }
  let s := if s.MAE ∧ s.annul = false then s.raise .instructionAccessException else s
  ({ s with reg := { s.reg with instruction := response.readWord0 } }, m)

/-! ## Memory instructions -/

variable (op : Opcode)

def loadRequest (s : SparcCore nw) : VirtualMemoryRequest :=
  { accessType := .LOAD, address := dwordAddress s.address, asi := s.addrSpace, word0 := 0,
    word1 := 0, byteMask := loadWordMask op s }

/-- The request of a store (`STORE`) or of an atomic access (`ATOMIC_LS`). -/
def writeRequest (accessType : MemAccessType) (s : SparcCore nw) : VirtualMemoryRequest :=
  { accessType := accessType, address := dwordAddress s.address, asi := s.addrSpace,
    word0 := s.writeWord0, word1 := s.writeWord1, byteMask := s.byteMask }

def flushRequest : VirtualMemoryRequest :=
  { accessType := .FLUSH, address := s.address, asi := s.addrSpace, word0 := 0, word1 := 0,
    byteMask := 0 }

/-- A store that the memory refuses traps. -/
def storeResponse (response : VirtualMemoryResponse) : SparcCore nw :=
  let s := { s with MAE := response.mae }
  if response.mae then s.raise .dataAccessException else s

def executeLoad (op : Opcode) (s : SparcCore nw) (m : σ) : Option (SparcCore nw × σ) :=
  let s := executePreLoad op s
  if s.trap then some (s, m)
  else do
    let (response, m) := mem.access (loadRequest op s) m
    let s ← executePostLoad op response.readWord0 response.readWord1 { s with MAE := response.mae }
    some (s, m)

def executeStore (op : Opcode) (s : SparcCore nw) (m : σ) :
    Option (SparcCore nw × σ) := do
  let s ← executePreStore op s
  if s.trap then some (s, m)
  else
    let (response, m) := mem.access (writeRequest .STORE s) m
    some (storeResponse s response, m)

def executeAtomic (op : Opcode) (s : SparcCore nw) (m : σ) :
    Option (SparcCore nw × σ) := do
  let s ← executePreAtomicLoadStore op s
  if s.trap then some (s, m)
  else
    let (response, m) := mem.access (writeRequest .ATOMIC_LS s) m
    let s ← executePostAtomicLoadStore op response.readWord0 response.readWord1
      { s with MAE := response.mae }
    some (s, m)

def executeFlush (s : SparcCore nw) (m : σ) : SparcCore nw × σ :=
  let s := s.executePreFlush
  (s, (mem.access (flushRequest s) m).2)

variable (fpu : FloatingPointFunctions)

def executeCurrentInstruction (mem : VirtualMemory σ) (op : Opcode) (s : SparcCore nw) (m : σ) :
    Option (SparcCore nw × σ) :=
  if op.isLoadInstruction then executeLoad mem op s m
  else if op.isStoreInstruction then executeStore mem op s m
  else if op.isLoadStoreAtomicInstruction then executeAtomic mem op s m
  else if op == FLUSH then some (executeFlush mem s m)
  else do
    let s ← executeInstruction fpu op s
    some (s, m)

/-! ## The cycle -/

/-- The residual floating-point operations of an FPop that did not trap. -/
def completeFPop (s : SparcCore nw) : SparcCore nw :=
  if !s.trap && (op.isFpop1Instruction || op.isFpop2Instruction) then s.completeFpExecution else s

/-- Advance `PC` and `nPC` unless the instruction trapped or did so. -/
def finishInstruction (s : SparcCore nw) : SparcCore nw :=
  if !s.trap && !op.isBranchInstruction then s.advance else s

/-- Check, execute and complete a decoded instruction. -/
def dispatchInstruction (mem : VirtualMemory σ) (op : Opcode) (s : SparcCore nw) (m : σ) :
    Option (SparcCore nw × σ) :=
  let s := checkInstructionException op s
  if s.trap then some (s, m)
  else do
    let (s, m) ← executeCurrentInstruction fpu mem op s m
    some (finishInstruction op (completeFPop op s), m)

/-- Skip the instruction an annulling branch has annulled. -/
def skipAnnulled : SparcCore nw := { s with annul := false }.advance

/-- The driver's own look at a fetch: the check of `instructionFetch`, without looking at `annul`.
-/
def recheckFetch : SparcCore nw :=
  if s.MAE then s.raise .instructionAccessException else s

/-- The fetch and the rest of a cycle, once pending traps have been taken. -/
def fetchAndExecute (mem : VirtualMemory σ) (s : SparcCore nw) (m : σ) :
    Option (SparcCore nw × σ) :=
  let (s, m) := instructionFetch mem s m
  let s := recheckFetch s
  if s.trap then some (s, m)
  else if s.annul then some (skipAnnulled s, m)
  else do
    let op ← s.reg.decode
    dispatchInstruction fpu mem op s m

/-- Leave the reset state: the first cycle takes a reset trap. -/
def leaveReset : SparcCore nw :=
  if s.state = .RESET then { s.raise .resetTrap with state := .EXECUTE } else s

/-- Take an external interrupt or a trap carried over from the last cycle. -/
def takeTraps : SparcCore nw := s.checkExternalTraps.executeTraps

/-- A core with the memory below it, and whether the driver has halted. -/
structure SparcStateMachine (nw : Nat) (σ : Type) where
  core : SparcCore nw
  mem : σ
  halted : Bool

namespace SparcStateMachine

def runOneCycle (mem : VirtualMemory σ) (x : SparcStateMachine nw σ) :
    Option (SparcStateMachine nw σ) :=
  let s := leaveReset x.core
  if s.state ≠ .EXECUTE then some { x with core := s, halted := true }
  else
    let s := takeTraps s
    if s.state = .ERROR then some { x with core := s, halted := true }
    else do
      let (s, m) ← fetchAndExecute fpu mem s x.mem
      some { x with core := s, mem := m }

def step (mem : VirtualMemory σ) (x : SparcStateMachine nw σ) : Option (SparcStateMachine nw σ) :=
  if x.halted then some x else runOneCycle fpu mem x

/-- At most `maxCycles` cycles. -/
def run (fpu : FloatingPointFunctions) (mem : VirtualMemory σ) :
    Nat → SparcStateMachine nw σ → Option (SparcStateMachine nw σ)
  | 0, x => some x
  | maxCycles + 1, x => do
    let y ← step fpu mem x
    run fpu mem maxCycles y

end SparcStateMachine

/-- A core, and the state of the memory below it, in a run from reset. The memory starts in any
state `init` allows and may change between cycles as `env` allows; so may the interrupt pins. -/
inductive Reachable (fpu : FloatingPointFunctions) (mem : VirtualMemory σ) (init : σ → Prop)
    (env : σ → σ → Prop) : SparcCore nw → σ → Prop
  | reset {m : σ} (coreID threadID resetPC csr : Word) (storeBarrierPending : Bool)
      (aligned : readBits resetPC 1 0 = 0) (hm : init m) :
      Reachable fpu mem init env
        (SparcCore.initial coreID threadID resetPC csr storeBarrierPending) m
  | pins {s : SparcCore nw} {m : σ} (irl : Word) (h : Reachable fpu mem init env s m) :
      Reachable fpu mem init env { s with reg := { s.reg with bpIRL := irl } } m
  | environment {s : SparcCore nw} {m m' : σ} (h : Reachable fpu mem init env s m)
      (hm : env m m') : Reachable fpu mem init env s m'
  | cycle {s : SparcCore nw} {m : σ} {y : SparcStateMachine nw σ}
      (h : Reachable fpu mem init env s m)
      (hy : SparcStateMachine.runOneCycle fpu mem ⟨s, m, false⟩ = some y) :
      Reachable fpu mem init env y.core y.mem

end SparcV8
