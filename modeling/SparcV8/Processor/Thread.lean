import SparcV8.Processor.StateMachine

/-!
# The timed driver

`SparcThread` of the timing model: one iteration of the loop it runs in the EXECUTE state. The steps
of an instruction are those of `SparcCore`, but the order of the tests is the procedure's own, and
every request carries the address as the core computed it. Delays are left out.
-/

namespace SparcV8

open Opcode SparcCore

namespace SparcThread

variable {nw : Nat} {σ : Type}

/-! ## Memory instructions -/

def loadRequest (op : Opcode) (s : SparcCore nw) : VirtualMemoryRequest :=
  { accessType := .LOAD, address := s.address, asi := s.addrSpace, word0 := 0, word1 := 0,
    byteMask := loadWordMask op s }

/-- The request of a store (`STORE`) or of an atomic access (`ATOMIC_LS`). -/
def writeRequest (accessType : MemAccessType) (s : SparcCore nw) : VirtualMemoryRequest :=
  { accessType := accessType, address := s.address, asi := s.addrSpace, word0 := s.writeWord0,
    word1 := s.writeWord1, byteMask := s.byteMask }

variable (mem : VirtualMemory σ)

def executeLoad (op : Opcode) (s : SparcCore nw) (m : σ) : Option (SparcCore nw × σ) :=
  let s := executePreLoad op s
  if s.trap then some (s, m)
  else do
    let (response, m) := mem.access (loadRequest op s) m
    let s ← executePostLoad op response.readWord0 response.readWord1 { s with MAE := response.mae }
    some (s, m)

def executeStore (op : Opcode) (s : SparcCore nw) (m : σ) :
    Option (SparcCore nw × σ) := do
  let s ← executePreStore op s
  if s.trap then some (s, m)
  else
    let (response, m) := mem.access (writeRequest .STORE s) m
    some (storeResponse s response, m)

def executeAtomic (op : Opcode) (s : SparcCore nw) (m : σ) :
    Option (SparcCore nw × σ) := do
  let s ← executePreAtomicLoadStore op s
  if s.trap then some (s, m)
  else
    let (response, m) := mem.access (writeRequest .ATOMIC_LS s) m
    let s ← executePostAtomicLoadStore op response.readWord0 response.readWord1
      { s with MAE := response.mae }
    some (s, m)

/-- The tests for a memory instruction, one after the other; `STBAR` passes none. -/
def executeMemoryInstruction (op : Opcode) (s : SparcCore nw) (m : σ) :
    Option (SparcCore nw × σ) := do
  let (s, m) ← if op.isLoadInstruction then executeLoad mem op s m else some (s, m)
  let (s, m) ← if op.isStoreInstruction then executeStore mem op s m else some (s, m)
  let (s, m) ← if op.isLoadStoreAtomicInstruction then executeAtomic mem op s m else some (s, m)
  some (if op == FLUSH then executeFlush mem s m else (s, m))

/-! ## The iteration -/

variable (fpu : FloatingPointFunctions)

/-- An instruction that has passed its checks. -/
def executeChecked (mem : VirtualMemory σ) (op : Opcode) (s : SparcCore nw) (m : σ) :
    Option (SparcCore nw × σ) :=
  if !op.isMemoryInstruction then do
    let s ← executeInstruction fpu op s
    some (completeFPop op s, m)
  else executeMemoryInstruction mem op s m

/-- A decoded instruction is skipped or checked, executed and completed. -/
def dispatch (mem : VirtualMemory σ) (op : Opcode) (s : SparcCore nw) (m : σ) :
    Option (SparcCore nw × σ) :=
  if s.annul then some (skipAnnulled s, m)
  else
    let s := checkInstructionException op s
    if s.state = .EXECUTE ∧ s.trap = false then do
      let (s, m) ← executeChecked fpu mem op s m
      some (finishInstruction op s, m)
    else some (s, m)

/-- The fetch; an exception of an instruction that is not annulled traps. -/
def examineFetch (s : SparcCore nw) (response : VirtualMemoryResponse) : SparcCore nw :=
  let s := { s with MAE := response.mae }
  if response.mae && !s.annul then s.raise .instructionAccessException else s

/-- The fetched word is kept only if the fetch has not trapped, and it is decoded even if it is
annulled. -/
def fetchAndExecute (mem : VirtualMemory σ) (s : SparcCore nw) (m : σ) :
    Option (SparcCore nw × σ) :=
  let (response, m) := mem.access s.fetchRequest m
  let s := examineFetch s response
  if s.state = .EXECUTE ∧ s.trap = false then do
    let s := { s with reg := { s.reg with instruction := response.readWord0 } }
    let op ← s.reg.decode
    dispatch fpu mem op s m
  else some (s, m)

/-- One iteration of the loop, with the reset pin as it is then. -/
def iterate (mem : VirtualMemory σ) (resetPin : Bool) (s : SparcCore nw) (m : σ) :
    Option (SparcCore nw × σ) :=
  let s := if resetPin then { s with state := .RESET } else s
  let s := if s.state = .EXECUTE then takeTraps s else s
  if s.state = .EXECUTE then fetchAndExecute fpu mem s m else some (s, m)

end SparcThread

end SparcV8
