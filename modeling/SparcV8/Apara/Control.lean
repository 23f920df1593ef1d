import SparcV8.Apara.AparaCore

/-!
# The control unit of an APARA engine

The host sees eight registers for every thread, and starts a command by writing the first of them.
The unit hands the command out and takes its results back; the engine around it carries it out.
-/

namespace SparcV8.Apara

/-- The bits of the bytes of a register that a mask names. -/
def registerLanes (laneMask : BitVec 8) : BitVec 32 :=
  (List.range 4).foldl
    (fun mask b => if laneMask.getLsbD b then mask ||| ((0xFF : BitVec 32) <<< (8 * b)) else mask)
    0

/-- A register after the host has written some bytes of it. -/
def writeLanes (old value : BitVec 32) (laneMask : BitVec 8) : BitVec 32 :=
  (old &&& ~~~registerLanes laneMask) ||| (value &&& registerLanes laneMask)

inductive Command where
  | READ_IMEM | WRITE_IMEM | RESET_THREAD | RUN_THREAD | READ_REGISTER | WRITE_REGISTER
  | COMPLETION | STEP | READ_RAS_STATE | READ_TIMER
  /-- The codes that have no command. -/
  | UNDEFINED
deriving DecidableEq, Repr

def Command.fromCode (code : BitVec 4) : Command :=
  match code.toNat with
  | 1 => .READ_IMEM | 2 => .WRITE_IMEM | 3 => .RESET_THREAD | 4 => .RUN_THREAD
  | 5 => .READ_REGISTER | 6 => .WRITE_REGISTER | 7 => .COMPLETION | 8 => .STEP
  | 9 => .READ_RAS_STATE | 10 => .READ_TIMER
  | _ => .UNDEFINED

structure AparaControlCore where
  reg : ThreadIndex → Fin 8 → BitVec 32 := fun _ _ => 0
  interpreterOn : ThreadIndex → Bool := fun _ => false
  /-- The command that has begun is a `COMPLETION` that waits for a stop. -/
  waiting : ThreadIndex → Bool := fun _ => false
  /-- A stop that has not been reported, with its error and its address. -/
  stopPending : ThreadIndex → Bool := fun _ => false
  stopError : ThreadIndex → BitVec 32 := fun _ => 0
  stopPc : ThreadIndex → BitVec 32 := fun _ => 0
  interrupt : Bool := false

namespace AparaControlCore

/-- The flags of a control register, as the numbers of their bits. -/
def FLAG_START : Nat := 0

def FLAG_STARTED : Nat := 1

def FLAG_COMPLETED : Nat := 2

def FLAG_INTERRUPT_ENABLE : Nat := 3

def FLAG_RUN_INTERPRETER : Nat := 4

def COMPLETION_VALID : BitVec 32 := 1 <<< 31

/-- A command, as it is handed out. -/
structure Request where
  thread : ThreadIndex
  command : Command
  r1 : BitVec 32
  r2 : BitVec 32
  r3 : BitVec 32
  r6 : BitVec 32
  r7 : BitVec 32
  rasThread : ThreadIndex

/-- The results of a command; each is used by some commands only. -/
structure Result where
  imemWord : BitVec 32 := 0
  registerValue : BitVec 64 := 0
  nextPc : BitVec 32 := 0
  rasDepth : BitVec 32 := 0
  rasTop : BitVec 32 := 0
  cycles : BitVec 64 := 0

variable (r0 : BitVec 32)

/-- A flag of a control register is changed. -/
def setFlag (flag : Nat) (value : Bool) : BitVec 32 :=
  if value then r0 ||| (1 : BitVec 32) <<< flag else r0 &&& ~~~((1 : BitVec 32) <<< flag)

/-- The command that a control register names. -/
def commandOf : Command := .fromCode (r0.extractLsb 11 8)

variable (c : AparaControlCore)
variable (t : ThreadIndex)

def readRegister (i : Fin 8) : BitVec 32 := c.reg t i

def setReg (i : Fin 8) (value : BitVec 32) : AparaControlCore :=
  { c with reg := Function.update c.reg t (Function.update (c.reg t) i value) }

def writeRegister (i : Fin 8) (value : BitVec 32) (laneMask : BitVec 8) : AparaControlCore :=
  let r := writeLanes (c.reg t i) value laneMask
  let d := c.setReg t i r
  if i = 0 then
    { d with
      interpreterOn := Function.update d.interpreterOn t (r.getLsbD FLAG_RUN_INTERPRETER)
      interrupt := d.interrupt && r.getLsbD FLAG_INTERRUPT_ENABLE }
  else d

/-- The thread has a command to run. -/
def ready : Bool :=
  let r0 := c.reg t 0
  c.interpreterOn t && r0.getLsbD FLAG_START && !r0.getLsbD FLAG_STARTED &&
    !r0.getLsbD FLAG_COMPLETED

/-- The first thread with a command to run. -/
def commandReady : Option ThreadIndex := (List.finRange 4).find? c.ready

/-- What a thread's registers ask for. -/
def request : Request :=
  { thread := t, command := commandOf (c.reg t 0), r1 := c.reg t 1, r2 := c.reg t 2,
    r3 := c.reg t 3, r6 := c.reg t 6, r7 := c.reg t 7,
    rasThread := ⟨((c.reg t 0).extractLsb 15 14).toNat, BitVec.isLt _⟩ }

def beginCommand : Request × AparaControlCore :=
  let r0 := setFlag (setFlag (c.reg t 0) FLAG_START false) FLAG_STARTED true
  let d := c.setReg t 0 r0
  let q := d.request t
  let d := { d with
    waiting := Function.update d.waiting t
      (q.command == .COMPLETION && r0.getLsbD FLAG_INTERRUPT_ENABLE) }
  if q.command = .RUN_THREAD ∨ q.command = .RESET_THREAD then
    -- a new run: its stop is reported afresh
    (q, { d with stopPending := Function.update d.stopPending t false })
  else (q, d)

/-- A `COMPLETION` reports the stop, or that there is none. -/
def reportStop : AparaControlCore :=
  let d :=
    if c.stopPending t then
      let d := (c.setReg t 5 (COMPLETION_VALID ||| (c.stopError t &&& 0x07FFFFFF))).setReg t 6
        (c.stopPc t)
      { d with
        stopPending := Function.update d.stopPending t false
        interrupt := d.interrupt || (c.reg t 0).getLsbD FLAG_INTERRUPT_ENABLE }
    else c.setReg t 5 0
  { d with waiting := Function.update d.waiting t false }

def writeResults (r : Result) : AparaControlCore :=
  match commandOf (c.reg t 0) with
  | .READ_IMEM => c.setReg t 4 r.imemWord
  | .READ_REGISTER =>
    (c.setReg t 6 (r.registerValue.extractLsb 63 32)).setReg t 7 (r.registerValue.extractLsb 31 0)
  | .STEP => c.setReg t 7 r.nextPc
  | .READ_RAS_STATE => (c.setReg t 6 r.rasDepth).setReg t 7 r.rasTop
  | .READ_TIMER => (c.setReg t 3 (r.cycles.extractLsb 63 32)).setReg t 4 (r.cycles.extractLsb 31 0)
  | .COMPLETION => c.reportStop t
  | _ => c

def finishCommand (r : Result) : AparaControlCore :=
  let d := c.writeResults t r
  d.setReg t 0 (setFlag (setFlag (d.reg t 0) FLAG_STARTED false) FLAG_COMPLETED true)

def threadStopped (error pc : BitVec 32) : AparaControlCore :=
  { c with
    stopPending := Function.update c.stopPending t true
    stopError := Function.update c.stopError t error
    stopPc := Function.update c.stopPc t pc }

def completionReady : Bool := c.stopPending t

def completionWaits : Bool := c.waiting t

end AparaControlCore

end SparcV8.Apara
