import SparcV8.Apara.Operations

/-!
# The APARA engine

Four threads share the memories and the execution units. A step executes one bundle: all slots read
the registers from before it, and nothing is written before it is known that no slot raises an
exception.
-/

namespace SparcV8.Apara

open Function

def IMEM_WORDS : Nat := 4096

def DMEM_DWORDS : Nat := 8192

def DMEM_BYTES : Nat := DMEM_DWORDS * 8

def RAS_DEPTH : Nat := 64

def BUNDLE_MAX_SLOTS : Nat := 8

def ERROR_RAS : BitVec 32 := 1 <<< 26

def ERROR_HALT : BitVec 32 := 1 <<< 25

def ERROR_EXCEPTION : BitVec 32 := 1 <<< 24

abbrev ThreadIndex := Fin 4

/-! ## State -/

/-- Where addresses of data go: all to the data memory, or only those of its window. -/
inductive OffIslandMode where
  | ALIAS_TO_LOCAL
  | SYSTEM_BUS
deriving DecidableEq, Repr

structure Config where
  offIslandMode : OffIslandMode := .ALIAS_TO_LOCAL
  dmemWindowBase : BitVec 32 := 0
deriving DecidableEq, Repr

/-- The memory outside the engine: doublewords, with a mask of their bytes. -/
structure OffIslandPort (σ : Type) where
  readDword : BitVec 32 → BitVec 8 → σ → BitVec 64 × σ
  writeDword : BitVec 32 → BitVec 8 → BitVec 64 → σ → σ

structure ThreadState where
  pc : BitVec 32 := 0
  r : RegIndex → BitVec 64 := fun _ => 0
  /-- The return addresses, the last one first. -/
  ras : List (BitVec 32) := []
  active : Bool := false
  halted : Bool := false
  error : BitVec 32 := 0

def ThreadState.runnable (ts : ThreadState) : Bool := ts.active && !ts.halted

/-- Why the words at an address are no bundle. -/
inductive Problem where
  | beyondImem | noInstruction | noBundleStart | notFull | badSize | misaligned | twoControls
deriving DecidableEq, Repr

structure Bundle where
  pc : BitVec 32 := 0
  slots : List Instruction := []
  problem : Option Problem := none
deriving DecidableEq, Repr

namespace Bundle

variable (b : Bundle)

def size : Nat := b.slots.length

def valid : Bool := b.problem.isNone

/-- Control transfers go into slot 0, divisions and square roots into slot 1, loads and stores into
slots from 4 on. -/
def misplaced (i : Instruction) (s : Nat) : Bool :=
  (i.isControl && s != 0) || ((i.opcode == .DIV || i.opcode == .FSQRT) && s != 1) ||
    (i.klass == .MEMORY && decide (s < 4))

end Bundle

/-- One doubleword of the memory accesses of a bundle. -/
structure DwordTransaction where
  slot : Nat
  part : Nat
  store : Bool
  offIsland : Bool
  address : BitVec 32
  lanes : BitVec 8
  data : BitVec 64 := 0
  done : Bool := false
deriving DecidableEq, Repr

/-- What a call or a return does to the return addresses. -/
inductive RasOp where
  | none | push | pop
deriving DecidableEq, Repr

/-- What a slot of a bundle does, worked out before anything is written. -/
structure SlotWork where
  exception : ExceptionCode := .NONE
  write : List (RegIndex × BitVec 64) := []
  memory : Bool := false
  store : Bool := false
  address : BitVec 32 := 0
  bytes : Nat := 0
  regs : Nat := 0
  signExtendLoad : Bool := false
  rd : RegIndex := 0
  storeData : Nat → BitVec 64 := fun _ => 0
  /-- `rs2` is written after the registers that are loaded. -/
  incrementBase : Bool := false
  rs2 : RegIndex := 0
  nextRs2 : BitVec 64 := 0
  setsPc : Bool := false
  nextPc : BitVec 32 := 0
  rasOp : RasOp := .none
  rasPush : BitVec 32 := 0
  rasError : Bool := false
  halt : Bool := false

def SlotWork.addWrite (w : SlotWork) (reg : RegIndex) (value : BitVec 64) : SlotWork :=
  { w with write := w.write ++ [(reg, value)] }

/-- A result written to registers from `rd` on, unless it is an exception. -/
def SlotWork.ofResult (rd : RegIndex) (result : OpResult) : SlotWork :=
  { exception := result.exception
    write := if result.exception = .NONE then
        (List.range result.count).map fun i => (rd + BitVec.ofNat 5 i, result.value i)
      else [] }

/-- What one step of a thread did. -/
structure StepResult where
  executed : Bool := false
  thread : ThreadIndex := 0
  pc : BitVec 32 := 0
  nextPc : BitVec 32 := 0
  redirect : Bool := false
  halted : Bool := false
  exception : Bool := false
deriving DecidableEq, Repr

/-- The bundle of a thread, between its beginning and its commit. -/
structure PendingStep where
  bundle : Bundle := {}
  work : List SlotWork := []
  result : StepResult := {}
  transaction : List DwordTransaction := []

structure AparaCore where
  config : Config := {}
  threads : ThreadIndex → ThreadState := fun _ => {}
  nextThread : ThreadIndex := 0
  imem : Fin IMEM_WORDS → BitVec 32 := fun _ => 0
  dmem : Fin DMEM_DWORDS → BitVec 64 := fun _ => 0
  pending : ThreadIndex → PendingStep := fun _ => {}

namespace AparaCore

variable (c : AparaCore)

def setThread (t : ThreadIndex) (ts : ThreadState) : AparaCore :=
  { c with threads := update c.threads t ts }

def setPending (t : ThreadIndex) (p : PendingStep) : AparaCore :=
  { c with pending := update c.pending t p }

def startThread (t : ThreadIndex) (pc : BitVec 32) : AparaCore :=
  c.setThread t
    { c.threads t with pc := pc, active := true, halted := false, error := 0, ras := [] }

def resetThread (t : ThreadIndex) : AparaCore :=
  c.setThread t
    { c.threads t with pc := 0, active := false, halted := false, error := 0, ras := [] }

def anyRunnable : Bool := (List.finRange 4).any fun t => (c.threads t).runnable

def readRegister (t : ThreadIndex) (r : RegIndex) : BitVec 64 := (c.threads t).r r

def writeRegister (t : ThreadIndex) (r : RegIndex) (v : BitVec 64) : AparaCore :=
  if r = 0 then c else c.setThread t { c.threads t with r := update (c.threads t).r r v }

def imemWord (index : Nat) : BitVec 32 := if h : index < IMEM_WORDS then c.imem ⟨index, h⟩ else 0

def writeImemWord (index : Nat) (word : BitVec 32) : AparaCore :=
  if h : index < IMEM_WORDS then { c with imem := update c.imem ⟨index, h⟩ word } else c

/-- The doubleword of the data memory with a number that may be beyond it. -/
def dmemIndex (index : Nat) : Fin DMEM_DWORDS := ⟨index % DMEM_DWORDS, Nat.mod_lt _ (by decide)⟩

def dmemDword (index : Nat) : BitVec 64 := c.dmem (dmemIndex index)

def writeDmemDword (index : Nat) (value : BitVec 64) : AparaCore :=
  { c with dmem := update c.dmem (dmemIndex index) value }

/-! ## Fetch -/

/-- The words from an address on: up to a zero word, the beginning of another bundle or `n` words.
-/
def bundleWords (first : Bool) (a : Nat) : Nat → List (BitVec 32)
  | 0 => []
  | n + 1 =>
    let w := c.imemWord a
    if w = 0 || !first && w.getLsbD 31 then [] else w :: bundleWords false (a + 1) n

/-- A bundle is padded to eight slots if it needs all of them, and otherwise to the next power of
two. -/
def makeBundle (pc : BitVec 32) (words : List (BitVec 32)) : Bundle :=
  match words.take BUNDLE_MAX_SLOTS with
  | [] => { pc := pc, problem := some .noInstruction }
  | w :: rest =>
    if !w.getLsbD 31 then { pc := pc, problem := some .noBundleStart }
    else
      let slots := (w :: rest).map Instruction.decode
      let n := slots.length
      let problem : Option Problem :=
        if slots.any Instruction.needsFullBundle && n != 8 then some .notFull
        else if n != 1 && n != 2 && n != 4 && n != 8 then some .badSize
        else if pc.toNat % n != 0 then some .misaligned
        else if 1 < slots.countP Instruction.isControl then some .twoControls
        else none
      { pc := pc, slots := slots, problem := problem }

/-- The bundle at an address, kept until a word of its line is written. -/
def fetchBundle (pc : BitVec 32) : Bundle :=
  if pc.toNat ≥ IMEM_WORDS then { pc := pc, problem := some .beyondImem }
  else makeBundle pc (c.bundleWords true pc.toNat (8 - pc.toNat % 8))

/-! ## Execute -/

section Execute

variable (unit : DoubleUnit)

/-- A load or a store. -/
def memoryWork (ts : ThreadState) (i : Instruction) : SlotWork :=
  let offset := if i.immediate then BitVec.ofInt 32 i.immValue else (ts.r i.rs2).setWidth 32
  let store := i.opcode == .STORE
  let address := (ts.r i.rs1).setWidth 32 + offset
  let bytes := i.transferBytes
  let w : SlotWork :=
    { memory := true, store := store, address := address, bytes := bytes,
      regs := i.transferRegisters, rd := i.rd, signExtendLoad := i.type.isSigned }
  if address.toNat % bytes ≠ 0 then { w with exception := .UNALIGNED }
  else
    let w := if store then
        { w with storeData := fun k =>
            if k < i.transferRegisters then ts.r (i.rd + BitVec.ofNat 5 k) else 0 }
      else w
    if !i.immediate && i.increment != 0 then
      { w with
        incrementBase := true, rs2 := i.rs2,
        nextRs2 := ts.r i.rs2 + BitVec.ofInt 64 (bytes * i.increment) }
    else w

/-- What a valid instruction in its place does; the next bundle is at `next`. -/
def executeInstruction (ts : ThreadState) (i : Instruction) (address next : BitVec 32) : SlotWork :=
  match i.opcode with
  | .NOP | .NULL_OP => {}
  | .HALT => { halt := true }
  | .CALL =>
    { setsPc := true
      nextPc := address +
        if i.immediate then BitVec.ofInt 32 i.jump else (ts.r i.rs2).setWidth 32
      rasOp := .push
      rasPush := next
      rasError := decide (ts.ras.length ≥ RAS_DEPTH) }
  | .RETURN =>
    match ts.ras with
    | [] => { rasError := true }
    | top :: _ => { setsPc := true, nextPc := top, rasOp := .pop }
  | .BRANCH =>
    let w : SlotWork :=
      if conditionHolds unit i.condition i.type (ts.r i.rs2) then
        { setsPc := true, nextPc := address + BitVec.ofInt 32 i.jump }
      else {}
    if i.increment ≠ 0 then w.addWrite i.rs2 (ts.r i.rs2 + BitVec.ofInt 64 i.increment) else w
  | .CMOV =>
    let w : SlotWork :=
      if i.increment ≠ 0 then
        ({} : SlotWork).addWrite i.rs2 (ts.r i.rs2 + BitVec.ofInt 64 i.increment)
      else {}
    if conditionHolds unit i.condition i.type (ts.r i.rs2) then w.addWrite i.rd (ts.r i.rs1) else w
  | .SET => { write := [(i.rd, i.setValue.setWidth 64 <<< (8 * i.setByteIndex))] }
  | .SLICE => { write := [(i.rd, slice (ts.r i.rs2) i.sliceHigh i.sliceLow)] }
  | .PACK =>
    .ofResult i.rd (pack i.wordBits
      ((List.range i.packInputRegisters).map fun k => ts.r (i.rs2 + BitVec.ofNat 5 k)))
  | .CAST =>
    let n := i.castRegisterCounts.1
    .ofResult i.rd (cast unit i.destType i.castSource
      (fun k => if k = 0 then ts.r i.rs2 else if k = 1 ∧ n = 2 then ts.r (i.rs2 + 1) else 0) n)
  | .FSQRT => .ofResult i.rd (squareRoot unit i.type (ts.r i.rs1))
  | .DOT => .ofResult i.rd (dot unit i.type (ts.r i.rs1) (ts.r i.rs2) i.flag (ts.r i.rd))
  | .VREDUCE => .ofResult i.rd (vectorReduce unit i.subOpcode i.type (ts.r i.rs1))
  | .LOAD | .STORE => memoryWork ts i
  | _ =>
    .ofResult i.rd
      (if i.isVector then vectorAlu unit i.opcode i.type (ts.r i.rs1) (ts.r i.rs2) i.flag
      else scalarAlu unit i.opcode i.type (ts.r i.rs1)
        (if i.immediate then BitVec.ofInt 64 i.immValue else ts.r i.rs2))

def executeSlot (ts : ThreadState) (b : Bundle) (s : Nat) (i : Instruction) : SlotWork :=
  if !i.valid || Bundle.misplaced i s then { exception := .ILLEGAL }
  else executeInstruction unit ts i (b.pc + BitVec.ofNat 32 s) (b.pc + BitVec.ofNat 32 b.size)

/-- The work of all slots, each done on the registers from before the bundle. -/
def executeSlots (ts : ThreadState) (b : Bundle) : List SlotWork :=
  b.slots.mapIdx fun s i => executeSlot unit ts b s i

/-- The exceptions of the slots from number `s` on, each in its three bits. -/
def exceptionCodes (s : Nat) : List SlotWork → BitVec 32
  | [] => 0
  | w :: work => (w.exception.toCode.setWidth 32 <<< (3 * s)) ||| exceptionCodes (s + 1) work

/-! ## The memory accesses -/

def isOffIsland (address : BitVec 32) : Bool :=
  match c.config.offIslandMode with
  | .ALIAS_TO_LOCAL => false
  | .SYSTEM_BUS => decide ((address - c.config.dmemWindowBase).toNat ≥ DMEM_BYTES)

/-- Where a transfer of at most eight bytes is in its big-endian doubleword. -/
def laneShift (w : SlotWork) : Nat := 8 * (8 - w.bytes - w.address.toNat % 8)

/-- The doublewords of one slot. -/
def slotTransactions (s : Nat) (w : SlotWork) : List DwordTransaction :=
  if !w.memory then []
  else
    let base := w.address &&& ~~~7
    (List.range w.regs).map fun k =>
      if w.regs > 1 then
        { slot := s, part := k, store := w.store,
          offIsland := c.isOffIsland (base + BitVec.ofNat 32 (8 * k)),
          address := base + BitVec.ofNat 32 (8 * k), lanes := BitVec.allOnes 8,
          data := w.storeData k }
      else
        { slot := s, part := k, store := w.store, offIsland := c.isOffIsland base, address := base,
          lanes := ((lowMask w.bytes) <<< (laneShift w / 8)).setWidth 8,
          data := (w.storeData 0 &&& lowMask (8 * w.bytes)) <<< laneShift w }

/-- The doublewords of the slots from number `s` on, in their order. -/
def transactions (s : Nat) : List SlotWork → List DwordTransaction
  | [] => []
  | w :: work => c.slotTransactions s w ++ transactions (s + 1) work

/-- A thread is stopped by an exception. -/
def finishWithException (t : ThreadIndex) (res : StepResult) (codes : BitVec 32) (rasError : Bool) :
    StepResult × AparaCore :=
  let ts := c.threads t
  ({ res with exception := true, halted := true, nextPc := ts.pc },
    c.setThread t
      { ts with
        error := ts.error ||| (codes ||| (if codes ≠ 0 then ERROR_EXCEPTION else 0) |||
          (if rasError then ERROR_RAS else 0))
        halted := true })

/-- The bundle is read and executed, up to its memory accesses. -/
def beginStepWith (t : ThreadIndex) (b : Bundle) : StepResult × AparaCore :=
  let ts := c.threads t
  let p := { c.pending t with transaction := [] }
  let res : StepResult := { thread := t }
  if !ts.runnable then (res, c.setPending t p)
  else
    let res := { res with executed := true, pc := ts.pc }
    let p := { p with bundle := b }
    if !b.valid then
      (c.setPending t p).finishWithException t res (ExceptionCode.ILLEGAL.toCode.setWidth 32) false
    else
      let work := executeSlots unit ts b
      let codes := exceptionCodes 0 work
      let rasError := work.any SlotWork.rasError
      let p := { p with work := work }
      if codes ≠ 0 ∨ rasError = true then
        (c.setPending t p).finishWithException t res codes rasError
      else
        (res, c.setPending t { p with transaction := c.transactions 0 work, result := res })

def beginStep (t : ThreadIndex) : StepResult × AparaCore :=
  c.beginStepWith unit t (c.fetchBundle (c.threads t).pc)

end Execute

/-- The bits of the bytes that a mask names. -/
def laneBits (lanes : BitVec 8) : BitVec 64 :=
  (List.range 8).foldl (fun mask i =>
    if lanes.getLsbD i then mask ||| ((0xFF : BitVec 64) <<< (8 * i)) else mask) 0

def readLocal (address : BitVec 32) : BitVec 64 := c.dmemDword (address.toNat / 8)

def writeLocal (address : BitVec 32) (lanes : BitVec 8) (data : BitVec 64) : AparaCore :=
  let mask := laneBits lanes
  c.writeDmemDword (address.toNat / 8)
    ((c.dmemDword (address.toNat / 8) &&& ~~~mask) ||| (data &&& mask))

def setTransaction (t : ThreadIndex) (i : Nat) (x : DwordTransaction) : AparaCore :=
  c.setPending t { c.pending t with transaction := (c.pending t).transaction.set i x }

def performLocal (t : ThreadIndex) (i : Nat) (x : DwordTransaction) : AparaCore :=
  if x.store then (c.writeLocal x.address x.lanes x.data).setTransaction t i { x with done := true }
  else c.setTransaction t i { x with data := c.readLocal x.address, done := true }

def completeTransaction (t : ThreadIndex) (i : Nat) (x : DwordTransaction) (loadData : BitVec 64) :
    AparaCore :=
  c.setTransaction t i { x with data := if x.store then x.data else loadData, done := true }

/-! ## Commit -/

/-- The part of a doubleword that a load of at most eight bytes is for. -/
def loadedValue (w : SlotWork) (data : BitVec 64) : BitVec 64 :=
  let v := (data >>> laneShift w) &&& lowMask (8 * w.bytes)
  if w.signExtendLoad then signExtend v (8 * w.bytes) else v

/-- What a load adds to the work of its slot, from the doublewords it got. -/
def loadWrites (w : SlotWork) (transactions : List DwordTransaction) :
    List (RegIndex × BitVec 64) :=
  if w.store then []
  else if w.regs > 1 then
    transactions.mapIdx fun part x => (w.rd + BitVec.ofNat 5 part, x.data)
  else transactions.map fun x => (w.rd, loadedValue w x.data)

/-- The loaded values and the increments of bases, slot by slot; a slot takes its doublewords from
those left. -/
def withLoads : List SlotWork → List DwordTransaction → List SlotWork
  | [], _ => []
  | w :: work, transactions =>
    if !w.memory then w :: withLoads work transactions
    else
      let increment := if w.incrementBase then [(w.rs2, w.nextRs2)] else []
      { w with write := w.write ++ loadWrites w (transactions.take w.regs) ++ increment } ::
        withLoads work (transactions.drop w.regs)

def commitWrites (r : RegIndex → BitVec 64) (writes : List (RegIndex × BitVec 64)) :
    RegIndex → BitVec 64 :=
  writes.foldl (fun r x => if x.1 ≠ 0 then update r x.1 x.2 else r) r

/-- One slot is committed. -/
def commitSlot (ts : ThreadState) (w : SlotWork) : ThreadState :=
  { ts with
    r := commitWrites ts.r w.write
    ras := match w.rasOp with
      | .none => ts.ras
      | .push => w.rasPush :: ts.ras
      | .pop => ts.ras.tail
    pc := if w.setsPc then w.nextPc else ts.pc }

def commitStep (t : ThreadIndex) : StepResult × AparaCore :=
  let p := c.pending t
  let b := p.bundle
  let work := withLoads p.work p.transaction
  let next := b.pc + BitVec.ofNat 32 b.size
  let ts := work.foldl commitSlot { c.threads t with pc := next }
  let halt := work.any SlotWork.halt
  let ts := if halt then { ts with halted := true, error := ts.error ||| ERROR_HALT } else ts
  ({ p.result with
      redirect := ts.pc != next, nextPc := ts.pc, halted := p.result.halted || halt },
    (c.setThread t ts).setPending t { p with work := work, result := {}, transaction := [] })

/-! ## A step -/

section Step

variable {σ : Type} (port : Option (OffIslandPort σ)) (unit : DoubleUnit)

/-- One transaction of a step. -/
def performTransaction (t : ThreadIndex) (i : Nat) (x : DwordTransaction) (y : AparaCore × σ) :
    AparaCore × σ :=
  if !x.offIsland then (y.1.performLocal t i x, y.2)
  else
    match port with
    | none => (y.1.completeTransaction t i x 0, y.2)
    | some port =>
      if x.store then
        (y.1.completeTransaction t i x 0, port.writeDword x.address x.lanes x.data y.2)
      else
        let a := port.readDword x.address x.lanes y.2
        (y.1.completeTransaction t i x a.1, a.2)

/-- The transactions of a step, from number `i` on. -/
def performTransactions (t : ThreadIndex) :
    Nat → List DwordTransaction → AparaCore × σ → AparaCore × σ
  | _, [], y => y
  | i, x :: xs, y => performTransactions t (i + 1) xs (performTransaction port t i x y)

/-- A thread runs one bundle. -/
def step (t : ThreadIndex) (y : AparaCore × σ) : StepResult × (AparaCore × σ) :=
  let a := y.1.beginStep unit t
  if !a.1.executed || a.1.exception then (a.1, (a.2, y.2))
  else
    let z := performTransactions port t 0 (a.2.pending t).transaction (a.2, y.2)
    let d := z.1.commitStep t
    (d.1, (d.2, z.2))

/-- The next thread in turn runs one bundle. -/
def tick (y : AparaCore × σ) : StepResult × (AparaCore × σ) :=
  let order := (List.finRange 4).map fun i => y.1.nextThread + i
  match order.find? fun t => (y.1.threads t).runnable with
  | none => ({}, y)
  | some t => step port unit t ({ y.1 with nextThread := t + 1 }, y.2)

end Step

end AparaCore

end SparcV8.Apara
