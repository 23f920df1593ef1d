import SparcV8.Apara.Dma
import SparcV8.Mmu.Physical

/-!
# An APARA engine in a system

The engine, its control unit and its DMA unit at a system bus. The host sees three windows: the data
memory and the registers of the two units. What leaves the engine goes to the bus, and from there
maybe to a window of the same engine; so the bus acts on a state that has this engine as a part.
-/

namespace SparcV8.Apara

open SystemAddressMap AparaCore List

variable (d : BitVec 64)

/-- The doublewords of the bus and the data memory have their words in other orders. -/
def busToDmem : BitVec 64 := (d <<< 32) ||| (d >>> 32)

def busMaskToDmemLanes (m : BitVec 8) : BitVec 8 := (m <<< 4) ||| (m >>> 4)

/-- The bit of the bus mask for byte `k` of a doubleword. -/
def busBit (k : Nat) : BitVec 8 := (1 : BitVec 8) <<< (if k < 4 then 3 - k else 11 - k)

def inWindow (a base : BitVec 64) (bytes : Nat) : Bool :=
  decide (base.toNat ≤ a.toNat) && decide (a.toNat - base.toNat < bytes)

def APARA_UNIT_BYTES : Nat := 0x80

structure AparaSystemCore where
  engine : AparaCore := {}
  control : AparaControlCore := {}
  dma : AparaDmaCore := {}
  cycle : BitVec 64 := 0
  dmemBase : BitVec 64
  ccuBase : BitVec 64
  dmaBase : BitVec 64
  /-- A `COMPLETION` that waits for its thread to stop. -/
  completionWaiting : ThreadIndex → Bool := fun _ => false

namespace AparaSystemCore

/-- The engine as it is built. -/
def initial (cluster engineIndex : Nat) : AparaSystemCore :=
  let dmemBase := BitVec.ofNat 64 (aparaDmemBase cluster engineIndex)
  { engine := { config :=
      { offIslandMode := .SYSTEM_BUS, dmemWindowBase := dmemBase.setWidth 32 } }
    dmemBase := dmemBase
    ccuBase := BitVec.ofNat 64 (aparaCcuBase cluster engineIndex)
    dmaBase := BitVec.ofNat 64 (aparaDmaBase cluster engineIndex) }

/-! ## The host's side -/

section Host

variable (s : AparaSystemCore)

/-- The host writes bytes of a doubleword of the data memory. -/
def writeDmem (index : Nat) (mask : BitVec 8) (data : BitVec 64) : AparaSystemCore :=
  let m := laneBits (busMaskToDmemLanes mask)
  let d := s.engine.dmemDword index
  { s with engine := s.engine.writeDmemDword index ((d &&& ~~~m) ||| (busToDmem data &&& m)) }

variable (ccu read : Bool)

/-- One half of an access to the registers of one of the two units. -/
def accessRegister (offset : BitVec 64) (lanes : BitVec 8) (value : BitVec 32) :
    BitVec 32 × AparaSystemCore :=
  let unit : Fin 4 := ⟨(offset.extractLsb 6 5).toNat, BitVec.isLt _⟩
  let reg : Fin 8 := ⟨(offset.extractLsb 4 2).toNat, BitVec.isLt _⟩
  if read then
    (if ccu then s.control.readRegister unit reg else s.dma.readRegister unit reg, s)
  else if ccu then (0, { s with control := s.control.writeRegister unit reg value lanes })
  else (0, { s with dma := s.dma.writeRegister unit reg value lanes s.cycle })

/-- The half of an access to registers, if its mask names any byte. -/
def accessHalf (offset data : BitVec 64) (mask : BitVec 8) (half : Nat) :
    BitVec 64 × AparaSystemCore :=
  let lanes := (mask >>> (4 * half)) &&& 0xF
  if lanes = 0 then (0, s)
  else
    let a := s.accessRegister ccu read (offset + BitVec.ofNat 64 (4 * half)) lanes
      ((data >>> (32 * half)).setWidth 32)
    (a.1.setWidth 64 <<< (32 * half), a.2)

def access (request : PhysicalMemoryRequest) : PhysicalMemoryResponse × AparaSystemCore :=
  let read := request.accessType == .READ
  let a := request.physicalAddress &&& ~~~7
  let mask := if read && request.byteMask == 0 then 0xFF else request.byteMask
  if inWindow a s.dmemBase DMEM_BYTES then
    let index := (a - s.dmemBase).toNat / 8
    if read then ({ readData := busToDmem (s.engine.dmemDword index), mae := false }, s)
    else ({ readData := 0, mae := false }, s.writeDmem index mask request.data)
  else
    let ccu := inWindow a s.ccuBase APARA_UNIT_BYTES
    if !ccu && !inWindow a s.dmaBase APARA_UNIT_BYTES then ({ readData := 0, mae := false }, s)
    else
      let offset := a - (if ccu then s.ccuBase else s.dmaBase)
      let x := s.accessHalf ccu read offset request.data mask 0
      let y := x.2.accessHalf ccu read offset request.data mask 1
      ({ readData := x.1 ||| y.1, mae := false }, y.2)

end Host

end AparaSystemCore

/-! ## The system's side -/

/-- How an engine is part of a state, and the bus that acts on it. -/
structure Attachment (W : Type) where
  get : W → AparaSystemCore
  set : AparaSystemCore → W → W
  /-- The bus, if there is one. -/
  system : Option (PhysicalMemory W)
  get_set : ∀ s w, get (set s w) = s

namespace Attachment

variable {W : Type} (A : Attachment W)

def modify (f : AparaSystemCore → AparaSystemCore) (w : W) : W := A.set (f (A.get w)) w

variable (address : BitVec 64)

def systemRead (busMask : BitVec 8) (w : W) : BitVec 64 × W :=
  match A.system with
  | none => (0, w)
  | some bus =>
    let a := bus.access
      { accessType := .READ, lock := false, physicalAddress := address, data := 0,
        byteMask := busMask } w
    (a.1.readData, a.2)

def systemWrite (busMask : BitVec 8) (busData : BitVec 64) (w : W) : W :=
  match A.system with
  | none => w
  | some bus =>
    (bus.access
      { accessType := .WRITE, lock := false, physicalAddress := address, data := busData,
        byteMask := busMask } w).2

def readDword (address : BitVec 32) (laneMask : BitVec 8) (w : W) : BitVec 64 × W :=
  let a := A.systemRead (address.setWidth 64) (busMaskToDmemLanes laneMask) w
  (busToDmem a.1, a.2)

def writeDword (address : BitVec 32) (laneMask : BitVec 8) (data : BitVec 64) (w : W) : W :=
  A.systemWrite (address.setWidth 64) (busMaskToDmemLanes laneMask) (busToDmem data) w

/-- Where the loads and stores that leave the engine go. -/
def port : OffIslandPort W := ⟨A.readDword, A.writeDword⟩

/-- The engine works. What leaves it never comes back to the part that works. -/
def runEngine (f : AparaCore × W → StepResult × (AparaCore × W)) (w : W) : StepResult × W :=
  let a := f ((A.get w).engine, w)
  (a.1, A.modify (fun s => { s with engine := a.2.1 }) a.2.2)

/-! ## DMA -/

/-- The bus mask of consecutive bytes. -/
def pieceMask (offset : Nat) (bytes : Nat) : BitVec 8 :=
  (range bytes).foldl (fun mask k => mask ||| busBit (offset + k)) 0

/-- Byte `k` of a doubleword, in its place. -/
def byteAt (k : Nat) : BitVec 64 := (d >>> (56 - 8 * k)) &&& 0xFF

/-- Bytes of the doubleword `sys` replace those of `dmemWord`. -/
def gatherBytes (sys dmemWord : BitVec 64) (sysOffset dmemOffset bytes : Nat) : BitVec 64 :=
  (range bytes).foldl
    (fun word k =>
      let shift := 56 - 8 * (dmemOffset + k)
      (word &&& ~~~((0xFF : BitVec 64) <<< shift)) ||| (byteAt sys (sysOffset + k) <<< shift))
    dmemWord

/-- Bytes of the doubleword `dmemWord`, in their places on the other side. -/
def scatterBytes (dmemWord : BitVec 64) (sysOffset dmemOffset bytes : Nat) : BitVec 64 :=
  (range bytes).foldl
    (fun out k => out ||| (byteAt dmemWord (dmemOffset + k) <<< (56 - 8 * (sysOffset + k)))) 0

/-- One piece is moved. -/
def move (p : Piece) (w : W) : W :=
  let sysOffset := p.systemAddress.toNat % 8
  let dmemOffset := p.dmemAddress.toNat % 8
  let sysWord := p.systemAddress &&& ~~~7
  let dmemIndex := p.dmemAddress.toNat / 8
  let dmemWord := (A.get w).engine.dmemDword dmemIndex
  let busMask := pieceMask sysOffset p.bytes
  if p.toDmem then
    let a := A.systemRead sysWord busMask w
    let word := gatherBytes (busToDmem a.1) dmemWord sysOffset dmemOffset p.bytes
    A.modify (fun s => { s with engine := s.engine.writeDmemDword dmemIndex word }) a.2
  else
    A.systemWrite sysWord busMask
      (busToDmem (scatterBytes dmemWord sysOffset dmemOffset p.bytes)) w

def movePiece (w : W) : W :=
  match (A.get w).dma.nextPiece with
  | none => w
  | some p => A.modify (fun s => { s with dma := s.dma.pieceDone p s.cycle }) (A.move p w)

/-! ## Commands -/

variable (unit : DoubleUnit)

open AparaControlCore in
/-- A command is carried out. -/
def carryOut (q : Request) (w : W) : Result × W :=
  let onEngine (f : AparaCore → AparaCore) : W :=
    A.modify (fun s => { s with engine := f s.engine }) w
  let engine := (A.get w).engine
  match q.command with
  | .READ_IMEM => ({ imemWord := engine.imemWord q.r2.toNat }, w)
  | .WRITE_IMEM => ({}, onEngine fun c => c.writeImemWord q.r2.toNat q.r3)
  | .RESET_THREAD => ({}, onEngine fun c => c.resetThread q.thread)
  | .RUN_THREAD => ({}, onEngine fun c => c.startThread q.thread q.r1)
  | .READ_REGISTER => ({ registerValue := engine.readRegister q.thread (q.r2.setWidth 5) }, w)
  | .WRITE_REGISTER =>
    ({}, onEngine fun c => c.writeRegister q.thread (q.r2.setWidth 5) (q.r6 ++ q.r7))
  | .STEP =>
    -- one bundle, and the thread is stopped again
    let w := onEngine fun c => c.startThread q.thread q.r1
    let w := (A.runEngine (step (some A.port) unit q.thread) w).2
    let ts := (A.get w).engine.threads q.thread
    ({ nextPc := ts.pc },
      A.modify (fun s =>
        { s with engine := s.engine.setThread q.thread { ts with active := false } }) w)
  | .READ_RAS_STATE =>
    let ras := (engine.threads q.rasThread).ras
    ({ rasDepth := BitVec.ofNat 32 ras.length, rasTop := ras.headD 0 }, w)
  | .READ_TIMER => ({ cycles := (A.get w).cycle }, w)
  | _ => ({}, w)

/-- The waiting `COMPLETION` of a thread is finished if the thread has stopped. -/
def pollCompletion (t : ThreadIndex) (w : W) : W :=
  let s := A.get w
  if s.completionWaiting t && s.control.completionReady t then
    A.set { s with
      control := s.control.finishCommand t {}
      completionWaiting := Function.update s.completionWaiting t false } w
  else w

/-- The command of a thread is run. -/
def runCommand (t : ThreadIndex) (w : W) : W :=
  let s := A.get w
  let b := s.control.beginCommand t
  let a := A.carryOut unit b.1 (A.set { s with control := b.2 } w)
  A.modify (fun s =>
    if b.1.command = .COMPLETION ∧ s.control.completionWaits t = true ∧
        s.control.completionReady t = false then
      { s with completionWaiting := Function.update s.completionWaiting t true }
    else { s with control := s.control.finishCommand t a.1 }) a.2

/-- The commands that are ready, at most `fuel` of them: a bundle that is stepped can start
commands. -/
def runReady (unit : DoubleUnit) : Nat → W → Option W
  | fuel, w =>
    match (A.get w).control.commandReady with
    | none => some w
    | some t =>
      match fuel with
      | 0 => none
      | fuel + 1 => runReady unit fuel (A.runCommand unit t w)

def runCommands (fuel : Nat) (w : W) : Option W :=
  A.runReady unit fuel ((finRange 4).foldl (fun w t => A.pollCompletion t w) w)

/-- The next thread in turn runs a bundle; the control unit is told of its stop. -/
def tickEngine (w : W) : W :=
  if (A.get w).engine.anyRunnable then
    let a := A.runEngine (tick (some A.port) unit) w
    if a.1.executed && a.1.halted then
      let ts := (A.get a.2).engine.threads a.1.thread
      A.modify (fun s =>
        { s with control := s.control.threadStopped a.1.thread ts.error ts.pc }) a.2
    else a.2
  else w

/-- One cycle. -/
def tick (fuel : Nat) (w : W) : Option W :=
  (A.runCommands unit fuel w).map fun w =>
    A.modify (fun s => { s with cycle := s.cycle + 1 }) (A.movePiece (A.tickEngine unit w))

end Attachment

end SparcV8.Apara
