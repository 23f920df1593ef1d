import SparcV8.Apara.Control

/-!
# The DMA unit of an APARA engine

Four channels copy bytes between the data memory and the system's memory, in bursts. A load gathers
its bursts, a store scatters them. The unit says which piece to move next, at most a doubleword; the
engine around it moves it.
-/

namespace SparcV8.Apara

abbrev ChannelIndex := Fin 4

/-- How far a channel has come. -/
structure Progress where
  active : Bool := false
  burst : BitVec 32 := 0
  offset : BitVec 32 := 0
deriving DecidableEq, Repr

/-- One piece of a copy, within one doubleword on both sides. -/
structure Piece where
  channel : ChannelIndex
  toDmem : Bool
  systemAddress : BitVec 64
  dmemAddress : BitVec 32
  bytes : Nat
deriving DecidableEq, Repr

structure AparaDmaCore where
  reg : ChannelIndex → Fin 8 → BitVec 32 := fun _ _ => 0
  progress : ChannelIndex → Progress := fun _ => {}
  nextChannel : ChannelIndex := 0
  interrupt : Bool := false

namespace AparaDmaCore

def LOAD : BitVec 8 := 1

def STORE : BitVec 8 := 2

/-- The flags of a control register, as the numbers of their bits. -/
def FLAG_SCHEDULED : Nat := 0

def FLAG_STARTED : Nat := 1

def FLAG_COMPLETED : Nat := 2

def FLAG_INTERRUPT_ENABLE : Nat := 3

def FLAG_ERROR : Nat := 4

variable (d : AparaDmaCore)
variable (c : ChannelIndex)

/-- The operation of a channel. -/
def op : BitVec 8 := (d.reg c 0).extractLsb 31 24

def readRegister (i : Fin 8) : BitVec 32 := d.reg c i

def setReg (i : Fin 8) (value : BitVec 32) : AparaDmaCore :=
  { d with reg := Function.update d.reg c (Function.update (d.reg c) i value) }

def setProgress (g : Progress) : AparaDmaCore :=
  { d with progress := Function.update d.progress c g }

def finish (now : BitVec 64) (error : Bool) : AparaDmaCore :=
  let r0 := (d.reg c 0 &&& ~~~((1 : BitVec 32) <<< FLAG_STARTED)) |||
    ((1 : BitVec 32) <<< FLAG_COMPLETED) |||
    (if error then (1 : BitVec 32) <<< FLAG_ERROR else 0)
  let d := ((d.setProgress c { d.progress c with active := false }).setReg c 0 r0).setReg c 6
    (now.setWidth 32)
  { d with interrupt := d.interrupt || r0.getLsbD FLAG_INTERRUPT_ENABLE }

def start (now : BitVec 64) : AparaDmaCore :=
  let r0 := (d.reg c 0 &&& ~~~((1 : BitVec 32) <<< FLAG_SCHEDULED)) |||
    ((1 : BitVec 32) <<< FLAG_STARTED)
  let d := (d.setReg c 0 r0).setReg c 7 (now.setWidth 32)
  if (d.op c ≠ LOAD ∧ d.op c ≠ STORE) ∨ d.reg c 6 = 0 then
    d.finish c now (d.op c ≠ LOAD ∧ d.op c ≠ STORE)
  else if d.reg c 4 = 0 then d.finish c now false
  else d.setProgress c { active := true, burst := 0, offset := 0 }

def writeRegister (i : Fin 8) (value : BitVec 32) (laneMask : BitVec 8) (now : BitVec 64) :
    AparaDmaCore :=
  let r := writeLanes (d.reg c i) value laneMask
  let d := d.setReg c i r
  if i ≠ 0 then d
  else
    let d := { d with interrupt := d.interrupt && r.getLsbD FLAG_INTERRUPT_ENABLE }
    if r.getLsbD FLAG_SCHEDULED && !r.getLsbD FLAG_STARTED && !r.getLsbD FLAG_COMPLETED &&
        !r.getLsbD FLAG_ERROR && !(d.progress c).active then
      d.start c now
    else d

/-- The 36-bit addresses of a channel. -/
def sourceBase : BitVec 64 :=
  ((d.reg c 0).extractLsb 23 20).setWidth 64 <<< 32 ||| (d.reg c 1).setWidth 64

def destinationBase : BitVec 64 :=
  ((d.reg c 0).extractLsb 19 16).setWidth 64 <<< 32 ||| (d.reg c 2).setWidth 64

/-- The next piece of a channel. -/
def pieceOf : Piece :=
  let g := d.progress c
  let load := d.op c == LOAD
  let bpb := (d.reg c 6).setWidth 64
  let gap := (d.reg c 5).setWidth 64
  let burst := g.burst.setWidth 64
  let offset := g.offset.setWidth 64
  let src := d.sourceBase c + burst * (if load then gap else bpb) + offset
  let dst := d.destinationBase c + burst * (if load then bpb else gap) + offset
  let left := bpb - offset
  { channel := c
    toDmem := load
    systemAddress := if load then src else dst
    dmemAddress := BitVec.ofNat 32 ((if load then dst else src).toNat % DMEM_BYTES)
    bytes := min left.toNat (min (8 - src.toNat % 8) (8 - dst.toNat % 8)) }

/-- The channels take turns. -/
def nextPiece : Option Piece :=
  (((List.finRange 4).map fun i => d.nextChannel + i).find? fun c => (d.progress c).active).map
    d.pieceOf

def pieceDone (p : Piece) (now : BitVec 64) : AparaDmaCore :=
  let c := p.channel
  let g := d.progress c
  if !g.active then d
  else
    let g := { g with offset := g.offset + BitVec.ofNat 32 p.bytes }
    let d :=
      if (d.reg c 6).toNat ≤ g.offset.toNat then
        let g := { g with offset := 0, burst := g.burst + 1 }
        let d := d.setProgress c g
        if (d.reg c 4).toNat ≤ g.burst.toNat then d.finish c now false else d
      else d.setProgress c g
    { d with nextChannel := c + 1 }

def busy : Bool := (List.finRange 4).any fun c => (d.progress c).active

end AparaDmaCore

end SparcV8.Apara
