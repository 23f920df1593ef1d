import SparcV8.Apara.Bytes
import SparcV8.Apara.Effects

/-!
# A system with engines

Main memory, the devices and any number of engines at one bus. A data memory is accessed by the
host, by its engine, by other engines and by the DMA units.
-/

namespace SparcV8.Apara

open SystemAddressMap

structure EngineSystem (δ : Type) where
  memory : MemCore
  devices : δ
  engines : Nat → AparaSystemCore
  /-- The engines that are attached to the bus. -/
  attached : Nat → Bool

namespace EngineSystem

variable {δ : Type} (l : Layout) (devices : PhysicalMemory δ)
variable (x : EngineSystem δ)

def setEngine (e : Nat) (s : AparaSystemCore) : EngineSystem δ :=
  { x with engines := Function.update x.engines e s }

theorem engines_setEngine (x : EngineSystem δ) (e e' : Nat) (s : AparaSystemCore) :
    (x.setEngine e s).engines e' = if e' = e then s else x.engines e' :=
  Function.update_apply x.engines e s e'

/-- The bus. -/
def access (request : PhysicalMemoryRequest) (x : EngineSystem δ) :
    PhysicalMemoryResponse × EngineSystem δ :=
  match decode l request.physicalAddress with
  | .MAIN_MEMORY =>
    let a := MainMemory.accessAt (request.physicalAddress.setWidth 32) request x.memory
    (a.1, { x with memory := a.2 })
  | .PERIPHERAL_DEVICES =>
    let a := devices.access request x.devices
    (a.1, { x with devices := a.2 })
  | .APARA_ENGINE =>
    match (aparaEngineAt l request.physicalAddress.toNat).filter x.attached with
    | some e =>
      let a := (x.engines e).access request
      (a.1, x.setEngine e a.2)
    | none => ({ readData := 0, mae := false }, x)
  | .UNMAPPED => ({ readData := 0, mae := false }, x)

/-- An engine of the system, whose own accesses go to the bus. -/
def attachment (e : Nat) : Attachment (EngineSystem δ) where
  get x := x.engines e
  set s x := x.setEngine e s
  system := some ⟨access l devices⟩
  get_set _ _ := Function.update_self ..

/-- A slot of a bundle of an engine accesses memory. -/
def slotAccess (e : Nat) (w : SlotWork) (x : EngineSystem δ) :
    List DwordTransaction × EngineSystem δ :=
  let A := attachment l devices e
  let c := (x.engines e).engine
  let a := transferAll (some A.port) (c.slotTransactions 0 w) (c.dmem, x)
  (a.1, A.modify (fun s => { s with engine := { s.engine with dmem := a.2.1 } }) a.2.2)

/-- An access to memory. -/
inductive Access where
  | host (request : PhysicalMemoryRequest)
  | engine (e : Nat) (work : SlotWork)
  | dma (e : Nat)

def perform (access : Access) (x : EngineSystem δ) : EngineSystem δ :=
  match access with
  | .host request => (EngineSystem.access l devices request x).2
  | .engine e work => (slotAccess l devices e work x).2
  | .dma e => (attachment l devices e).movePiece x

/-! ## Where things are -/

/-- The windows of an engine are where the layout has them, and it knows its own one. -/
structure PlacedAt (e : Nat) (s : AparaSystemCore) : Prop where
  place : ∃ c i, c < l.clusters ∧ i < l.enginesPerCluster ∧ e = c * l.enginesPerCluster + i ∧
    s.dmemBase = BitVec.ofNat 64 (aparaDmemBase c i) ∧
    s.ccuBase = BitVec.ofNat 64 (aparaCcuBase c i) ∧
    s.dmaBase = BitVec.ofNat 64 (aparaDmaBase c i)
  config : s.engine.config =
    { offIslandMode := .SYSTEM_BUS, dmemWindowBase := s.dmemBase.setWidth 32 }

/-- Every engine at the bus is in its place. -/
def Placed : Prop := ∀ e, x.attached e = true → PlacedAt l e (x.engines e)

/-- No address is in the windows of two engines. -/
structure WindowsApart : Prop where
  profile : l.profile = .AJIT_APARA
  apart : ∀ c i c' i' a, c < l.clusters → i < l.enginesPerCluster → c' < l.clusters →
    i' < l.enginesPerCluster → inEngineWindows c i a = true →
      inEngineWindows c' i' a = true → c = c' ∧ i = i'

/-- The engine and the byte of its data memory at an address. -/
def dmemAt (a : BitVec 64) : Option (Nat × Fin DMEM_BYTES) :=
  ((aparaEngineAt l a.toNat).filter x.attached).bind fun e =>
    if h : (x.engines e).dmemBase.toNat ≤ a.toNat ∧
        a.toNat - (x.engines e).dmemBase.toNat < DMEM_BYTES then
      some (e, ⟨a.toNat - (x.engines e).dmemBase.toNat, h.2⟩)
    else none

/-- The byte at an address in the window of a data memory. -/
def byteAt (a : BitVec 64) : Option (BitVec 8) :=
  (dmemAt l x a).map fun p => dmemByte (x.engines p.1).engine.dmem p.2

end EngineSystem

end SparcV8.Apara
