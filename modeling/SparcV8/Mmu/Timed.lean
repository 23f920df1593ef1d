import SparcV8.Mmu.Invariant

/-!
# The timed MMU

The procedure `Mmu` of the timing model makes the steps of a translation itself, with an instance of
`MmuCore` for its state. Its requests are those of `MmuCore`, but that the entry to be updated is
read with the bus locked; data addresses are rounded to their doubleword here and not by the sender.
Delays are left out.
-/

namespace SparcV8

namespace MmuProcedure

/-- The MMU's own spaces, by the low byte of an ASI. -/
def asiIsMmuAccess (asi : BitVec 8) : Bool :=
  asi == 0x03 || asi == 0x04 || asi == 0x05 || asi == 0x06 || asi == 0x07

/-- The tests of the procedure, in their order. -/
def asiSpace (asi : Word) : AsiSpace :=
  let low := asi.setWidth 8
  if asiMmuPassThrough low then .passThrough
  else if asiIsCacheTagOrData low || asiIsIcacheFlush low || asiIsDcacheFlush low then .cache
  else if asi = asiMmuFlushProbe then .flushProbe
  else if asi = asiMmuRegister then .register
  else if asiIsMmuAccess low then .diagnostic
  else .ordinary

variable {τ : Type} (phys : PhysicalMemory τ)

/-! ## Translation -/

/-- The entry now in memory, read with the bus locked. -/
def readCurrentPte (physAddr : BitVec 64) (m : τ) : Word × τ :=
  let (response, m) := phys.access
    { accessType := .READ, lock := true, physicalAddress := alignedDword physAddr, data := 0,
      byteMask := wordMask physAddr } m
  (selectWord physAddr response.readData, m)

variable (u : MmuCore)

/-- Set the referenced and modified bits, in memory and in the TLB. -/
def updateRM (va : Word) (r : WalkResult) (isWrite : Bool) (m : τ) : MmuCore × τ :=
  match MmuCore.computeAndStageRMUpdate r.pte isWrite with
  | none => (u, m)
  | some stagedTlbPte =>
    let (stagedUpdatedPte, m) :=
      if u.atomicRMUpdates then
        let (currentPte, m) := readCurrentPte phys r.phyAddrOfPte m
        (MmuCore.stageRMUpdateOnCurrentPte r.pte stagedTlbPte currentPte, m)
      else (stagedTlbPte, m)
    (u.commitRMTlbUpdate va u.contextRegister r.level stagedTlbPte,
      writePageTableEntryToMemory phys r.phyAddrOfPte stagedUpdatedPte m)

/-- What an access that is not translated uses. -/
def untranslated (va asi : Word) : Translation :=
  { physicalAddr := va.setWidth 64,
    cacheable := if u.mmuIsPresent then u.untranslatedCacheable asi else false, acc := 3 }

/-- `none` is a fault, which has then been recorded. -/
def translate (va asi : Word) (isInstructionAccess isWrite isAtomic : Bool) (m : τ) :
    Option Translation × MmuCore × τ :=
  if !u.mmuEnabled then (some (untranslated u va asi), u, m)
  else
    let (r, hit, m) := u.findEntry phys va m
    let (faulted, u) := u.checkAndRecordFault asi isWrite isAtomic isInstructionAccess va r
    if faulted then (none, u, m)
    else
      let (u, t) := u.commitTranslation va u.contextRegister r hit
      let (u, m) := updateRM phys u va r isWrite m
      (some t, u, m)

/-! ## Accesses -/

/-- The last step of a fetch, a load or a line read. -/
def finalRead (request : VirtualMemoryRequest) (t : Translation) (m : τ) :
    VirtualMemoryResponse × MmuCore × τ :=
  if request.accessType = .READ_LINE then
    let (response, m) := u.readLineAt phys t request.byteMask m
    (response, u, m)
  else
    let (words, m) := MmuCore.readData phys t.physicalAddr (request.accessType == .LOAD)
      (MmuCore.loadByteMask request.byteMask) m
    ({ readWord0 := words.word0, readWord1 := words.word1, mae := words.mae }, u, m)

/-- Line reads go through the same tests as fetches and loads. -/
def handleRead (request : VirtualMemoryRequest) (m : τ) : VirtualMemoryResponse × MmuCore × τ :=
  let isInstructionAccess := request.accessType == .IFETCH ||
    request.accessType == .READ_LINE &&
      (request.asi == asiUserInstruction || request.asi == asiSupervisorInstruction)
  if !u.mmuIsPresent then finalRead phys u request (untranslated u request.address request.asi) m
  else
    match asiSpace request.asi with
    | .passThrough => finalRead phys u request (untranslated u request.address request.asi) m
    | .cache | .diagnostic => ({}, u, m)
    | .flushProbe =>
      let (found, m) := u.probe phys request.address m
      ({ readWord0 := found.getD 0 }, u, m)
    | .register =>
      let (word0, u) := u.readRegister request.address
      ({ readWord0 := word0 }, u, m)
    | .ordinary =>
      let (t, u, m) :=
        translate phys u request.address request.asi isInstructionAccess false false m
      match t with
      | none => ({ mae := !u.noFaultSuppressesTrap request.asi }, u, m)
      | some t => finalRead phys u request t m

/-- The last step of a store. -/
def finalWrite (request : VirtualMemoryRequest) (t : Translation) (m : τ) :
    VirtualMemoryResponse × MmuCore × τ :=
  let (mae, m) := writePhysicalMaskedDoubleWord phys (alignedDword t.physicalAddr)
    request.word0 request.word1 request.byteMask m
  ({ mae := mae, physicalAddress := t.physicalAddr, physicalAddressValid := true,
     cacheable := t.cacheable && u.isCacheableTarget t.physicalAddr && !mae }, u, m)

def handleWrite (request : VirtualMemoryRequest) (m : τ) : VirtualMemoryResponse × MmuCore × τ :=
  if !u.mmuIsPresent then finalWrite phys u request (untranslated u request.address request.asi) m
  else
    match asiSpace request.asi with
    | .passThrough => finalWrite phys u request (untranslated u request.address request.asi) m
    | .cache | .diagnostic => ({}, u, m)
    | .flushProbe => ({}, u.flush request.address, m)
    | .register =>
      ({}, u.writeRegister request.address request.word0 request.word1 request.byteMask, m)
    | .ordinary =>
      let (t, u, m) := translate phys u request.address request.asi false true false m
      match t with
      | none => ({ mae := !u.noFaultSuppressesTrap request.asi }, u, m)
      | some t => finalWrite phys u request t m

/-- The last step of an atomic access. -/
def finalAtomic (request : VirtualMemoryRequest) (t : Translation) (m : τ) :
    VirtualMemoryResponse × MmuCore × τ :=
  let (words, m) := atomicReadModifyWritePhysical phys (alignedDword t.physicalAddr)
    request.word0 request.word1 request.byteMask m
  ({ readWord0 := words.word0, readWord1 := words.word1, mae := words.mae,
     physicalAddress := t.physicalAddr, physicalAddressValid := true }, u, m)

def handleAtomic (request : VirtualMemoryRequest) (m : τ) : VirtualMemoryResponse × MmuCore × τ :=
  if !u.mmuIsPresent then finalAtomic phys u request (untranslated u request.address request.asi) m
  else
    let (t, u, m) := translate phys u request.address request.asi false true true m
    match t with
    | none => ({ mae := !u.noFaultSuppressesTrap request.asi }, u, m)
    | some t => finalAtomic phys u request t m

/-- One request. A response field that is not set keeps an old value in the procedure; the core
reads none of them. -/
def access (request : VirtualMemoryRequest) (x : MmuCore × τ) :
    VirtualMemoryResponse × (MmuCore × τ) :=
  match request.accessType with
  | .IFETCH | .LOAD | .READ_LINE => handleRead phys x.1 request x.2
  | .STORE => handleWrite phys x.1 request x.2
  | .ATOMIC_LS => handleAtomic phys x.1 request x.2
  | .FLUSH | .NO_ACCESS => ({}, x)

/-- The procedure over a physical memory, as the memory below a thread. -/
def virtualMemory : VirtualMemory (MmuCore × τ) := ⟨access phys⟩

end MmuProcedure

end SparcV8
