import SparcV8.Mmu.Physical
import SparcV8.Mmu.Tlb

/-!
# The memory management unit

`MmuCore::access` over any physical memory. The registers are those of the one thread a core has.
What a translation keeps between its steps (the entry found, the staged update) is passed along.
Statistics and logging are left out.
-/

namespace SparcV8

open Pte SystemAddressMap

/-- The kind of fault the fault status register describes. -/
inductive FaultClass where
  | NO_FAULT | IACCESS_FAULT | DACCESS_FAULT
  deriving DecidableEq, Repr

structure MmuCore where
  mmuIsPresent : Bool
  tlbEnabled : Bool
  /-- Referenced and modified bits are set by a read-modify-write of the entry. -/
  atomicRMUpdates : Bool
  /-- Which physical addresses are main memory. -/
  layout : Layout
  tlb : Tlb
  controlRegister : Word
  contextTablePointerRegister : Word
  contextRegister : Word
  faultStatusRegister : Word
  faultAddressRegister : Word
  faultClass : FaultClass
  /-- The address of the last translated store or atomic access. -/
  lastPhysicalAddress : BitVec 64

/-- What a successful translation returns. -/
structure Translation where
  physicalAddr : BitVec 64
  cacheable : Bool
  acc : Word

/-- What a read access returns. -/
structure ReadWords where
  word0 : Word := 0
  word1 : Word := 0
  mae : Bool := false

/-- The kinds of address space an access dispatches on. -/
inductive AsiSpace where
  | cache | flushProbe | register | diagnostic | passThrough | ordinary
  deriving DecidableEq, Repr

/-- The tests of `handleReadAccess` and `handleWriteAccess`, in their order. -/
def asiSpace (asi : Word) : AsiSpace :=
  let low := asi.setWidth 8
  if asiIsCacheTagOrData low || asiIsIcacheFlush low || asiIsDcacheFlush low then .cache
  else if asi = asiMmuFlushProbe then .flushProbe
  else if asi = asiMmuRegister then .register
  else if asi = asiMmuDiagnosticI ∨ asi = asiMmuDiagnosticID ∨ asi = asiMmuDiagnosticIO then
    .diagnostic
  else if asiMmuPassThrough low then .passThrough
  else .ordinary

/-! ## Physical accesses -/

section Physical

variable {τ : Type} (phys : PhysicalMemory τ)
variable (physAddr : BitVec 64)

/-- The half of its doubleword that a word address selects. -/
def lowHalf : Bool := physAddr &&& 0x4 == 0

def alignedDword : BitVec 64 := physAddr &&& ~~~7

/-- The byte mask of the word at an address. -/
def wordMask : BitVec 8 := if lowHalf physAddr then 0x0F else 0xF0

/-- The word of a doubleword that an address selects. -/
def selectWord (physAddr d : BitVec 64) : Word := if lowHalf physAddr then lowWord d else highWord d

def readPhysicalWord (m : τ) : (Word × Bool) × τ :=
  let (response, m) := phys.access
    { accessType := .READ, lock := false, physicalAddress := alignedDword physAddr, data := 0,
      byteMask := wordMask physAddr } m
  ((selectWord physAddr response.readData, response.mae), m)

def readPhysicalDoubleword (byteMask : BitVec 8) (m : τ) : ReadWords × τ :=
  let (response, m) := phys.access
    { accessType := .READ, lock := false, physicalAddress := alignedDword physAddr, data := 0,
      byteMask := byteMask } m
  ({ word0 := lowWord response.readData, word1 := highWord response.readData,
     mae := response.mae }, m)

/-- The address is sent as it is, not rounded. -/
def writePhysicalMaskedDoubleWord (word0 word1 byteMask : Word) (m : τ) : Bool × τ :=
  let (response, m) := phys.access
    { accessType := .WRITE, lock := false, physicalAddress := physAddr,
      data := doubleword word1 word0, byteMask := byteMask.setWidth 8 } m
  (response.mae, m)

/-- A locked read, then a write, both at the address as it is. -/
def atomicReadModifyWritePhysical (word0 word1 byteMask : Word) (m : τ) : ReadWords × τ :=
  let (readResponse, m) := phys.access
    { accessType := .READ, lock := true, physicalAddress := physAddr, data := 0,
      byteMask := byteMask.setWidth 8 } m
  let (writeResponse, m) := phys.access
    { accessType := .WRITE, lock := false, physicalAddress := physAddr,
      data := doubleword word1 word0, byteMask := byteMask.setWidth 8 } m
  ({ word0 := lowWord readResponse.readData, word1 := highWord readResponse.readData,
     mae := readResponse.mae || writeResponse.mae }, m)

def readPageTableEntryFromMemory (m : τ) : Word × τ :=
  let ((value, _), m) := readPhysicalWord phys physAddr m
  (value, m)

def writePageTableEntryToMemory (value : Word) (m : τ) : τ :=
  let word0 := if lowHalf physAddr then value else 0
  let word1 := if lowHalf physAddr then 0 else value
  let mask : Word := if lowHalf physAddr then 0x0F else 0xF0
  (writePhysicalMaskedDoubleWord phys (alignedDword physAddr) word0 word1 mask m).2

/-- The loop of a walk. At most three further entries are fetched. -/
def runWalk (stopAtLevel : Level) : Nat → Walk → τ → WalkResult × τ
  | 0, w, m =>
    let (fetchedPte, m) := readPageTableEntryFromMemory phys w.curPhyAddr m
    (w.result fetchedPte, m)
  | steps + 1, w, m =>
    let (fetchedPte, m) := readPageTableEntryFromMemory phys w.curPhyAddr m
    match w.recordWalkStep fetchedPte stopAtLevel with
    | some w' => runWalk stopAtLevel steps w' m
    | none => (w.result fetchedPte, m)

end Physical

namespace MmuCore

/-- The state the constructor leaves. -/
def initial (mmuIsPresent tlbEnabled atomicRMUpdates : Bool) (layout : Layout) : MmuCore :=
  { mmuIsPresent := mmuIsPresent, tlbEnabled := tlbEnabled, atomicRMUpdates := atomicRMUpdates,
    layout := layout, tlb := Tlb.empty, controlRegister := 0, contextTablePointerRegister := 0,
    contextRegister := 0, faultStatusRegister := 0, faultAddressRegister := 0,
    faultClass := .NO_FAULT, lastPhysicalAddress := 0 }

def mmuEnabled (u : MmuCore) : Bool := readBits u.controlRegister 0 0 != 0

def alwaysCacheable (u : MmuCore) : Bool := readBits u.controlRegister 8 8 != 0

/-- The no-fault bit keeps every fault but those of ASI 9 from the processor. -/
def noFaultSuppressesTrap (u : MmuCore) (asi : Word) : Bool :=
  readBits u.controlRegister 1 1 != 0 && asi != asiSupervisorInstruction

def untranslatedCacheable (u : MmuCore) (asi : Word) : Bool :=
  !asiMmuPassThrough (asi.setWidth 8) && u.alwaysCacheable

def isCacheableTarget (u : MmuCore) (physAddr : BitVec 64) : Bool :=
  decode u.layout physAddr == .MAIN_MEMORY

/-! ## Fault recording -/

/-- An instruction fault does not replace a data fault that has not been read. -/
def updateFsrFar (u : MmuCore) (fsrVal farVal : Word) (faultClass : FaultClass) : MmuCore :=
  let overwrite := u.faultClass == faultClass &&
    (faultClass == .IACCESS_FAULT || faultClass == .DACCESS_FAULT)
  let fsrVal := writeBits fsrVal 0 0 (if overwrite then 1 else 0)
  if u.faultClass == .NO_FAULT || u.faultClass == .IACCESS_FAULT ||
      faultClass == .DACCESS_FAULT then
    { u with faultStatusRegister := fsrVal, faultAddressRegister := farVal,
             faultClass := faultClass }
  else u

def recordFault (u : MmuCore) (accessType : AccessType) (faultType : FaultType) (level : Level)
    (va : Word) (isInstructionFetch : Bool) : MmuCore :=
  let fsr := writeBits 0 17 10 0
  let fsr := writeBits fsr 9 8 (BitVec.ofNat 32 level.val)
  let fsr := writeBits fsr 7 5 (BitVec.ofNat 32 accessType.code)
  let fsr := writeBits fsr 4 2 (BitVec.ofNat 32 faultType.code)
  let fsr := writeBits fsr 1 1 1
  u.updateFsrFar fsr va (if isInstructionFetch then .IACCESS_FAULT else .DACCESS_FAULT)

/-! ## The steps of a translation -/

/-- Access type and fault of an access; an atomic needs both rights. -/
def checkFault (asi : Word) (isWrite isAtomic : Bool) (pte : Word) : AccessType × FaultType :=
  let accessType := computeAccessType asi isWrite
  let faultType := computeFaultType accessType pte
  if isAtomic ∧ faultType = .NONE then
    let otherType := computeAccessType asi (!isWrite)
    let otherFaultType := computeFaultType otherType pte
    if otherFaultType ≠ .NONE then (otherType, otherFaultType) else (accessType, faultType)
  else (accessType, faultType)

/-- Whether the access faults, and the registers after the fault is recorded. -/
def checkAndRecordFault (u : MmuCore) (asi : Word) (isWrite isAtomic isInstructionFetch : Bool)
    (va : Word) (r : WalkResult) : Bool × MmuCore :=
  let (accessType, faultType) := checkFault asi isWrite isAtomic r.pte
  if faultType = .NONE then (false, u)
  else (true, u.recordFault accessType faultType r.level va isInstructionFetch)

def tlbLookup (u : MmuCore) (va context : Word) : Option WalkResult :=
  if u.tlbEnabled then u.tlb.lookup va context else none

def beginWalk (u : MmuCore) (va context : Word) : Walk :=
  Walk.start u.contextTablePointerRegister context va

/-- Fill the TLB after a walk, and form the physical address. -/
def commitTranslation (u : MmuCore) (va context : Word) (r : WalkResult) (hit : Bool) :
    MmuCore × Translation :=
  let u := if !hit && u.tlbEnabled then { u with tlb := u.tlb.insert va context r } else u
  (u, { physicalAddr := constructPhysicalAddr r.pte r.level va,
        cacheable := cacheable r.pte != 0, acc := acc r.pte })

/-- The entry with the bits an access sets, if that changes it. -/
def computeAndStageRMUpdate (pte : Word) (isWrite : Bool) : Option Word :=
  let setR := referenced pte == 0
  let setM := isWrite && modified pte == 0
  if !setR && !setM then none
  else
    let updatedPte := if setR then setReferenced pte else pte
    some (if setM then setModified updatedPte else updatedPte)

/-- Set the bits on the entry now in memory, if that still is a leaf. -/
def stageRMUpdateOnCurrentPte (walkResultPte stagedTlbPte currentPte : Word) : Word :=
  let bitsToSet := stagedTlbPte ^^^ walkResultPte
  if entryType currentPte = etPte then currentPte ||| bitsToSet else currentPte

def commitRMTlbUpdate (u : MmuCore) (va context : Word) (level : Level) (stagedTlbPte : Word) :
    MmuCore :=
  if u.tlbEnabled then { u with tlb := u.tlb.updatePte va context level stagedTlbPte } else u

/-! ## Registers and flushes -/

def flush (u : MmuCore) (va : Word) : MmuCore :=
  if u.tlbEnabled then { u with tlb := u.tlb.flush (readBits va 11 8) va u.contextRegister } else u

/-- A read of the fault status register clears it. -/
def readRegister (u : MmuCore) (addr : Word) : Word × MmuCore :=
  match (readBits addr 31 8).toNat with
  | 0 => (u.controlRegister, u)
  | 1 => (u.contextTablePointerRegister, u)
  | 2 => (u.contextRegister, u)
  | 3 => (u.faultStatusRegister, { u with faultStatusRegister := 0, faultClass := .NO_FAULT })
  | 4 => (u.faultAddressRegister, u)
  | _ => (0, u)

/-- A write of the table pointer empties the TLB; fault registers ignore writes. -/
def writeRegister (u : MmuCore) (addr word0 word1 byteMask : Word) : MmuCore :=
  let data := if byteMask = 0xF0 then word1 else word0
  match (readBits addr 31 8).toNat with
  | 0 => { u with controlRegister := data }
  | 1 =>
    let u := { u with contextTablePointerRegister := data }
    if u.tlbEnabled then { u with tlb := u.tlb.clear } else u
  | 2 => { u with contextRegister := data }
  | _ => u

/-! ## Accesses -/

variable {τ : Type} (phys : PhysicalMemory τ)

/-- The entry for an address: the TLB's, or the one a walk finds. -/
def findEntry (u : MmuCore) (va : Word) (m : τ) : WalkResult × Bool × τ :=
  match u.tlbLookup va u.contextRegister with
  | some r => (r, true, m)
  | none =>
    let (r, m) := runWalk phys 3 3 (u.beginWalk va u.contextRegister) m
    (r, false, m)

/-- Set the referenced and modified bits, in memory and in the TLB. -/
def updateRM (u : MmuCore) (va : Word) (r : WalkResult) (isWrite : Bool) (m : τ) : MmuCore × τ :=
  match computeAndStageRMUpdate r.pte isWrite with
  | none => (u, m)
  | some stagedTlbPte =>
    let (stagedUpdatedPte, m) :=
      if u.atomicRMUpdates then
        let (currentPte, m) := readPageTableEntryFromMemory phys r.phyAddrOfPte m
        (stageRMUpdateOnCurrentPte r.pte stagedTlbPte currentPte, m)
      else (stagedTlbPte, m)
    (u.commitRMTlbUpdate va u.contextRegister r.level stagedTlbPte,
      writePageTableEntryToMemory phys r.phyAddrOfPte stagedUpdatedPte m)

/-- `none` is a fault, which has then been recorded. -/
def translate (u : MmuCore) (va asi : Word) (isInstructionFetch isWrite isAtomic : Bool) (m : τ) :
    Option Translation × MmuCore × τ :=
  if !u.mmuIsPresent || !u.mmuEnabled then
    (some { physicalAddr := va.setWidth 64, cacheable := !u.mmuIsPresent || u.alwaysCacheable,
            acc := 3 }, u, m)
  else
    let (r, hit, m) := findEntry phys u va m
    let (faulted, u) := u.checkAndRecordFault asi isWrite isAtomic isInstructionFetch va r
    if faulted then (none, u, m)
    else
      let (u, t) := u.commitTranslation va u.contextRegister r hit
      let (u, m) := u.updateRM phys va r isWrite m
      (some t, u, m)

/-- A probe of the page tables; reserved types find nothing. -/
def probe (u : MmuCore) (va : Word) (m : τ) : Option Word × τ :=
  let probeType := (readBits va 11 8).toNat
  if probeType = 4 then
    let (r, _, m) := findEntry phys u va m
    (if entryType r.pte = etPte then some r.pte else none, m)
  else if probeType > 3 then (none, m)
  else
    let targetLevel : Level := Fin.ofNat 4 (3 - probeType)
    let (r, m) := runWalk phys targetLevel 3 (u.beginWalk va u.contextRegister) m
    let et := entryType r.pte
    (if r.level ≠ targetLevel then none
     else if et = etReserved then none
     else if et = etPtd ∧ probeType = 0 then none
     else some r.pte, m)

/-- The physical read of an access: a doubleword for a load, one word for a fetch. -/
def readData (physAddr : BitVec 64) (readSecondWord : Bool) (loadWordMask : BitVec 8) (m : τ) :
    ReadWords × τ :=
  if readSecondWord then readPhysicalDoubleword phys physAddr loadWordMask m
  else
    let ((word0, mae), m) := readPhysicalWord phys physAddr m
    ({ word0 := word0, mae := mae }, m)

def handleReadAccess (u : MmuCore) (address asi : Word) (isInstructionFetch readSecondWord : Bool)
    (loadWordMask : BitVec 8) (m : τ) : ReadWords × MmuCore × τ :=
  if !u.mmuIsPresent then
    let (words, m) := readData phys (address.setWidth 64) readSecondWord loadWordMask m
    (words, u, m)
  else
    match asiSpace asi with
    | .cache | .diagnostic => ({}, u, m)
    | .flushProbe =>
      let (found, m) := u.probe phys address m
      ({ word0 := found.getD 0 }, u, m)
    | .register =>
      let (word0, u) := u.readRegister address
      ({ word0 := word0 }, u, m)
    | .passThrough =>
      let (words, m) := readData phys (address.setWidth 64) readSecondWord loadWordMask m
      (words, u, m)
    | .ordinary =>
      let (t, u, m) := u.translate phys address asi isInstructionFetch false false m
      match t with
      | none => ({ mae := !u.noFaultSuppressesTrap asi }, u, m)
      | some t =>
        let (words, m) := readData phys t.physicalAddr readSecondWord loadWordMask m
        (words, u, m)

/-- The exception, and whether the stored-to line may be cached and where. -/
structure WriteOutcome where
  mae : Bool := false
  cacheable : Bool := false
  physicalAddressValid : Bool := false

def handleWriteAccess (u : MmuCore) (address word0 word1 byteMask asi : Word) (m : τ) :
    WriteOutcome × MmuCore × τ :=
  if !u.mmuIsPresent then
    let (mae, m) := writePhysicalMaskedDoubleWord phys (address.setWidth 64) word0 word1 byteMask m
    ({ mae := mae }, u, m)
  else
    match asiSpace asi with
    | .cache | .diagnostic => ({}, u, m)
    | .flushProbe => ({}, u.flush address, m)
    | .register => ({}, u.writeRegister address word0 word1 byteMask, m)
    | .passThrough =>
      let (mae, m) := writePhysicalMaskedDoubleWord phys (address.setWidth 64) word0 word1
        byteMask m
      ({ mae := mae }, u, m)
    | .ordinary =>
      let (t, u, m) := u.translate phys address asi false true false m
      match t with
      | none => ({ mae := !u.noFaultSuppressesTrap asi }, u, m)
      | some t =>
        let (mae, m) := writePhysicalMaskedDoubleWord phys t.physicalAddr word0 word1 byteMask m
        ({ mae := mae, cacheable := t.cacheable && u.isCacheableTarget t.physicalAddr,
           physicalAddressValid := true },
          { u with lastPhysicalAddress := t.physicalAddr }, m)

/-- An atomic access does not look at the address space, but for its rights. -/
def handleAtomicAccess (u : MmuCore) (address word0 word1 byteMask asi : Word) (m : τ) :
    (ReadWords × Bool) × MmuCore × τ :=
  if !u.mmuIsPresent then
    let (words, m) :=
      atomicReadModifyWritePhysical phys (address.setWidth 64) word0 word1 byteMask m
    ((words, false), u, m)
  else
    let (t, u, m) := u.translate phys address asi false true true m
    match t with
    | none => (({ mae := !u.noFaultSuppressesTrap asi }, false), u, m)
    | some t =>
      let (words, m) := atomicReadModifyWritePhysical phys t.physicalAddr word0 word1 byteMask m
      ((words, true), { u with lastPhysicalAddress := t.physicalAddr }, m)

variable (lineBase : BitVec 64)

/-- Read doubleword `i` of a line, unless an earlier one has failed. -/
def readLineStep (x : (Fin 8 → BitVec 64) × Bool × τ) (i : Fin 8) :
    (Fin 8 → BitVec 64) × Bool × τ :=
  if x.2.1 then x
  else
    let (words, m) := readPhysicalDoubleword phys (lineBase + 8 * BitVec.ofNat 64 i.val) 0xFF x.2.2
    (Function.update x.1 i (doubleword words.word1 words.word0), words.mae, m)

/-- The doublewords of a line, up to the first that reports an exception. -/
def readLine (m : τ) : (Fin 8 → BitVec 64) × Bool × τ :=
  (List.finRange 8).foldl (readLineStep phys lineBase) (fun _ => 0, false, m)

/-- The index of a doubleword in its line. -/
def lineOffset (physAddr : BitVec 64) : Fin 8 :=
  ⟨(physAddr >>> 3 &&& 7).toNat, by
    rw [BitVec.toNat_and]
    exact lt_of_le_of_lt Nat.and_le_right (by decide)⟩

/-- Read the line of an address, or what was asked for if it is not cacheable. -/
def readLineAt (u : MmuCore) (t : Translation) (byteMask : Word) (m : τ) :
    VirtualMemoryResponse × τ :=
  let cacheable := t.cacheable && u.isCacheableTarget t.physicalAddr
  let offset := lineOffset t.physicalAddr
  let (line, mae, m) :=
    if cacheable then readLine phys (t.physicalAddr &&& ~~~63) m
    else if byteMask ≠ 0 then
      let (words, m) := readPhysicalDoubleword phys t.physicalAddr (byteMask.setWidth 8) m
      (Function.update (fun _ => 0) offset (doubleword words.word1 words.word0), words.mae, m)
    else (fun _ => 0, false, m)
  ({ readWord0 := lowWord (line offset), readWord1 := highWord (line offset), mae := mae,
     line := line, cacheable := cacheable, acc := t.acc, physicalAddress := t.physicalAddr }, m)

def handleReadLine (u : MmuCore) (request : VirtualMemoryRequest) (m : τ) :
    VirtualMemoryResponse × MmuCore × τ :=
  let asi := request.asi
  let isInstructionFetch := asi == asiUserInstruction || asi == asiSupervisorInstruction
  if !u.mmuIsPresent || asiMmuPassThrough (asi.setWidth 8) || !u.mmuEnabled then
    let cacheable := if u.mmuIsPresent then u.untranslatedCacheable asi else false
    let (response, m) := u.readLineAt phys
      { physicalAddr := request.address.setWidth 64, cacheable := cacheable, acc := 3 }
      request.byteMask m
    (response, u, m)
  else
    let (t, u, m) := u.translate phys request.address asi isInstructionFetch false false m
    match t with
    | none => ({ mae := !u.noFaultSuppressesTrap asi }, u, m)
    | some t =>
      let (response, m) := u.readLineAt phys t request.byteMask m
      (response, u, m)

/-- A load that does not say which words it wants reads both. -/
def loadByteMask (byteMask : Word) : BitVec 8 := if byteMask ≠ 0 then byteMask.setWidth 8 else 0xFF

def access (request : VirtualMemoryRequest) (x : MmuCore × τ) :
    VirtualMemoryResponse × (MmuCore × τ) :=
  let (u, m) := x
  match request.accessType with
  | .IFETCH =>
    let (words, y) := u.handleReadAccess phys request.address request.asi true false 0xFF m
    ({ readWord0 := words.word0, readWord1 := words.word1, mae := words.mae }, y)
  | .LOAD =>
    let (words, y) := u.handleReadAccess phys request.address request.asi false true
      (loadByteMask request.byteMask) m
    ({ readWord0 := words.word0, readWord1 := words.word1, mae := words.mae }, y)
  | .STORE =>
    let (w, u, m) := u.handleWriteAccess phys request.address request.word0 request.word1
      request.byteMask request.asi m
    ({ mae := w.mae, cacheable := w.cacheable && !w.mae, physicalAddress := u.lastPhysicalAddress,
       physicalAddressValid := w.physicalAddressValid }, (u, m))
  | .ATOMIC_LS =>
    let ((words, valid), u, m) := u.handleAtomicAccess phys request.address request.word0
      request.word1 request.byteMask request.asi m
    ({ readWord0 := words.word0, readWord1 := words.word1, mae := words.mae,
       physicalAddress := u.lastPhysicalAddress, physicalAddressValid := valid }, (u, m))
  | .READ_LINE => u.handleReadLine phys request m
  | .FLUSH | .NO_ACCESS => ({}, x)

/-- The MMU over a physical memory, as the memory below a core. -/
def virtualMemory : VirtualMemory (MmuCore × τ) := ⟨access phys⟩

end MmuCore

/-- An MMU that is switched on, with the context table at address 0. -/
def mmuOn : MmuCore := { MmuCore.initial true true true {} with controlRegister := 1 }

end SparcV8
