import SparcV8.Mmu.MmuCore

/-!
# Where requests go

A request is translated, passed on as it is, or served by the MMU alone. Its kind, its address space
and the control register say which.
-/

namespace SparcV8

namespace VirtualMemoryRequest

open MmuCore

variable (r : VirtualMemoryRequest)

/-- The access is one to instructions, for the class of its fault. -/
def isFetch : Bool :=
  match r.accessType with
  | .IFETCH => true
  | .READ_LINE => r.asi == asiUserInstruction || r.asi == asiSupervisorInstruction
  | _ => false

def isWrite : Bool :=
  match r.accessType with
  | .STORE | .ATOMIC_LS => true
  | _ => false

def isAtomic : Bool :=
  match r.accessType with
  | .ATOMIC_LS => true
  | _ => false

end VirtualMemoryRequest

namespace MmuCore

open VirtualMemoryRequest

/-- Accesses are translated. -/
def translates (u : MmuCore) : Bool := u.mmuIsPresent && u.mmuEnabled

/-- The request is translated through the page tables. -/
def translatesRequest (u : MmuCore) (r : VirtualMemoryRequest) : Bool :=
  u.translates &&
    match r.accessType with
    | .IFETCH | .LOAD | .STORE => asiSpace r.asi == .ordinary
    | .ATOMIC_LS => true
    | .READ_LINE => !asiMmuPassThrough (r.asi.setWidth 8)
    | .FLUSH | .NO_ACCESS => false

/-- Where a request goes. -/
inductive Route where
  | nowhere | probe | readRegister | writeRegister | flush | physical | translated
  deriving DecidableEq

/-- Fetches and loads, or stores, by their address space. -/
def spaceRoute (flushProbe register : Route) : AsiSpace → Route
  | .cache | .diagnostic => .nowhere
  | .flushProbe => flushProbe
  | .register => register
  | .passThrough => .physical
  | .ordinary => .translated

/-- An unmapped address is passed to `translate`, but for that of a line read. -/
def route (u : MmuCore) (r : VirtualMemoryRequest) : Route :=
  match r.accessType, u.mmuIsPresent with
  | .FLUSH, _ | .NO_ACCESS, _ => .nowhere
  | _, false => .physical
  | .IFETCH, true | .LOAD, true => spaceRoute .probe .readRegister (asiSpace r.asi)
  | .STORE, true => spaceRoute .flush .writeRegister (asiSpace r.asi)
  | .ATOMIC_LS, true => .translated
  | .READ_LINE, true =>
    if asiMmuPassThrough (r.asi.setWidth 8) || !u.mmuEnabled then .physical else .translated

variable {τ : Type} (phys : PhysicalMemory τ)

/-- The translation of a request. -/
def translateRequest (u : MmuCore) (r : VirtualMemoryRequest) (m : τ) :
    Option Translation × MmuCore × τ :=
  u.translate phys r.address r.asi r.isFetch r.isWrite r.isAtomic m

/-- The answer to a request that was refused. -/
def refusal (u : MmuCore) (r : VirtualMemoryRequest) : VirtualMemoryResponse :=
  { mae := !u.noFaultSuppressesTrap r.asi
    physicalAddress := if r.isWrite then u.lastPhysicalAddress else 0 }

/-- What a request does once its address has been translated. -/
def complete (u : MmuCore) (r : VirtualMemoryRequest) (t : Translation) (m : τ) :
    VirtualMemoryResponse × (MmuCore × τ) :=
  match r.accessType with
  | .IFETCH =>
    let (words, m) := readData phys t.physicalAddr false 0xFF m
    ({ readWord0 := words.word0, readWord1 := words.word1, mae := words.mae }, (u, m))
  | .LOAD =>
    let (words, m) := readData phys t.physicalAddr true (loadByteMask r.byteMask) m
    ({ readWord0 := words.word0, readWord1 := words.word1, mae := words.mae }, (u, m))
  | .STORE =>
    let (mae, m) :=
      writePhysicalMaskedDoubleWord phys t.physicalAddr r.word0 r.word1 r.byteMask m
    ({ mae := mae, cacheable := (t.cacheable && u.isCacheableTarget t.physicalAddr) && !mae,
       physicalAddress := t.physicalAddr, physicalAddressValid := true },
      ({ u with lastPhysicalAddress := t.physicalAddr }, m))
  | .ATOMIC_LS =>
    let (words, m) :=
      atomicReadModifyWritePhysical phys t.physicalAddr r.word0 r.word1 r.byteMask m
    ({ readWord0 := words.word0, readWord1 := words.word1, mae := words.mae,
       physicalAddress := t.physicalAddr, physicalAddressValid := true },
      ({ u with lastPhysicalAddress := t.physicalAddr }, m))
  | .READ_LINE =>
    let (response, m) := u.readLineAt phys t r.byteMask m
    (response, (u, m))
  | .FLUSH | .NO_ACCESS => ({}, (u, m))

/-- Where a request goes that is not translated. -/
def passedTo (u : MmuCore) (r : VirtualMemoryRequest) : Translation :=
  { physicalAddr := r.address.setWidth 64,
    cacheable := if u.mmuIsPresent then u.untranslatedCacheable r.asi else false, acc := 3 }

/-- A request that is passed on as it is does not show its address. -/
def passOn (u : MmuCore) (r : VirtualMemoryRequest) (m : τ) :
    VirtualMemoryResponse × (MmuCore × τ) :=
  let x := u.complete phys r (u.passedTo r) m
  (if r.isWrite then
    { x.1 with cacheable := false, physicalAddress := u.lastPhysicalAddress,
               physicalAddressValid := false }
  else x.1, (u, x.2.2))

/-- The answer of a request that goes nowhere else. -/
def served (u : MmuCore) (r : VirtualMemoryRequest) (m : τ) :
    VirtualMemoryResponse × (MmuCore × τ) :=
  ({ physicalAddress := if r.isWrite then u.lastPhysicalAddress else 0 }, (u, m))

/-- An access, on its way. -/
def follow (u : MmuCore) (r : VirtualMemoryRequest) (m : τ) :
    Route → VirtualMemoryResponse × (MmuCore × τ)
  | .nowhere => u.served r m
  | .probe =>
    let (found, m) := u.probe phys r.address m
    ({ readWord0 := found.getD 0 }, (u, m))
  | .readRegister =>
    let (word0, u) := u.readRegister r.address
    ({ readWord0 := word0 }, (u, m))
  | .writeRegister => (u.writeRegister r.address r.word0 r.word1 r.byteMask).served r m
  | .flush => (u.flush r.address).served r m
  | .physical => u.passOn phys r m
  | .translated =>
    match u.translateRequest phys r m with
    | (none, u', m') => (u'.refusal r, (u', m'))
    | (some t, u', m') => u'.complete phys r t m'

/-- Every access is one of these. -/
theorem access_eq (r : VirtualMemoryRequest) (u : MmuCore) (m : τ) :
    access phys r (u, m) = u.follow phys r m (u.route r) := by
  have htranslated : u.follow phys r m .translated =
      match u.translate phys r.address r.asi r.isFetch r.isWrite
        r.isAtomic m with
      | (none, u', m') => (u'.refusal r, (u', m'))
      | (some t, u', m') => u'.complete phys r t m' := rfl
  obtain ⟨accessType, address, asi, word0, word1, byteMask⟩ := r
  unfold access handleReadAccess handleWriteAccess handleAtomicAccess handleReadLine route
  cases accessType with
  | FLUSH => rfl
  | NO_ACCESS => rfl
  | ATOMIC_LS =>
    dsimp only
    cases u.mmuIsPresent with
    | false => rfl
    | true =>
      refine Eq.trans ?_ htranslated.symm
      dsimp only [isFetch, isWrite, isAtomic]
      rcases u.translate phys address asi false true true m with ⟨_ | t, u', m'⟩ <;> rfl
  | READ_LINE =>
    dsimp only
    cases hp : u.mmuIsPresent with
    | false =>
      dsimp only [follow, passOn, complete, passedTo]
      rw [hp]
      rfl
    | true =>
      rw [Bool.not_true, Bool.false_or]
      split
      · dsimp only [follow, passOn, complete, passedTo]
        rw [hp]
        rfl
      · refine Eq.trans ?_ htranslated.symm
        dsimp only [isFetch, isWrite, isAtomic]
        generalize u.translate phys address asi _ false false m = x
        rcases x with ⟨_ | t, u', m'⟩ <;> rfl
  | _ =>
    dsimp only
    cases u.mmuIsPresent with
    | false => rfl
    | true =>
      cases asiSpace asi with
      | ordinary =>
        refine Eq.trans ?_ htranslated.symm
        dsimp only [isFetch, isWrite, isAtomic]
        generalize u.translate phys address asi _ _ false m = x
        rcases x with ⟨_ | t, u', m'⟩ <;> rfl
      | _ => rfl

variable {u : MmuCore} {r : VirtualMemoryRequest}

/-- A request is translated if it goes that way and the MMU is on. -/
theorem translatesRequest_eq_route :
    u.translatesRequest r = (u.translates && u.route r == .translated) := by
  obtain ⟨accessType, address, asi, word0, word1, byteMask⟩ := r
  unfold translatesRequest route translates
  cases u.mmuIsPresent with
  | false => rfl
  | true =>
    cases accessType with
    | READ_LINE => cases u.mmuEnabled <;> cases asiMmuPassThrough (asi.setWidth 8) <;> rfl
    | FLUSH => rfl
    | NO_ACCESS => rfl
    | ATOMIC_LS => rfl
    | _ => cases h : asiSpace asi <;> rfl

/-- Probes are fetches and loads in their space. -/
theorem route_probe :
    (u.route r == .probe) = (u.mmuIsPresent &&
      (r.accessType == .IFETCH || r.accessType == .LOAD) && asiSpace r.asi == .flushProbe) := by
  obtain ⟨accessType, address, asi, word0, word1, byteMask⟩ := r
  unfold route
  cases u.mmuIsPresent with
  | false => cases accessType <;> rfl
  | true =>
    cases accessType with
    | READ_LINE =>
      dsimp only
      split <;> rfl
    | FLUSH => rfl
    | NO_ACCESS => rfl
    | ATOMIC_LS => rfl
    | _ => cases h : asiSpace asi <;> rfl

/-- A translated request is refused by its translation or completed after it. -/
theorem access_of_translatesRequest (h : u.translatesRequest r = true) (m : τ) :
    access phys r (u, m) =
      match u.translateRequest phys r m with
      | (none, u', m') => (u'.refusal r, (u', m'))
      | (some t, u', m') => u'.complete phys r t m' := by
  rw [translatesRequest_eq_route, Bool.and_eq_true, beq_iff_eq] at h
  rw [access_eq, h.2]
  rfl

end MmuCore

end SparcV8
