import SparcV8.Cache.L1CachesCore
import SparcV8.Mmu.Access

/-!
# The caches over the MMU

The memory of one core: `L1CachesCore` over `MmuCore`, with the context that the MMU is in.
-/

namespace SparcV8

open MmuCore L1CachesCore Caches BitVec

/-- A request of the core, to its caches. -/
def cachedAccess {τ : Type} (phys : PhysicalMemory τ) (request : VirtualMemoryRequest)
    (x : L1CachesCore × (MmuCore × τ)) :
    Option (VirtualMemoryResponse × (L1CachesCore × (MmuCore × τ))) :=
  access (virtualMemory phys) (fun y => y.1.contextRegister) request x

/-- The same, as a function of the two caches. -/
def Caches.mmuAccess {τ : Type} (phys : PhysicalMemory τ) (request : VirtualMemoryRequest)
    (x : Caches × (MmuCore × τ)) : Option (VirtualMemoryResponse × (Caches × (MmuCore × τ))) :=
  access (virtualMemory phys) x.2.1.contextRegister request x

/-- The steps of a request amount to one function of the caches. -/
theorem cachedAccess_caches {τ : Type} (phys : PhysicalMemory τ) (request : VirtualMemoryRequest)
    (c : L1CachesCore) (x : MmuCore × τ) :
    (cachedAccess phys request (c, x)).map toCaches =
      mmuAccess phys request (c.caches, x) :=
  access_caches _ _ c x

/-- What the caches do is done by the steps. -/
theorem exists_cachedAccess {τ : Type} {phys : PhysicalMemory τ} {request : VirtualMemoryRequest}
    {c : L1CachesCore} {x : MmuCore × τ} {y : VirtualMemoryResponse × (Caches × (MmuCore × τ))}
    (h : mmuAccess phys request (c.caches, x) = some y) :
    ∃ c', cachedAccess phys request (c, x) = some (y.1, (c', y.2.2)) ∧ c'.caches = y.2.1 := by
  rw [← cachedAccess_caches] at h
  obtain ⟨z, hz, rfl⟩ := Option.map_eq_some_iff.1 h
  exact ⟨z.2.1, hz, rfl⟩

/-! ## The cached address spaces -/

namespace L1CachesCore

variable {asi : Word}

theorem eq_of_isCachedAsi (h : isCachedAsi asi = true) :
    asi = asiUserInstruction ∨ asi = asiSupervisorInstruction ∨ asi = asiUserData ∨
      asi = asiSupervisorData := by
  rw [isCachedAsi, Bool.and_eq_true, decide_eq_true_iff, decide_eq_true_iff] at h
  have hlow : 8 ≤ asi.toNat := h.1
  have hhigh : asi.toNat ≤ 11 := h.2
  have hcases : asi.toNat = 8 ∨ asi.toNat = 9 ∨ asi.toNat = 10 ∨ asi.toNat = 11 := by omega
  rcases hcases with h | h | h | h
  · exact .inl (eq_of_toNat_eq h)
  · exact .inr (.inl (eq_of_toNat_eq h))
  · exact .inr (.inr (.inl (eq_of_toNat_eq h)))
  · exact .inr (.inr (.inr (eq_of_toNat_eq h)))

/-- The cached address spaces are ordinary ones. -/
theorem asiSpace_of_isCachedAsi (h : isCachedAsi asi = true) : asiSpace asi = .ordinary := by
  rcases eq_of_isCachedAsi h with rfl | rfl | rfl | rfl <;> decide

/-- None of them flushes, and none is one of the MMU's own. -/
theorem not_flush_of_isCachedAsi (h : isCachedAsi asi = true) :
    asiIsDcacheFlush (asi.setWidth 8) = false ∧ asiIsIcacheFlush (asi.setWidth 8) = false ∧
      ¬(asi = asiMmuFlushProbe ∨ asi = asiMmuRegister) ∧
      asiMmuPassThrough (asi.setWidth 8) = false := by
  rcases eq_of_isCachedAsi h with rfl | rfl | rfl | rfl <;> decide

end L1CachesCore

/-! ## The requests of a core -/

section Requests

open L1CachesCore

variable (r : VirtualMemoryRequest)

/-- The address space of a store that empties a cache. -/
def isFlushAsi (asi : Word) : Bool :=
  asiIsDcacheFlush (asi.setWidth 8) || asiIsIcacheFlush (asi.setWidth 8)

/-- The address spaces of the MMU itself. -/
def isMmuAsi (asi : Word) : Bool := asi == asiMmuFlushProbe || asi == asiMmuRegister

/-- The requests of a core that the caches are made for. -/
def isCoreRequest : Bool :=
  match r.accessType with
  | .IFETCH | .ATOMIC_LS => isCachedAsi r.asi
  | .LOAD => isCachedAsi r.asi || r.asi == asiMmuRegister
  | .STORE => isCachedAsi r.asi || isFlushAsi r.asi || isMmuAsi r.asi
  | .FLUSH => true
  | .NO_ACCESS | .READ_LINE => false

/-- The request is served by emptying caches, and not passed on. -/
def flushesCaches : Bool :=
  r.accessType == .FLUSH || r.accessType == .STORE && isFlushAsi r.asi

/-- The instruction cache is empty after the request. -/
def clearsInstruction : Bool := flushesCaches r || r.accessType == .STORE && isMmuAsi r.asi

/-- The data cache is empty after the request. -/
def clearsData : Bool :=
  r.accessType == .FLUSH ||
    r.accessType == .STORE &&
      (asiIsDcacheFlush (r.asi.setWidth 8) || isMmuAsi r.asi && !isContextRegisterWrite r)

end Requests

/-- A request to a cached address space is translated when the MMU translates. -/
theorem MmuCore.translatesRequest_of_isCachedAsi {u : MmuCore} {r : VirtualMemoryRequest}
    (h : isCachedAsi r.asi = true) (hk : r.accessType ≠ .FLUSH)
    (hk' : r.accessType ≠ .NO_ACCESS) : u.translatesRequest r = u.translates := by
  unfold translatesRequest
  rw [asiSpace_of_isCachedAsi h, (not_flush_of_isCachedAsi h).2.2.2]
  cases hr : r.accessType <;> simp_all

/-! ## A core that has just been started -/

/-- A request for nothing. -/
def noRequest : VirtualMemoryRequest :=
  { accessType := .NO_ACCESS, address := 0, asi := 0, word0 := 0, word1 := 0, byteMask := 0 }

/-- Empty caches of four sets with two ways each. -/
def emptyCaches : L1CachesCore :=
  { instructionCache := CacheArray.configure 2 2
    dataCache := CacheArray.configure 2 2
    step := .DONE
    request := noRequest
    response := {}
    downstreamRequest := noRequest
    isInstruction := false
    context := 0
    lastHit := false
    invalidatedDuringFill := [] }

/-- An MMU that is switched off, with all of main memory cacheable. -/
def cachingMmu : MmuCore := { initial true true true {} with controlRegister := 0x100 }

/-- Every address is mapped to itself, cacheable and for all to read and write. -/
def identityBus : MemCore × Unit := pageBus 0x8E

/-- Loads of a doubleword, and stores to it, in the second line of the page. -/
def secondLineRequest (kind : MemAccessType) : VirtualMemoryRequest :=
  wordAccess kind 0x40 asiUserData 7

end SparcV8
