import SparcV8.Mmu.Invariant

/-!
# Translated accesses

A translated access is one of two cases: it is refused, and records a fault and nothing else, or its
entry lets it through to the physical memory.
-/

namespace SparcV8

open Words Option

namespace MmuCore

/-- The access records a fault: its address is translated, and that fails. -/
def recordsFault {τ : Type} (phys : PhysicalMemory τ) (u : MmuCore) (r : VirtualMemoryRequest)
    (m : τ) : Bool :=
  u.translatesRequest r && (u.translateRequest phys r m).1.isNone

section Plain

variable (dom : Nat → Bool) (u : MmuCore) (c : Words) (r : VirtualMemoryRequest)

/-- The request is translated, and the entry it finds refuses it. -/
def faultsRequest : Bool :=
  u.translatesRequest r && u.faults dom c r.address r.asi r.isWrite r.isAtomic

/-- The MMU after a refusal: the fault is recorded. -/
def afterRefusal : MmuCore :=
  let entry := u.foundEntry dom c r.address
  let fault := checkFault r.asi r.isWrite r.isAtomic entry.pte
  u.recordFault fault.1 fault.2 entry.level r.address r.isFetch

variable {dom u c r}

theorem translates_of_translatesRequest (h : u.translatesRequest r = true) :
    u.translates = true := by
  rw [translatesRequest, Bool.and_eq_true] at h
  exact h.1

/-- A refused request records a fault and does nothing else. -/
theorem access_of_faultsRequest (h : u.faultsRequest dom c r = true) :
    access (ram dom) r (u, c) =
      ((u.afterRefusal dom c r).refusal r, (u.afterRefusal dom c r, c)) := by
  rw [faultsRequest, Bool.and_eq_true] at h
  rw [access_of_translatesRequest _ h.1, translateRequest, translate_of_faults dom u c h.2]
  rfl

/-- A translated request that is not refused is completed through the entry it finds. -/
theorem access_of_not_faultsRequest (ht : u.translatesRequest r = true)
    (h : u.faultsRequest dom c r = false) :
    access (ram dom) r (u, c) =
      (u.afterTranslation r.address (u.foundEntry dom c r.address)
          (u.tlbLookup r.address u.contextRegister).isSome r.isWrite).complete
        (ram dom) r
        (translationOf r.address (u.foundEntry dom c r.address))
        (u.updatedMemory dom c (u.foundEntry dom c r.address) r.isWrite) := by
  rw [faultsRequest, ht, Bool.true_and] at h
  rw [access_of_translatesRequest _ ht, translateRequest,
    translate_of_not_faults dom u c (translates_of_translatesRequest ht) h]

end Plain

theorem recordsFault_eq {τ : Type} {phys : PhysicalMemory τ} (p : PlainMemory phys) (u : MmuCore)
    (r : VirtualMemoryRequest) (m : τ) :
    u.recordsFault phys r m = u.faultsRequest p.dom (p.contents m) r := by
  rw [recordsFault, faultsRequest]
  cases ht : u.translatesRequest r with
  | false => rfl
  | true =>
    have htr : u.translates = true := translates_of_translatesRequest ht
    have hlift : (u.translateRequest phys r m).1 =
        (u.translateRequest (ram p.dom) r (p.contents m)).1 :=
      (congrArg Prod.fst (p.lift_translate u r.address r.asi r.isFetch r.isWrite
        r.isAtomic m)).symm
    rw [Bool.true_and, Bool.true_and, hlift, translateRequest]
    cases hf : u.faults p.dom (p.contents m) r.address r.asi r.isWrite
      r.isAtomic with
    | true => rw [translate_of_faults _ _ _ hf, isNone_none]
    | false => rw [translate_of_not_faults _ _ _ htr hf, isNone_some]

/-! ## The fault registers -/

/-- The MMU without what it has recorded about faults. -/
def withoutFault (u : MmuCore) : MmuCore :=
  { u with faultStatusRegister := 0, faultAddressRegister := 0, faultClass := .NO_FAULT }

theorem withoutFault_updateFsrFar (u : MmuCore) (fsrVal farVal : Word) (faultClass : FaultClass) :
    (u.updateFsrFar fsrVal farVal faultClass).withoutFault = u.withoutFault := by
  unfold updateFsrFar
  split <;> rfl

theorem withoutFault_recordFault (u : MmuCore) (accessType : AccessType) (faultType : FaultType)
    (level : Level) (va : Word) (isFetch : Bool) :
    (u.recordFault accessType faultType level va isFetch).withoutFault =
      u.withoutFault :=
  withoutFault_updateFsrFar u _ _ _

variable {r : VirtualMemoryRequest}

theorem withoutFault_afterRefusal {dom : Nat → Bool} {u : MmuCore} {c : Words} :
    (u.afterRefusal dom c r).withoutFault = u.withoutFault :=
  withoutFault_recordFault u _ _ _ _ _

/-- A request that records a fault is refused, and changes nothing else of the MMU. -/
theorem access_of_recordsFault {τ : Type} {phys : PhysicalMemory τ} {u : MmuCore} {m : τ}
    (h : u.recordsFault phys r m = true) :
    ∃ u' m', access phys r (u, m) = (u'.refusal r, (u', m')) ∧
      u'.withoutFault = u.withoutFault := by
  rw [recordsFault, Bool.and_eq_true, isNone_iff_eq_none] at h
  obtain ⟨hr, hnone⟩ := h
  have heq := access_of_translatesRequest phys hr m
  have htranslate := u.translate_eq phys (translates_of_translatesRequest hr) r.address r.asi
    r.isFetch r.isWrite r.isAtomic m
  rw [translateRequest] at hnone heq
  dsimp only at htranslate
  split at htranslate
  · rw [htranslate] at hnone
    cases hnone
  · rw [htranslate] at heq
    exact ⟨_, _, heq, withoutFault_recordFault u _ _ _ _ _⟩

end MmuCore

end SparcV8
