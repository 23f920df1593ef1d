import SparcV8.Mmu.Lines

/-!
# Fetches and refused accesses

An exception comes from a fault only, a faulting access changes nothing in a plain memory, and a
fetch changes at most the entry whose referenced bit it sets.
-/

namespace SparcV8

open Words

namespace MmuCore

variable (dom : Nat → Bool) (u : MmuCore) (c : Words)

/-! ## Frames of the fault registers -/

theorem controlRegister_updateFsrFar (fsrVal farVal : Word) (faultClass : FaultClass) :
    (u.updateFsrFar fsrVal farVal faultClass).controlRegister = u.controlRegister := by
  unfold updateFsrFar
  split <;> rfl

theorem noFaultSuppressesTrap_recordFault (accessType : AccessType) (faultType : FaultType)
    (level : Level) (va : Word) (isFetch : Bool) (asi : Word) :
    (u.recordFault accessType faultType level va isFetch).noFaultSuppressesTrap asi =
      u.noFaultSuppressesTrap asi := by
  simp only [noFaultSuppressesTrap, recordFault, controlRegister_updateFsrFar]

/-! ## Exceptions -/

/-- A translation that fails leaves the memory. -/
theorem translate_eq_none {va asi : Word} {isFetch isWrite isAtomic : Bool}
    (h : (u.translate (ram dom) va asi isFetch isWrite isAtomic
      c).1 = none) :
    (u.translate (ram dom) va asi isFetch isWrite isAtomic
      c).2.2 = c := by
  cases hf : u.faults dom c va asi isWrite isAtomic with
  | true => rw [translate_of_faults dom u c hf]
  | false =>
    cases ht : u.translates with
    | false =>
      rw [translate_of_not_translates _ u c ht] at h
      cases h
    | true =>
      rw [translate_of_not_faults dom u c ht hf] at h
      cases h

/-- A probe leaves the memory. -/
theorem probe_snd (va : Word) : (u.probe (ram dom) va c).2 = c := by
  unfold probe
  dsimp only
  split
  · rw [findEntry_eq]
  · split
    · rfl
    · rw [runWalk_eq]

variable {r : VirtualMemoryRequest}

/-- An access that is not translated reports no exception. -/
theorem mae_of_not_translatesRequest (hr : u.translatesRequest r = false) :
    (access (ram dom) r (u, c)).1.mae = false := by
  rw [access_eq]
  cases hroute : u.route r with
  | physical =>
    rw [follow, passOn]
    split <;> exact mae_complete dom u c r _
  | translated =>
    rw [follow_of_not_translatesRequest _ hr hroute]
    exact mae_complete dom u c r _
  | _ => rfl

/-- An access that reports an exception has not changed the memory. -/
theorem access_mae (h : (access (ram dom) r (u, c)).1.mae = true) :
    (access (ram dom) r (u, c)).2.2 = c := by
  cases hr : u.translatesRequest r with
  | false =>
    rw [mae_of_not_translatesRequest dom u c hr] at h
    cases h
  | true =>
    rw [access_of_translatesRequest _ hr] at h ⊢
    rcases hx : u.translateRequest (ram dom) r c with ⟨_ | t, u', c'⟩
    · have hc : (u.translateRequest (ram dom) r c).2.2 = c :=
        translate_eq_none dom u c (congrArg Prod.fst hx)
      rw [hx] at hc
      exact hc
    · rw [hx] at h
      exact absurd ((mae_complete dom u' c' r t).symm.trans h) Bool.false_ne_true

/-! ## Fetches -/

/-- The MMU lets a fetch through, or keeps its fault from the processor. -/
def acceptsFetch (va asi : Word) : Bool :=
  !u.faults dom c va asi false false || u.noFaultSuppressesTrap asi

/-- The contents after the translation of a fetch. -/
def fetchedMemory (va asi : Word) : Words :=
  if u.translates && !u.faults dom c va asi false false then
    u.updatedMemory dom c (u.foundEntry dom c va) false
  else c

/-- A fetch reports an exception exactly if it is not accepted, and its translation is all it does
to memory. -/
theorem access_ifetch (hr : r.accessType = .IFETCH) (hasi : asiSpace r.asi = .ordinary) :
    (access (ram dom) r (u, c)).1.mae =
        !u.acceptsFetch dom c r.address r.asi ∧
      (access (ram dom) r (u, c)).2.2 =
        u.fetchedMemory dom c r.address r.asi := by
  unfold access handleReadAccess fetchedMemory acceptsFetch
  simp only [hr, hasi]
  cases hp : u.mmuIsPresent with
  | false =>
    have ht : u.translates = false := by rw [translates, hp, Bool.false_and]
    have hf : u.faults dom c r.address r.asi false false = false := by
      rw [faults, ht, Bool.false_and]
    simp [ht, hf, readData_eq]
  | true =>
    simp only [Bool.not_true, if_off]
    cases hf : u.faults dom c r.address r.asi false false with
    | true =>
      simp [translate_of_faults dom u c hf, noFaultSuppressesTrap_recordFault]
    | false =>
      cases ht : u.translates with
      | false =>
        simp [translate_of_not_translates _ u c ht, readData_eq]
      | true =>
        simp [translate_of_not_faults dom u c ht hf, readData_eq]

end MmuCore

end SparcV8
