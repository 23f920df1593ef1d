import SparcV8.Processor.LoadStore

/-!
# The checks of memory instructions

A memory instruction either traps in one of its checks or goes on with the address it computed, with
everything the checks have established.
-/

namespace SparcV8

open Opcode

namespace SparcCore

variable {nw : Nat}

/-! ## Loads -/

variable (op : Opcode)

section

variable (s : SparcCore nw)
include s

theorem loadTraps_cases :
    (loadTraps op s).trap = true ∨
      loadTraps op s = s ∧ loadMisaligned op s.address = false ∧
        (between LDC op LDCSR && s.cpOff) = false := by
  unfold loadTraps
  split_ifs with h1 h2 h3
  all_goals try exact .inl rfl
  exact .inr ⟨rfl, by simpa using h3, by simpa using h2⟩

/-- A load that passes its checks is aligned and has the unit it needs. -/
theorem executePreLoad_cases :
    (executePreLoad op s).trap = true ∨
      executePreLoad op s = loadAddress op s ∧
        loadMisaligned op (loadAddress op s).address = false ∧
        (between LDC op LDCSR && (loadAddress op s).cpOff) = false := by
  simp only [executePreLoad]
  split_ifs with h
  · exact .inl h
  · exact loadTraps_cases op (loadAddress op s)

/-! ## Stores -/

theorem storePrivilege_cases : (storePrivilege op s).trap = true ∨ storePrivilege op s = s := by
  unfold storePrivilege
  split_ifs
  · exact .inl rfl
  · exact .inl rfl
  · exact .inr rfl

theorem storeUnitTraps_cases :
    (storeUnitTraps op s).trap = true ∨
      storeUnitTraps op s = s ∧ (between STC op STDCQ && s.cpOff) = false := by
  unfold storeUnitTraps
  split_ifs with h1 h2
  · exact .inl rfl
  · exact .inl rfl
  · exact .inr ⟨rfl, by simpa using h2⟩

theorem storeTraps_cases :
    (storeTraps op s).trap = true ∨
      storeTraps op s = s ∧ storeMisaligned op s.address = false ∧
        (op == STDFQ && s.implementationHasNoFloatingPointQueue) = false := by
  unfold storeTraps
  split_ifs with hal
  · exact .inl rfl
  · unfold storeRegisterTrap storeCpQueueTrap storeFpQueueTrap
    split_ifs with h1 h2 h3
    all_goals try exact .inl rfl
    refine .inr ⟨rfl, by simpa using hal, ?_⟩
    cases hop : op == STDFQ
    · rfl
    · simp only [hop, Bool.true_and, Bool.or_eq_true, not_or, Bool.not_eq_true] at h1
      exact h1.1

/-- A store that passes its checks is aligned, has its unit and is not of a queue that does not
exist. -/
theorem executePreStore_cases :
    (∃ t, executePreStore op s = some t ∧ t.trap = true) ∨
      executePreStore op s = placeStore op (storeAddress op s) ∧
        storeMisaligned op (storeAddress op s).address = false ∧
        (between STC op STDCQ && (storeAddress op s).cpOff) = false ∧
        (op == STDFQ && (storeAddress op s).implementationHasNoFloatingPointQueue) = false := by
  simp only [executePreStore]
  rcases storePrivilege_cases op s with hp | hp
  · exact .inl ⟨_, by rw [hp, if_pos rfl], hp⟩
  rw [hp]
  split_ifs with h1 h2 h3
  · exact .inl ⟨_, rfl, h1⟩
  · exact .inl ⟨_, rfl, h2⟩
  · exact .inl ⟨_, rfl, h3⟩
  · obtain ⟨hu, hcp⟩ := (storeUnitTraps_cases op (storeAddress op s)).resolve_left h2
    rw [hu] at h3 ⊢
    obtain ⟨ht, hal, hq⟩ := (storeTraps_cases op (storeAddress op s)).resolve_left h3
    rw [ht]
    exact .inr ⟨rfl, hal, hcp, hq⟩

/-! ## Atomic load-stores -/

/-- An atomic access that passes its checks is aligned. -/
theorem executePreAtomicLoadStore_cases :
    (∃ t, executePreAtomicLoadStore op s = some t ∧ t.trap = true) ∨
      executePreAtomicLoadStore op s = placeAtomic op (atomicAddress op s) ∧
        ((op == SWAP || op == SWAPA) && readBits (atomicAddress op s).address 1 0 != 0)
          = false := by
  simp only [executePreAtomicLoadStore]
  split_ifs with h
  · exact .inl ⟨_, rfl, h⟩
  · unfold atomicAlignment at h ⊢
    split at h
    · exact absurd rfl h
    · next hal =>
      rw [if_neg hal]
      exact .inr ⟨rfl, by simpa using hal⟩

end

end SparcCore

end SparcV8
