import SparcV8.Correctness.Handled
import SparcV8.Mmu.Fetch

/-!
# Annulled instructions

A cycle with `annul` set fetches and skips. The driver repeats the exception check of the fetch
without looking at `annul`, so a fetch that the MMU refuses still traps; and the fetch may have a
referenced bit to set. Otherwise skipping is all the cycle does.
-/

namespace SparcV8

open SparcCore MmuCore SystemBus SparcStateMachine

variable {nw : Nat} {τ : Type}

/-- All that a skipped instruction changes: `annul`, `PC`, `nPC`, and the latches. -/
def Skipped (s s' : SparcCore nw) : Prop :=
  ∃ word, s' = { s with
    annul := false
    MAE := false
    reg := { s.reg with instruction := word, PC := s.reg.nPC, nPC := s.reg.nPC + 4 } }

/-- The fetch of a core is an access to an ordinary instruction space. -/
theorem asiSpace_fetchRequest (s : SparcCore nw) : asiSpace s.fetchRequest.asi = .ordinary := by
  unfold fetchRequest
  dsimp only
  split <;> decide

variable {s : SparcCore nw}

/-- Without a pending trap or interrupt a cycle goes straight to the fetch. -/
theorem takeTraps_of_none (ht : s.trap = false) (hi : s.interruptPending = false) :
    takeTraps s = s := by
  rw [takeTraps, checkExternalTraps, if_neg (by rw [hi]; decide), executeTraps,
    if_neg (by rw [ht]; decide)]

theorem leaveReset_of_execute (hs : s.state = .EXECUTE) : leaveReset s = s := by
  rw [leaveReset, if_neg (by rw [hs]; decide)]

section Cycle

variable {σ : Type} (fpu : FloatingPointFunctions) {mem : VirtualMemory σ} {m : σ}

section

variable (hs : s.state = .EXECUTE) (ha : s.annul = true) (ht : s.trap = false)
  (hi : s.interruptPending = false)
include hs ha ht hi

/-- A fetch that reports an exception traps, annulled or not. -/
theorem runOneCycle_annulled_of_mae (hmae : (mem.access s.fetchRequest m).1.mae = true) :
    ∃ y, runOneCycle fpu mem ⟨s, m, false⟩ = some y ∧ y.core.trap = true := by
  rw [runOneCycle]
  simp only [leaveReset_of_execute hs, takeTraps_of_none ht hi, hs, fetchAndExecute,
    instructionFetch, ha, hmae]
  exact ⟨_, rfl, rfl⟩

/-- An annulled instruction whose fetch reports no exception is skipped. -/
theorem runOneCycle_annulled (hmae : (mem.access s.fetchRequest m).1.mae = false) :
    ∃ y, runOneCycle fpu mem ⟨s, m, false⟩ = some y ∧ Skipped s y.core ∧
      y.mem = (mem.access s.fetchRequest m).2 := by
  rw [runOneCycle]
  simp only [leaveReset_of_execute hs, takeTraps_of_none ht hi, hs, fetchAndExecute,
    instructionFetch, ha, hmae, recheckFetch, ht]
  exact ⟨_, rfl, ⟨(mem.access s.fetchRequest m).1.readWord0, by simp [skipAnnulled, advance,
    Registers.wPC, Registers.wNPC, hs, ht]⟩, rfl⟩

end

end Cycle

variable (dom : Nat → Bool)

/-- A write changes nothing exactly if it writes the word that is there. -/
theorem Words.write_eq_self_iff (c : Words) (i : Nat) (word : Word) :
    c.write dom i word = c ↔ (dom i = true → c.word i = word) := by
  unfold write
  split
  · next h =>
    constructor
    · intro hc _
      have hi := congrFun (congrArg Words.word hc) i
      exact hi.symm.trans (Function.update_self i word c.word)
    · intro hw
      rw [← hw h, Function.update_eq_self]
  · next h => exact iff_of_true rfl (fun h' => absurd h' h)

namespace MmuCore

/-- The fetch has no referenced bit to set, or its entry is written back as it is. -/
def fetchKeepsMemory (dom : Nat → Bool) (u : MmuCore) (c : Words) (va asi : Word) : Prop :=
  u.translates = true → u.faults dom c va asi false false = false →
    ∀ word, u.writtenEntry dom c (u.foundEntry dom c va) false = some word →
      dom ((u.foundEntry dom c va).phyAddrOfPte.toNat / 4) = true →
        c.word ((u.foundEntry dom c va).phyAddrOfPte.toNat / 4) = word

theorem fetchedMemory_eq_self_iff (u : MmuCore) (c : Words) (va asi : Word) :
    u.fetchedMemory dom c va asi = c ↔ u.fetchKeepsMemory dom c va asi := by
  unfold fetchedMemory fetchKeepsMemory updatedMemory
  split
  · next h =>
    simp only [Bool.and_eq_true, Bool.not_eq_true'] at h
    cases hw : u.writtenEntry dom c (u.foundEntry dom c va) false with
    | none => simp
    | some word =>
      simp [Words.write_eq_self_iff, h.1, h.2, forall_eq']
  · next h =>
    simp only [Bool.and_eq_true, Bool.not_eq_true', not_and, Bool.not_eq_false] at h
    refine iff_of_true rfl (fun ht hf => ?_)
    rw [h ht] at hf
    cases hf

end MmuCore

/-- An annulled instruction is skipped without any other effect exactly if the MMU accepts its
fetch and has no referenced bit to set for it. -/
theorem annulled_skipped_iff {phys : PhysicalMemory τ} (p : PlainMemory phys)
    (fpu : FloatingPointFunctions) (s : SparcCore nw) (u : MmuCore) (m : τ)
    (hs : s.state = .EXECUTE) (ha : s.annul = true) (ht : s.trap = false)
    (hi : s.interruptPending = false) :
    (∃ y, runOneCycle fpu (virtualMemory phys) ⟨s, (u, m), false⟩ =
        some y ∧ Skipped s y.core ∧ p.contents y.mem.2 = p.contents m) ↔
      u.acceptsFetch p.dom (p.contents m) s.reg.PC s.fetchRequest.asi = true ∧
      u.fetchKeepsMemory p.dom (p.contents m) s.reg.PC s.fetchRequest.asi := by
  have hfetch := access_ifetch p.dom u (p.contents m) rfl
    (asiSpace_fetchRequest s)
  rw [p.lift_mmuAccess s.fetchRequest u m] at hfetch
  obtain ⟨hmae, hmem⟩ := hfetch
  change ((virtualMemory phys).access s.fetchRequest (u, m)).1.mae = _ at hmae
  rw [← fetchedMemory_eq_self_iff]
  cases hacc : u.acceptsFetch p.dom (p.contents m) s.reg.PC s.fetchRequest.asi with
  | true =>
    obtain ⟨y, hy, hskip, hym⟩ := runOneCycle_annulled fpu hs ha ht hi
      (hmae.trans (by rw [show s.fetchRequest.address = s.reg.PC from rfl, hacc]; rfl))
    constructor
    · rintro ⟨z, hz, -, hzm⟩
      obtain rfl := Option.some.inj (hy.symm.trans hz)
      rw [hym] at hzm
      exact ⟨rfl, hmem.symm.trans hzm⟩
    · rintro ⟨-, hkeep⟩
      exact ⟨y, hy, hskip, by rw [hym]; exact hmem.trans hkeep⟩
  | false =>
    obtain ⟨y, hy, htrap⟩ := runOneCycle_annulled_of_mae fpu hs ha ht hi
      (hmae.trans (by rw [show s.fetchRequest.address = s.reg.PC from rfl, hacc]; rfl))
    -- the fetch is refused, and the trap is not part of skipping
    constructor
    · rintro ⟨z, hz, ⟨word, hword⟩, -⟩
      obtain rfl := Option.some.inj (hy.symm.trans hz)
      rw [hword] at htrap
      cases ht.symm.trans htrap
    · exact fun h => absurd h.1 (by decide)

/-- A core about to skip the instruction at address 0. -/
def annulledCore : SparcCore 8 := { resetCore with state := .EXECUTE, annul := true }

/-- With the MMU off the instruction is skipped. -/
theorem annulled_skipped_mmu_off :
    annulledCore.state = .EXECUTE ∧ annulledCore.annul = true ∧ annulledCore.trap = false ∧
      annulledCore.interruptPending = false ∧
      ∃ y, runOneCycle default
          (virtualMemory (physicalMemory {} noDevices))
          ⟨annulledCore, (initial true true false {}, zeroBus), false⟩ = some y ∧
        Skipped annulledCore y.core ∧
        plain.contents y.mem.2 = plain.contents zeroBus := by
  refine ⟨rfl, rfl, rfl, by decide, ?_⟩
  refine (annulled_skipped_iff plain default annulledCore
    (initial true true false {}) zeroBus rfl rfl rfl (by decide)).2 ⟨by decide, ?_⟩
  intro h
  exact absurd h (by decide)

/-- With the MMU on and no page tables, the fetch of the annulled instruction traps. -/
theorem annulled_fetch_traps :
    annulledCore.state = .EXECUTE ∧ annulledCore.annul = true ∧ annulledCore.trap = false ∧
      annulledCore.interruptPending = false ∧
      ∃ y, runOneCycle default
          (virtualMemory (physicalMemory {} noDevices))
          ⟨annulledCore, (mmuOn, zeroBus), false⟩ = some y ∧
        y.core.trap = true ∧ y.core.flag .instructionAccessException = true ∧
        y.core.annul = true ∧ y.core.reg.PC = annulledCore.reg.PC :=
  ⟨rfl, rfl, rfl, by decide, _, rfl, by decide, by decide, by decide, by decide⟩

end SparcV8
