import SparcV8.Correctness.Annulled
import SparcV8.Mmu.Invariant

/-!
# Traps are precise

An instruction that traps has changed no register a program sees. It has made its fetch, and at most
one further access, which reported an exception. Over a plain memory all that can have changed is
the referenced bit of the entry that the fetch was translated through.
-/

namespace SparcV8

open Opcode SparcCore MmuCore SystemBus SparcStateMachine Option

variable {nw : Nat} {σ : Type}

/-! ## Accesses of a trapping instruction -/

/-- What a trapping instruction may have done to the memory after its fetch. -/
def RefusedAccess (mem : VirtualMemory σ) (m m' : σ) : Prop :=
  m' = m ∨ ∃ r, r.accessType ≠ .READ_LINE ∧ (mem.access r m).1.mae = true ∧
    m' = (mem.access r m).2

variable {op : Opcode} {s s' : SparcCore nw}

theorem trap_writeLoaded {word : Word} (h : writeLoaded op s word = some s') :
    s'.trap = s.trap := by
  unfold writeLoaded at h
  split at h <;> cases h <;> rfl

variable {word0 word1 : Word}

theorem trap_executePostLoad (hmae : s.MAE = false) (h : executePostLoad op word0 word1 s =
    some s') : s'.trap = s.trap := by
  simp only [executePostLoad, hmae, if_off] at h
  split at h
  · split at h <;> cases h <;> rfl
  · simp only [bind_eq_bind, bind_eq_some_iff] at h
    obtain ⟨word, -, h⟩ := h
    split at h
    · cases h
      rfl
    · exact trap_writeLoaded h

theorem trap_executePostAtomicLoadStore (hmae : s.MAE = false)
    (h : executePostAtomicLoadStore op word0 word1 s = some s') : s'.trap = s.trap := by
  rw [executePostAtomicLoadStore, if_neg (by rw [hmae]; decide)] at h
  simp only [bind_eq_bind, bind_eq_some_iff] at h
  obtain ⟨word, -, h⟩ := h
  cases h
  rfl

variable {mem : VirtualMemory σ} {fpu : FloatingPointFunctions}

section Memory

variable {m m' : σ}

theorem refusedAccess_executeLoad (h : executeLoad mem op s m = some (s', m'))
    (ht : s'.trap = true) : RefusedAccess mem m m' := by
  simp only [executeLoad] at h
  split at h
  · cases h
    exact .inl rfl
  · next hpt =>
    simp only [bind_eq_bind, bind_eq_some_iff] at h
    obtain ⟨t, htt, h⟩ := h
    cases h
    cases hmae : (mem.access (loadRequest op (executePreLoad op s)) m).1.mae with
    | true => exact .inr ⟨_, by simp [loadRequest], hmae, rfl⟩
    | false =>
      have := trap_executePostLoad (by exact hmae) htt
      exact absurd (this.symm.trans ht) (by simpa using hpt)

theorem refusedAccess_executeStore (h : executeStore mem op s m = some (s', m'))
    (ht : s'.trap = true) : RefusedAccess mem m m' := by
  simp only [executeStore, bind_eq_bind, bind_eq_some_iff] at h
  obtain ⟨t, -, h⟩ := h
  split at h
  · cases h
    exact .inl rfl
  · next hpt =>
    cases h
    cases hmae : (mem.access (writeRequest .STORE t) m).1.mae with
    | true => exact .inr ⟨_, by simp [writeRequest], hmae, rfl⟩
    | false =>
      simp only [storeResponse, hmae, if_off] at ht
      exact absurd ht hpt

theorem refusedAccess_executeAtomic (h : executeAtomic mem op s m = some (s', m'))
    (ht : s'.trap = true) : RefusedAccess mem m m' := by
  simp only [executeAtomic, bind_eq_bind, bind_eq_some_iff] at h
  obtain ⟨t, -, h⟩ := h
  split at h
  · cases h
    exact .inl rfl
  · next hpt =>
    simp only [bind_eq_some_iff] at h
    obtain ⟨v, hv, h⟩ := h
    cases h
    cases hmae : (mem.access (writeRequest .ATOMIC_LS t) m).1.mae with
    | true => exact .inr ⟨_, by simp [writeRequest], hmae, rfl⟩
    | false =>
      have := trap_executePostAtomicLoadStore (by exact hmae) hv
      exact absurd (this.symm.trans ht) (by simpa using hpt)

theorem trap_finishInstruction (op : Opcode) (s : SparcCore nw) :
    (finishInstruction op s).trap = s.trap := by
  unfold finishInstruction
  split <;> rfl

theorem refusedAccess_dispatchInstruction (h : dispatchInstruction fpu mem op s m = some (s', m'))
    (ht : s'.trap = true) : RefusedAccess mem m m' := by
  simp only [dispatchInstruction] at h
  split at h
  · cases h
    exact .inl rfl
  · next hpt =>
    simp only [bind_eq_bind, bind_eq_some_iff] at h
    obtain ⟨⟨t, n⟩, htn, h⟩ := h
    cases h
    rw [trap_finishInstruction] at ht
    unfold executeCurrentInstruction at htn
    split at htn
    · next hop =>
      rw [completeFPop_of_memory (.inl hop)] at ht
      exact refusedAccess_executeLoad htn ht
    split at htn
    · next hop =>
      rw [completeFPop_of_memory (.inr (.inl hop))] at ht
      exact refusedAccess_executeStore htn ht
    split at htn
    · next hop =>
      rw [completeFPop_of_memory (.inr (.inr (.inl hop)))] at ht
      exact refusedAccess_executeAtomic htn ht
    split at htn
    · next hop =>
      -- FLUSH does not trap
      rw [completeFPop_of_memory (.inr (.inr (.inr hop)))] at ht
      cases htn
      exact absurd ht hpt
    · simp only [bind_eq_bind, bind_eq_some_iff] at htn
      obtain ⟨v, -, htn⟩ := htn
      cases htn
      exact .inl rfl

/-- A trapping instruction has made no access after its fetch, or a refused one. -/
theorem refusedAccess_fetchAndExecute (ha : s.annul = false)
    (h : fetchAndExecute fpu mem s m = some (s', m')) (ht : s'.trap = true) :
    RefusedAccess mem (mem.access s.fetchRequest m).2 m' := by
  simp only [fetchAndExecute] at h
  split at h
  · cases h
    exact .inl rfl
  · split at h
    · next hannul =>
      exfalso
      have : (recheckFetch (instructionFetch mem s m).1).annul = s.annul := by
        simp only [recheckFetch, instructionFetch]
        split_ifs <;> rfl
      rw [this, ha] at hannul
      cases hannul
    · simp only [bind_eq_bind, bind_eq_some_iff] at h
      obtain ⟨op, -, h⟩ := h
      exact refusedAccess_dispatchInstruction h ht

end Memory

/-! ## The MMU below a core -/

variable {τ : Type} {phys : PhysicalMemory τ}

/-- The MMU as its constructor leaves it, over any memory. -/
def FreshMmu (x : MmuCore × τ) : Prop :=
  ∃ mmuIsPresent tlbEnabled atomicRMUpdates layout,
    x.1 = MmuCore.initial mmuIsPresent tlbEnabled atomicRMUpdates layout

/-- Between cycles others may write to the memory, but not to the MMU. -/
def MemoryChanges (x y : MmuCore × τ) : Prop := y.1 = x.1

variable {P : σ → Prop}

theorem mem_fetchAndExecute (hP : ∀ r m, P m → P (mem.access r m).2) {m m' : σ} (hm : P m)
    (h : fetchAndExecute fpu mem s m = some (s', m')) : P m' := by
  have hfetch := hP s.fetchRequest m hm
  simp only [fetchAndExecute] at h
  change P (instructionFetch mem s m).2 at hfetch
  generalize (instructionFetch mem s m).2 = n at h hfetch
  split at h
  · cases h
    exact hfetch
  split at h
  · cases h
    exact hfetch
  simp only [bind_eq_bind, bind_eq_some_iff, dispatchInstruction] at h
  obtain ⟨op, -, h⟩ := h
  split at h
  · cases h
    exact hfetch
  simp only [bind_eq_some_iff] at h
  obtain ⟨⟨t, k⟩, htk, h⟩ := h
  cases h
  unfold executeCurrentInstruction executeLoad executeStore executeAtomic executeFlush at htk
  simp only [bind_eq_bind] at htk
  split at htk
  · split at htk
    · cases htk
      exact hfetch
    · simp only [bind_eq_some_iff] at htk
      obtain ⟨v, -, htk⟩ := htk
      cases htk
      exact hP _ _ hfetch
  split at htk
  · simp only [bind_eq_some_iff] at htk
    obtain ⟨v, -, htk⟩ := htk
    split at htk <;> cases htk
    · exact hfetch
    · exact hP _ _ hfetch
  split at htk
  · simp only [bind_eq_some_iff] at htk
    obtain ⟨v, -, htk⟩ := htk
    split at htk
    · cases htk
      exact hfetch
    · simp only [bind_eq_some_iff] at htk
      obtain ⟨w, -, htk⟩ := htk
      cases htk
      exact hP _ _ hfetch
  split at htk
  · cases htk
    exact hP _ _ hfetch
  · simp only [bind_eq_some_iff] at htk
    obtain ⟨v, -, htk⟩ := htk
    cases htk
    exact hfetch

/-- A property of the memory that every access keeps is kept by a cycle. -/
theorem mem_runOneCycle (hP : ∀ r m, P m → P (mem.access r m).2) {x y : SparcStateMachine nw σ}
    (hm : P x.mem) (h : runOneCycle fpu mem x = some y) : P y.mem := by
  simp only [runOneCycle] at h
  split at h
  · cases h
    exact hm
  split at h
  · cases h
    exact hm
  · simp only [bind_eq_bind, bind_eq_some_iff] at h
    obtain ⟨⟨t, k⟩, htk, h⟩ := h
    cases h
    exact mem_fetchAndExecute hP hm htk

theorem entriesReferenced_plain (p : PlainMemory phys) (r : VirtualMemoryRequest)
    (x : MmuCore × τ) (h : EntriesReferenced x.1.tlb) :
    EntriesReferenced ((virtualMemory phys).access r x).2.1.tlb := by
  have hkeep := MmuCore.entriesReferenced_access p.dom r (p.contents x.2) h
  rw [p.lift_mmuAccess] at hkeep
  exact hkeep

/-- Below a reachable core every cached entry is referenced. -/
theorem Reachable.entriesReferenced (p : PlainMemory phys) {x : MmuCore × τ}
    (h : Reachable fpu (virtualMemory phys) FreshMmu MemoryChanges s x) :
    EntriesReferenced x.1.tlb := by
  induction h with
  | reset _ _ _ _ _ _ hm =>
    obtain ⟨_, _, _, _, hm⟩ := hm
    rw [hm]
    exact fun level e he => absurd he (Tlb.not_holds_empty level e)
  | pins _ _ ih => exact ih
  | environment _ hm ih =>
    rw [hm]
    exact ih
  | cycle _ hy ih => exact mem_runOneCycle (entriesReferenced_plain p) ih hy

/-- A refused access leaves the contents of a plain memory. -/
theorem contents_refusedAccess (p : PlainMemory phys) {x y : MmuCore × τ}
    (h : RefusedAccess (virtualMemory phys) x y) : p.contents y.2 = p.contents x.2 := by
  rcases h with rfl | ⟨r, -, hmae, rfl⟩
  · rfl
  · have hlift := p.lift_mmuAccess r x.1 x.2
    have hkeep := MmuCore.access_mae p.dom x.1 (p.contents x.2) (by rw [hlift]; exact hmae)
    rw [hlift] at hkeep
    exact hkeep

/-- Traps are precise: if a cycle of a reachable core gets to a non-annulled instruction and
leaves a trap pending, then what a program sees of the registers is as it was before the
instruction, and the memory too, but for referenced and modified bits of the page tables. -/
theorem trap_precise (p : PlainMemory phys) (fpu : FloatingPointFunctions) (hnw : 0 < nw)
    (hnw' : nw ≤ 32) {s : SparcCore nw} {u : MmuCore} {m : τ}
    (h : Reachable fpu (virtualMemory phys) FreshMmu MemoryChanges s (u, m))
    {y : SparcStateMachine nw (MmuCore × τ)}
    (hy : runOneCycle fpu (virtualMemory phys) ⟨s, (u, m), false⟩ = some y)
    (hrun : y.halted = false) (hannul : (takeTraps (leaveReset s)).annul = false)
    (htrap : y.core.trap = true) :
    TrapFrame (takeTraps (leaveReset s)) y.core ∧
      OnlyRMBits p.dom u (p.contents m) (p.contents y.mem.2) := by
  simp only [runOneCycle] at hy
  split at hy
  · cases hy
    cases hrun
  split at hy
  · cases hy
    cases hrun
  simp only [bind_eq_bind, bind_eq_some_iff] at hy
  obtain ⟨⟨t, x⟩, htx, hy⟩ := hy
  cases hy
  refine ⟨(outcome_fetchAndExecute hnw hnw' htx).1 hannul htrap, ?_⟩
  have hrefused := refusedAccess_fetchAndExecute hannul htx htrap
  have hfetch := (MmuCore.access_ifetch p.dom u (p.contents m)
    (r := (takeTraps (leaveReset s)).fetchRequest) rfl (asiSpace_fetchRequest _)).2
  rw [p.lift_mmuAccess] at hfetch
  change p.contents ((virtualMemory phys).access _ (u, m)).2.2 = _ at hfetch
  rw [contents_refusedAccess p hrefused, hfetch]
  exact MmuCore.onlyRMBits_fetchedMemory p.dom (p.contents m) _ _ (h.entriesReferenced p)

/-- A program at address 8 that switches the MMU on and loads from a page that may only be executed.
-/
def loadingProgram : MemCore × Unit :=
  (⟨fun i => match i with
      | 0 => 0x12
      | 2 => 0x82102001 -- OR %g0, 1, %g1
      | 3 => 0xC2A00080 -- STA %g1, [%g0] 4
      | 4 => 0xC4002004 -- LD [%g0 + 4], %g2
      | _ => 0⟩, ())

/-- The load traps precisely; its fetch has set the referenced bit. -/
theorem trap_precise_load :
    let mem := virtualMemory (physicalMemory {} noDevices)
    ∃ (s : SparcCore 8) (u : MmuCore) (m : MemCore × Unit) (y : _),
      Reachable default mem FreshMmu MemoryChanges s (u, m) ∧ u.translates = true ∧
      runOneCycle default mem ⟨s, (u, m), false⟩ = some y ∧ y.core.trap = true ∧
      m.1.readWord 0 = 0x12 ∧ y.mem.2.1.readWord 0 = 0x32 ∧
      TrapFrame (takeTraps (leaveReset s)) y.core ∧
      OnlyRMBits plain.dom u (plain.contents m) (plain.contents y.mem.2) := by
  intro mem
  let cycle (y : SparcStateMachine 8 (MmuCore × (MemCore × Unit))) :=
    runOneCycle default mem ⟨y.core, y.mem, false⟩
  let start : SparcCore 8 := SparcCore.initial 0 0 8 0 false
  have hreset : Reachable default mem FreshMmu MemoryChanges start
      (MmuCore.initial true true false {}, loadingProgram) :=
    Reachable.reset 0 0 8 0 false (by decide) ⟨_, _, _, _, rfl⟩
  have hrun : ((cycle ⟨start, (MmuCore.initial true true false {}, loadingProgram), false⟩).bind
      fun y₁ => (cycle y₁).bind fun y₂ => (cycle y₂).map fun y =>
        (y₂.mem.1.translates, y.halted, (takeTraps (leaveReset y₂.core)).annul, y.core.trap,
          y₂.mem.2.1.readWord 0, y.mem.2.1.readWord 0)) =
      some (true, false, false, true, 0x12, 0x32) := by
    decide
  obtain ⟨y₁, h₁, hrun⟩ := bind_eq_some_iff.1 hrun
  obtain ⟨y₂, h₂, hrun⟩ := bind_eq_some_iff.1 hrun
  obtain ⟨y, hy, hvalues⟩ := map_eq_some_iff.1 hrun
  simp only [Prod.mk.injEq] at hvalues
  obtain ⟨hon, hrunning, hannul, htrap, hbefore, hafter⟩ := hvalues
  have hreachable := (hreset.cycle h₁).cycle h₂
  exact ⟨_, _, _, y, hreachable, hon, hy, htrap, hbefore, hafter,
    trap_precise plain default (by decide) (by decide) hreachable hy hrunning hannul htrap⟩

end SparcV8
