import SparcV8.Processor.Outcome

/-!
# Cycles and reachable states

The part of a cycle after pending traps have been taken is precise, every cycle keeps the
invariants, and so they hold in every reachable state.
-/

namespace SparcV8

open Opcode SparcCore Option

variable {nw : Nat} {σ : Type}

/-! ## One instruction -/

variable (op : Opcode)

theorem invisible_checkInstructionException (s : SparcCore nw) :
    Invisible s (checkInstructionException op s) := by
  simp only [checkInstructionException]
  split_ifs
  all_goals exact invisible_of_visible_eq rfl

variable {s s' : SparcCore nw}

/-- A branch of the dispatcher. -/
theorem outcome_ite {c : Prop} [Decidable c] {a b : Option (SparcCore nw)}
    (ha : a = some s' → Outcome s s') (hb : b = some s' → Outcome s s') :
    (if c then a else b) = some s' → Outcome s s' := by
  split
  · exact ha
  · exact hb

variable {t : SparcCore nw}

theorem outcome_some (ho : Outcome s t) (h : some t = some s') : Outcome s s' := by
  cases h
  exact ho

variable {fpu : FloatingPointFunctions}

section Windows

variable (hnw : 0 < nw) (hnw' : nw ≤ 32)
include hnw hnw'

theorem outcome_executeInstruction {op : Opcode} (ht : s.trap = false)
    (h : executeInstruction fpu op s = some s') : Outcome s s' := by
  revert h
  refine outcome_ite (outcome_some ((quiet_executeSETHI s).outcome ht)) ?_
  refine outcome_ite (outcome_some ((Quiet.refl s).outcome ht)) ?_
  refine outcome_ite (fun h => (quiet_executeLogical h).outcome ht) ?_
  refine outcome_ite (fun h => (quiet_executeShift h).outcome ht) ?_
  refine outcome_ite (fun h => (quiet_executeAdd h).outcome ht) ?_
  refine outcome_ite (outcome_some (outcome_finishTagged ht _ _ _ _)) ?_
  refine outcome_ite (fun h => (quiet_executeSub h).outcome ht) ?_
  refine outcome_ite (outcome_some (outcome_finishTagged ht _ _ _ _)) ?_
  refine outcome_ite (outcome_some ((quiet_executeMulStep s).outcome ht)) ?_
  refine outcome_ite (outcome_some ((quiet_executeMul op s).outcome ht)) ?_
  refine outcome_ite (fun h => outcome_executeDiv ht h) ?_
  refine outcome_ite (outcome_some (outcome_executeSaveRestore hnw hnw' op ht)) ?_
  refine outcome_ite (fun h => outcome_executeBicc ht h) ?_
  refine outcome_ite (fun h => outcome_executeFBfcc ht h) ?_
  refine outcome_ite (outcome_some (outcome_raise s _)) ?_
  refine outcome_ite (outcome_some (outcome_executeCALL ht)) ?_
  refine outcome_ite (outcome_some (outcome_executeJMPL ht)) ?_
  refine outcome_ite (outcome_some (outcome_executeRETT hnw hnw' ht)) ?_
  refine outcome_ite (fun h => outcome_executeTicc ht h) ?_
  refine outcome_ite (fun h => outcome_executeReadStateReg ht h) ?_
  refine outcome_ite (fun h => outcome_executeWriteStateReg ht h) ?_
  refine outcome_ite (outcome_some (Invisible.outcome (invisible_of_visible_eq rfl)))
    ?_
  refine outcome_ite (outcome_some (outcome_raise s _)) ?_
  refine outcome_ite (fun h => (invisible_executeFPop h).outcome) ?_
  refine outcome_ite (outcome_some (outcome_raise s _)) ?_
  nofun

end Windows

theorem invisible_setMAE (s : SparcCore nw) (mae : Bool) : Invisible s { s with MAE := mae } :=
  invisible_of_visible_eq rfl

variable {mem : VirtualMemory σ} {m m' : σ}

theorem outcome_executeLoad {op : Opcode} (h : executeLoad mem op s m = some (s', m')) :
    Outcome s s' := by
  simp only [executeLoad] at h
  have hpre := invisible_executePreLoad op s
  split at h
  · cases h
    exact hpre.outcome
  · next hpt =>
    simp only [bind_eq_bind, bind_eq_some_iff] at h
    obtain ⟨t, ht, h⟩ := h
    cases h
    exact (outcome_executePostLoad (by simpa using hpt) ht).after
      (hpre.trans (invisible_setMAE _ _))

theorem invisible_storeResponse (s : SparcCore nw) (response : VirtualMemoryResponse) :
    Invisible s (storeResponse s response) := by
  simp only [storeResponse]
  split
  all_goals exact invisible_of_visible_eq rfl

theorem invisible_executeStore {op : Opcode} (h : executeStore mem op s m = some (s', m')) :
    Invisible s s' := by
  simp only [executeStore, bind_eq_bind, bind_eq_some_iff] at h
  obtain ⟨t, ht, h⟩ := h
  have hpre := invisible_executePreStore ht
  split at h <;> cases h
  · exact hpre
  · exact hpre.trans (invisible_storeResponse _ _)

theorem outcome_executeAtomic {op : Opcode} (h : executeAtomic mem op s m = some (s', m')) :
    Outcome s s' := by
  simp only [executeAtomic, bind_eq_bind, bind_eq_some_iff] at h
  obtain ⟨t, ht, h⟩ := h
  have hpre := invisible_executePreAtomicLoadStore ht
  split at h
  · cases h
    exact hpre.outcome
  · next hpt =>
    simp only [bind_eq_some_iff] at h
    obtain ⟨u, hu, h⟩ := h
    cases h
    exact (outcome_executePostAtomicLoadStore (by simpa using hpt) hu).after
      (hpre.trans (invisible_setMAE _ _))

/-- The dispatcher hands every FPop to `executeFPop`. -/
theorem executeInstruction_of_fpop (fpu : FloatingPointFunctions) {op : Opcode} (s : SparcCore nw)
    (h : (op.isFpop1Instruction || op.isFpop2Instruction) = true) :
    executeInstruction fpu op s = executeFPop fpu op s := by
  cases op <;> first | rfl | exact absurd h (by decide)

/-- An FPop is not one of the instructions that access memory. -/
theorem not_memory_of_fpop {op : Opcode}
    (h : (op.isFpop1Instruction || op.isFpop2Instruction) = true) :
    op.isLoadInstruction = false ∧ op.isStoreInstruction = false ∧
      op.isLoadStoreAtomicInstruction = false ∧ (op == FLUSH) = false := by
  cases op <;> first | exact ⟨rfl, rfl, rfl, rfl⟩ | exact absurd h (by decide)

/-- Only an FPop is completed. -/
theorem completeFPop_of_memory {op : Opcode}
    (h : op.isLoadInstruction = true ∨ op.isStoreInstruction = true ∨
      op.isLoadStoreAtomicInstruction = true ∨ (op == FLUSH) = true) (s : SparcCore nw) :
    completeFPop op s = s := by
  have hop : (op.isFpop1Instruction || op.isFpop2Instruction) = false := by
    rw [← Bool.not_eq_true]
    intro hfp
    have := not_memory_of_fpop hfp
    simp [this] at h
  rw [completeFPop, hop, Bool.and_false, if_neg (by decide)]

/-- An FPop leaves what a program sees to `completeFpExecution`. -/
theorem invisible_executeCurrentInstruction_of_fpop {op : Opcode}
    (hop : (op.isFpop1Instruction || op.isFpop2Instruction) = true)
    (h : executeCurrentInstruction fpu mem op s m = some (s', m')) : Invisible s s' := by
  obtain ⟨hload, hstore, hatomic, hflush⟩ := not_memory_of_fpop hop
  simp only [executeCurrentInstruction, hload, hstore, hatomic, hflush, Bool.false_eq_true,
    if_false, executeInstruction_of_fpop fpu s hop, bind_eq_bind, bind_eq_some_iff] at h
  obtain ⟨t, ht, h⟩ := h
  cases h
  exact invisible_executeFPop ht

/-- The completion step; an FPop has changed nothing visible before it. -/
theorem outcome_completeFPop (h : Outcome s t)
    (hop : (op.isFpop1Instruction || op.isFpop2Instruction) = true → Invisible s t) :
    Outcome s (completeFPop op t) := by
  unfold completeFPop
  split
  · next hc =>
    simp only [Bool.and_eq_true, Bool.not_eq_true'] at hc
    exact (outcome_completeFpExecution hc.1).after (hop hc.2)
  · exact h

theorem outcome_finishInstruction (h : Outcome s t) : Outcome s (finishInstruction op t) := by
  unfold finishInstruction
  split
  · next hc =>
    simp only [Bool.and_eq_true, Bool.not_eq_true'] at hc
    constructor
    · intro ht
      exact absurd ht (by simp [advance, hc.1])
    · exact fun hs => wellFormed_advance (h.wellFormed hs)
  · exact h

/-- The fetch shows a program nothing, whatever the memory answers. -/
theorem invisible_recheckFetch (mem : VirtualMemory σ) (s : SparcCore nw) (m : σ) :
    Invisible s (recheckFetch (instructionFetch mem s m).1) := by
  have hfetch : Invisible s (instructionFetch mem s m).1 := by
    simp only [instructionFetch]
    split_ifs
    all_goals exact invisible_of_visible_eq rfl
  unfold recheckFetch
  split_ifs
  · exact hfetch.trans (invisible_raise _ _)
  · exact hfetch

theorem wellFormed_skipAnnulled (h : s.WellFormed) : (skipAnnulled s).WellFormed :=
  wellFormed_advance (h.of_config rfl h.cwp h.pc h.npc h.tbr)

theorem wellFormed_selectTrap (h : s.WellFormed) : s.selectTrap.WellFormed := by
  have hc : s.chooseTrap.WellFormed := by
    unfold chooseTrap
    split
    · exact h
    split
    · exact h.of_config rfl h.cwp h.pc h.npc h.tbr
    split
    · exact h.of_config rfl h.cwp h.pc h.npc
        ((readBits_writeBits_off (by decide)).trans h.tbr)
    · exact h
  exact hc.of_config rfl hc.cwp hc.pc hc.npc hc.tbr

theorem wellFormed_saveReturn (h : s.WellFormed) : s.saveReturn.WellFormed := by
  unfold saveReturn
  split_ifs
  · exact h.of_config rfl h.cwp h.pc h.npc h.tbr
  · exact h.of_config rfl h.cwp h.pc h.npc h.tbr

theorem wellFormed_wS (h : s.WellFormed) : WellFormed { s with reg := s.reg.wS 1 } := by
  refine h.of_config rfl ?_ h.pc h.npc h.tbr
  rw [Registers.wS, Registers.rCWP_wPSRField _ _ (by decide) (by decide)]
  exact h.cwp

/-- The trap vector is word-aligned. -/
theorem readBits_low_of_vector {x : Word} (h : readBits x 3 0 = 0) : readBits x 1 0 = 0 := by
  rw [← BitVec.toNat_inj, toNat_readBits_zero x (by decide)] at *
  change x.toNat % 16 = 0 at h
  change x.toNat % 4 = 0
  omega

theorem wellFormed_jumpToVector (h : s.WellFormed) : s.jumpToVector.WellFormed := by
  have htbr := readBits_low_of_vector h.tbr
  unfold jumpToVector
  split_ifs
  · exact h.of_config rfl h.cwp htbr (readBits_low_add htbr (by decide)) h.tbr
  · exact h.of_config rfl h.cwp h.resetPC (readBits_low_add h.resetPC (by decide)) h.tbr

theorem wellFormed_leaveReset (h : s.WellFormed) : (leaveReset s).WellFormed := by
  unfold leaveReset
  split_ifs
  · exact h.of_config rfl h.cwp h.pc h.npc h.tbr
  · exact h

theorem wellFormed_initial (hnw : 0 < nw) (coreID threadID resetPC csr : Word)
    (storeBarrierPending : Bool) (aligned : readBits resetPC 1 0 = 0) :
    WellFormed
      (initial coreID threadID resetPC csr storeBarrierPending : SparcCore nw) where
  cwp := by
    have h : (initial coreID threadID resetPC csr storeBarrierPending :
        SparcCore nw).reg.rCWP = 0 :=
      (by decide : readBits (writeBits (writeBits 0 7 7 1) 5 5 1) 4 0 = 0)
    rw [h]
    exact hnw
  pc := (by decide : readBits 0 1 0 = 0)
  npc := (by decide : readBits 4 1 0 = 0)
  tbr := (by decide : readBits 0 3 0 = 0)
  resetPC := aligned
  fpuPresent := rfl
  cpPresent := rfl
  fpuSequence := rfl
  cpSequence := rfl
  fpQueue := rfl
  cpQueue := rfl

section Cycle

variable (hnw : 0 < nw) (hnw' : nw ≤ 32)
include hnw hnw'

theorem outcome_executeCurrentInstruction {op : Opcode} (ht : s.trap = false)
    (h : executeCurrentInstruction fpu mem op s m = some (s', m')) : Outcome s s' := by
  unfold executeCurrentInstruction at h
  split at h
  · exact outcome_executeLoad h
  split at h
  · exact (invisible_executeStore h).outcome
  split at h
  · exact outcome_executeAtomic h
  split at h
  · cases h
    exact (invisible_executePreFlush s).outcome
  · simp only [bind_eq_bind, bind_eq_some_iff] at h
    obtain ⟨t, hx, h⟩ := h
    cases h
    exact outcome_executeInstruction hnw hnw' ht hx

theorem outcome_dispatchInstruction {op : Opcode}
    (h : dispatchInstruction fpu mem op s m = some (s', m')) : Outcome s s' := by
  simp only [dispatchInstruction] at h
  have hcheck := invisible_checkInstructionException op s
  split at h
  · cases h
    exact hcheck.outcome
  · next ht =>
    simp only [Bool.not_eq_true] at ht
    simp only [bind_eq_bind, bind_eq_some_iff] at h
    obtain ⟨⟨t, n⟩, hx, h⟩ := h
    cases h
    refine (outcome_finishInstruction op (outcome_completeFPop op ?_ ?_)).after hcheck
    · exact outcome_executeCurrentInstruction hnw hnw' ht hx
    · exact fun hop => invisible_executeCurrentInstruction_of_fpop hop hx

/-! ## The cycle -/

/-- After the traps are taken a cycle keeps the invariants, and a trap is precise. -/
theorem outcome_fetchAndExecute (h : fetchAndExecute fpu mem s m = some (s', m')) :
    (s.annul = false → s'.trap = true → TrapFrame s s') ∧ (s.WellFormed → s'.WellFormed) := by
  simp only [fetchAndExecute] at h
  have hfetch := invisible_recheckFetch mem s m
  split at h
  · cases h
    exact ⟨fun _ _ => hfetch.frame, hfetch.wellFormed⟩
  split at h
  · next hannul =>
    cases h
    refine ⟨fun ha => ?_, fun hs => ?_⟩
    · rw [hfetch.frame.annul, ha] at hannul
      cases hannul
    · exact wellFormed_skipAnnulled (hfetch.wellFormed hs)
  · simp only [bind_eq_bind, bind_eq_some_iff] at h
    obtain ⟨op, -, h⟩ := h
    have ho := (outcome_dispatchInstruction hnw hnw' h).after hfetch
    exact ⟨fun _ => ho.precise, ho.wellFormed⟩

/-! ## Taking a trap -/

theorem wellFormed_enterWindow (h : s.WellFormed) :
    WellFormed { s with reg := enterWindow s.reg } := by
  refine h.of_config rfl ?_ h.pc h.npc h.tbr
  rw [enterWindow, rCWP_wCWP]
  · exact toNat_previousWindow_lt _ hnw hnw'
  · exact lt_of_lt_of_le (toNat_previousWindow_lt _ hnw hnw') hnw'

theorem wellFormed_executeTraps (h : s.WellFormed) : s.executeTraps.WellFormed := by
  unfold executeTraps
  split_ifs
  · have hsel := wellFormed_selectTrap h
    simp only
    split_ifs
    · exact hsel
    · exact wellFormed_jumpToVector (wellFormed_wS (wellFormed_saveReturn
        (wellFormed_enterWindow hnw hnw' hsel)))
  · exact h

theorem wellFormed_takeTraps (h : s.WellFormed) : (takeTraps s).WellFormed := by
  apply wellFormed_executeTraps hnw hnw'
  unfold checkExternalTraps
  split_ifs
  · exact h.of_config rfl h.cwp h.pc h.npc h.tbr
  · exact h

/-- A cycle keeps the invariants. -/
theorem wellFormed_runOneCycle {x y : SparcStateMachine nw σ} (hy : x.runOneCycle fpu mem = some y)
    (h : x.core.WellFormed) : y.core.WellFormed := by
  have hreset := wellFormed_leaveReset h
  have htraps := wellFormed_takeTraps hnw hnw' hreset
  simp only [SparcStateMachine.runOneCycle] at hy
  split at hy
  · cases hy
    exact hreset
  split at hy
  · cases hy
    exact htraps
  · simp only [bind_eq_bind, bind_eq_some_iff] at hy
    obtain ⟨⟨t, n⟩, hf, hy⟩ := hy
    cases hy
    exact (outcome_fetchAndExecute hnw hnw' hf).2 htraps

/-- The invariants hold in every reachable state. -/
theorem Reachable.wellFormed {init : σ → Prop} {env : σ → σ → Prop} {m : σ}
    (h : Reachable fpu mem init env s m) : s.WellFormed := by
  induction h with
  | reset coreID threadID resetPC csr storeBarrierPending aligned hm =>
    exact wellFormed_initial hnw coreID threadID resetPC csr storeBarrierPending aligned
  | pins irl h ih => exact ih.of_config rfl ih.cwp ih.pc ih.npc ih.tbr
  | environment h hm ih => exact ih
  | cycle h hy ih => exact wellFormed_runOneCycle hnw hnw' hy ih

/-- A run of the driver keeps them too, over whatever memory. -/
theorem SparcStateMachine.wellFormed_run {n : Nat} {x y : SparcStateMachine nw σ}
    (hx : x.core.WellFormed) (hy : x.run fpu mem n = some y) : y.core.WellFormed := by
  induction n generalizing x with
  | zero => exact some.inj hy ▸ hx
  | succ n ih =>
    obtain ⟨z, hz, hrun⟩ := bind_eq_some_iff.1 hy
    refine ih ?_ hrun
    unfold step at hz
    split at hz
    · exact some.inj hz ▸ hx
    · exact wellFormed_runOneCycle hnw hnw' hz hx

end Cycle

/-- The first cycles over a memory of zeros. -/
theorem SparcStateMachine.wellFormed_first_cycles :
    ∃ y, run default MemCore.virtualMemory 2 (⟨.initial 0 0 0 0 false, zeroMemory, false⟩ :
      SparcStateMachine 8 MemCore) = some y ∧ y.core.WellFormed :=
  (isSome_iff_exists.1 rfl).imp fun _ h => ⟨h, wellFormed_run (by decide) (by decide)
    (wellFormed_initial (by decide) 0 0 0 0 false (by decide)) h⟩

end SparcV8
