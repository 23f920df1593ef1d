import SparcV8.Processor.StateMachine

/-!
# What one instruction can do to a core

Two facts hold of every step of an instruction. If it leaves a trap pending, the programmer-visible
registers are as before (`TrapFrame`); and it keeps the invariants of the states reachable from
reset (`WellFormed`).
-/

namespace SparcV8

open Opcode Registers Option

variable {nw : Nat}

/-- The registers the invariants speak of. -/
def Registers.control (reg : Registers nw) :=
  (reg.PSR, reg.PC, reg.nPC, reg.TBR, reg.bpFPUPresent, reg.bpCPPresent)

namespace Registers

variable (reg : Registers nw)

@[simp] theorem control_wR (n : RegNum) (value : Word) :
    (reg.wR n value).control = reg.control := rfl

@[simp] theorem control_wF (n : RegNum) (value : Word) :
    (reg.wF n value).control = reg.control := rfl

@[simp] theorem control_wFSRField (h l : Nat) (value : Word) :
    (reg.wFSRField h l value).control = reg.control := rfl

end Registers

namespace SparcCore

/-- `s'` differs from `s` at most in `ftt`, `cexc`, the trap type and the signals
between steps. -/
structure TrapFrame (s s' : SparcCore nw) : Prop where
  globals : s'.reg.G = s.reg.G
  windows : s'.reg.R = s.reg.R
  f : s'.reg.f = s.reg.f
  y : s'.reg.Y = s.reg.Y
  psr : s'.reg.PSR = s.reg.PSR
  wim : s'.reg.WIM = s.reg.WIM
  tba : readBits s'.reg.TBR 31 12 = readBits s.reg.TBR 31 12
  /-- FSR above `ftt`. -/
  fsrHigh : readBits s'.reg.FSR 31 17 = readBits s.reg.FSR 31 17
  /-- FSR between `ftt` and `cexc`. -/
  fsrLow : readBits s'.reg.FSR 13 5 = readBits s.reg.FSR 13 5
  pc : s'.reg.PC = s.reg.PC
  npc : s'.reg.nPC = s.reg.nPC
  annul : s'.annul = s.annul

/-- The invariants of the states reachable from reset. -/
structure WellFormed (s : SparcCore nw) : Prop where
  cwp : s.reg.rCWP.toNat < nw
  pc : readBits s.reg.PC 1 0 = 0
  npc : readBits s.reg.nPC 1 0 = 0
  tbr : readBits s.reg.TBR 3 0 = 0
  resetPC : readBits s.resetPC 1 0 = 0
  fpuPresent : s.reg.bpFPUPresent = 1
  cpPresent : s.reg.bpCPPresent = 0
  fpuSequence : s.anFPUSequenceErrorIsDetected = false
  cpSequence : s.aCPSequenceErrorIsDetected = false
  fpQueue : s.implementationHasNoFloatingPointQueue = true
  cpQueue : s.implementationHasNoCoprocessorQueue = true

/-- The fields no instruction changes. -/
def config (s : SparcCore nw) : Word × Word × Word × Bool × Bool × Bool × Bool :=
  (s.resetPC, s.reg.bpFPUPresent, s.reg.bpCPPresent, s.anFPUSequenceErrorIsDetected,
    s.aCPSequenceErrorIsDetected, s.implementationHasNoFloatingPointQueue,
    s.implementationHasNoCoprocessorQueue)

/-- `s'` differs from `s` neither in a field of the invariants nor in `trap`. -/
structure Quiet (s s' : SparcCore nw) : Prop where
  trap : s'.trap = s.trap
  cwp : s'.reg.rCWP = s.reg.rCWP
  pc : s'.reg.PC = s.reg.PC
  npc : s'.reg.nPC = s.reg.nPC
  tbr : s'.reg.TBR = s.reg.TBR
  config : s'.config = s.config

/-- `s'` differs from `s` in nothing a program sees. -/
structure Invisible (s s' : SparcCore nw) : Prop where
  frame : TrapFrame s s'
  wellFormed : s.WellFormed → s'.WellFormed

/-- A step from `s`, in which no trap is pending, to `s'`. -/
structure Outcome (s s' : SparcCore nw) : Prop where
  precise : s'.trap = true → TrapFrame s s'
  wellFormed : s.WellFormed → s'.WellFormed

@[simp] theorem TrapFrame.refl (s : SparcCore nw) : TrapFrame s s :=
  ⟨rfl, rfl, rfl, rfl, rfl, rfl, rfl, rfl, rfl, rfl, rfl, rfl⟩

variable {s t u : SparcCore nw}

/-- What two steps leave alone, both leave alone. -/
theorem TrapFrame.trans (h : TrapFrame s t) (h' : TrapFrame t u) : TrapFrame s u :=
  ⟨h'.globals.trans h.globals, h'.windows.trans h.windows, h'.f.trans h.f, h'.y.trans h.y,
    h'.psr.trans h.psr, h'.wim.trans h.wim, h'.tba.trans h.tba, h'.fsrHigh.trans h.fsrHigh,
    h'.fsrLow.trans h.fsrLow, h'.pc.trans h.pc, h'.npc.trans h.npc, h'.annul.trans h.annul⟩

variable {s' : SparcCore nw}

/-- The invariants depend on the configuration and on four fields only. -/
theorem WellFormed.of_config (h : s.WellFormed) (hc : s'.config = s.config)
    (hcwp : s'.reg.rCWP.toNat < nw) (hpc : readBits s'.reg.PC 1 0 = 0)
    (hnpc : readBits s'.reg.nPC 1 0 = 0) (htbr : readBits s'.reg.TBR 3 0 = 0) : s'.WellFormed := by
  simp only [config, Prod.mk.injEq] at hc
  obtain ⟨h1, h2, h3, h4, h5, h6, h7⟩ := hc
  exact ⟨hcwp, hpc, hnpc, htbr, h1 ▸ h.resetPC, h2 ▸ h.fpuPresent, h3 ▸ h.cpPresent,
    h4 ▸ h.fpuSequence, h5 ▸ h.cpSequence, h6 ▸ h.fpQueue, h7 ▸ h.cpQueue⟩

/-- Quiet steps keep the invariants. -/
theorem Quiet.wellFormed (q : Quiet s s') (h : s.WellFormed) : s'.WellFormed := by
  apply h.of_config q.config
  · rw [q.cwp]
    exact h.cwp
  · rw [q.pc]
    exact h.pc
  · rw [q.npc]
    exact h.npc
  · rw [q.tbr]
    exact h.tbr

theorem Quiet.refl (s : SparcCore nw) : Quiet s s := ⟨rfl, rfl, rfl, rfl, rfl, rfl⟩

/-- Quiet steps compose. -/
theorem Quiet.trans (h : Quiet s t) (h' : Quiet t u) : Quiet s u :=
  ⟨h'.trap.trans h.trap, h'.cwp.trans h.cwp, h'.pc.trans h.pc, h'.npc.trans h.npc,
    h'.tbr.trans h.tbr, h'.config.trans h.config⟩

/-- Registers that no invariant speaks of are written. -/
theorem quiet_of_control_eq {reg : Registers nw} (h : reg.control = s.reg.control) :
    Quiet s { s with reg := reg } := by
  simp only [Registers.control, Prod.mk.injEq] at h
  obtain ⟨hpsr, hpc, hnpc, htbr, hfpu, hcp⟩ := h
  refine ⟨rfl, ?_, hpc, hnpc, htbr, ?_⟩
  · simp only [rCWP, hpsr]
  · simp only [config, hfpu, hcp]

/-- A step that leaves `trap` alone does not trap. -/
theorem Quiet.outcome (ht : s.trap = false) (q : Quiet s s') :
    Outcome s s' where
  precise h := by rw [q.trap, ht] at h; cases h
  wellFormed := q.wellFormed

/-- Everything a program sees of a core, and its configuration. -/
def visible (s : SparcCore nw) :=
  (s.reg.G, s.reg.R, s.reg.f, s.reg.Y, s.reg.PSR, s.reg.WIM, s.reg.TBR, s.reg.FSR, s.reg.PC,
    s.reg.nPC, s.annul, s.config)

/-- What a program sees is the same. -/
theorem invisible_of_visible_eq (h : s'.visible = s.visible) : Invisible s s' := by
  simp only [visible, Prod.mk.injEq] at h
  obtain ⟨hG, hR, hf, hY, hpsr, hwim, htbr, hfsr, hpc, hnpc, hannul, hc⟩ := h
  constructor
  · exact ⟨hG, hR, hf, hY, hpsr, hwim, by rw [htbr], by rw [hfsr], by rw [hfsr], hpc, hnpc, hannul⟩
  · intro hs
    apply hs.of_config hc
    · rw [rCWP, hpsr]
      exact hs.cwp
    · rw [hpc]
      exact hs.pc
    · rw [hnpc]
      exact hs.npc
    · rw [htbr]
      exact hs.tbr

@[simp] theorem Invisible.refl (s : SparcCore nw) : Invisible s s := ⟨TrapFrame.refl s, id⟩

/-- Invisible steps compose. -/
theorem Invisible.trans (h : Invisible s t) (h' : Invisible t u) : Invisible s u :=
  ⟨h.frame.trans h'.frame, fun hs => h'.wellFormed (h.wellFormed hs)⟩

/-- Invisible steps may trap. -/
theorem Invisible.outcome (h : Invisible s s') : Outcome s s' :=
  ⟨fun _ => h.frame, h.wellFormed⟩

/-- Steps compose when the first is invisible. -/
theorem Outcome.after (h : Outcome t u) (hi : Invisible s t) : Outcome s u :=
  ⟨fun hu => hi.frame.trans (h.precise hu), fun hs => h.wellFormed (hi.wellFormed hs)⟩

/-- A trap that is raised is only pending. -/
@[simp] theorem invisible_raise (s : SparcCore nw) (t : TrapFlag) : Invisible s (s.raise t) :=
  invisible_of_visible_eq rfl

/-- Writing `ftt` or `cexc` leaves the rest of the FSR. -/
@[simp] theorem invisible_raiseFp (s : SparcCore nw) (ftt : Word) :
    Invisible s (s.raiseFp ftt) where
  frame := ⟨rfl, rfl, rfl, rfl, rfl, rfl, rfl,
    readBits_writeBits_off (by decide),
    readBits_writeBits_off (by decide), rfl, rfl, rfl⟩
  wellFormed h := h.of_config rfl h.cwp h.pc h.npc h.tbr

/-- Error mode changes the trap type. -/
theorem invisible_enterError (s : SparcCore nw) (t : TrapFlag) (tt : Word) :
    Invisible s (s.enterError t tt) where
  frame := ⟨rfl, rfl, rfl, rfl, rfl, rfl,
    readBits_writeBits_off (by decide),
    rfl, rfl, rfl, rfl, rfl⟩
  wellFormed h := h.of_config rfl h.cwp h.pc h.npc
    ((readBits_writeBits_off (by decide)).trans h.tbr)

theorem outcome_raise (s : SparcCore nw) (t : TrapFlag) : Outcome s (s.raise t) :=
  (invisible_raise s t).outcome

/-! ## Integer instructions -/

/-- A result is written to a register. -/
theorem quiet_writeRd (s : SparcCore nw) (value : Word) : Quiet s (s.writeRd value) :=
  ⟨rfl, rfl, rfl, rfl, rfl, rfl⟩

/-- The condition codes are beside the window pointer. -/
theorem quiet_writeIcc (s : SparcCore nw) (n z v c : Word) : Quiet s (s.writeIcc n z v c) where
  trap := rfl
  cwp := by
    simp only [writeIcc, Registers.wN, Registers.wZ, Registers.wV, Registers.wC]
    rw [rCWP_wPSRField _ _ (by decide) (by decide), rCWP_wPSRField _ _ (by decide) (by decide),
      rCWP_wPSRField _ _ (by decide) (by decide), rCWP_wPSRField _ _ (by decide) (by decide)]
  pc := rfl
  npc := rfl
  tbr := rfl
  config := rfl

variable {op : Opcode}

/-- Logical operations write a register and the condition codes. -/
theorem quiet_executeLogical (h : executeLogical op s = some s') : Quiet s s' := by
  simp only [executeLogical, bind_eq_bind, bind_eq_some_iff] at h
  obtain ⟨result, -, h⟩ := h
  split at h <;> cases h
  all_goals first
    | exact (quiet_writeRd s result).trans (quiet_writeIcc _ _ _ _ _)
    | exact quiet_writeRd s result

/-- A result for register 0 is dropped. -/
theorem quiet_writeNonzeroRd (s : SparcCore nw) (value : Word) :
    Quiet s (s.writeNonzeroRd value) := by
  unfold writeNonzeroRd
  split_ifs
  · exact quiet_writeRd s value
  · exact Quiet.refl s

theorem quiet_writeY (s : SparcCore nw) (value : Word) : Quiet s (s.writeY value) :=
  ⟨rfl, rfl, rfl, rfl, rfl, rfl⟩

theorem quiet_executeSETHI (s : SparcCore nw) : Quiet s s.executeSETHI :=
  quiet_writeNonzeroRd s _

/-- Shifts write a register. -/
theorem quiet_executeShift (h : executeShift op s = some s') : Quiet s s' := by
  simp only [executeShift, bind_eq_bind, bind_eq_some_iff] at h
  obtain ⟨result, -, h⟩ := h
  cases h
  exact quiet_writeRd s result

/-- Additions write a register and the condition codes. -/
theorem quiet_executeAdd (h : executeAdd op s = some s') : Quiet s s' := by
  simp only [executeAdd, bind_eq_bind, bind_eq_some_iff] at h
  obtain ⟨result, -, h⟩ := h
  split at h <;> cases h
  · exact (quiet_writeRd s result).trans (quiet_writeIcc _ _ _ _ _)
  · exact (quiet_writeRd s result).trans (quiet_writeIcc _ _ _ _ _)
  · exact quiet_writeRd s result

/-- So do subtractions. -/
theorem quiet_executeSub (h : executeSub op s = some s') : Quiet s s' := by
  simp only [executeSub, bind_eq_bind, bind_eq_some_iff] at h
  obtain ⟨result, -, h⟩ := h
  split_ifs at h <;> cases h
  · exact (quiet_writeRd s result).trans (quiet_writeIcc _ _ _ _ _)
  · exact quiet_writeRd s result

/-- Tagged operations trap before they write. -/
theorem outcome_finishTagged (ht : s.trap = false) (trapping v carry : Bool) (result : Word) :
    Outcome s (s.finishTagged trapping v carry result) := by
  unfold finishTagged
  split_ifs
  · exact outcome_raise s _
  · exact ((quiet_writeIcc s _ _ _ _).trans (quiet_writeRd _ result)).outcome ht

/-- A step of a multiplication writes `Y` too. -/
theorem quiet_executeMulStep (s : SparcCore nw) : Quiet s s.executeMulStep :=
  ((quiet_writeY s _).trans (quiet_writeNonzeroRd _ _)).trans (quiet_writeIcc _ _ _ _ _)

/-- A product is written to `Y` and a register. -/
theorem quiet_executeMul (op : Opcode) (s : SparcCore nw) : Quiet s (executeMul op s) := by
  simp only [executeMul]
  split_ifs
  · exact ((quiet_writeY s _).trans (quiet_writeNonzeroRd _ _)).trans (quiet_writeIcc _ _ _ _ _)
  · exact (quiet_writeY s _).trans (quiet_writeNonzeroRd _ _)

/-- A division by 0 traps. -/
theorem outcome_executeDiv (ht : s.trap = false) (h : executeDiv op s = some s') :
    Outcome s s' := by
  unfold executeDiv at h
  split at h
  · cases h
    exact outcome_raise s _
  · simp only [bind_eq_bind, bind_eq_some_iff] at h
    obtain ⟨⟨result, v⟩, -, h⟩ := h
    split_ifs at h <;> cases h
    · exact ((quiet_writeNonzeroRd s result).trans (quiet_writeIcc _ _ _ _ _)).outcome ht
    · exact (quiet_writeNonzeroRd s result).outcome ht

/-! ## Register windows and control transfer -/

/-- A step that leaves `trap` alone and keeps the invariants. -/
theorem outcome_of_trap_eq (ht : s.trap = false) (h : s'.trap = s.trap)
    (hw : s.WellFormed → s'.WellFormed) : Outcome s s' where
  precise h' := by rw [h, ht] at h'; cases h'
  wellFormed := hw

/-- A value below the number of windows survives the field of the PSR. -/
theorem rCWP_wCWP (reg : Registers nw) {val : Word} (h : val.toNat < 32) :
    (reg.wCWP val).rCWP = val := by
  rw [rCWP, Registers.wCWP, Registers.wPSRField, readBits_writeBits_self (by decide)]
  exact readBits_zero_of_lt (by decide) h

/-- A window number is a remainder. -/
theorem toNat_umod_lt (x : Word) (hnw : 0 < nw) (hnw' : nw ≤ 32) :
    (x % BitVec.ofNat 32 nw).toNat < nw := by
  rw [BitVec.toNat_umod, BitVec.toNat_ofNat, Nat.mod_eq_of_lt (show nw < 2 ^ 32 by omega)]
  exact Nat.mod_lt _ hnw

section

variable (reg : Registers nw) (hnw : 0 < nw) (hnw' : nw ≤ 32)
include reg hnw hnw'

/-- The window below is one. -/
theorem toNat_previousWindow_lt :
    reg.previousWindow.toNat < nw := toNat_umod_lt _ hnw hnw'

/-- The window above is one. -/
theorem toNat_nextWindow_lt :
    reg.nextWindow.toNat < nw := toNat_umod_lt _ hnw hnw'

/-- A trap is entered in the window below. -/
theorem rCWP_enterWindow : (enterWindow reg).rCWP = reg.previousWindow := by
  have hprev : ((reg.wET 0).wPS (reg.wET 0).rS).previousWindow = reg.previousWindow := by
    simp only [Registers.previousWindow, Registers.wET, Registers.wPS]
    rw [rCWP_wPSRField _ _ (by decide) (by decide), rCWP_wPSRField _ _ (by decide) (by decide)]
  rw [enterWindow, rCWP_wCWP, hprev]
  rw [hprev]
  exact lt_of_lt_of_le (toNat_previousWindow_lt reg hnw hnw') hnw'

end

section Windows

variable (hnw : 0 < nw) (hnw' : nw ≤ 32)
include hnw hnw'

/-- A window that is invalid traps, and any other is entered. -/
theorem outcome_executeSaveRestore (op : Opcode) (ht : s.trap = false) :
    Outcome s (executeSaveRestore op s) := by
  have hlt : (if op == SAVE then s.reg.previousWindow else s.reg.nextWindow).toNat < nw := by
    split_ifs
    · exact toNat_previousWindow_lt s.reg hnw hnw'
    · exact toNat_nextWindow_lt s.reg hnw hnw'
  simp only [executeSaveRestore]
  generalize (if op == SAVE then s.reg.previousWindow else s.reg.nextWindow) = newCWP at hlt ⊢
  split
  · exact outcome_raise s _
  · have hw : Outcome s { s with reg := s.reg.wCWP newCWP } := by
      refine outcome_of_trap_eq ht rfl fun h => h.of_config rfl ?_ h.pc h.npc h.tbr
      rw [rCWP_wCWP s.reg (by omega)]
      exact hlt
    split
    · have hq := quiet_writeRd { s with reg := s.reg.wCWP newCWP } (s.operand1 + s.operand2)
      exact outcome_of_trap_eq ht hq.trap fun h => hq.wellFormed (hw.wellFormed h)
    · exact hw

/-- A return from a trap that fails enters error mode. -/
theorem outcome_executeRETT (ht : s.trap = false) : Outcome s s.executeRETT := by
  have haddr : Invisible s { s with address := s.operand1 + s.operand2 } :=
    invisible_of_visible_eq rfl
  simp only [executeRETT]
  split
  · exact (haddr.trans (invisible_raise _ _)).outcome
  split
  · exact (haddr.trans (invisible_enterError _ _ _)).outcome
  split
  · exact (haddr.trans (invisible_enterError _ _ _)).outcome
  split
  · exact (haddr.trans (invisible_enterError _ _ _)).outcome
  · next halign =>
    refine outcome_of_trap_eq ht rfl fun h => h.of_config rfl ?_ h.npc (not_not.mp halign) h.tbr
    rw [Registers.wS, rCWP_wPSRField _ _ (by decide) (by decide),
      rCWP_wCWP _ (lt_of_lt_of_le (toNat_nextWindow_lt s.reg hnw hnw') hnw')]
    exact toNat_nextWindow_lt s.reg hnw hnw'

end Windows

section

variable (ht : s.trap = false)
include ht

/-- A window pointer that is too large traps. -/
theorem outcome_executeWriteStateReg (h : executeWriteStateReg op s = some s') : Outcome s s' := by
  simp only [executeWriteStateReg] at h
  split at h
  · cases h
    exact (quiet_writeY s _).outcome ht
  · split_ifs at h <;> cases h
    · exact outcome_raise s _
    · exact outcome_raise s _
    · exact Quiet.outcome ht ⟨rfl, rfl, rfl, rfl, rfl, rfl⟩
    · exact (Quiet.refl s).outcome ht
  · split_ifs at h with hS hlt <;> cases h
    · exact outcome_raise s _
    · exact outcome_raise s _
    · refine outcome_of_trap_eq ht rfl fun h => h.of_config rfl ?_ h.pc h.npc h.tbr
      show (readBits (writeBits s.reg.PSR 23 0 _) 4 0).toNat < nw
      rw [readBits_writeBits_of_le _ _ (by decide) (by decide) (by decide) (by decide)]
      exact Nat.lt_of_not_le hlt
  · split_ifs at h <;> cases h
    · exact outcome_raise s _
    · exact Quiet.outcome ht ⟨rfl, rfl, rfl, rfl, rfl, rfl⟩
  · split_ifs at h <;> cases h
    · exact outcome_raise s _
    · refine outcome_of_trap_eq ht rfl fun h => h.of_config rfl h.cwp h.pc h.npc ?_
      exact (readBits_writeBits_off (by decide)).trans h.tbr
  · cases h

/-- The target of a branch is word-aligned. -/
theorem outcome_branch (taken always : Bool) : Outcome s (s.branch taken always) := by
  unfold branch
  split_ifs
  · refine outcome_of_trap_eq ht rfl fun h => h.of_config rfl h.cwp h.npc ?_ h.tbr
    refine readBits_low_add h.pc ?_
    rw [readBits_low_signExtend _ (by decide) (by decide)]
    exact readBits_low_shiftLeft _
  · exact outcome_of_trap_eq ht rfl fun h =>
      h.of_config rfl h.cwp h.npc (readBits_low_add h.npc (by decide)) h.tbr

/-- Integer branches are branches. -/
theorem outcome_executeBicc (h : executeBicc op s = some s') : Outcome s s' := by
  simp only [executeBicc, bind_eq_bind, bind_eq_some_iff] at h
  obtain ⟨taken, -, h⟩ := h
  cases h
  exact outcome_branch ht taken _

/-- So are those on the floating-point condition. -/
theorem outcome_executeFBfcc (h : executeFBfcc op s = some s') : Outcome s s' := by
  simp only [executeFBfcc, bind_eq_bind, bind_eq_some_iff] at h
  obtain ⟨taken, -, h⟩ := h
  cases h
  exact outcome_branch ht taken _

/-- The target of a call is word-aligned. -/
theorem outcome_executeCALL : Outcome s s.executeCALL :=
  outcome_of_trap_eq ht rfl fun h =>
    h.of_config rfl h.cwp h.npc (readBits_low_add h.pc (readBits_low_shiftLeft _)) h.tbr

/-- A target that is not word-aligned traps. -/
theorem outcome_executeJMPL : Outcome s s.executeJMPL := by
  simp only [executeJMPL]
  split
  · exact outcome_raise s _
  · next halign =>
    exact outcome_of_trap_eq ht rfl fun h =>
      h.of_config rfl h.cwp h.npc (not_not.mp halign) h.tbr

end

/-- The next address is word-aligned. -/
theorem wellFormed_advance (h : s.WellFormed) : s.advance.WellFormed :=
  h.of_config rfl h.cwp h.npc (readBits_low_add h.npc (by decide)) h.tbr

/-- A trap instruction traps, or is passed. -/
theorem outcome_executeTicc (ht : s.trap = false) (h : executeTicc op s = some s') :
    Outcome s s' := by
  simp only [executeTicc, bind_eq_bind, bind_eq_some_iff] at h
  obtain ⟨taken, -, h⟩ := h
  split at h <;> cases h
  · exact Invisible.outcome (invisible_of_visible_eq rfl)
  · exact outcome_of_trap_eq ht rfl wellFormed_advance

/-- State registers that are privileged trap a user. -/
theorem outcome_executeReadStateReg (ht : s.trap = false) (h : executeReadStateReg op s = some s') :
    Outcome s s' := by
  unfold executeReadStateReg at h
  split_ifs at h
  · cases h
    exact outcome_raise s _
  · cases h
    exact outcome_raise s _
  · obtain ⟨result, -, rfl⟩ := map_eq_some_iff.mp h
    exact (quiet_writeRd s result).outcome ht
  · cases h
    exact (Quiet.refl s).outcome ht

/-! ## Memory instructions -/

/- The steps before a memory access change only the signals of the access, the trap flags
and `ftt`. -/

section Before

variable (op : Opcode) (s : SparcCore nw)

@[simp] theorem invisible_setDataAddress : Invisible s s.setDataAddress :=
  invisible_of_visible_eq rfl

@[simp] theorem invisible_setAlternateAddress : Invisible s s.setAlternateAddress :=
  invisible_of_visible_eq rfl

theorem invisible_loadAddress : Invisible s (loadAddress op s) := by
  unfold loadAddress
  split_ifs <;> simp

theorem invisible_loadTraps : Invisible s (loadTraps op s) := by
  unfold loadTraps
  split_ifs <;> simp

/-- A load, up to its access. -/
theorem invisible_executePreLoad : Invisible s (executePreLoad op s) := by
  simp only [executePreLoad]
  split
  · exact invisible_loadAddress op s
  · exact (invisible_loadAddress op s).trans (invisible_loadTraps op _)

theorem invisible_storePrivilege : Invisible s (storePrivilege op s) := by
  unfold storePrivilege
  split_ifs <;> simp

theorem invisible_storeAddress : Invisible s (storeAddress op s) := by
  unfold storeAddress
  split_ifs <;> simp

theorem invisible_storeUnitTraps : Invisible s (storeUnitTraps op s) := by
  unfold storeUnitTraps
  split_ifs <;> simp

theorem invisible_storeFpQueueTrap : Invisible s (storeFpQueueTrap op s) := by
  unfold storeFpQueueTrap
  split_ifs <;> simp

theorem invisible_storeCpQueueTrap : Invisible s (storeCpQueueTrap op s) := by
  unfold storeCpQueueTrap
  split_ifs <;> simp

theorem invisible_storeRegisterTrap : Invisible s (storeRegisterTrap op s) := by
  unfold storeRegisterTrap
  split_ifs <;> simp

/-- The checks of a store. -/
theorem invisible_storeTraps : Invisible s (storeTraps op s) := by
  unfold storeTraps
  split
  · exact invisible_raise s _
  · exact ((invisible_storeFpQueueTrap op s).trans (invisible_storeCpQueueTrap op _)).trans
      (invisible_storeRegisterTrap op _)

theorem invisible_atomicAddress : Invisible s (atomicAddress op s) := by
  unfold atomicAddress
  split_ifs <;> simp

theorem invisible_atomicAlignment : Invisible s (atomicAlignment op s) := by
  unfold atomicAlignment
  split_ifs <;> simp

theorem invisible_executePreFlush : Invisible s s.executePreFlush :=
  invisible_of_visible_eq rfl

end Before

/-- A word that is loaded is written to a register. -/
theorem quiet_writeLoaded {word : Word} (h : writeLoaded op s word = some s') : Quiet s s' := by
  unfold writeLoaded at h
  split at h <;> cases h
  all_goals exact ⟨rfl, rfl, rfl, rfl, rfl, rfl⟩

variable {w0 w1 : Word}

/-- A load after its access. -/
theorem outcome_executePostLoad (ht : s.trap = false) (h : executePostLoad op w0 w1 s = some s') :
    Outcome s s' := by
  unfold executePostLoad at h
  split at h
  · cases h
    exact outcome_raise s _
  split at h
  · split at h <;> cases h
    all_goals exact (quiet_of_control_eq (by simp)).outcome ht
  · simp only [bind_eq_bind, bind_eq_some_iff, ht] at h
    obtain ⟨word, -, h⟩ := h
    exact (quiet_writeLoaded h).outcome ht

/-- The data of a store are put in their lanes. -/
theorem invisible_placeStore (h : placeStore op s = some s') : Invisible s s' := by
  simp only [placeStore, bind_eq_bind, bind_eq_some_iff] at h
  obtain ⟨⟨byteMask, data0⟩, -, h⟩ := h
  split at h
  · simp only [bind_eq_some_iff] at h
    obtain ⟨data1, -, h⟩ := h
    split at h <;> cases h
    exact invisible_of_visible_eq rfl
  · split at h <;> cases h
    all_goals exact invisible_of_visible_eq rfl

/-- A store, up to its access. -/
theorem invisible_executePreStore (h : executePreStore op s = some s') : Invisible s s' := by
  simp only [executePreStore] at h
  have h1 := invisible_storePrivilege op s
  split at h
  · cases h
    exact h1
  have h2 := (h1.trans (invisible_storeAddress op _)).trans (invisible_storeUnitTraps op _)
  split at h
  · cases h
    exact h2
  have h3 := h2.trans (invisible_storeTraps op _)
  split at h
  · cases h
    exact h3
  · exact h3.trans (invisible_placeStore h)

/-- The data of an atomic are put in their lanes. -/
theorem invisible_placeAtomic (h : placeAtomic op s = some s') : Invisible s s' := by
  unfold placeAtomic at h
  split at h
  · simp only [bind_eq_bind, bind_eq_some_iff] at h
    obtain ⟨byteMask, -, h⟩ := h
    cases h
    exact invisible_of_visible_eq rfl
  split at h
  · simp only [bind_eq_bind, bind_eq_some_iff] at h
    obtain ⟨byteMask, -, h⟩ := h
    cases h
    exact invisible_of_visible_eq rfl
  · cases h
    exact Invisible.refl s

/-- An atomic, up to its access. -/
theorem invisible_executePreAtomicLoadStore (h : executePreAtomicLoadStore op s = some s') :
    Invisible s s' := by
  simp only [executePreAtomicLoadStore] at h
  have h1 := (invisible_atomicAddress op s).trans (invisible_atomicAlignment op _)
  split at h
  · cases h
    exact h1
  · exact h1.trans (invisible_placeAtomic h)

/-- An atomic after its access. -/
theorem outcome_executePostAtomicLoadStore (ht : s.trap = false)
    (h : executePostAtomicLoadStore op w0 w1 s = some s') : Outcome s s' := by
  unfold executePostAtomicLoadStore at h
  split at h
  · cases h
    exact Invisible.outcome (invisible_of_visible_eq rfl)
  · simp only [bind_eq_bind, bind_eq_some_iff] at h
    obtain ⟨word, -, h⟩ := h
    cases h
    exact Quiet.outcome ht ⟨rfl, rfl, rfl, rfl, rfl, rfl⟩

/-! ## Floating-point operations -/

/-- An operation is computed, and its result waits. -/
theorem invisible_executeFPop {fpu : FloatingPointFunctions} (h : executeFPop fpu op s = some s') :
    Invisible s s' := by
  simp only [executeFPop, bind_eq_bind, bind_eq_some_iff] at h
  obtain ⟨result, -, h⟩ := h
  have hr : Invisible s
      { s with reg := { s.reg.clearFpSignals.wFpResult result with fpuC := 1 } } := by
    cases result <;> exact invisible_of_visible_eq rfl
  split at h <;> cases h
  · exact hr.trans (invisible_raiseFp _ _)
  · exact hr

/-- The current exceptions are below the rest of the FSR. -/
theorem invisible_wCexc (s : SparcCore nw) (val : Word) :
    Invisible s { s with reg := s.reg.wCexc val } where
  frame := ⟨rfl, rfl, rfl, rfl, rfl, rfl, rfl,
    readBits_writeBits_off (by decide),
    readBits_writeBits_off (by decide), rfl, rfl, rfl⟩
  wellFormed h := h.of_config rfl h.cwp h.pc h.npc h.tbr

section

variable (reg : Registers nw)
include reg

/-- The exceptions are in the FSR. -/
theorem control_accumulateExceptions : reg.accumulateExceptions.control = reg.control := by
  simp only [Registers.accumulateExceptions, Registers.wAexc, Registers.wCexc,
    Registers.control_wFSRField]

theorem control_retireFp : reg.retireFp.control = reg.control := rfl

theorem control_wSingleResult : reg.wSingleResult.control = reg.control := by
  unfold Registers.wSingleResult
  split <;> simp

theorem control_wDoubleResult : reg.wDoubleResult.control = reg.control := by
  unfold Registers.wDoubleResult
  split <;> simp [Registers.wDouble]

theorem control_wQuadResult : reg.wQuadResult.control = reg.control := by
  unfold Registers.wQuadResult
  split <;> simp [Registers.wQuad]

theorem control_wCompareResult : reg.wCompareResult.control = reg.control := by
  unfold Registers.wCompareResult
  split <;> simp [Registers.wFcc]

end

/-- The result that waits is written. -/
theorem quiet_completeResults (s : SparcCore nw) :
    Quiet s { s with reg := completeResults s.reg } := by
  apply quiet_of_control_eq
  rw [completeResults, control_retireFp, control_wCompareResult, control_wQuadResult,
    control_wDoubleResult, control_wSingleResult, control_accumulateExceptions]

/-- The unit traps, or its result is written. -/
theorem outcome_completeFpExecution (ht : s.trap = false) : Outcome s s.completeFpExecution := by
  unfold completeFpExecution
  split_ifs
  · exact (Invisible.refl s).outcome
  · exact (invisible_raiseFp s _).outcome
  · exact (invisible_raiseFp s _).outcome
  · exact ((invisible_wCexc s _).trans (invisible_raiseFp _ _)).outcome
  · exact (quiet_completeResults s).outcome ht

end SparcCore

end SparcV8
