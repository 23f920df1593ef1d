import SparcV8.Processor.Invariant

/-!
# Register windows for other window counts

The number of register windows is a constant of the source, said to be between 2 and 32. The windows
form a ring if it divides `2 ^ 32`, since `CWP - 1` wraps in 32 bits before the remainder is taken;
and the mask of a `WIM` write shifts a word by that number, which is defined below 32 only.
-/

namespace SparcV8

open Opcode Registers SparcCore BitVec Nat

variable {nw : Nat} {σ : Type}

/-- `W_WIM` of the source, where its shift is defined. -/
def Registers.wWIM? (reg : Registers nw) (val : Word) : Option (Registers nw) :=
  if nw < 32 then some (reg.wWIM val) else none

/-- Windows `a` and `b` are at least two apart on the ring. -/
def Apart (nw a b : Nat) : Prop :=
  2 ≤ (b + nw - a) % nw ∧ 2 ≤ (a + nw - b) % nw

/-- The windows are a ring of 24 registers each, with eight shared by neighbours. -/
structure WindowsWork (fpu : FloatingPointFunctions) (mem : VirtualMemory σ) (init : σ → Prop)
    (env : σ → σ → Prop) (nw : Nat) : Prop where
  save : ∀ (s : SparcCore nw) m, Reachable fpu mem init env s m →
    (executeSaveRestore SAVE s).trap = false →
    (executeSaveRestore SAVE s).reg.rCWP.toNat = (s.reg.rCWP.toNat + nw - 1) % nw
  trapEntry : ∀ (s : SparcCore nw) m, Reachable fpu mem init env s m →
    (leaveReset s).checkExternalTraps.trap = true →
    (leaveReset s).checkExternalTraps.selectTrap.state ≠ .ERROR →
    (takeTraps (leaveReset s)).reg.rCWP.toNat = (s.reg.rCWP.toNat + nw - 1) % nw
  restore : ∀ (s : SparcCore nw) m, Reachable fpu mem init env s m →
    (executeSaveRestore RESTORE s).trap = false →
    (executeSaveRestore RESTORE s).reg.rCWP.toNat = (s.reg.rCWP.toNat + 1) % nw
  rett : ∀ (s : SparcCore nw) m, Reachable fpu mem init env s m →
    s.executeRETT.trap = false → s.executeRETT.reg.rCWP.toNat = (s.reg.rCWP.toNat + 1) % nw
  /-- The outs of the old window are the ins of the new one. -/
  outs : ∀ (s : SparcCore nw) m, Reachable fpu mem init env s m →
    (executeSaveRestore SAVE s).trap = false → ∀ n : RegNum, 8 ≤ n.toNat → n.toNat < 16 →
    windowIndex nw (executeSaveRestore SAVE s).reg.rCWP (n + 16) =
        windowIndex nw s.reg.rCWP n ∧
      (s.reg.rRd ≠ n + 16 → (executeSaveRestore SAVE s).reg.rR (n + 16) = s.reg.rR n)
  /-- A `RESTORE` in the windows that the `SAVE` left gives back what neither of the two writes as
  its destination. -/
  roundTrip : ∀ (s : SparcCore nw) m, Reachable fpu mem init env s m →
    (executeSaveRestore SAVE s).trap = false → ∀ t : SparcCore nw,
    t.reg.R = (executeSaveRestore SAVE s).reg.R →
    t.reg.rCWP = (executeSaveRestore SAVE s).reg.rCWP →
    (executeSaveRestore RESTORE t).trap = false → ∀ n : RegNum, 7 < n.toNat →
    ¬(7 < s.reg.rRd.toNat ∧
      windowIndex nw s.reg.rCWP n = windowIndex nw t.reg.rCWP s.reg.rRd) →
    n ≠ t.reg.rRd → (executeSaveRestore RESTORE t).reg.rR n = s.reg.rR n
  apart : ∀ a b : Word, a.toNat < nw → b.toNat < nw → Apart nw a.toNat b.toNat →
    ∀ n k : RegNum, 7 < n.toNat → 7 < k.toNat → windowIndex nw a n ≠ windowIndex nw b k
  wim : ∀ (s : SparcCore nw) m, Reachable fpu mem init env s m → ∀ val,
    ∃ reg, s.reg.wWIM? val = some reg ∧ reg.WIM.toNat = val.toNat % 2 ^ nw

/-! ## One instruction -/

/-- The window that `SAVE` or `RESTORE` moves to. -/
def newWindow (op : Opcode) (reg : Registers nw) : Word :=
  if op == SAVE then reg.previousWindow else reg.nextWindow

/-- A `SAVE` or `RESTORE` without a trap writes its destination in the new window. -/
theorem executeSaveRestore_spec {op : Opcode} {s : SparcCore nw} (hnw : 0 < nw) (hnw' : nw ≤ 32)
    (h : (executeSaveRestore op s).trap = false) :
    (executeSaveRestore op s).reg.rCWP = newWindow op s.reg ∧
      ∀ p, ¬(7 < s.reg.rRd.toNat ∧ p = windowIndex nw (newWindow op s.reg) s.reg.rRd) →
        (executeSaveRestore op s).reg.R p = s.reg.R p := by
  have hlt : (newWindow op s.reg).toNat < 32 := by
    unfold newWindow
    split
    · exact (toNat_previousWindow_lt s.reg hnw hnw').trans_le hnw'
    · exact (toNat_nextWindow_lt s.reg hnw hnw').trans_le hnw'
  have hcwp := rCWP_wCWP s.reg hlt
  simp only [executeSaveRestore] at h ⊢
  rw [show (if op == SAVE then s.reg.previousWindow else s.reg.nextWindow) =
    newWindow op s.reg from rfl] at h ⊢
  split at h
  · cases h
  · next hvalid =>
    rw [if_neg hvalid]
    split
    · refine ⟨hcwp, fun p hp => ?_⟩
      change (if 7 < s.reg.rRd.toNat then Function.update s.reg.R
        (windowIndex nw (s.reg.wCWP (newWindow op s.reg)).rCWP s.reg.rRd) _ else s.reg.R) p = _
      rw [hcwp]
      split
      · next hrd => exact Function.update_of_ne (fun hpd => hp ⟨hrd, hpd⟩) ..
      · rfl
    · exact ⟨hcwp, fun _ _ => rfl⟩

variable (reg : Registers nw)

theorem toNat_nextWindow (hnw : nw ≤ 32) (h : reg.rCWP.toNat < nw) :
    reg.nextWindow.toNat = (reg.rCWP.toNat + 1) % nw := by
  rw [nextWindow, toNat_umod, toNat_ofNat, toNat_add, mod_eq_of_lt (show nw < 2 ^ 32 by omega)]
  exact congrArg (· % nw) (mod_eq_of_lt (show reg.rCWP.toNat + 1 < 2 ^ 32 by omega))

/-- `CWP - 1` is taken modulo `2 ^ 32` first. -/
theorem toNat_previousWindow (hnw : nw ≤ 32) :
    reg.previousWindow.toNat = (2 ^ 32 - 1 + reg.rCWP.toNat) % 2 ^ 32 % nw := by
  rw [previousWindow, toNat_umod, toNat_ofNat, toNat_sub, mod_eq_of_lt (show nw < 2 ^ 32 by omega)]
  rfl

theorem toNat_previousWindow_of_dvd (hnw : nw ≤ 32) (hdvd : nw ∣ 2 ^ 32) (h : reg.rCWP.toNat < nw) :
    reg.previousWindow.toNat = (reg.rCWP.toNat + nw - 1) % nw := by
  obtain ⟨q, hq⟩ := hdvd
  cases q with
  | zero => omega
  | succ q =>
    rw [toNat_previousWindow reg hnw, Nat.mod_mod_of_dvd _ ⟨q + 1, hq⟩, hq, Nat.mul_succ,
      show nw * q + nw - 1 + reg.rCWP.toNat = reg.rCWP.toNat + nw - 1 + nw * q by omega,
      Nat.add_mul_mod_self_left]

theorem toNat_wWIM (val : Word) (hnw : nw < 32) :
    (reg.wWIM val).WIM.toNat = val.toNat % 2 ^ nw := by
  refine Nat.eq_of_testBit_eq fun i => ?_
  rw [Nat.testBit_mod_two_pow, testBit_toNat, testBit_toNat]
  simp only [wWIM, getLsbD_and, getLsbD_not, getLsbD_shiftLeft]
  by_cases hi : i < nw
  · simp [hi, show i < 32 by omega]
  · by_cases hi' : i < 32
    · simp [hi, hi', show i - nw < 32 by omega]
    · simp [hi, hi']

/-! ## Positions of registers -/

theorem mod_cases {x m : Nat} (h : x < 2 * m) : x % m = x ∧ x < m ∨ x % m = x - m ∧ m ≤ x := by
  rcases Nat.lt_or_ge x m with hlt | hge
  · exact .inl ⟨mod_eq_of_lt hlt, hlt⟩
  · exact .inr ⟨by rw [Nat.mod_eq_sub_mod hge, mod_eq_of_lt (by omega)], hge⟩

/-- The ins of the window below are the outs of a window. -/
theorem windowIndex_ins {c d : Word} {n : RegNum} (hc : c.toNat < nw)
    (hd : d.toNat = (c.toNat + nw - 1) % nw) (hn : 8 ≤ n.toNat) (hn' : n.toNat < 16) :
    windowIndex nw d (n + 16) = windowIndex nw c n := by
  have hadd : (n + 16).toNat = n.toNat + 16 := by
    rw [toNat_add]
    exact mod_eq_of_lt (show n.toNat + 16 < 32 by omega)
  unfold windowIndex
  rw [hadd, hd]
  rcases mod_cases (show c.toNat + nw - 1 < 2 * nw by omega) with ⟨h, hlt⟩ | ⟨h, hge⟩
  · rw [h, show c.toNat = 0 by omega,
      show n.toNat + 16 - 8 + (0 + nw - 1) * 16 = n.toNat - 8 + 0 * 16 + 16 * nw by omega,
      Nat.add_mod_right]
  · rw [h]
    congr 1
    omega

/-- Windows two apart share no register. -/
theorem windowIndex_ne {a b : Word} (ha : a.toNat < nw) (hb : b.toNat < nw)
    (hab : Apart nw a.toNat b.toNat) (n k : RegNum) (hn : 7 < n.toNat) (hk : 7 < k.toNat) :
    windowIndex nw a n ≠ windowIndex nw b k := by
  have hn' := n.isLt
  have hk' := k.isLt
  obtain ⟨h₁, h₂⟩ := hab
  unfold windowIndex
  rcases mod_cases (show b.toNat + nw - a.toNat < 2 * nw by omega) with h | h <;>
  rcases mod_cases (show a.toNat + nw - b.toNat < 2 * nw by omega) with h' | h' <;>
  rcases mod_cases (show n.toNat - 8 + a.toNat * 16 < 2 * (16 * nw) by omega) with g | g <;>
  rcases mod_cases (show k.toNat - 8 + b.toNat * 16 < 2 * (16 * nw) by omega) with g' | g' <;>
  omega

/-! ## All of a core's windows -/

section Ring

variable {s : SparcCore nw} (hnw : 0 < nw) (hnw' : nw ≤ 32)
include hnw hnw'

theorem rCWP_executeTraps (ht : s.trap = true) (hstate : s.selectTrap.state ≠ .ERROR) :
    s.executeTraps.reg.rCWP = s.reg.previousWindow := by
  have hsel : s.selectTrap.reg.PSR = s.reg.PSR := by
    unfold selectTrap chooseTrap
    split
    · rfl
    · split
      · rfl
      · split <;> rfl
  have hprev : s.selectTrap.reg.previousWindow = s.reg.previousWindow := by
    unfold previousWindow rCWP
    rw [hsel]
  have hcwp := (rCWP_enterWindow s.selectTrap.reg hnw hnw').trans hprev
  unfold executeTraps jumpToVector saveReturn
  rw [if_pos ht]
  simp only [hstate, if_false]
  rw [← hcwp]
  have hs (r : Registers nw) : (r.wS 1).rCWP = r.rCWP :=
    rCWP_wPSRField _ _ (by decide) (by decide)
  split <;> split <;> exact hs _

theorem rCWP_takeTraps (ht : (leaveReset s).checkExternalTraps.trap = true)
    (hstate : (leaveReset s).checkExternalTraps.selectTrap.state ≠ .ERROR) :
    (takeTraps (leaveReset s)).reg.rCWP = s.reg.previousWindow := by
  have hreg : (leaveReset s).checkExternalTraps.reg = s.reg := by
    unfold leaveReset checkExternalTraps
    split <;> split <;> rfl
  rw [takeTraps, rCWP_executeTraps hnw hnw' ht hstate, hreg]

theorem rCWP_executeRETT (h : s.executeRETT.trap = false) :
    s.executeRETT.reg.rCWP = s.reg.nextWindow := by
  simp only [executeRETT] at h ⊢
  split at h
  · cases h
  split at h
  · cases h
  split at h
  · cases h
  split at h
  · cases h
  · next h₁ h₂ h₃ h₄ =>
    rw [if_neg h₁, if_neg h₂, if_neg h₃, if_neg h₄, wS, rCWP_wPSRField _ _ (by decide) (by decide)]
    exact rCWP_wCWP _ ((toNat_nextWindow_lt s.reg hnw hnw').trans_le hnw')

omit hnw hnw' in
/-- A reset is taken whatever the pins ask for. -/
theorem reset_taken (s : SparcCore nw) (hreset : s.flag .resetTrap = true) (ht : s.trap = true)
    (hstate : s.state = .EXECUTE) :
    s.checkExternalTraps.trap = true ∧ s.checkExternalTraps.selectTrap.state ≠ .ERROR := by
  unfold checkExternalTraps selectTrap chooseTrap
  cases s.interruptPending <;> simp [hreset, ht, hstate]

end Ring

/-- The register `n` of a window that no position of its own has changed. -/
theorem rR_eq_of_R {r r' : Registers nw} {n k : RegNum} (hn : 7 < n.toNat) (hk : 7 < k.toNat)
    (h : r.R (windowIndex nw r.rCWP n) = r'.R (windowIndex nw r'.rCWP k)) : r.rR n = r'.rR k := by
  have hne {n : RegNum} (hn : 7 < n.toNat) (r : Registers nw) :
      r.rR n = r.R (windowIndex nw r.rCWP n) := by
    rw [rR, if_neg (by rintro rfl; cases hn), if_neg (by omega)]
  rw [hne hn, hne hk, h]

/-- The windows work for 2, 4, 8 and 16, and for no other number up to 32. -/
theorem windows_work_iff (fpu : FloatingPointFunctions) (mem : VirtualMemory σ)
    (init : σ → Prop) (env : σ → σ → Prop) (hinit : ∃ m, init m) (nw : Nat) (hnw : 2 ≤ nw)
    (hnw' : nw ≤ 32) : WindowsWork fpu mem init env nw ↔ nw ∣ 2 ^ 32 ∧ nw < 32 := by
  have hpos : 0 < nw := by omega
  constructor
  · intro h
    obtain ⟨m, hm⟩ := hinit
    have hreset : Reachable fpu mem init env (initial 0 0 0 0 false : SparcCore nw) m :=
      .reset 0 0 0 0 false (by decide) hm
    constructor
    · have hcwp : (initial 0 0 0 0 false : SparcCore nw).reg.rCWP.toNat = 0 :=
        (by decide : (readBits (writeBits (writeBits 0 7 7 1) 5 5 1) 4 0).toNat = 0)
      obtain ⟨htrap, hstate⟩ := reset_taken
        (leaveReset (initial 0 0 0 0 false : SparcCore nw)) rfl rfl rfl
      have hentry := h.trapEntry _ m hreset htrap hstate
      rw [rCWP_takeTraps hpos hnw' htrap hstate, toNat_previousWindow _ hnw', hcwp, Nat.zero_add,
        mod_eq_of_lt (show nw - 1 < nw by omega), Nat.add_zero,
        mod_eq_of_lt (show 2 ^ 32 - 1 < 2 ^ 32 by decide)] at hentry
      have hdiv := Nat.div_add_mod (2 ^ 32 - 1) nw
      rw [hentry] at hdiv
      exact ⟨(2 ^ 32 - 1) / nw + 1, by rw [Nat.mul_succ]; omega⟩
    · obtain ⟨reg, hreg, -⟩ := h.wim _ m hreset 0
      by_contra hge
      rw [wWIM?, if_neg hge] at hreg
      cases hreg
  · rintro ⟨hdvd, hlt⟩
    have hcwp {s : SparcCore nw} {m : σ} (hr : Reachable fpu mem init env s m) :
        s.reg.rCWP.toNat < nw := (Reachable.wellFormed hpos hnw' hr).cwp
    have hprev {s : SparcCore nw} {m : σ} (hr : Reachable fpu mem init env s m) :=
      toNat_previousWindow_of_dvd s.reg hnw' hdvd (hcwp hr)
    have hsaved {s : SparcCore nw} {m : σ} (hr : Reachable fpu mem init env s m)
        (h : (executeSaveRestore SAVE s).trap = false) :
        (executeSaveRestore SAVE s).reg.rCWP.toNat = (s.reg.rCWP.toNat + nw - 1) % nw := by
      rw [(executeSaveRestore_spec hpos hnw' h).1]
      exact hprev hr
    have hsave {s : SparcCore nw} (h : (executeSaveRestore SAVE s).trap = false) :=
      executeSaveRestore_spec hpos hnw' h
    have hrestore {s : SparcCore nw} (h : (executeSaveRestore RESTORE s).trap = false) :=
      executeSaveRestore_spec hpos hnw' h
    refine ⟨fun s m hr h => hsaved hr h, fun s m hr ht hstate => ?_, fun s m hr h => ?_,
      fun s m hr h => ?_, fun s m hr h n hn hn' => ?_,
      fun s m hr h t hR hc h' n hn hd hd' => ?_, fun a b ha hb => windowIndex_ne ha hb,
      fun s m hr val => ?_⟩
    · rw [rCWP_takeTraps hpos hnw' ht hstate]
      exact hprev hr
    · rw [(hrestore h).1]
      exact toNat_nextWindow s.reg hnw' (hcwp hr)
    · rw [rCWP_executeRETT hpos hnw' h]
      exact toNat_nextWindow s.reg hnw' (hcwp hr)
    · have hindex := windowIndex_ins (hcwp hr) (hsaved hr h) hn hn'
      have hadd : 7 < (n + 16).toNat := by
        rw [toNat_add]
        exact lt_of_lt_of_eq (show 7 < n.toNat + 16 by omega)
          (mod_eq_of_lt (show n.toNat + 16 < 32 by omega)).symm
      refine ⟨hindex, fun hrd => rR_eq_of_R hadd hn ?_⟩
      rw [(hsave h).2 _, hindex]
      rintro ⟨hrd', heq⟩
      rw [(hsave h).1] at heq
      exact hrd (windowIndex_injective hnw _ hadd hrd' heq).symm
    · have hback : (executeSaveRestore RESTORE t).reg.rCWP = s.reg.rCWP := by
        have hc' : t.reg.rCWP.toNat = (s.reg.rCWP.toNat + nw - 1) % nw := by
          rw [hc]
          exact hsaved hr h
        have hlt := hcwp hr
        apply eq_of_toNat_eq
        rw [(hrestore h').1]
        change t.reg.nextWindow.toNat = _
        rw [toNat_nextWindow t.reg hnw' (hc' ▸ Nat.mod_lt _ hpos), hc']
        rcases mod_cases (show s.reg.rCWP.toNat + nw - 1 < 2 * nw by omega) with g | g <;>
        rcases mod_cases (show (s.reg.rCWP.toNat + nw - 1) % nw + 1 < 2 * nw by omega)
          with g' | g' <;> omega
      refine rR_eq_of_R hn hn ?_
      rw [hback, (hrestore h').2, hR, (hsave h).2]
      · rw [hc, (hsave h).1] at hd
        exact hd
      · rintro ⟨hrd, heq⟩
        rw [← (hrestore h').1, hback] at heq
        exact hd' (windowIndex_injective hnw _ hn hrd heq)
    · exact ⟨s.reg.wWIM val, if_pos hlt, toNat_wWIM s.reg val hlt⟩

/-- Eight windows, as the source has them. -/
theorem eight_windows_work : (8 ∣ 2 ^ 32 ∧ 8 < 32) ∧
    WindowsWork default MemCore.virtualMemory (fun _ => True) (fun _ _ => False) 8 :=
  ⟨by decide, (windows_work_iff _ _ _ _ ⟨zeroMemory, trivial⟩ 8 (by decide) (by decide)).mpr
    (by decide)⟩

/-- With three windows the reset trap is entered in window 0, not in 2. -/
theorem three_windows_fail :
    (initial 0 0 0 0 false : SparcCore 3).reg.rCWP = 0 ∧
      (takeTraps (leaveReset (initial 0 0 0 0 false : SparcCore 3))).reg.rCWP = 0 := by
  decide

end SparcV8
