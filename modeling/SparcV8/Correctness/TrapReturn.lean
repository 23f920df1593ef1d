import SparcV8.Correctness.Handled

/-!
# Trap entry and return

What `executeTraps` saves, a handler that keeps it and ends with `JMPL` through `r17`
and `RETT` through `r18` gives back: window, mode, trap enable and both program
counters.
-/

namespace SparcV8

open Opcode SparcCore Function Registers MemCore Option Reachable

variable {nw : Nat} {σ : Type}

/-! ## Trap entry -/

/-- What a trap saves and sets, for a trap taken in `s`. -/
structure TrapEntry (s t : SparcCore nw) : Prop where
  r17 : t.reg.rR 17 = if s.annul then s.reg.nPC else s.reg.PC
  r18 : t.reg.rR 18 = if s.annul then s.reg.nPC + 4 else s.reg.nPC
  et : t.reg.rET = 0
  ps : t.reg.rPS = s.reg.rS
  supervisor : t.reg.rS = 1
  cwp : t.reg.rCWP = s.reg.previousWindow
  annul : t.annul = false
  trap : t.trap = false
  state : t.state = s.state
  globals : t.reg.G = s.reg.G
  /-- No windowed register other than `r17` and `r18` of the new window changes. -/
  windows : ∀ i, i ≠ windowIndex nw t.reg.rCWP 17 →
    i ≠ windowIndex nw t.reg.rCWP 18 → t.reg.R i = s.reg.R i

variable {s : SparcCore nw}

/-- Choosing the trap touches nothing but `tt`. -/
theorem selectTrap_eq (het : s.reg.rET = 1) (hr : s.flag .resetTrap = false) :
    ∃ tbr, s.selectTrap.reg = { s.reg with TBR := tbr } ∧ s.selectTrap.state = s.state ∧
      s.selectTrap.annul = s.annul ∧ s.selectTrap.trap = false ∧
      s.selectTrap.flag .resetTrap = false := by
  have het0 : ¬s.reg.rET = 0 := by rw [het]; decide
  have hnot : TrapFlag.resetTrap ∉ selectedFlags := by decide
  unfold selectTrap chooseTrap
  rw [hr, if_off, if_neg het0]
  cases s.trapType with
  | none => exact ⟨s.reg.TBR, rfl, rfl, rfl, rfl, by simp [hnot, hr]⟩
  | some tt => exact ⟨writeBits s.reg.TBR 11 4 tt, rfl, rfl, rfl, rfl, by simp [hnot, hr]⟩

namespace Registers

/-- A one-bit value survives a one-bit field. -/
theorem readBits_bit_readBits (x : Word) {i : Nat} (hi : i < 32) :
    readBits (readBits x i i) 0 0 = readBits x i i := by
  rcases readBits_bit x hi with h | h <;> rw [h] <;> decide

variable (reg : Registers nw)

theorem rET_enterWindow : (enterWindow reg).rET = 0 := by
  simp only [enterWindow, rET, wCWP, wPS, wET, wPSRField]
  rw [readBits_writeBits_off (by decide), readBits_writeBits_off (by decide),
    readBits_writeBits_self (by decide)]
  decide

theorem rPS_enterWindow : (enterWindow reg).rPS = reg.rS := by
  simp only [enterWindow, rPS, rS, wCWP, wPS, wET, wPSRField]
  rw [readBits_writeBits_off (by decide), readBits_writeBits_self (by decide),
    readBits_writeBits_off (by decide)]
  exact readBits_bit_readBits reg.PSR (by decide)

end Registers

theorem saveReturn_eq :
    s.saveReturn = { s with
      reg := (s.reg.wR 17 (if s.annul then s.reg.nPC else s.reg.PC)).wR 18
        (if s.annul then s.reg.nPC + 4 else s.reg.nPC)
      annul := false } := by
  cases h : s.annul with
  | false => simp [saveReturn, h]
  | true => simp [saveReturn, h]

/-- The registers of a trap entry: return addresses and mode. -/
structure EnteredRegisters (r q : Registers nw) (x y : Word) : Prop where
  r17 : q.rR 17 = x
  r18 : q.rR 18 = y
  et : q.rET = r.rET
  ps : q.rPS = r.rPS
  supervisor : q.rS = 1
  cwp : q.rCWP = r.rCWP
  globals : q.G = r.G
  windows : ∀ i, i ≠ windowIndex nw r.rCWP 17 →
    i ≠ windowIndex nw r.rCWP 18 → q.R i = r.R i

theorem enteredRegisters (hnw : 2 ≤ nw) (r : Registers nw) (x y : Word) :
    EnteredRegisters r (((r.wR 17 x).wR 18 y).wS 1) x y := by
  have hR : ∀ n, (((r.wR 17 x).wR 18 y).wS 1).rR n = ((r.wR 17 x).wR 18 y).rR n :=
    rR_wPSRField _ _ (by decide) (by decide)
  have hpsr : (((r.wR 17 x).wR 18 y).wS 1).PSR = writeBits r.PSR 7 7 1 := rfl
  constructor
  · rw [hR, rR_wR_of_ne _ hnw _ (by decide), rR_wR_self _ _ (by decide)]
  · rw [hR, rR_wR_self _ _ (by decide)]
  · rw [rET, hpsr, readBits_writeBits_off (by decide)]
    rfl
  · rw [rPS, hpsr, readBits_writeBits_off (by decide)]
    rfl
  · rw [rS, hpsr, readBits_writeBits_self (by decide)]
    decide
  · exact rCWP_wPSRField _ _ (by decide) (by decide)
  · rfl
  · intro i h17 h18
    change update (update r.R (windowIndex nw r.rCWP 17) x)
      (windowIndex nw r.rCWP 18) y i = _
    rw [update_of_ne h18, update_of_ne h17]

theorem trapEntry_executeTraps {s : SparcCore 8} (ht : s.trap = true) (het : s.reg.rET = 1)
    (hr : s.flag .resetTrap = false) (hstate : s.state = .EXECUTE) :
    TrapEntry s s.executeTraps := by
  obtain ⟨tbr, hreg, hst, han, htr, hfl⟩ := selectTrap_eq het hr
  have hne : ¬s.selectTrap.state = .ERROR := by
    rw [hst, hstate]
    decide
  unfold executeTraps
  rw [if_pos ht]
  simp only [hne, if_false]
  generalize s.selectTrap = u at hreg hst han htr hfl
  rw [saveReturn_eq, jumpToVector]
  simp only [hfl, if_true, han]
  -- the registers in the new window, before the return addresses are saved
  have hcwp : (enterWindow u.reg).rCWP = s.reg.previousWindow := by
    rw [rCWP_enterWindow _ (by decide) (by decide), hreg]
    rfl
  have het' := rET_enterWindow u.reg
  have hps : (enterWindow u.reg).rPS = s.reg.rS := by
    rw [rPS_enterWindow, hreg]
    rfl
  have hpc : (enterWindow u.reg).PC = s.reg.PC := by rw [hreg]; rfl
  have hnpc : (enterWindow u.reg).nPC = s.reg.nPC := by rw [hreg]; rfl
  have hG : (enterWindow u.reg).G = s.reg.G := by rw [hreg]; rfl
  have hR : (enterWindow u.reg).R = s.reg.R := by rw [hreg]; rfl
  generalize enterWindow u.reg = r at hcwp het' hps hpc hnpc hG hR
  rw [hpc, hnpc]
  have hq := enteredRegisters (by decide) r (if s.annul = true then s.reg.nPC else s.reg.PC)
    (if s.annul = true then s.reg.nPC + 4 else s.reg.nPC)
  generalize ((r.wR 17 _).wR 18 _).wS 1 = q at hq
  exact
    { r17 := hq.r17
      r18 := hq.r18
      et := hq.et.trans het'
      ps := hq.ps.trans hps
      supervisor := hq.supervisor
      cwp := hq.cwp.trans hcwp
      annul := rfl
      trap := htr
      state := hst
      globals := hq.globals.trans hG
      windows := fun i h17 h18 => by
        have hc : ((q.wPC q.TBR).wNPC (q.TBR + 4)).rCWP = r.rCWP := hq.cwp
        rw [hc] at h17 h18
        exact (hq.windows i h17 h18).trans (congrFun hR i) }

/-! ## Return -/

/-- The instruction `op3` with `rs1` `n` and a second operand of 0, in either form. -/
def Registers.through (reg : Registers nw) (op3 : Word) (n : RegNum) : Prop :=
  reg.rOp = 2 ∧ reg.rOp3 = op3 ∧ reg.rRs1 = n ∧
    (reg.rI = 0 ∧ reg.rRs2 = 0 ∨ reg.rI ≠ 0 ∧ reg.rSimm13 = 0)

theorem operand2_of_through {op3 : Word} {n : RegNum} (h : s.reg.through op3 n) :
    s.operand1 + s.operand2 = s.reg.rR n := by
  obtain ⟨-, -, hrs1, h | h⟩ := h
  · simp [operand1, operand2, hrs1, h.1, h.2, rR]
  · have h0 : signExtend 0 12 = 0 := by decide
    rw [operand1, operand2, hrs1, if_neg h.1, h.2, h0]
    exact BitVec.add_zero _

theorem decode_of_through {reg : Registers nw} {n : RegNum} :
    (reg.through 0x38 n → reg.decode = some JMPL) ∧
      (reg.through 0x39 n → reg.decode = some RETT) := by
  constructor <;> rintro ⟨hop, hop3, -⟩ <;>
    simp [decode, decodeArith, hop, hop3, arithOpcodes]

/-- A control transfer that passes the checks is executed by its own function. -/
theorem executeWord_of_transfer {fpu : FloatingPointFunctions} {mem : VirtualMemory σ} {op : Opcode}
    {word : Word} {m : σ} {f : SparcCore nw → SparcCore nw} (hop : op = JMPL ∨ op = RETT)
    (hf : ∀ t, executeCurrentInstruction fpu mem op t m = some (f t, m))
    (hdecode : (s.fetched word).reg.decode = some op)
    (hrop : (s.fetched word).reg.rOp = 2) (ht : s.trap = false) :
    executeWord fpu mem word s m =
      some (f { s.fetched word with
        flag := update s.flag .illegalIUInstr false }, m) := by
  have hcheck : checkInstructionException op (s.fetched word) =
      { s.fetched word with flag := update s.flag .illegalIUInstr false } := by
    have hunimp : ¬((s.fetched word).reg.rOp = 0 ∧ (s.fetched word).reg.rOp2 = 0) := by
      simp [hrop]
    rcases hop with rfl | rfl
    all_goals exact checkInstructionException_eq (by decide) rfl rfl hunimp
  have hfinish : ∀ t : SparcCore nw, finishInstruction op (completeFPop op t) = t := by
    intro t
    have hfp : (op.isFpop1Instruction || op.isFpop2Instruction) = false := by
      rcases hop with rfl | rfl <;> rfl
    have hbr : op.isBranchInstruction = true := by
      rcases hop with rfl | rfl <;> rfl
    simp [finishInstruction, completeFPop, hfp, hbr]
  have htrap : (checkInstructionException op (s.fetched word)).trap = false := by
    rw [hcheck]
    exact ht
  simp only [executeWord, hdecode, bind_eq_bind, bind_some, dispatchInstruction, htrap,
    if_off, hf, hfinish]
  rw [hcheck]

/-- A core in the window of a handler whose `RETT` through `r18` returns to `y`. -/
structure Handling (h : SparcCore nw) (y : Word) : Prop where
  r18 : h.reg.rR 18 = y
  aligned : readBits y 1 0 = 0
  et : h.reg.rET = 0
  supervisor : h.reg.rS = 1
  /-- The window above is valid. -/
  window : h.reg.windowInvalid h.reg.nextWindow = false
  trap : h.trap = false

variable {h : SparcCore nw}

/-- `JMPL` through `r17`, not to `r18`, puts the first return address into `nPC`. -/
theorem executeJMPL_of_handling (hnw : 2 ≤ nw) {x y : Word} (hh : Handling h y)
    (h17 : h.reg.rR 17 = x) (hx : readBits x 1 0 = 0) (hw : h.reg.through 0x38 17)
    (hrd : h.reg.rRd ≠ 18) :
    h.executeJMPL = { h with reg := ((h.reg.wR h.reg.rRd h.reg.PC).wPC h.reg.nPC).wNPC x } ∧
      Handling h.executeJMPL y := by
  have hjump : h.operand1 + h.operand2 = x := (operand2_of_through hw).trans h17
  have heq : h.executeJMPL =
      { h with reg := ((h.reg.wR h.reg.rRd h.reg.PC).wPC h.reg.nPC).wNPC x } := by
    simp [executeJMPL, hjump, hx]
  refine ⟨heq, ?_⟩
  rw [heq]
  refine ⟨?_, hh.aligned, hh.et, hh.supervisor, hh.window, hh.trap⟩
  have hr18 := rR_wR_of_ne h.reg hnw h.reg.PC hrd.symm
  exact hr18.trans hh.r18

/-- `RETT` through `r18` goes back to the window above with the saved mode. -/
theorem executeRETT_of_handling {y : Word} (hh : Handling h y) (hw : h.reg.through 0x39 18) :
    h.executeRETT = { h with
      address := y
      reg := ((((h.reg.wET 1).wPC h.reg.nPC).wNPC y).wCWP h.reg.nextWindow).wS
        ((((h.reg.wET 1).wPC h.reg.nPC).wNPC y).wCWP h.reg.nextWindow).rPS } := by
  have hjump : h.operand1 + h.operand2 = y := (operand2_of_through hw).trans hh.r18
  have het : ¬h.reg.rET = 1 := by rw [hh.et]; decide
  have hs : ¬h.reg.rS = 0 := by rw [hh.supervisor]; decide
  simp only [executeRETT, hjump, het, hs, hh.window, hh.aligned, if_false, Bool.false_eq_true,
    ne_eq, not_true_eq_false]

/-- The core continues at `x` and then `y`, in window `cwp` and mode `mode`. -/
structure Resumed (z : SparcCore nw) (x y cwp mode : Word) : Prop where
  pc : z.reg.PC = x
  npc : z.reg.nPC = y
  cwp : z.reg.rCWP = cwp
  mode : z.reg.rS = mode
  et : z.reg.rET = 1
  annul : z.annul = false
  trap : z.trap = false

theorem resumed_executeRETT (hnw : 0 < nw) (hnw' : nw ≤ 32) {y : Word} (hh : Handling h y)
    (hw : h.reg.through 0x39 18) (hannul : h.annul = false) :
    Resumed h.executeRETT h.reg.nPC y h.reg.nextWindow h.reg.rPS ∧
      h.executeRETT.state = h.state := by
  rw [executeRETT_of_handling hh hw]
  have hpsr : ∀ (r : Registers nw) (c : Word), ((((r.wET 1).wPC r.nPC).wNPC y).wCWP c).PSR =
      writeBits (writeBits r.PSR 5 5 1) 4 0 c := fun _ _ => rfl
  have hps : ((((h.reg.wET 1).wPC h.reg.nPC).wNPC y).wCWP h.reg.nextWindow).rPS = h.reg.rPS := by
    rw [rPS, hpsr, readBits_writeBits_off (by decide), readBits_writeBits_off (by decide)]
    rfl
  have hcwp : ((((h.reg.wET 1).wPC h.reg.nPC).wNPC y).wCWP h.reg.nextWindow).rCWP =
      h.reg.nextWindow :=
    rCWP_wCWP _ (lt_of_lt_of_le (toNat_nextWindow_lt h.reg hnw hnw') hnw')
  have het : ((((h.reg.wET 1).wPC h.reg.nPC).wNPC y).wCWP h.reg.nextWindow).rET = 1 := by
    rw [rET, hpsr, readBits_writeBits_off (by decide), readBits_writeBits_self (by decide)]
    decide
  rw [hps]
  have hpc : ((((h.reg.wET 1).wPC h.reg.nPC).wNPC y).wCWP h.reg.nextWindow).PC = h.reg.nPC := rfl
  have hnpc : ((((h.reg.wET 1).wPC h.reg.nPC).wNPC y).wCWP h.reg.nextWindow).nPC = y := rfl
  generalize (((h.reg.wET 1).wPC h.reg.nPC).wNPC y).wCWP h.reg.nextWindow = r at hcwp het hpc hnpc
  refine ⟨⟨hpc, hnpc, ?_, ?_, ?_, hannul, hh.trap⟩, rfl⟩
  · exact (rCWP_wPSRField r _ (by decide) (by decide)).trans hcwp
  · change readBits (writeBits r.PSR 7 7 h.reg.rPS) 7 7 = _
    rw [readBits_writeBits_self (by decide)]
    exact readBits_bit_readBits h.reg.PSR (by decide)
  · change readBits (writeBits r.PSR 7 7 h.reg.rPS) 5 5 = _
    rw [readBits_writeBits_off (by decide)]
    exact het

/-- The window above the window below is the window itself. -/
theorem next_previous_window {c : Word} (hc : c.toNat < 8) : ((c - 1) % 8 + 1) % 8 = c := by
  have h : ∀ k < 8, ((BitVec.ofNat 32 k - 1) % 8 + 1) % 8 = BitVec.ofNat 32 k := by decide
  have hk := h c.toNat hc
  rwa [BitVec.ofNat_toNat, BitVec.setWidth_eq] at hk

/-! ## Entry, handler and return -/

/-- What a handler leaves as it found it in `t`, the state after trap entry. -/
structure HandlerFrame (t u : SparcCore nw) : Prop where
  r17 : u.reg.rR 17 = t.reg.rR 17
  r18 : u.reg.rR 18 = t.reg.rR 18
  et : u.reg.rET = t.reg.rET
  cwp : u.reg.rCWP = t.reg.rCWP
  ps : u.reg.rPS = t.reg.rPS
  state : u.state = t.state
  annul : u.annul = t.annul
  trap : u.trap = false

theorem wellFormed_checkExternalTraps (h : s.WellFormed) : s.checkExternalTraps.WellFormed := by
  unfold checkExternalTraps
  split_ifs
  · exact h.of_config rfl h.cwp h.pc h.npc h.tbr
  · exact h

/-- The return addresses a trap saves are word-aligned. -/
theorem aligned_return (h : s.WellFormed) :
    readBits (if s.annul then s.reg.nPC else s.reg.PC) 1 0 = 0 ∧
      readBits (if s.annul then s.reg.nPC + 4 else s.reg.nPC) 1 0 = 0 := by
  cases s.annul with
  | false => exact ⟨h.pc, h.npc⟩
  | true => exact ⟨h.npc, readBits_low_add h.npc (by decide)⟩

/-- A handler that keeps frame and supervisor mode can return. -/
theorem handling_of_frame {s t u : SparcCore 8} (hs : s.WellFormed) (ht : TrapEntry s t)
    (hu : HandlerFrame t u) (hS : u.reg.rS = t.reg.rS)
    (hwim : u.reg.windowInvalid s.reg.rCWP = false) :
    Handling u (if s.annul then s.reg.nPC + 4 else s.reg.nPC) ∧
      u.reg.nextWindow = s.reg.rCWP := by
  have hnext : u.reg.nextWindow = s.reg.rCWP := by
    rw [nextWindow, hu.cwp, ht.cwp]
    exact next_previous_window hs.cwp
  refine ⟨⟨hu.r18.trans ht.r18, (aligned_return hs).2, hu.et.trans ht.et,
    hS.trans ht.supervisor, ?_, hu.trap⟩, hnext⟩
  rw [hnext]
  exact hwim

/-- The two instructions of the return, from the window of the handler. -/
theorem resumed_of_handling (fpu : FloatingPointFunctions) (mem : VirtualMemory σ) {u : SparcCore 8}
    {x y : Word} {jmpl rett : Word} (n : σ) (hu : Handling u y) (h17 : u.reg.rR 17 = x)
    (hx : readBits x 1 0 = 0) (hannul : u.annul = false) (hj : (u.fetched jmpl).reg.through 0x38 17)
    (hrd : (u.fetched jmpl).reg.rRd ≠ 18) (hr : (u.fetched rett).reg.through 0x39 18) :
    ∃ v z, executeWord fpu mem jmpl u n = some (v, n) ∧
      executeWord fpu mem rett v n = some (z, n) ∧
      Resumed z x y u.reg.nextWindow u.reg.rPS ∧ z.state = u.state := by
  have hjmpl := executeWord_of_transfer (.inl rfl)
    (fun _ => rfl : ∀ t, executeCurrentInstruction fpu mem JMPL t n = _)
    (decode_of_through.1 hj) hj.1 hu.trap
  obtain ⟨hv, hvh⟩ := executeJMPL_of_handling (by decide)
    (⟨hu.r18, hu.aligned, hu.et, hu.supervisor, hu.window, hu.trap⟩ :
      Handling { u.fetched jmpl with
        flag := update u.flag .illegalIUInstr false } y) h17 hx hj hrd
  generalize SparcCore.executeJMPL _ = v at hjmpl hv hvh
  have hrv : (v.fetched rett).reg.through 0x39 18 := hr
  have hrett := executeWord_of_transfer (.inr rfl)
    (fun _ => rfl : ∀ t, executeCurrentInstruction fpu mem RETT t n = _)
    (decode_of_through.2 hrv) hrv.1 hvh.trap
  have hvannul : v.annul = false := by
    rw [hv]
    exact hannul
  obtain ⟨hz, hzs⟩ := resumed_executeRETT (by decide) (by decide)
    (⟨hvh.r18, hvh.aligned, hvh.et, hvh.supervisor, hvh.window, hvh.trap⟩ :
      Handling { v.fetched rett with
        flag := update v.flag .illegalIUInstr false } y) hrv hvannul
  refine ⟨v, _, hjmpl, hrett, ?_, ?_⟩
  · have hnpc : v.reg.nPC = x := by rw [hv]; rfl
    have hpsr : v.reg.PSR = u.reg.PSR := by rw [hv]; rfl
    have hnext : v.reg.nextWindow = u.reg.nextWindow := by
      rw [nextWindow, nextWindow, rCWP, rCWP, hpsr]
    have hps : v.reg.rPS = u.reg.rPS := by rw [rPS, rPS, hpsr]
    rw [← hnpc, ← hnext, ← hps]
    exact hz
  · rw [hzs]
    rw [hv]
    rfl

/-- Trap entry, a handler that keeps its frame and stays in supervisor mode, and the return by
`JMPL` and `RETT`: the core resumes where the trap was taken. -/
theorem trap_return (fpu : FloatingPointFunctions) (mem : VirtualMemory σ) {init : σ → Prop}
    {env : σ → σ → Prop} {s₀ s : SparcCore 8} {m : σ} (h : Reachable fpu mem init env s₀ m)
    (hs : s = s₀ ∨ s = s₀.checkExternalTraps) (hstate : s.state = .EXECUTE) (htrap : s.trap = true)
    (het : s.reg.rET = 1) (hreset : s.flag .resetTrap = false) :
    (s.executeTraps.reg.G = s.reg.G ∧
      ∀ i, i ≠ windowIndex 8 s.executeTraps.reg.rCWP 17 →
        i ≠ windowIndex 8 s.executeTraps.reg.rCWP 18 →
        s.executeTraps.reg.R i = s.reg.R i) ∧
    ∀ (u : SparcCore 8) (jmpl rett : Word) (n : σ), HandlerFrame s.executeTraps u →
      u.reg.rS = s.executeTraps.reg.rS → u.reg.windowInvalid s.reg.rCWP = false →
      (u.fetched jmpl).reg.through 0x38 17 → (u.fetched jmpl).reg.rRd ≠ 18 →
      (u.fetched rett).reg.through 0x39 18 →
      ∃ v z, executeWord fpu mem jmpl u n = some (v, n) ∧
        executeWord fpu mem rett v n = some (z, n) ∧
        Resumed z (if s.annul then s.reg.nPC else s.reg.PC)
          (if s.annul then s.reg.nPC + 4 else s.reg.nPC) s.reg.rCWP s.reg.rS ∧
        z.state = .EXECUTE := by
  have hwf : s.WellFormed := by
    have hwf₀ := h.wellFormed (by decide) (by decide)
    rcases hs with rfl | rfl
    · exact hwf₀
    · exact wellFormed_checkExternalTraps hwf₀
  have hentry := trapEntry_executeTraps htrap het hreset hstate
  refine ⟨⟨hentry.globals, hentry.windows⟩, ?_⟩
  intro u jmpl rett n hu hS hwim hj hrd hr
  obtain ⟨hhandle, hnext⟩ := handling_of_frame hwf hentry hu hS hwim
  obtain ⟨v, z, hv, hz, hres, hst⟩ := resumed_of_handling fpu mem n hhandle
    (hu.r17.trans hentry.r17) (aligned_return hwf).1 (hu.annul.trans hentry.annul) hj hrd hr
  refine ⟨v, z, hv, hz, ?_, ?_⟩
  · rw [hnext, hu.ps, hentry.ps] at hres
    exact hres
  · rw [hst, hu.state, hentry.state, hstate]

/-! ## A first interrupt -/

/-- A program whose first instruction, `WRPSR`, enables traps. -/
def enableTrapsMemory : MemCore := wordMemory 0x818820A0

/-- The machine after that instruction. -/
def enabledMachine : SparcStateMachine 8 MemCore :=
  (SparcStateMachine.runOneCycle default virtualMemory
    ⟨resetCore, enableTrapsMemory, false⟩).get (by decide)

/-- Its core, with an interrupt of level 15 on the pins. -/
def requestedCore : SparcCore 8 :=
  { enabledMachine.core with reg := { enabledMachine.core.reg with bpIRL := 15 } }

theorem reachable_requestedCore :
    Reachable default virtualMemory (fun _ => True) (fun _ _ => False) requestedCore
      enabledMachine.mem :=
  pins 15 (cycle (reset 0 0 0 0 false (by decide) trivial)
    (some_get _).symm)

/-- An empty handler returns from the interrupt. -/
theorem trap_return_empty_handler :
    Reachable default virtualMemory (fun _ => True) (fun _ _ => False) requestedCore
        enabledMachine.mem ∧
    ∃ v z, executeWord default virtualMemory 0x81C46000
        requestedCore.checkExternalTraps.executeTraps enabledMachine.mem =
          some (v, enabledMachine.mem) ∧
      executeWord default virtualMemory 0x81CCA000 v enabledMachine.mem =
        some (z, enabledMachine.mem) ∧
      Resumed z 4 8 0 1 ∧ z.state = .EXECUTE := by
  have hret := (trap_return default virtualMemory reachable_requestedCore (.inr rfl)
    (by decide) (by decide) (by decide) (by decide)).2
    requestedCore.checkExternalTraps.executeTraps 0x81C46000 0x81CCA000 enabledMachine.mem
    ⟨rfl, rfl, rfl, rfl, rfl, rfl, rfl, by decide⟩ rfl (by decide)
    ⟨by decide, by decide, by decide, .inr ⟨by decide, by decide⟩⟩ (by decide)
    ⟨by decide, by decide, by decide, .inr ⟨by decide, by decide⟩⟩
  obtain ⟨v, z, hv, hz, hres, hst⟩ := hret
  exact ⟨reachable_requestedCore, v, z, hv, hz, hres, hst⟩

/-- After a handler whose one instruction, `WRPSR`, clears the supervisor bit and keeps ET, PS and
CWP. -/
def userModeHandler : SparcCore 8 :=
  ((executeWord default virtualMemory 0x81882047
    requestedCore.checkExternalTraps.executeTraps enabledMachine.mem).get (by decide)).1

/-- A handler that keeps its frame but leaves supervisor mode does not return: `RETT` stops the
core. -/
theorem trap_return_user_mode_stops :
    Reachable default virtualMemory (fun _ => True) (fun _ _ => False) requestedCore
        enabledMachine.mem ∧
      requestedCore.checkExternalTraps.state = .EXECUTE ∧
      requestedCore.checkExternalTraps.trap = true ∧
      requestedCore.checkExternalTraps.reg.rET = 1 ∧
      requestedCore.checkExternalTraps.flag .resetTrap = false ∧
      (executeWord default virtualMemory 0x81882047
        requestedCore.checkExternalTraps.executeTraps enabledMachine.mem).map Prod.fst =
          some userModeHandler ∧
      HandlerFrame requestedCore.checkExternalTraps.executeTraps userModeHandler ∧
      userModeHandler.reg.windowInvalid requestedCore.checkExternalTraps.reg.rCWP = false ∧
      ∃ v z, executeWord default virtualMemory 0x81C46000 userModeHandler
          enabledMachine.mem = some (v, enabledMachine.mem) ∧
        executeWord default virtualMemory 0x81CCA000 v enabledMachine.mem =
          some (z, enabledMachine.mem) ∧
        z.state = .ERROR := by
  refine ⟨reachable_requestedCore, by decide, by decide, by decide, by decide, ?_, ?_, by decide,
    _, _, rfl, rfl, by decide⟩
  · rw [map_eq_some_iff]
    exact ⟨_, (some_get _).symm, rfl⟩
  · exact ⟨by decide, by decide, by decide, by decide, by decide, by decide, by decide, by decide⟩

end SparcV8
