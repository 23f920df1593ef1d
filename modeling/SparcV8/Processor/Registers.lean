import SparcV8.Processor.BitManipulation
import Mathlib.Data.Nat.ModEq
import Mathlib.Logic.Function.Basic

/-!
# The register file

The registers, status fields and pins of one core, for any number of register windows. Register
numbers have five bits, so the source's `assert(n<32)` cannot fail. Fields that no modelled function
reads are left out.
-/

namespace SparcV8

open Function

/-- A register number: a five-bit field of an instruction. -/
abbrev RegNum := BitVec 5

/-- The registers and pins of a core with `nw` register windows. -/
structure Registers (nw : Nat) where
  /-- Global registers, indexed 1 to 7. -/
  G : Nat → Word
  /-- Windowed registers, indexed below `16 * nw`. -/
  R : Nat → Word
  /-- The current instruction. -/
  instruction : Word
  PSR : Word
  TBR : Word
  WIM : Word
  Y : Word
  PC : Word
  nPC : Word
  ASR : RegNum → Word
  FSR : Word
  f : RegNum → Word
  /-- Results an FPop leaves for `completeFpExecution`. -/
  sresult : Word
  dresult : Word × Word
  qresult : Word × Word × Word × Word
  fpuSingleResult : Bool
  fpuDoubleResult : Bool
  fpuQuadResult : Bool
  fpuCompare : Bool
  texc : Word
  tfcc : Word
  fpuC : Word
  CSR : Word
  /-- Interrupt request level on the pins. -/
  bpIRL : Word
  bpFPUPresent : Word
  bpCPPresent : Word
  pbBlockLdstWord : Word
  pbBlockLdstByte : Word

/-- The C conversion of a truth value to `uint32_t`. -/
def wordOfBool (b : Bool) : Word := if b then 1 else 0

namespace Registers

variable {nw : Nat} (reg : Registers nw)

/-! ## PSR, TBR and FSR fields -/

def rN : Word := readBits reg.PSR 23 23
def rZ : Word := readBits reg.PSR 22 22
def rV : Word := readBits reg.PSR 21 21
def rC : Word := readBits reg.PSR 20 20
def rEC : Word := readBits reg.PSR 13 13
def rEF : Word := readBits reg.PSR 12 12
def rPIL : Word := readBits reg.PSR 11 8
def rS : Word := readBits reg.PSR 7 7
def rPS : Word := readBits reg.PSR 6 6
def rET : Word := readBits reg.PSR 5 5
def rCWP : Word := readBits reg.PSR 4 0

/-- Write one field of the PSR. -/
def wPSRField (h l : Nat) (val : Word) : Registers nw :=
  { reg with PSR := writeBits reg.PSR h l val }

def wN (val : Word) : Registers nw := reg.wPSRField 23 23 val
def wZ (val : Word) : Registers nw := reg.wPSRField 22 22 val
def wV (val : Word) : Registers nw := reg.wPSRField 21 21 val
def wC (val : Word) : Registers nw := reg.wPSRField 20 20 val
def wS (val : Word) : Registers nw := reg.wPSRField 7 7 val
def wPS (val : Word) : Registers nw := reg.wPSRField 6 6 val
def wET (val : Word) : Registers nw := reg.wPSRField 5 5 val
def wCWP (val : Word) : Registers nw := reg.wPSRField 4 0 val

def wTt (val : Word) : Registers nw :=
  { reg with TBR := writeBits reg.TBR 11 4 val }

def rTEM : Word := readBits reg.FSR 27 23
def rQne : Word := readBits reg.FSR 13 13
def rFcc : Word := readBits reg.FSR 11 10
def rAexc : Word := readBits reg.FSR 9 5

/-- Write one field of the FSR. -/
def wFSRField (h l : Nat) (val : Word) : Registers nw :=
  { reg with FSR := writeBits reg.FSR h l val }

def wFtt (val : Word) : Registers nw := reg.wFSRField 16 14 val
def wFcc (val : Word) : Registers nw := reg.wFSRField 11 10 val
def wAexc (val : Word) : Registers nw := reg.wFSRField 9 5 val
def wCexc (val : Word) : Registers nw := reg.wFSRField 4 0 val

def rTexc : Word := readBits reg.texc 4 0
def rTfcc : Word := readBits reg.tfcc 1 0
def wTfcc (val : Word) : Registers nw :=
  { reg with tfcc := writeBits reg.tfcc 1 0 val }

/-! ## Instruction fields -/

def rOp : Word := readBits reg.instruction 31 30
def rOp2 : Word := readBits reg.instruction 24 22
def rOp3 : Word := readBits reg.instruction 24 19
def rOpf : Word := readBits reg.instruction 13 5
def rAsi : Word := readBits reg.instruction 12 5
def rI : Word := readBits reg.instruction 13 13
def rA : Word := readBits reg.instruction 29 29
def rCond : Word := readBits reg.instruction 28 25
def rSimm13 : Word := readBits reg.instruction 12 0
def rDisp30 : Word := readBits reg.instruction 29 0
def rDisp22 : Word := readBits reg.instruction 21 0
def rImm22 : Word := readBits reg.instruction 21 0
def rRd : RegNum := (readBits reg.instruction 29 25).setWidth 5
def rRs1 : RegNum := (readBits reg.instruction 18 14).setWidth 5
def rRs2 : RegNum := (readBits reg.instruction 4 0).setWidth 5

/-! ## Pins -/

def rBpIRL : Word := readBits reg.bpIRL 3 0
def rBpFPUPresent : Word := readBits reg.bpFPUPresent 0 0
def rBpCPPresent : Word := readBits reg.bpCPPresent 0 0
def wPbBlockLdstWord (val : Word) : Registers nw :=
  { reg with pbBlockLdstWord := writeBits reg.pbBlockLdstWord 0 0 val }
def wPbBlockLdstByte (val : Word) : Registers nw :=
  { reg with pbBlockLdstByte := writeBits reg.pbBlockLdstByte 0 0 val }

/-! ## General registers -/

/-- Position of `r[n]`, `n ≥ 8`, of window `cwp` in the windowed registers. -/
def windowIndex (nw : Nat) (cwp : Word) (n : RegNum) : Nat :=
  ((n.toNat - 8) + cwp.toNat * 16) % (16 * nw)

def rR (n : RegNum) : Word :=
  if n = 0 then 0
  else if n.toNat ≤ 7 then reg.G n.toNat
  else reg.R (windowIndex nw reg.rCWP n)

/-- Registers 1 to 7 are in `G`, 8 to 31 in `R`; a write to `r[0]` does nothing. -/
def wR (n : RegNum) (value : Word) : Registers nw :=
  { reg with
    G := if n ≠ 0 ∧ n.toNat ≤ 7 then update reg.G n.toNat value else reg.G
    R := if 7 < n.toNat then update reg.R (windowIndex nw reg.rCWP n) value else reg.R }

def wASR (n : RegNum) (value : Word) : Registers nw :=
  { reg with ASR := update reg.ASR n value }

def wF (n : RegNum) (value : Word) : Registers nw :=
  { reg with f := update reg.f n value }

/-- Bits of windows that do not exist read as 0; writing them is ignored. -/
def wWIM (val : Word) : Registers nw :=
  { reg with WIM := val &&& ~~~((~~~(0 : Word)) <<< nw) }

def wPC (val : Word) : Registers nw := { reg with PC := val }
def wNPC (val : Word) : Registers nw := { reg with nPC := val }

/-- The window below (`SAVE`, trap entry), the C expression `(CWP - 1) % NWINDOWS`. -/
def previousWindow : Word := (reg.rCWP - 1) % BitVec.ofNat 32 nw

/-- The window above (`RESTORE`, `RETT`), the C expression `(CWP + 1) % NWINDOWS`. -/
def nextWindow : Word := (reg.rCWP + 1) % BitVec.ofNat 32 nw

/-- The WIM bit of window `w` is set: `WIM & (1 << w)` is not 0. -/
def windowInvalid (w : Word) : Bool :=
  (reg.WIM &&& ((1 : Word) <<< w.toNat)) != 0

/-- Supervisor mode, traps enabled, FPU, no coprocessor. `CSR` is left unset. -/
def initial (csr : Word) : Registers nw :=
  wET (wS
    { G := fun _ => 0, R := fun _ => 0, instruction := 0, PSR := 0, TBR := 0, WIM := 0, Y := 0,
      PC := 0, nPC := 4, ASR := fun _ => 0, FSR := 0, f := fun _ => 0, sresult := 0,
      dresult := (0, 0), qresult := (0, 0, 0, 0), fpuSingleResult := false,
      fpuDoubleResult := false, fpuQuadResult := false, fpuCompare := false, texc := 0, tfcc := 0,
      fpuC := 0, CSR := csr, bpIRL := 0, bpFPUPresent := 1, bpCPPresent := 0,
      pbBlockLdstWord := 0, pbBlockLdstByte := 0 } 1) 1

/-! ## Reading registers back -/

theorem rR_wR_self {n : RegNum} (value : Word) (hn : n ≠ 0) : (reg.wR n value).rR n = value := by
  have hcwp : (reg.wR n value).rCWP = reg.rCWP := rfl
  by_cases h7 : n.toNat ≤ 7
  · rw [rR, if_neg hn, if_pos h7, wR]
    simp only [if_pos (And.intro hn h7), update_self]
  · simp only [rR, hn, h7, if_false, hcwp]
    simp [wR, Nat.lt_of_not_le h7]

variable {n k : RegNum}

/-- The registers of a window are at different positions. -/
theorem windowIndex_injective (hnw : 2 ≤ nw) (cwp : Word) (hn : 7 < n.toNat) (hk : 7 < k.toNat)
    (h : windowIndex nw cwp n = windowIndex nw cwp k) : n = k := by
  apply BitVec.eq_of_toNat_eq
  have hmod : (n.toNat - 8) % (16 * nw) = (k.toNat - 8) % (16 * nw) :=
    Nat.ModEq.add_right_cancel' _ h
  rw [Nat.mod_eq_of_lt (by omega), Nat.mod_eq_of_lt (by omega)] at hmod
  omega

theorem rR_wR_of_ne (hnw : 2 ≤ nw) (value : Word) (h : k ≠ n) :
    (reg.wR n value).rR k = reg.rR k := by
  have hcwp : (reg.wR n value).rCWP = reg.rCWP := rfl
  simp only [rR, hcwp]
  by_cases hk : k.toNat ≤ 7
  · simp only [hk, if_true, wR]
    split
    · rfl
    · split
      · exact update_of_ne (fun he => h (BitVec.eq_of_toNat_eq he)) _ _
      · rfl
  · simp only [hk, if_false, wR]
    split
    · rfl
    · split
      · next hn =>
        exact update_of_ne
          (fun he => h (windowIndex_injective hnw _ (Nat.lt_of_not_le hk) hn he)) _ _
      · rfl

theorem rCWP_wPSRField {h l : Nat} (val : Word) (hh : h < 32) (hl : 4 < l) :
    (reg.wPSRField h l val).rCWP = reg.rCWP :=
  readBits_writeBits_off ⟨by decide, hh, .inl hl⟩

/-- Writing a PSR field above `CWP` keeps every register. -/
theorem rR_wPSRField {h l : Nat} (val : Word) (hh : h < 32) (hl : 4 < l) (n : RegNum) :
    (reg.wPSRField h l val).rR n = reg.rR n := by
  simp only [rR, rCWP_wPSRField reg val hh hl]
  rfl

end Registers

end SparcV8
