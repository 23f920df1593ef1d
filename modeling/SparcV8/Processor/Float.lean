import SparcV8.Processor.Integer
import SparcV8.Processor.LoadStore

/-!
# Floating-point instructions

The routines of `FloatingPointFunctions.h` compute with the host's floating-point types. They are an
arbitrary record of functions, from the operand words to the result words and the exceptions `texc`;
what the core does around them is modelled in full.
-/

namespace SparcV8

open Opcode

abbrev DoubleWords := Word × Word
abbrev QuadWords := Word × Word × Word × Word

/-- The host routines; the last component of each result is `texc`. -/
structure FloatingPointFunctions where
  convertIntToSingle : Word → Word × Word
  convertIntToDouble : Word → DoubleWords × Word
  convertIntToQuad : Word → QuadWords × Word
  convertSingleToInt : Word → Word × Word
  convertDoubleToInt : DoubleWords → Word × Word
  convertQuadToInt : QuadWords → Word × Word
  convertSingleToDouble : Word → DoubleWords × Word
  convertSingleToQuad : Word → QuadWords × Word
  convertDoubleToSingle : DoubleWords → Word × Word
  convertDoubleToQuad : DoubleWords → QuadWords × Word
  convertQuadToSingle : QuadWords → Word × Word
  convertQuadToDouble : QuadWords → DoubleWords × Word
  sqrtSingle : Word → Word × Word
  sqrtDouble : DoubleWords → DoubleWords × Word
  sqrtQuad : QuadWords → QuadWords × Word
  addSingle : Word → Word → Word × Word
  subSingle : Word → Word → Word × Word
  mulSingle : Word → Word → Word × Word
  divSingle : Word → Word → Word × Word
  addDouble : DoubleWords → DoubleWords → DoubleWords × Word
  subDouble : DoubleWords → DoubleWords → DoubleWords × Word
  mulDouble : DoubleWords → DoubleWords → DoubleWords × Word
  divDouble : DoubleWords → DoubleWords → DoubleWords × Word
  addQuad : QuadWords → QuadWords → QuadWords × Word
  subQuad : QuadWords → QuadWords → QuadWords × Word
  mulQuad : QuadWords → QuadWords → QuadWords × Word
  divQuad : QuadWords → QuadWords → QuadWords × Word
  mulSingleToDouble : Word → Word → DoubleWords × Word
  mulDoubleToQuad : DoubleWords → DoubleWords → QuadWords × Word
  compareSingle : Word → Word → Word × Word
  compareESingle : Word → Word → Word × Word
  compareDouble : DoubleWords → DoubleWords → Word × Word
  compareEDouble : DoubleWords → DoubleWords → Word × Word
  compareQuad : QuadWords → QuadWords → Word × Word
  compareEQuad : QuadWords → QuadWords → Word × Word
  deriving Inhabited

/-- What an FPop leaves in the result signals, with `texc`. -/
inductive FpResult where
  | single (result : Word × Word)
  | double (result : DoubleWords × Word)
  | quad (result : QuadWords × Word)
  | compare (result : Word × Word)

namespace Registers

variable {nw : Nat}
variable (reg : Registers nw)

/-- The register pair that holds `n`: `f[E]` and `f[O]`. -/
def rDouble (n : RegNum) : DoubleWords :=
  (reg.f ((n >>> 1) <<< 1), reg.f ((n >>> 1) <<< 1 ||| 1))

/-- The register quadruple that holds `n`. -/
def rQuad (n : RegNum) : QuadWords :=
  (reg.f ((n >>> 2) <<< 2), reg.f ((n >>> 2) <<< 2 ||| 1), reg.f ((n >>> 2) <<< 2 ||| 2),
    reg.f ((n >>> 2) <<< 2 ||| 3))

/-- Write `f[2k]` and `f[2k+1]`, `k` being the pair of `n`. -/
def wDouble (n : RegNum) (value : DoubleWords) : Registers nw :=
  (reg.wF (2 * (n >>> 1)) value.1).wF (2 * (n >>> 1) + 1) value.2

/-- Write `f[4k]` to `f[4k+3]`, `k` being the quadruple of `n`. -/
def wQuad (n : RegNum) (value : QuadWords) : Registers nw :=
  (((reg.wF (4 * (n >>> 2)) value.1).wF (4 * (n >>> 2) + 1) value.2.1).wF (4 * (n >>> 2) + 2)
    value.2.2.1).wF (4 * (n >>> 2) + 3) value.2.2.2

/-- `cexc` becomes `texc`, and `aexc` collects it. -/
def accumulateExceptions : Registers nw :=
  let reg := reg.wCexc reg.rTexc
  reg.wAexc (reg.rAexc ||| reg.rTexc)

/-- The writes of `completeFpExecution`, each under its result signal. -/
def wSingleResult : Registers nw :=
  if reg.fpuSingleResult then reg.wF reg.rRd reg.sresult else reg

def wDoubleResult : Registers nw :=
  if reg.fpuDoubleResult then reg.wDouble reg.rRd reg.dresult else reg

def wQuadResult : Registers nw :=
  if reg.fpuQuadResult then reg.wQuad reg.rRd reg.qresult else reg

def wCompareResult : Registers nw :=
  if reg.fpuCompare then reg.wFcc reg.rTfcc else reg

/-- Clear `ftt` and the signals of the finished operation. -/
def retireFp : Registers nw :=
  { reg.wFtt 0 with
    fpuSingleResult := false, fpuDoubleResult := false, fpuQuadResult := false,
    fpuCompare := false, texc := 0, tfcc := 0, fpuC := 0 }

/-- Clear the result signals of the FPU. -/
def clearFpSignals : Registers nw :=
  { reg with
    sresult := 0, dresult := (0, 0), qresult := (0, 0, 0, 0), fpuSingleResult := false,
    fpuDoubleResult := false, fpuQuadResult := false, fpuCompare := false, texc := 0, tfcc := 0,
    fpuC := 0 }

/-- Store the outcome of a routine in the result signals. -/
def wFpResult : FpResult → Registers nw
  | .single r => { reg with fpuSingleResult := true, sresult := r.1, texc := r.2 }
  | .double r => { reg with fpuDoubleResult := true, dresult := r.1, texc := r.2 }
  | .quad r => { reg with fpuQuadResult := true, qresult := r.1, texc := r.2 }
  | .compare r => { (reg.wTfcc r.1) with fpuCompare := true, texc := r.2 }

end Registers

namespace SparcCore

variable {nw : Nat}
variable (fpu : FloatingPointFunctions)

/-- The routine an FPop calls, on the operands its register fields name. -/
def fpResult (op : Opcode) (reg : Registers nw) : Option FpResult :=
  let single1 := reg.f reg.rRs1
  let single2 := reg.f reg.rRs2
  let double1 := reg.rDouble reg.rRs1
  let double2 := reg.rDouble reg.rRs2
  let quad1 := reg.rQuad reg.rRs1
  let quad2 := reg.rQuad reg.rRs2
  match op with
  | FiTOs => some (.single (fpu.convertIntToSingle single2))
  | FiTOd => some (.double (fpu.convertIntToDouble single2))
  | FiTOq => some (.quad (fpu.convertIntToQuad single2))
  | FsTOi => some (.single (fpu.convertSingleToInt single2))
  | FdTOi => some (.single (fpu.convertDoubleToInt double2))
  | FqTOi => some (.single (fpu.convertQuadToInt quad2))
  | FsTOd => some (.double (fpu.convertSingleToDouble single2))
  | FsTOq => some (.quad (fpu.convertSingleToQuad single2))
  | FdTOs => some (.single (fpu.convertDoubleToSingle double2))
  | FdTOq => some (.quad (fpu.convertDoubleToQuad double2))
  | FqTOs => some (.single (fpu.convertQuadToSingle quad2))
  | FqTOd => some (.double (fpu.convertQuadToDouble quad2))
  | FMOVs => some (.single (single2, 0))
  | FNEGs => some (.single (single2 ^^^ 0x80000000, 0))
  | FABSs => some (.single (single2 &&& 0x7fffffff, 0))
  | FSQRTs => some (.single (fpu.sqrtSingle single2))
  | FSQRTd => some (.double (fpu.sqrtDouble double2))
  | FSQRTq => some (.quad (fpu.sqrtQuad quad2))
  | FADDs => some (.single (fpu.addSingle single1 single2))
  | FSUBs => some (.single (fpu.subSingle single1 single2))
  | FADDd => some (.double (fpu.addDouble double1 double2))
  | FSUBd => some (.double (fpu.subDouble double1 double2))
  | FADDq => some (.quad (fpu.addQuad quad1 quad2))
  | FSUBq => some (.quad (fpu.subQuad quad1 quad2))
  | FMULs => some (.single (fpu.mulSingle single1 single2))
  | FDIVs => some (.single (fpu.divSingle single1 single2))
  | FMULd => some (.double (fpu.mulDouble double1 double2))
  | FDIVd => some (.double (fpu.divDouble double1 double2))
  | FMULq => some (.quad (fpu.mulQuad quad1 quad2))
  | FDIVq => some (.quad (fpu.divQuad quad1 quad2))
  | FsMULd => some (.double (fpu.mulSingleToDouble single1 single2))
  | FdMULq => some (.quad (fpu.mulDoubleToQuad double1 double2))
  | FCMPs => some (.compare (fpu.compareSingle single1 single2))
  | FCMPEs => some (.compare (fpu.compareESingle single1 single2))
  | FCMPd => some (.compare (fpu.compareDouble double1 double2))
  | FCMPEd => some (.compare (fpu.compareEDouble double1 double2))
  | FCMPq => some (.compare (fpu.compareQuad quad1 quad2))
  | FCMPEq => some (.compare (fpu.compareEQuad quad1 quad2))
  | _ => none

def executeFPop (op : Opcode) (s : SparcCore nw) :
    Option (SparcCore nw) := do
  let reg := s.reg.clearFpSignals
  let result ← fpResult fpu op reg
  let reg := { reg.wFpResult result with fpuC := 1 }
  let s := { s with reg := reg }
  -- only the `rs1` field is checked for alignment
  if (reg.fpuDoubleResult && reg.rRs1 &&& 1 != 0) || (reg.fpuQuadResult && reg.rRs1 &&& 3 != 0) then
    some (s.raiseFp invalidFpRegister)
  else some s

/-- The highest set bit among bits 4 to 0, or 0. -/
def mostSignificantSetBit5 (x : Word) : Word :=
  match [4, 3, 2, 1, 0].find? (fun i => readBits x i i != 0) with
  | some i => (1 : Word) <<< i
  | none => 0

/-- Write the results of an FPop that raised no enabled exception. -/
def completeResults (reg : Registers nw) : Registers nw :=
  reg.accumulateExceptions.wSingleResult.wDoubleResult.wQuadResult.wCompareResult.retireFp

def completeFpExecution (s : SparcCore nw) : SparcCore nw :=
  if s.trap then s
  else if s.reg.bpFPUPresent = 0 then s.raiseFp unimplementedFPop
  else if s.reg.fpuC = 0 then s.raiseFp unfinishedFPop
  else if s.reg.rTexc &&& s.reg.rTEM ≠ 0 then
    { s with reg := s.reg.wCexc (mostSignificantSetBit5 (s.reg.rTexc &&& s.reg.rTEM)) }.raiseFp
      ieee754Exception
  else { s with reg := completeResults s.reg }

/-- The condition of an `FBfcc`. -/
def evalFcc (op : Opcode) (reg : Registers nw) : Option Bool :=
  let e := reg.rFcc == 0
  let l := reg.rFcc == 1
  let g := reg.rFcc == 2
  let u := reg.rFcc == 3
  match op with
  | FBU => some u
  | FBG => some g
  | FBUG => some (g || u)
  | FBL => some l
  | FBUL => some (l || u)
  | FBLG => some (l || g)
  | FBNE => some (l || g || u)
  | FBE => some e
  | FBUE => some (e || u)
  | FBGE => some (e || g)
  | FBUGE => some (e || g || u)
  | FBLE => some (e || l)
  | FBULE => some (e || l || u)
  | FBO => some (e || l || g)
  | FBA => some true
  | FBN => some false
  | _ => none

def executeFBfcc (op : Opcode) (s : SparcCore nw) : Option (SparcCore nw) := do
  let taken ← evalFcc op s.reg
  some (s.branch taken (op == FBA))

end SparcCore

end SparcV8
