import Mathlib.Data.BitVec
import Mathlib.Logic.Function.Basic
import SparcV8.Core.Word.Field

/-!
# The data types of the APARA engine

An instruction names its data type with a five-bit code: the width of an element, and whether it is
unsigned, a float, or packed into a register as a vector.
-/

namespace SparcV8.Apara

/-- A type, as its code gives it. `valid` is false for a code without a type. -/
structure DataType where
  /-- The width of an element. -/
  bits : Nat := 0
  isUnsigned : Bool := false
  isFloat : Bool := false
  isVector : Bool := false
  code : BitVec 5 := 0
  valid : Bool := false
deriving DecidableEq, Repr

namespace DataType

def fromCode (code : BitVec 5) : DataType :=
  let t : DataType := { code := code, valid := true }
  match code.toNat with
  | 0x00 => { t with bits := 4 }
  | 0x01 => { t with bits := 8 }
  | 0x02 => { t with bits := 16 }
  | 0x03 => { t with bits := 32 }
  | 0x04 => { t with bits := 64 }
  | 0x05 => { t with bits := 4, isUnsigned := true }
  | 0x06 => { t with bits := 8, isUnsigned := true }
  | 0x07 => { t with bits := 16, isUnsigned := true }
  | 0x08 => { t with bits := 32, isUnsigned := true }
  | 0x09 => { t with bits := 64, isUnsigned := true }
  | 0x0A => { t with bits := 4, isFloat := true }
  | 0x0B => { t with bits := 8, isFloat := true }
  | 0x0C => { t with bits := 16, isFloat := true }
  | 0x0D => { t with bits := 32, isFloat := true }
  | 0x0E => { t with bits := 64, isFloat := true }
  | 0x0F => { t with bits := 128, isUnsigned := true }
  | 0x10 => { t with bits := 256, isUnsigned := true }
  | 0x11 => { t with bits := 4, isUnsigned := true, isVector := true }
  | 0x12 => { t with bits := 8, isUnsigned := true, isVector := true }
  | 0x13 => { t with bits := 16, isUnsigned := true, isVector := true }
  | 0x14 => { t with bits := 32, isUnsigned := true, isVector := true }
  | 0x15 => { t with bits := 4, isFloat := true, isVector := true }
  | 0x16 => { t with bits := 8, isFloat := true, isVector := true }
  | 0x17 => { t with bits := 16, isFloat := true, isVector := true }
  | 0x18 => { t with bits := 32, isFloat := true, isVector := true }
  | 0x19 => { t with bits := 4, isVector := true }
  | 0x1A => { t with bits := 8, isVector := true }
  | 0x1B => { t with bits := 16, isVector := true }
  | 0x1C => { t with bits := 32, isVector := true }
  | _ => { t with valid := false }

variable (t : DataType)

def isSigned : Bool := !t.isUnsigned && !t.isFloat

/-- The elements of a 64-bit register; one for a scalar of 64 bits or more. -/
def elementsPerRegister : Nat := if t.bits ≥ 64 then 1 else 64 / t.bits

/-- The widths there are. -/
theorem bits_fromCode (code : BitVec 5) (h : (fromCode code).valid = true) :
    (fromCode code).bits ∈ [4, 8, 16, 32, 64, 128, 256] := by
  revert code
  decide

end DataType

/-- The low bits of a register set, the others clear. -/
def lowMask (bits : Nat) : BitVec 64 :=
  if bits ≥ 64 then BitVec.allOnes 64 else ((1 : BitVec 64) <<< bits) - 1

/-- The low bits of a register, with the sign they have there. -/
def signExtend (x : BitVec 64) (bits : Nat) : BitVec 64 :=
  if bits ≥ 64 then x
  else
    let m : BitVec 64 := (1 : BitVec 64) <<< (bits - 1)
    ((x &&& lowMask bits) ^^^ m) - m

end SparcV8.Apara
