import SparcV8.Apara.Operations
import SparcV8.Core.Word.Rounding

/-!
# Types and constants of the APARA C compiler

The compiler knows integers of 8 to 64 bits, two float types and `void`. Its constants are Python
integers, which have no bound, and Python floats, given by the bits of the double they are.
-/

namespace SparcV8.Apcc

open Apara Double Word

inductive IntWidth where
  | w8 | w16 | w32 | w64
deriving DecidableEq, Repr

def IntWidth.bits : IntWidth → Nat
  | .w8 => 8
  | .w16 => 16
  | .w32 => 32
  | .w64 => 64

inductive CType where
  | int (width : IntWidth) (signed : Bool)
  | f32
  | f64
  | void
deriving DecidableEq, Repr

namespace CType

def isFloat : CType → Bool
  | f32 | f64 => true
  | _ => false

def bits : CType → Nat
  | int w _ => w.bits
  | f32 => 32
  | f64 => 64
  | void => 0

def size (t : CType) : Nat := t.bits / 8

/-- Loads of the type extend the sign; those of floats are loads of their bits. -/
def signed : CType → Bool
  | int _ s => s
  | _ => false

end CType

/-- A constant of the source: a Python integer or a Python float. -/
inductive Const where
  | int (v : Int)
  | float (v : Double)
deriving DecidableEq, Repr

/-- A float of `w` bits from its sign and the bits below it. -/
def signMagnitude (w : Nat) (sign : Bool) (code : Nat) : BitVec w :=
  BitVec.ofNat w (sign.toNat * 2 ^ (w - 1) + code)

namespace Const

/-- `float(v)`, the nearest double. `none` is the `OverflowError` of an integer above all doubles.
-/
def toFloat : Const → Option Double
  | int v =>
    let code := nearestFloat 52 (v.natAbs * 2 ^ 1074) 0
    if code < 0x7FF0000000000000 then some (signMagnitude 64 (decide (v < 0)) code) else none
  | float v => some v

/-- `int(v)`: the integer part. `none` is the error of an infinity or a NaN. -/
def toInt : Const → Option Int
  | int v => some v
  | float v => if exponent v = expAllOnes then none else some (truncated v)

end Const

/-- `struct.pack('>f', v)`: the nearest single, whose smallest is `2 ^ 925` of the smallest doubles.
`none` is the `OverflowError` of a number above all singles. -/
def packSingle (v : Double) : Option (BitVec 32) :=
  if exponent v = expAllOnes then
    -- what is not a number stays so, and becomes quiet
    let rest := if mantissa v = 0 then 0 else 2 ^ 22 ||| mantissa v / 2 ^ 29
    some (signMagnitude 32 (sign v) (0x7F800000 + rest))
  else
    let code := nearestFloat 23 (floatValue 52 (magnitude v)) 925
    if code < 0x7F800000 then some (signMagnitude 32 (sign v) code) else none

def floatBits (v : Double) (bits : Nat) : Option (BitVec 64) :=
  if bits = 32 then (packSingle v).map (·.setWidth 64) else some v

/-- The bits of a constant as an element of the type. -/
def constBits (ctype : CType) (v : Const) : Option (BitVec 64) :=
  if ctype.isFloat then v.toFloat.bind (floatBits · ctype.bits)
  else v.toInt.map fun n => BitVec.ofInt 64 n &&& lowMask ctype.bits

end SparcV8.Apcc
