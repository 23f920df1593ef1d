import SparcV8.Apara.Types

/-!
# The number formats of the APARA engine

Floats of 4, 8 and 16 bits are converted to and from doubles bit by bit. The double unit of the
host, a parameter, does the arithmetic.
-/

namespace SparcV8.Apara

/-- A double, as its bits. -/
abbrev Double := BitVec 64

/-- The operations of the host that round. -/
structure DoubleUnit where
  add : Double → Double → Double
  sub : Double → Double → Double
  mul : Double → Double → Double
  div : Double → Double → Double
  /-- `pow(x, 0.5)`. -/
  powHalf : Double → Double
  /-- A single as a double. -/
  ofSingle : BitVec 32 → Double
  /-- A double as a single. -/
  toSingle : Double → BitVec 32
  /-- An integer of 64 bits, signed or not, as a double. -/
  ofInt : Int → Double
deriving Inhabited

namespace Double

variable (d : Double)

def sign : Bool := d.getLsbD 63

def exponent : Nat := (d >>> 52).toNat % 2048

def mantissa : Nat := d.toNat % 2 ^ 52

def expAllOnes : Nat := 0x7FF

/-- The bits without the sign: in the order of the magnitudes. -/
def magnitude : Nat := d.toNat % 2 ^ 63

def ofParts (sign : Bool) (exponent mantissa : Nat) : Double :=
  BitVec.ofNat 64 (sign.toNat * 2 ^ 63 + exponent * 2 ^ 52 + mantissa)

def isNan : Bool := exponent d == expAllOnes && mantissa d != 0

def isZero : Bool := magnitude d == 0

/-- `d < 0.0`. -/
def isNegative : Bool := !isNan d && sign d && !isZero d

/-- `d > 0.0`. -/
def isPositive : Bool := !isNan d && !sign d && !isZero d

/-- `m * 2 ^ (- scale)`, for a numerator that fits. -/
def ofScaled (m scale : Nat) : Double :=
  if m = 0 then 0
  else
    let k := Nat.log2 m
    ofParts false (1023 + k - scale) ((m - 2 ^ k) * 2 ^ (52 - k))

/-- The integer part. An infinity is beyond all integers of 64 bits. -/
def truncated : Int :=
  let significand := if exponent d = 0 then mantissa d else 2 ^ 52 + mantissa d
  let shift : Int := (max 1 (exponent d) : Int) - 1075
  let value : Nat := if shift ≥ 0 then significand * 2 ^ shift.toNat
    else significand / 2 ^ (-shift).toNat
  if sign d then -(value : Int) else value

end Double

section Formats

open Double

variable (v : BitVec 64)

def f4ToDouble : Double :=
  let value : Double := match v.toNat % 8 with
    | 0 => 0
    | 1 => 0x3FE0000000000000
    | 2 => 0x3FF0000000000000
    | 3 => 0x3FF8000000000000
    | 4 => 0x4000000000000000
    | 5 => 0x4008000000000000
    | 6 => 0x7FF0000000000000
    | _ => 0x7FFFFFFFFFFFFFFF
  if v.getLsbD 3 then value ^^^ (1 <<< 63) else value

/-- A float with exponent and mantissa of these widths; subnormals are multiples of `2 ^ (-
subnormalScale)`. -/
def narrowToDouble (expBits manBits bias subnormalScale : Nat) : Double :=
  let sign := v.getLsbD (expBits + manBits)
  let e := (v.toNat / 2 ^ manBits) % 2 ^ expBits
  let m := v.toNat % 2 ^ manBits
  if e = 0 then
    if sign then ofScaled m subnormalScale ^^^ (1 <<< 63) else ofScaled m subnormalScale
  else
    let exp64 := if e = 2 ^ expBits - 1 then expAllOnes else e + 1023 - bias
    ofParts sign exp64 (m * 2 ^ (52 - manBits))

def doubleToF4 (d : Double) : BitVec 64 :=
  let sign : Nat := if d.getLsbD 63 then 8 else 0
  let code : Nat :=
    if exponent d = expAllOnes then 6 + (if mantissa d ≠ 0 then 1 else 0)
    else
      let a := magnitude d
      if a ≤ 0x3FD0000000000000 then 0
      else if a < 0x3FE8000000000000 then 1
      else if a ≤ 0x3FF4000000000000 then 2
      else if a < 0x3FFC000000000000 then 3
      else if a ≤ 0x4004000000000000 then 4
      else if a < 0x400C000000000000 then 5
      else 6
  BitVec.ofNat 64 (sign + code)

/-- Half up on the magnitude; infinity above the largest number; subnormals are rounded the same
way, but not to a normal number, and zero below them. -/
def doubleToNarrow (d : Double) (expBits manBits : Nat) (bias maxNormalExp minSubnormalExp : Int) :
    BitVec 64 :=
  let sign : Nat := if d.getLsbD 63 then 2 ^ (expBits + manBits) else 0
  let m64 := mantissa d
  let expAllOnes := (2 ^ expBits - 1) * 2 ^ manBits
  let manMax := 2 ^ manBits - 1
  let realExp : Int := (exponent d : Int) - 1023
  let minNormalExp : Int := 1 - bias
  let code : Nat :=
    if exponent d = Double.expAllOnes then
      let m := m64 / 2 ^ (52 - manBits)
      expAllOnes + (if m = 0 ∧ m64 ≠ 0 then 1 else m)
    else if realExp > maxNormalExp then expAllOnes
    else if realExp < minNormalExp then
      if realExp < minSubnormalExp then 0
      else
        let shift := (minNormalExp - realExp).toNat
        let bits := 2 ^ 52 + m64
        let round := (bits / 2 ^ (52 + shift - manBits - 1)) % 2
        min manMax (bits / 2 ^ (52 + shift - manBits) + round)
    else
      let round := (m64 / 2 ^ (52 - manBits - 1)) % 2
      let e := (realExp + bias).toNat
      let m := m64 / 2 ^ (52 - manBits) + round
      if m > manMax then
        if e + 1 ≥ 2 ^ expBits - 1 then expAllOnes else (e + 1) * 2 ^ manBits
      else e * 2 ^ manBits + m
  BitVec.ofNat 64 (sign + code)

variable (unit : DoubleUnit)

def floatToDouble (bits : Nat) (v : BitVec 64) : Double :=
  match bits with
  | 4 => f4ToDouble (v &&& 0xF)
  | 8 => narrowToDouble (v &&& 0xFF) 4 3 7 9
  | 16 => narrowToDouble (v &&& 0xFFFF) 5 10 15 24
  | 32 => unit.ofSingle (v.setWidth 32)
  | _ => v

def doubleToFloat (bits : Nat) (d : Double) : BitVec 64 :=
  match bits with
  | 4 => doubleToF4 d
  | 8 => doubleToNarrow d 4 3 7 8 (-9)
  | 16 => doubleToNarrow d 5 10 15 15 (-25)
  | 32 => (unit.toSingle d).setWidth 64
  | _ => d

/-- A float of 4 or 8 bits, as a double, is converted back to itself. -/
theorem doubleToFloat_floatToDouble {bits : Nat} (hbits : bits = 4 ∨ bits = 8) :
    ∀ v < 2 ^ bits, doubleToFloat unit bits (floatToDouble unit bits (BitVec.ofNat 64 v)) =
      BitVec.ofNat 64 v := by
  rcases hbits with rfl | rfl
  · change ∀ v < 16, doubleToF4 (f4ToDouble (BitVec.ofNat 64 v &&& 0xF)) = BitVec.ofNat 64 v
    decide +kernel
  · change ∀ v < 256, doubleToNarrow (narrowToDouble (BitVec.ofNat 64 v &&& 0xFF) 4 3 7 9)
      4 3 7 8 (-9) = BitVec.ofNat 64 v
    decide +kernel

end Formats

end SparcV8.Apara
