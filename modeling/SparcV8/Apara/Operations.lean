import SparcV8.Apara.Floats
import SparcV8.Apara.Instruction

/-!
# The operations of the APARA engine

What the instructions compute from the values of their operands.
-/

namespace SparcV8.Apara

/-- Exceptions, as a slot reports them in its three bits of `ERROR`. -/
inductive ExceptionCode where
  | NONE | INT_DIV_ZERO | FLOAT_DIV_ZERO | FLOAT_NAN | FLOAT_SQRT_NEG | UNALIGNED | ILLEGAL
deriving DecidableEq, Repr

def ExceptionCode.toCode : ExceptionCode → BitVec 3
  | .NONE => 0
  | .INT_DIV_ZERO => 1
  | .FLOAT_DIV_ZERO => 2
  | .FLOAT_NAN => 3
  | .FLOAT_SQRT_NEG => 5
  | .UNALIGNED => 6
  | .ILLEGAL => 7

/-- The results of an operation, for `count` registers. -/
structure OpResult where
  value : Nat → BitVec 64 := fun _ => 0
  count : Nat := 1
  exception : ExceptionCode := .NONE

/-- Element `i` of a vector register; element 0 has the most significant bits. -/
def element (reg : BitVec 64) (bits i : Nat) : BitVec 64 :=
  (reg >>> ((64 / bits - 1 - i) * bits)) &&& lowMask bits

/-- The value of an element in 64 bits. -/
def widen (t : DataType) (v : BitVec 64) : BitVec 64 :=
  if t.isSigned then signExtend (v &&& lowMask t.bits) t.bits else v &&& lowMask t.bits

def integerOp (op : Opcode) (isSigned : Bool) (x y : BitVec 64) : BitVec 64 × ExceptionCode :=
  match op with
  | .ADD => (x + y, .NONE)
  | .SUB => (x - y, .NONE)
  | .MUL => (x * y, .NONE)
  | .DIV =>
    if y = 0 then (0, .INT_DIV_ZERO)
    else if !isSigned then (x / y, .NONE)
    else if x = BitVec.intMin 64 ∧ y = -1 then (x, .NONE)
    else (x.sdiv y, .NONE)
  | .OR => (x ||| y, .NONE)
  | .AND => (x &&& y, .NONE)
  | .XOR => (x ^^^ y, .NONE)
  | .NOR => (~~~(x ||| y), .NONE)
  | .NAND => (~~~(x &&& y), .NONE)
  | .XNOR => (~~~(x ^^^ y), .NONE)
  | .SHL => (x <<< (y.toNat % 64), .NONE)
  | .SHR => (if isSigned then x.sshiftRight (y.toNat % 64) else x >>> (y.toNat % 64), .NONE)
  | _ => (0, .ILLEGAL)

def placeElement (reg : BitVec 64) (bits i : Nat) (v : BitVec 64) : BitVec 64 :=
  let shift := (64 / bits - 1 - i) * bits
  (reg &&& ~~~(lowMask bits <<< shift)) ||| ((v &&& lowMask bits) <<< shift)

/-- The low bits of consecutive registers, the first most significant; `added` bits of `current` are
not yet in a result. -/
def packLoop (wordBits : Nat) :
    List (BitVec 64) → BitVec 64 → Nat → List (BitVec 64) → List (BitVec 64)
  | [], _, _, results => results
  | v :: rest, current, added, results =>
    let current := (if wordBits ≥ 64 then 0 else current <<< wordBits) ||| (v &&& lowMask wordBits)
    let added := added + wordBits
    if added = 64 ∨ rest = [] then packLoop wordBits rest 0 0 (results ++ [current])
    else packLoop wordBits rest current added results

def pack (wordBits : Nat) (values : List (BitVec 64)) : OpResult :=
  let results := packLoop wordBits values 0 0 []
  { value := fun i => results.getD i 0, count := results.length }

def slice (v : BitVec 64) (high low : Nat) : BitVec 64 :=
  (v <<< (63 - high)) >>> (64 - (high - low + 1))

section Floats

open Double

variable (unit : DoubleUnit)

/-- Done with doubles, and rounded to the format. -/
def floatOp (op : Opcode) (bits : Nat) (a b : BitVec 64) : BitVec 64 × ExceptionCode :=
  let x := floatToDouble unit bits (a &&& lowMask bits)
  let y := floatToDouble unit bits (b &&& lowMask bits)
  let rounded (r : Double) : BitVec 64 × ExceptionCode :=
    if isNan r then (0, .FLOAT_NAN) else (doubleToFloat unit bits r, .NONE)
  match op with
  | .ADD => rounded (unit.add x y)
  | .SUB => rounded (unit.sub x y)
  | .MUL => rounded (unit.mul x y)
  | .DIV => if isZero y then (0, .FLOAT_DIV_ZERO) else rounded (unit.div x y)
  | _ => (0, .ILLEGAL)

/-- Truncated towards zero, and to the range of the type. -/
def floatToInteger (d : Double) (t : DataType) : BitVec 64 :=
  if isNan d then 0
  else
    let n := truncated d
    if t.isSigned then
      if n ≤ -(2 ^ (t.bits - 1)) then BitVec.ofInt 64 (-(2 ^ (t.bits - 1))) &&& lowMask t.bits
      else if n ≥ 2 ^ (t.bits - 1) then lowMask (t.bits - 1)
      else BitVec.ofInt 64 n &&& lowMask t.bits
    else if n ≤ 0 then 0
    else if n ≥ 2 ^ t.bits then lowMask t.bits
    else BitVec.ofInt 64 n

def integerToDouble (t : DataType) (v : BitVec 64) : Double :=
  let w := widen t v
  unit.ofInt (if t.isSigned then w.toInt else w.toNat)

/-- One element, converted from one type to another. -/
def convertElement (dst src : DataType) (v : BitVec 64) : BitVec 64 :=
  if !src.isFloat && !dst.isFloat then widen src v &&& lowMask dst.bits
  else
    let d := if src.isFloat then floatToDouble unit src.bits (v &&& lowMask src.bits)
      else integerToDouble unit src v
    if dst.isFloat then doubleToFloat unit dst.bits d else floatToInteger d dst

def scalarAlu (op : Opcode) (t : DataType) (a b : BitVec 64) : OpResult :=
  let r :=
    if t.isFloat then floatOp unit op t.bits a b
    else if t.isUnsigned then integerOp op false a b
    else integerOp op true (signExtend a t.bits) (signExtend b t.bits)
  { value := fun _ => r.1, exception := r.2 }

/-- The elements from number `i` on; none after an exception. -/
def vectorLoop (op : Opcode) (t : DataType) (a b : BitVec 64) (replicate : Bool) :
    Nat → Nat → BitVec 64 × ExceptionCode → BitVec 64 × ExceptionCode
  | 0, _, r => r
  | n + 1, i, (out, e) =>
    if e ≠ .NONE then (out, e)
    else
      let x := element a t.bits i
      let y := if replicate then b &&& lowMask t.bits else element b t.bits i
      let v := if t.isFloat then floatOp unit op t.bits x y
        else integerOp op t.isSigned (widen t x) (widen t y)
      vectorLoop op t a b replicate n (i + 1) (placeElement out t.bits i v.1, v.2)

def vectorAlu (op : Opcode) (t : DataType) (a b : BitVec 64) (replicate : Bool) : OpResult :=
  let r := vectorLoop unit op t a b replicate t.elementsPerRegister 0 (0, .NONE)
  { value := fun _ => r.1, exception := r.2 }

def squareRoot (t : DataType) (a : BitVec 64) : OpResult :=
  let x := floatToDouble unit t.bits (a &&& lowMask t.bits)
  if isNegative x then { exception := .FLOAT_SQRT_NEG }
  else
    let s := unit.powHalf x
    if isNan s then { exception := .FLOAT_NAN }
    else { value := fun _ => doubleToFloat unit t.bits s }

/-- Integers accumulate in 64 bits, floats in a single. -/
def dot (t : DataType) (a b : BitVec 64) (accumulate : Bool) (acc : BitVec 64) : OpResult :=
  let elements := List.range t.elementsPerRegister
  if t.isFloat then
    let sum := elements.foldl (fun (sum : BitVec 32) i =>
      let x := floatToDouble unit t.bits (element a t.bits i)
      let y := floatToDouble unit t.bits (element b t.bits i)
      unit.toSingle (unit.add (unit.ofSingle sum) (unit.mul x y)))
      (if accumulate then acc.setWidth 32 else 0)
    { value := fun _ => sum.setWidth 64 }
  else
    let sum := elements.foldl (fun sum i =>
      sum + widen t (element a t.bits i) * widen t (element b t.bits i))
      (if accumulate then acc else 0)
    { value := fun _ => sum }

/-- The value a reduction starts from. -/
def reduceStart : Opcode → Option (BitVec 64)
  | .ADD | .OR | .XOR => some 0
  | .MUL => some 1
  | .AND | .XNOR => some (BitVec.allOnes 64)
  | _ => none

def reduceOp (op : Opcode) (accum x : BitVec 64) : BitVec 64 :=
  match op with
  | .ADD => accum + x
  | .MUL => accum * x
  | .OR => accum ||| x
  | .AND => accum &&& x
  | .XOR => accum ^^^ x
  | _ => ~~~(accum ^^^ x)

def vectorReduce (subOp : Opcode) (t : DataType) (a : BitVec 64) : OpResult :=
  let elements := List.range t.elementsPerRegister
  if t.isFloat then
    if subOp ≠ .ADD ∧ subOp ≠ .MUL then { exception := .ILLEGAL }
    else
      let one : Double := 0x3FF0000000000000
      let accum := elements.foldl (fun accum i =>
        let x := floatToDouble unit t.bits (element a t.bits i)
        let s := floatToDouble unit 32 accum
        doubleToFloat unit 32 (if subOp = .MUL then unit.mul x s else unit.add x s))
        (doubleToFloat unit 32 (if subOp = .MUL then one else 0))
      { value := fun _ => accum }
  else
    match reduceStart subOp with
    | none => { exception := .ILLEGAL }
    | some start =>
      let accum := elements.foldl
        (fun accum i => reduceOp subOp accum (widen t (element a t.bits i))) start
      { value := fun _ => accum }

/-- Every element of the source registers is converted and put into its place. -/
def cast (dst src : DataType) (values : Nat → BitVec 64) (inCount : Nat) : OpResult :=
  if !src.isVector then
    { value := fun i =>
        if i = 0 then convertElement unit dst src (values 0 &&& lowMask src.bits) else 0 }
  else
    let perIn := src.elementsPerRegister
    let perOut := dst.elementsPerRegister
    let total := perIn * inCount
    { value := (List.range total).foldl (fun (value : Nat → BitVec 64) k =>
        let v := convertElement unit dst src (element (values (k / perIn)) src.bits (k % perIn))
        Function.update value (k / perOut)
          (placeElement (value (k / perOut)) dst.bits (k % perOut) v))
        fun _ => 0
      count := total / perOut }

/-- Signed integers have the width of their type, unsigned ones 64 bits. -/
def conditionHolds (c : Condition) (t : DataType) (v : BitVec 64) : Bool :=
  let compare (sign : Int) : Bool :=
    match c with
    | .EQ => sign == 0
    | .GT => decide (sign > 0)
    | .LT => decide (sign < 0)
    | .GE => decide (sign ≥ 0)
    | .LE => decide (sign ≤ 0)
    | .NE => sign != 0
    | .ALWAYS | .NEVER => false
  match c with
  | .ALWAYS => true
  | .NEVER => false
  | _ =>
    if t.isFloat then
      let d := floatToDouble unit t.bits (v &&& lowMask t.bits)
      if isNan d then c == .NE
      else compare (if isNegative d then -1 else if isPositive d then 1 else 0)
    else if t.isUnsigned then compare (if v ≠ 0 then 1 else 0)
    else compare (signExtend v t.bits).toInt.sign

end Floats

end SparcV8.Apara
