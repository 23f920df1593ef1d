import SparcV8.Apcc.Types
import SparcV8.Core.Text.Hex

/-!
# Layout of the global variables

`Compiler.layout` gives each global an address, the next one aligned to eight bytes or the one its
`__at` asks for, and packs the initializers into the doublewords of the data image.
-/

namespace SparcV8.Apcc

/-- An initializer: a constant, or a list in braces. -/
inductive Init where
  | value (v : Const)
  | list (items : List Init)

/-- A global variable as it is parsed. -/
structure Global where
  line : Nat
  ctype : CType
  name : String
  dims : List Int
  place : Option Int
  init : Option Init

/-- Why a program is not compiled: `CompileError`, or a number conversion. -/
inductive Failure where
  | compileError (line : Nat) (message : String)
  | conversion
deriving DecidableEq, Repr

/-- Doublewords by index, in the order of their first use. -/
abbrev Data := List (Int × BitVec 64)

namespace Data

/-- `data.get(index, 0)`. -/
def get (data : Data) (index : Int) : BitVec 64 := (data.lookup index).getD 0

/-- `data[index] = word`. -/
def set (data : Data) (index : Int) (word : BitVec 64) : Data :=
  match data with
  | [] => [(index, word)]
  | (i, w) :: rest => if i = index then (i, word) :: rest else (i, w) :: Data.set rest index word

end Data

/-- What the layout keeps between two globals. -/
structure Layout where
  addr : Int := 0
  used : List (Int × Int × String) := []
  globals : List (String × Int × CType × List Int) := []
  data : Data := []

mutual

def Init.flatten : Init → List Const
  | .value v => [v]
  | .list items => Init.flattenAll items

def Init.flattenAll : List Init → List Const
  | [] => []
  | i :: is => i.flatten ++ Init.flattenAll is

end

/-- `addr` is a DMEM byte offset. -/
def putData (data : Data) (addr : Int) (ctype : CType) (v : Const) : Except Failure Data :=
  match constBits ctype v with
  | none => .error .conversion
  | some bits =>
    let index := addr / 8
    let offset := (addr % 8).toNat
    -- big-endian: lower address, higher bits
    let shift := (8 - offset - ctype.size) * 8
    let word := data.get index
    let mask := Apara.lowMask ctype.bits <<< shift
    .ok (data.set index ((word &&& ~~~mask) ||| (bits <<< shift)))

/-- The values of a global from number `k` on. -/
def putValues (ctype : CType) (base : Int) : Nat → List Const → Data → Except Failure Data
  | _, [], data => .ok data
  | k, v :: vs, data =>
    match putData data (base + k * ctype.size) ctype v with
    | .error e => .error e
    | .ok data => putValues ctype base (k + 1) vs data

variable (g : Global)

def Global.values : List Const :=
  match g.init with
  | some init => init.flatten
  | none => []

def Global.count : Int := g.dims.prod

def Global.size : Int := g.count * g.ctype.size

/-- The address of a global when `addr` is the next free one. -/
def Global.base (addr : Int) : Int := g.place.getD addr

/-- One global: its address, the checks, and its initializers. -/
def layoutGlobal (dmemBase : Int) (l : Layout) (g : Global) : Except Failure Layout :=
  if l.globals.any (fun d => d.1 == g.name) then
    .error (.compileError g.line (g.name ++ " is defined twice"))
  else if g.ctype = .void then
    .error (.compileError g.line "a variable cannot be void")
  else if g.dims.any (· ≤ 0) then
    .error (.compileError g.line "an array size must be positive")
  else
    let base := g.base l.addr
    if base % 8 ≠ 0 then
      .error (.compileError g.line
        ("__at(0x" ++ String.ofList (Text.hexInt base) ++ ") is not a multiple of 8"))
    else if base + g.size > 65536 then
      .error (.compileError g.line (g.name ++ " does not fit in DMEM (64 KB)"))
    else
      match l.used.find? fun (b, s, _) => decide (base < b + s ∧ b < base + g.size) with
      | some (_, _, name) =>
        .error (.compileError g.line (g.name ++ " overlaps " ++ name ++ " in DMEM"))
      | none =>
        if (g.values.length : Int) > g.count then
          .error (.compileError g.line ("too many initializers for " ++ g.name))
        else
          match putValues g.ctype base 0 g.values l.data with
          | .error e => .error e
          | .ok data => .ok {
              addr := if g.place.isNone then (base + g.size + 7) / 8 * 8 else l.addr
              used := l.used ++ [(base, g.size, g.name)]
              globals := l.globals ++ [(g.name, base + dmemBase, g.ctype, g.dims)]
              data := data }

/-- `Compiler.layout`. -/
def layout (dmemBase : Int) : List Global → Layout → Except Failure Layout
  | [], l => .ok l
  | g :: gs, l =>
    match layoutGlobal dmemBase l g with
    | .error e => .error e
    | .ok l => layout dmemBase gs l

end SparcV8.Apcc
