import Mathlib.Data.List.Forall2
import SparcV8.Apcc.DataImage
import SparcV8.Core.Store.Rows

/-!
# Global initializers

What the rules of C give to the elements of an array, against the data image of the compiler. The
compiler flattens the list, so the two agree when by the rules of C the elements with an initializer
are the first of the array and no constant is left over, and no global is placed below the data
memory.
-/

namespace SparcV8.Apcc

open Apara Double Word Store Option List Init Int Forall₂ Global Nat

/-! ## Initializer lists by the rules of C -/

/-- The first constant of an initializer, which is the one that a scalar takes. -/
def Init.first : Init → Option Const
  | .value v => some v
  | .list [] => none
  | .list (i :: _) => i.first

/-- The value at each index, if it has an initializer. -/
abbrev Contents := List Nat → Option Const

/-- A row takes a list in braces if one is next, or as many items as it needs. -/
def takeRow (fill : List Init → Contents × List Init) : List Init → Contents × List Init
  | .list inner :: rest => ((fill inner).1, rest)
  | items => fill items

/-- Several rows, one after another. -/
def takeRows (row : List Init → Contents × List Init) :
    Nat → List Init → List Contents × List Init
  | 0, items => ([], items)
  | n + 1, items =>
    let (first, items) := row items
    let (others, items) := takeRows row n items
    (first :: others, items)

/-- An array of the given dimensions takes its initializers from the items of a list. -/
def fill : List Nat → List Init → Contents × List Init
  | [], items => (fun _ => items.head?.bind first, items.tail)
  | d :: ds, items =>
    let rows := takeRows (takeRow (fill ds)) d items
    (fun
      | i :: is => (rows.1[i]?).bind (· is)
      | [] => none, rows.2)

/-- The value that the initializer of a global gives to the element at an index. -/
def Global.contents (g : Global) : Contents :=
  match g.init with
  | none => fun _ => none
  | some (.list items) => (fill (g.dims.map toNat) items).1
  | some (.value v) => (fill (g.dims.map toNat) [.value v]).1

/-- The indices of an array, row by row. -/
def indices : List Nat → List (List Nat)
  | [] => [[]]
  | d :: ds => (List.range d).flatMap fun i => (indices ds).map (i :: ·)

/-- The values of the elements, row by row. -/
def Global.elements (g : Global) : List (Option Const) :=
  (indices (g.dims.map toNat)).map g.contents

mutual

/-- The number of constants in an initializer. -/
def Init.constants : Init → Nat
  | .value _ => 1
  | .list items => constantsAll items

def Init.constantsAll : List Init → Nat
  | [] => 0
  | i :: is => i.constants + constantsAll is

end

/-- A global variable in the compiler's table: name, address, type and dimensions. -/
abbrev Entry := String × Int × CType × List Int

/-- The DMEM byte offset of a global. -/
def Entry.offset (dmemBase : Int) (e : Entry) : Int := e.2.1 - dmemBase

/-- The global has a byte at the offset. -/
def Entry.Covers (dmemBase : Int) (e : Entry) (x : Int) : Prop :=
  Entry.offset dmemBase e ≤ x ∧ x < Entry.offset dmemBase e + e.2.2.2.prod * e.2.2.1.size

/-- The two have no byte in common. -/
def Entry.Apart (dmemBase : Int) (e e' : Entry) : Prop :=
  ∀ x, ¬ (Entry.Covers dmemBase e x ∧ Entry.Covers dmemBase e' x)

open Entry

variable {idx : List Nat} {dims : List Int}

mutual

theorem Init.length_flatten : ∀ i : Init, i.flatten.length = i.constants
  | .value _ => rfl
  | .list items => length_flattenAll items

theorem Init.length_flattenAll : ∀ items, (flattenAll items).length = constantsAll items
  | [] => rfl
  | i :: is => by
    rw [flattenAll, constantsAll, length_append, i.length_flatten, length_flattenAll is]

end

/-- Taking initializers: the values are taken in order, and the others left. -/
def TakesInOrder (cells : Contents → List (Option Const))
    (take : List Init → Contents × List Init) : Prop :=
  ∀ items, (cells (take items).1).reduceOption ++ flattenAll (take items).2 <+
    flattenAll items

variable {cells : Contents → List (Option Const)}

theorem TakesInOrder.takeRow {take : List Init → Contents × List Init}
    (h : TakesInOrder cells take) : TakesInOrder cells (takeRow take) := by
  intro items
  match items with
  | [] => exact h []
  | .value v :: rest => exact h (.value v :: rest)
  | .list inner :: rest => exact ((sublist_append_left _ _).trans (h inner)).append_right _

theorem TakesInOrder.takeRows {row : List Init → Contents × List Init} (h : TakesInOrder cells row)
    (n : Nat) (items : List Init) :
    ((takeRows row n items).1.flatMap cells).reduceOption ++
      flattenAll (takeRows row n items).2 <+ flattenAll items := by
  induction n generalizing items with
  | zero => exact .refl _
  | succ n ih =>
    rw [Apcc.takeRows, flatMap_cons, reduceOption_append, append_assoc]
    exact ((ih _).append_left _).trans (h items)

variable {g : Global}

variable {dmemBase : Int}

variable {base : Int}

variable {l l' : Layout}

variable {gs : List Global}

variable {t : CType} {v : Const}

variable {data : Data} {c : AparaCore}

variable {e : Entry}

variable {entries : List Entry}

end SparcV8.Apcc
