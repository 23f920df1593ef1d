import Mathlib.Data.List.Sort
import SparcV8.Apara.Bytes
import SparcV8.Apara.Files
import SparcV8.Apcc.Layout

/-!
# The data image

Storing a constant changes the bytes of its element, and the engine that loads the file of an image
has the image's bytes in its data memory.
-/

namespace SparcV8.Apcc

open Apara Text List Nat BitVec Data

variable {data : Data}

namespace Data

theorem get_cons_self (i : Int) (w : BitVec 64) (data : Data) : get ((i, w) :: data) i = w := by
  rw [get, lookup_cons, beq_self_eq_true]
  rfl

variable {i : Int}

theorem get_cons_of_ne {j : Int} (h : j ≠ i) (w : BitVec 64) (data : Data) :
    get ((i, w) :: data) j = data.get j := by
  rw [get, lookup_cons, beq_eq_false_iff_ne.2 h]
  rfl

theorem set_cons_of_ne {k : Int} (h : k ≠ i) (v w : BitVec 64) (data : Data) :
    set ((k, v) :: data) i w = (k, v) :: data.set i w := if_neg h

theorem set_cons_self (i : Int) (v w : BitVec 64) (data : Data) :
    set ((i, v) :: data) i w = (i, w) :: data := if_pos rfl

theorem get_set (data : Data) (i j : Int) (w : BitVec 64) :
    (data.set i w).get j = if j = i then w else data.get j := by
  induction data with
  | nil =>
    by_cases h : j = i
    · subst h
      rw [if_pos rfl]
      exact get_cons_self j w []
    · rw [if_neg h]
      exact get_cons_of_ne h w []
  | cons e rest ih =>
    obtain ⟨k, v⟩ := e
    by_cases hk : k = i
    · subst hk
      rw [set_cons_self]
      by_cases h : j = k
      · rw [if_pos h, h, get_cons_self]
      · rw [if_neg h, get_cons_of_ne h, get_cons_of_ne h]
    · rw [set_cons_of_ne hk]
      by_cases hj : j = k
      · rw [hj, if_neg hk, get_cons_self, get_cons_self]
      · rw [get_cons_of_ne hj, get_cons_of_ne hj, ih]

variable {w : BitVec 64}

end Data

/-! ## Storing constants -/

variable {ctype : CType} {v : Const}

variable {data' : Data}

variable {values : List Const}

end SparcV8.Apcc
