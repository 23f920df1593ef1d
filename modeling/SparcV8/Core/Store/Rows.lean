import Mathlib.Data.List.ReduceOption
import Mathlib.Data.List.Range

/-!
# Rows and places in lists

Where an element is in rows that follow each other, and in a list of elements that may be absent.
-/

namespace SparcV8.Store

open List Option

variable {α β : Type}

end SparcV8.Store
