import SparcV8.Apara.AparaCore
import SparcV8.Core.Text.Hex

/-!
# Data files of the engine

A data file has one line `index: value` for each doubleword, both hexadecimal. An exclamation mark
begins a comment, and blank lines are skipped.
-/

namespace SparcV8.Apara

open Text

variable (line : List Char)

end SparcV8.Apara
