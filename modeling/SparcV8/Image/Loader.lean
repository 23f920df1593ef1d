import SparcV8.Image.Hexdump
import SparcV8.Processor.Memory

/-!
# Loading a memory image

`MemCore::initializeMemory` reads lines, an address and four words each, into a memory of zeros. The
file is the list of its lines, all ended by a line end; the read that then finds the end of the file
gets an empty line, which is skipped.
-/

namespace SparcV8.Image

open Text

/-! ## Extraction from a string stream -/

/-- A `std::stringstream`: what is left of it, and its fail bit. -/
structure Stream where
  rest : List Char
  fail : Bool

/-- `ss >> hex >> x`. A failed stream, and one with nothing left, does not change `x`; a number that
does not fit is replaced by the largest one. -/
def Stream.extractHex (s : Stream) (x : Word) : Word × Stream :=
  if s.fail then (x, s)
  else
    match s.rest.dropWhile isBlank with
    | [] => (x, ⟨[], true⟩)
    | c :: cs =>
      let unsigned := if c == '-' || c == '+' then cs else c :: cs
      let digits := afterBase unsigned
      let number := digits.takeWhile isHexDigit
      let rest := digits.dropWhile isHexDigit
      if number.isEmpty then (0, ⟨rest, true⟩)
      else if 2 ^ 32 ≤ hexValue number then (BitVec.allOnes 32, ⟨rest, true⟩)
      else if c == '-' then (-BitVec.ofNat 32 (hexValue number), ⟨rest, false⟩)
      else (BitVec.ofNat 32 (hexValue number), ⟨rest, false⟩)

/-! ## The loader -/

/-- The variables of `initializeMemory`. The counter stays far below `2^32`. -/
structure Loader where
  core : Nat → Word
  addr : Word
  word : Nat → Word
  count : Nat

/-- `ss >> hex >> word[i]` for the given `i`, in order. -/
def Loader.readWords (l : Loader) (ss : Stream) : List Nat → Loader
  | [] => l
  | i :: is =>
    let (w, ss) := ss.extractHex (l.word i)
    Loader.readWords { l with word := Function.update l.word i w } ss is

/-- `core[(addr>>2)+i]=word[i]` for the given `i`, until the memory counts as full. A write past the
array is undefined. -/
def Loader.storeWords (l : Loader) : List Nat → Option Loader
  | [] => some l
  | i :: is =>
    let index := l.addr.toNat >>> 2 + i
    if index < MemCore.nwords then
      let l := { l with core := Function.update l.core index (l.word i), count := l.count + 1 }
      -- run out of available memory: stop storing
      if MemCore.nwords ≤ l.count then some l else Loader.storeWords l is
    else none

/-- One turn of the loop, for a line that is not the end of the file. -/
def Loader.line (l : Loader) (line : Line) : Option Loader :=
  if line = [] ∨ line = [' '] then some l
  else
    let (addr, ss) := Stream.extractHex ⟨line, false⟩ l.addr
    (Loader.readWords { l with addr := addr } ss [0, 1, 2, 3]).storeWords [0, 1, 2, 3]

variable (word : Nat → Word)

/-- The memory after `initializeMemory`; `word` is the uninitialised array. -/
def initializeMemory (lines : List Line) : Option MemCore :=
  (lines.foldlM Loader.line ⟨fun _ => 0, 0, word, 0⟩).map fun l => ⟨l.core⟩

/-- The dump of the sections, through the script, into memory. -/
def loadImage (sections : List Section) : Option MemCore :=
  initializeMemory word (memimage (dump sections))

end SparcV8.Image
