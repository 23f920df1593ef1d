import SparcV8.Core.Text.Hex

/-!
# From a section dump to a memory image

`readelf --hex-dump` prints sixteen bytes a line: the address, up to four groups of up to four bytes
in memory order, and the same bytes as printable text. `hexdump_to_memimage.py` keeps the address
and the words of each line, filled up to four.
-/

namespace SparcV8.Image

open Text

/-- A line of text, without its line end. -/
abbrev Line := List Char

/-! ## The dump -/

/-- A section: its name, its first address and its bytes. -/
structure Section where
  name : List Char
  start : Nat
  bytes : List (BitVec 8)

/-- The bytes of one dump line and the address of the first of them. -/
structure Piece where
  address : Nat
  bytes : List (BitVec 8)
  deriving DecidableEq

/-- The lines of a section: sixteen bytes each, what is left on the last one. -/
def Section.pieces (s : Section) : List Piece :=
  (List.range ((s.bytes.length + 15) / 16)).map fun k =>
    { address := s.start + 16 * k, bytes := (s.bytes.drop (16 * k)).take 16 }

variable (p : Piece)

/-- Group `i` of a line: its bytes `4 i` to `4 i + 3`, as far as there are any. -/
def Piece.group (i : Nat) : List (BitVec 8) := (p.bytes.drop (4 * i)).take 4

/-- The number of groups of a line. -/
def Piece.groups : Nat := (p.bytes.length + 3) / 4

/-- A byte as text. -/
def printable (b : BitVec 8) : Char :=
  if 0x20 ≤ b.toNat ∧ b.toNat < 0x7F then Char.ofNat b.toNat else '.'

/-- The text column of a line. -/
def Piece.text : List Char := p.bytes.map printable

/-- A group as printed: missing bytes are blank, and a blank ends it. -/
def Piece.groupText (i : Nat) : List Char :=
  bytesHex (p.group i) ++ (List.replicate (8 - 2 * (p.group i).length) ' ' ++ [' '])

def Piece.line : Line :=
  "  0x".toList ++ (fixedHex 8 p.address ++ (' ' :: (p.groupText 0 ++ (p.groupText 1 ++
    (p.groupText 2 ++ (p.groupText 3 ++ p.text))))))

/-- What `readelf` prints for one section. -/
def Section.dump (s : Section) : List Line :=
  if s.bytes = [] then ["Section '".toList ++ (s.name ++ "' has no data to dump.".toList)]
  else [[], "Hex dump of section '".toList ++ (s.name ++ "':".toList)] ++
    s.pieces.map Piece.line ++ [[]]

variable (sections : List Section)

/-- The dump of the sections in the order they are asked for. -/
def dump : List Line := sections.flatMap Section.dump

/-- The lines of the dump that hold bytes. -/
def pieces : List Piece := sections.flatMap Section.pieces

/-! ## The script -/

variable (tok : List Char)

/-- `WORD_RE.fullmatch`: one to eight hexadecimal digits. -/
def isWord : Bool :=
  decide (1 ≤ tok.length ∧ tok.length ≤ 8) && tok.all isHexDigit

/-- The digits of a base 16 literal, in which an underscore may precede a digit. -/
def literalDigits : List Char → Option (List Char)
  | [] => some []
  | '_' :: c :: cs => if isHexDigit c then (literalDigits cs).map (c :: ·) else none
  | c :: cs => if isHexDigit c then (literalDigits cs).map (c :: ·) else none

/-- `int(tok, 16)` of a token that starts with `0x`; `none` is its `ValueError`. -/
def literal : Option Nat :=
  match literalDigits (tok.drop 2) with
  | some (d :: ds) => some (hexValue (d :: ds))
  | _ => none

def parseLine (line : Line) : Option (Nat × List (List Char)) :=
  match splitWords line with
  | [] => none
  | first :: rest =>
    if "0x".toList.isPrefixOf first then
      match literal first with
      | none => none
      | some addr =>
        -- at most 4 data words follow the address
        let words := (rest.take 4).takeWhile isWord
        if words.isEmpty then none else some (addr, words)
    else none

/-- `w.ljust(8, '0')`. -/
def ljust (w : List Char) : List Char := w.rightpad 8 '0'

/-- The words of a line, filled up to four, each to eight digits. -/
def fillWords (words : List (List Char)) : List (List Char) :=
  ((words.rightpad 4 "00000000".toList).take 4).map ljust

def formatLine (addr : Nat) (words : List (List Char)) : Line :=
  "0x".toList ++ (fixedHex 8 addr ++ words.flatMap (' ' :: ·))

/-- The output line of an input line, if it has one. -/
def convertLine (line : Line) : Option Line :=
  (parseLine line).map fun (addr, words) => formatLine addr (fillWords words)

/-- `hexdump_to_memimage.py`: the lines it prints. -/
def memimage (lines : List Line) : List Line := lines.filterMap convertLine

end SparcV8.Image
