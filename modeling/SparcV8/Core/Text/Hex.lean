import Mathlib.Data.List.Induction
import Mathlib.Tactic.Common
import SparcV8.Core.Word.Bytes

/-!
# Words and hexadecimal numbers in text

Text is a list of characters. `splitWords` cuts a line at its white space, and
`hexValue` reads hexadecimal digits of either case. Numbers are printed in lower case,
with leading zeros up to a width, and read back as themselves.
-/

namespace SparcV8.Text

open Bool List Nat

/-! ## White space -/

/-- The characters that `str.split` and `str.isspace` take as white space. -/
def isSpace (c : Char) : Bool :=
  (9 ≤ c.toNat && c.toNat ≤ 13) || (28 ≤ c.toNat && c.toNat ≤ 32) || c.toNat == 0x85 ||
    c.toNat == 0xA0 || c.toNat == 0x1680 || (0x2000 ≤ c.toNat && c.toNat ≤ 0x200A) ||
    c.toNat == 0x2028 || c.toNat == 0x2029 || c.toNat == 0x202F || c.toNat == 0x205F ||
    c.toNat == 0x3000

/-- White space of the C locale. -/
def isBlank (c : Char) : Bool := c == ' ' || (9 ≤ c.toNat && c.toNat ≤ 13)

variable {p : Char → Bool} {cs : List Char}

/-- No character of a text has a property, as it can be computed. -/
theorem eq_false_of_all (h : cs.all (fun c => !p c) = true) : ∀ c ∈ cs, p c = false := by
  intro c hc
  simpa only [not_eq_true'] using all_eq_true.1 h c hc

/-- The longest stretches without separators, in order. -/
def wordsBy (p : Char → Bool) (cs : List Char) : List (List Char) :=
  (cs.splitOnP p).filter (fun w => !w.isEmpty)

variable (xs ys : List Char) {c : Char}

/-- A separator cuts what stands before it from what follows. -/
theorem wordsBy_append_cons (hc : p c = true) :
    wordsBy p (xs ++ c :: ys) = wordsBy p xs ++ wordsBy p ys := by
  rw [wordsBy, splitOnP_append_cons _ _ hc, filter_append]
  rfl

theorem wordsBy_cons (ys : List Char) (hc : p c = true) : wordsBy p (c :: ys) = wordsBy p ys :=
  wordsBy_append_cons [] ys hc

/-- A stretch without separators is one word. -/
theorem wordsBy_of_solid {xs : List Char} (hne : xs ≠ []) (h : ∀ c ∈ xs, p c = false) :
    wordsBy p xs = [xs] := by
  rw [wordsBy, splitOnP_eq_singleton h]
  simp [hne]

/-- `str.split`. -/
def splitWords (cs : List Char) : List (List Char) := wordsBy isSpace cs

variable (n : Nat)

theorem splitWords_replicate_append (ys : List Char) :
    splitWords (replicate n ' ' ++ ys) = splitWords ys := by
  induction n with
  | zero => rfl
  | succ n ih =>
    rw [replicate_succ, cons_append, splitWords, wordsBy_cons _ (by decide)]
    exact ih

/-- A word, then blanks, then the rest of the line. -/
theorem splitWords_word {xs : List Char} (hne : xs ≠ []) (h : ∀ c ∈ xs, isSpace c = false)
    (n : Nat) (ys : List Char) :
    splitWords (xs ++ (replicate n ' ' ++ ' ' :: ys)) = xs :: splitWords ys := by
  have hcomm : replicate n ' ' ++ ' ' :: ys = ' ' :: (replicate n ' ' ++ ys) := by
    rw [← cons_append, ← replicate_succ, replicate_succ', append_assoc]
    rfl
  rw [hcomm, splitWords, wordsBy_append_cons _ _ (by decide), wordsBy_of_solid hne h]
  exact congrArg (xs :: ·) (splitWords_replicate_append n ys)

/-! ## Hexadecimal digits -/

def isHexDigit (c : Char) : Bool :=
  (48 ≤ c.toNat && c.toNat ≤ 57) || (97 ≤ c.toNat && c.toNat ≤ 102) ||
    (65 ≤ c.toNat && c.toNat ≤ 70)

def hexDigitValue (c : Char) : Nat :=
  if c.toNat ≤ 57 then c.toNat - 48 else if 97 ≤ c.toNat then c.toNat - 87 else c.toNat - 55

/-- The number that hexadecimal digits stand for. -/
def hexValue (cs : List Char) : Nat :=
  cs.foldl (fun v c => v * 16 + hexDigitValue c) 0

theorem isBlank_of_isHexDigit (h : isHexDigit c = true) : isBlank c = false := by
  simp only [isHexDigit, or_eq_true, and_eq_true, decide_eq_true_eq] at h
  have hspace : c ≠ ' ' := by
    rintro rfl
    exact absurd h (by decide)
  simp only [isBlank, or_eq_false_iff, and_eq_false_iff, decide_eq_false_iff_not,
    beq_eq_false_iff_ne]
  refine ⟨hspace, ?_⟩
  omega

theorem isSpace_of_isHexDigit (h : isHexDigit c = true) : isSpace c = false := by
  simp only [isHexDigit, or_eq_true, and_eq_true, decide_eq_true_eq] at h
  simp only [isSpace, or_eq_false_iff, and_eq_false_iff, decide_eq_false_iff_not,
    beq_eq_false_iff_ne]
  omega

private theorem foldl_hexDigitValue (cs : List Char) (v : Nat) :
    cs.foldl (fun v c => v * 16 + hexDigitValue c) v = v * 16 ^ cs.length + hexValue cs := by
  induction cs generalizing v with
  | nil => simp [hexValue]
  | cons c cs ih =>
    have hhead : hexValue (c :: cs) = (0 * 16 + hexDigitValue c) * 16 ^ cs.length + hexValue cs :=
      ih _
    rw [foldl_cons, ih, hhead, length_cons, pow_succ']
    ring

theorem hexValue_append : hexValue (xs ++ ys) = hexValue xs * 16 ^ ys.length + hexValue ys := by
  rw [hexValue, foldl_append, foldl_hexDigitValue]
  rfl

theorem hexDigitValue_lt (h : isHexDigit c = true) : hexDigitValue c < 16 := by
  simp only [isHexDigit, or_eq_true, and_eq_true, decide_eq_true_eq] at h
  unfold hexDigitValue
  split_ifs <;> omega

/-- `n` digits stand for a number below `16 ^ n`. -/
theorem hexValue_lt (h : ∀ c ∈ cs, isHexDigit c = true) : hexValue cs < 16 ^ cs.length := by
  induction cs with
  | nil => simp [hexValue]
  | cons c cs ih =>
    have hc := hexDigitValue_lt (h c mem_cons_self)
    have hcs := ih fun x hx => h x (mem_cons_of_mem _ hx)
    have hone : hexValue [c] = hexDigitValue c := by simp [hexValue]
    rw [← singleton_append, hexValue_append, hone, length_append, length_singleton,
      pow_add, pow_one]
    calc hexDigitValue c * 16 ^ cs.length + hexValue cs
        < hexDigitValue c * 16 ^ cs.length + 16 ^ cs.length := by omega
      _ = (hexDigitValue c + 1) * 16 ^ cs.length := by ring
      _ ≤ 16 * 16 ^ cs.length := Nat.mul_le_mul_right _ hc

theorem isHexDigit_digitChar {d : Nat} (h : d < 16) : isHexDigit (digitChar d) = true := by
  have hall : ∀ d < 16, isHexDigit (digitChar d) = true := by decide
  exact hall d h

theorem hexDigitValue_digitChar {d : Nat} (h : d < 16) : hexDigitValue (digitChar d) = d := by
  have hall : ∀ d < 16, hexDigitValue (digitChar d) = d := by decide
  exact hall d h

/-- A number without the base that may stand before it. -/
def afterBase : List Char → List Char
  | '0' :: 'x' :: cs => cs
  | '0' :: 'X' :: cs => cs
  | cs => cs

/-- The text after a number: nothing, or white space first. -/
def Ended (rest : List Char) : Prop := rest = [] ∨ ∃ cs, rest = ' ' :: cs

/-- Digits are no base. -/
theorem afterBase_of_digits {w : List Char} (hw : ∀ c ∈ w, isHexDigit c = true)
    {rest : List Char} (hrest : Ended rest) : afterBase (w ++ rest) = w ++ rest := by
  have hx : ∀ c, (isHexDigit c = true ∨ c = ' ') → c ≠ 'x' ∧ c ≠ 'X' := by
    rintro c (hc | rfl)
    · constructor <;> rintro rfl <;> cases hc
    · decide
  have hall : ∀ c cs, w ++ rest = '0' :: c :: cs → isHexDigit c = true ∨ c = ' ' := by
    intro c cs h
    match w, hw, h with
    | [], _, h =>
      rcases hrest with rfl | ⟨_, rfl⟩
      · cases h
      · injection h with hhead _
        cases hhead
    | [_], _, h =>
      rcases hrest with rfl | ⟨_, rfl⟩
      · cases h
      · injection h with _ htail
        injection htail with hhead _
        exact .inr hhead.symm
    | _ :: d :: _, hw, h =>
      injection h with _ htail
      injection htail with hhead _
      exact .inl (hhead ▸ hw d (by simp))
  unfold afterBase
  split
  next cs h => exact absurd rfl (hx 'x' (hall 'x' cs h)).1
  next cs h => exact absurd rfl (hx 'X' (hall 'X' cs h)).2
  next => rfl

/-! ## Printed numbers -/

/-- `n` in lower case hexadecimal digits, with leading zeros up to `width`. -/
def fixedHex (width n : Nat) : List Char := leftpad width '0' (toDigits 16 n)

/-- An integer in hexadecimal digits, after a minus sign when it is negative. -/
def hexInt (v : Int) : List Char :=
  if v < 0 then '-' :: toDigits 16 v.natAbs else toDigits 16 v.natAbs

theorem isHexDigit_of_mem_toDigits : ∀ c ∈ toDigits 16 n, isHexDigit c = true := by
  induction n using Nat.strong_induction_on with
  | _ n ih =>
    intro c hc
    rw [Nat.toDigits_eq_if (by decide)] at hc
    split at hc
    next hlt =>
      rw [mem_singleton.1 hc]
      exact isHexDigit_digitChar hlt
    next hge =>
      rcases mem_append.1 hc with hc | hc
      · exact ih (n / 16) (by omega) c hc
      · rw [mem_singleton.1 hc]
        exact isHexDigit_digitChar (by omega)

theorem hexValue_toDigits : hexValue (toDigits 16 n) = n := by
  induction n using Nat.strong_induction_on with
  | _ n ih =>
    rw [Nat.toDigits_eq_if (by decide)]
    split
    next hlt => simp [hexValue, hexDigitValue_digitChar hlt]
    next hge =>
      have hone : hexValue [digitChar (n % 16)] = n % 16 := by
        simp [hexValue, hexDigitValue_digitChar (Nat.mod_lt n (by decide : 0 < 16))]
      rw [hexValue_append, ih (n / 16) (by omega), hone, length_singleton]
      omega

theorem isHexDigit_of_mem_fixedHex {width n : Nat} (h : c ∈ fixedHex width n) :
    isHexDigit c = true := by
  rcases mem_append.1 h with h | h
  · rw [eq_of_mem_replicate h]
    decide
  · exact isHexDigit_of_mem_toDigits n c h

theorem hexValue_replicate_zero (k : Nat) : hexValue (replicate k '0') = 0 := by
  induction k with
  | zero => rfl
  | succ k ih =>
    rw [replicate_succ', hexValue_append, ih]
    decide

/-- A printed number reads back as itself. -/
theorem hexValue_fixedHex (width n : Nat) : hexValue (fixedHex width n) = n := by
  rw [fixedHex, leftpad, hexValue_append, hexValue_replicate_zero, hexValue_toDigits]
  omega

theorem fixedHex_ne_nil (width n : Nat) : fixedHex width n ≠ [] := by
  intro h
  exact Nat.toDigits_ne_nil (append_eq_nil_iff.1 h).2

theorem length_fixedHex {width n : Nat} (hw : 0 < width) (h : n < 16 ^ width) :
    (fixedHex width n).length = width := by
  have hle := (Nat.length_toDigits_le_iff (by decide) hw).2 h
  rw [fixedHex, leftpad, length_append, length_replicate]
  omega

/-! ## Bytes in text -/

/-- Bytes in memory order, two digits each. -/
def bytesHex (bs : List (BitVec 8)) : List Char := bs.flatMap (fun b => fixedHex 2 b.toNat)

variable (bs : List (BitVec 8))

theorem length_bytesHex : (bytesHex bs).length = 2 * bs.length := by
  induction bs with
  | nil => rfl
  | cons b bs ih =>
    have hb := length_fixedHex (by decide : 0 < 2) b.isLt
    rw [bytesHex, flatMap_cons, length_append, hb, length_cons]
    rw [bytesHex] at ih
    omega

theorem isHexDigit_of_mem_bytesHex {bs : List (BitVec 8)} (h : c ∈ bytesHex bs) :
    isHexDigit c = true := by
  obtain ⟨b, _, hc⟩ := mem_flatMap.1 h
  exact isHexDigit_of_mem_fixedHex hc

/-- The digits of bytes stand for their big-endian number. -/
theorem hexValue_bytesHex :
    hexValue (bytesHex bs) = readBytes (fun i => bs.getD i 0) 0 bs.length := by
  induction bs using reverseRecOn with
  | nil => rfl
  | append_singleton bs b ih =>
    have hone : bytesHex [b] = fixedHex 2 b.toNat := by simp [bytesHex]
    have hlen := length_fixedHex (by decide : 0 < 2) b.isLt
    have hsplit : bytesHex (bs ++ [b]) = bytesHex bs ++ bytesHex [b] := flatMap_append
    have hold : readBytes (fun i => (bs ++ [b]).getD i 0) 0 bs.length =
        readBytes (fun i => bs.getD i 0) 0 bs.length := by
      apply readBytes_congr
      intro i hi
      exact getD_append _ _ _ _ (by omega)
    rw [hsplit, hexValue_append, ih, hone, hexValue_fixedHex, hlen, length_append,
      length_singleton, readBytes, hold]
    simp

end SparcV8.Text
