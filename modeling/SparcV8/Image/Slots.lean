import SparcV8.Image.Loader

/-!
# The words that a dump stores

Each dump line makes the loader store four words: its groups and, when it has fewer than four,
spilled words, which come from the text column as long as its words look like hexadecimal numbers,
and are zero afterwards.
-/

namespace SparcV8.Image

open Text MemCore Piece List Nat Function

/-! ## What the script reads in a line -/

/-- The words of the text column that the script takes as data. -/
def Piece.extra (p : Piece) : List (List Char) :=
  ((splitWords p.text).take (4 - p.groups)).takeWhile isWord

/-- Word `i` of the output line before it is filled up to eight digits. -/
def Piece.wordText (p : Piece) (i : Nat) : List Char :=
  if i < p.groups then bytesHex (p.group i)
  else p.extra.getD (i - p.groups) "00000000".toList

/-- A line as `readelf` prints it: at least one byte and at most sixteen. -/
def Piece.Printed (p : Piece) : Prop := 0 < p.bytes.length ∧ p.bytes.length ≤ 16

variable (p : Piece)

theorem Piece.length_group (i : Nat) : (p.group i).length = min 4 (p.bytes.length - 4 * i) := by
  rw [group, length_take, length_drop]

theorem Piece.group_eq_nil_iff (i : Nat) : p.group i = [] ↔ p.groups ≤ i := by
  rw [← length_eq_zero_iff, p.length_group, groups]
  omega

variable {bs : List (BitVec 8)}

theorem bytesHex_ne_nil (h : bs ≠ []) : bytesHex bs ≠ [] := by
  intro hnil
  have hlen := length_bytesHex bs
  rw [hnil] at hlen
  exact h (length_eq_zero_iff.1 (by simpa using hlen.symm))

theorem isSpace_of_mem_bytesHex : ∀ c ∈ bytesHex bs, isSpace c = false :=
  fun _ hc => isSpace_of_isHexDigit (isHexDigit_of_mem_bytesHex hc)

/-- The words of a group, in front of the words that follow it. -/
theorem Piece.splitWords_groupText (i : Nat) (rest : List Char) :
    splitWords (p.groupText i ++ rest) =
      (if i < p.groups then [bytesHex (p.group i)] else []) ++ splitWords rest := by
  rw [groupText, append_assoc, append_assoc, singleton_append]
  by_cases hi : i < p.groups
  · have hne : p.group i ≠ [] := fun h => absurd ((p.group_eq_nil_iff i).1 h) (by omega)
    rw [if_pos hi, splitWords_word (bytesHex_ne_nil hne) isSpace_of_mem_bytesHex]
    rfl
  · have hnil : p.group i = [] := (p.group_eq_nil_iff i).2 (by omega)
    rw [if_neg hi, hnil]
    exact (splitWords_replicate_append 8 (' ' :: rest)).trans (wordsBy_cons rest (by decide))

/-- The groups of a line as words. -/
def Piece.groupWords (p : Piece) : List (List Char) :=
  (range p.groups).map fun i => bytesHex (p.group i)

theorem Piece.groupWords_eq {p : Piece} (h : p.Printed) :
    (range 4).flatMap (fun i => if i < p.groups then [bytesHex (p.group i)] else []) =
      p.groupWords := by
  have hle : p.groups ≤ 4 := by
    unfold groups
    have := h.2
    omega
  unfold groupWords
  generalize p.groups = n at hle ⊢
  have hall : n = 0 ∨ n = 1 ∨ n = 2 ∨ n = 3 ∨ n = 4 := by omega
  rcases hall with rfl | rfl | rfl | rfl | rfl <;> rfl

theorem Piece.splitWords_line {p : Piece} (h : p.Printed) :
    splitWords p.line =
      ("0x".toList ++ fixedHex 8 p.address) :: (p.groupWords ++ splitWords p.text) := by
  have hsolid : ∀ c ∈ "0x".toList ++ fixedHex 8 p.address, isSpace c = false := by
    intro c hc
    rcases mem_append.1 hc with hc | hc
    · exact eq_false_of_all (by decide) c hc
    · exact isSpace_of_isHexDigit (isHexDigit_of_mem_fixedHex hc)
  have hline : p.line = replicate 2 ' ' ++ (("0x".toList ++ fixedHex 8 p.address) ++
      (replicate 0 ' ' ++ ' ' :: (p.groupText 0 ++ (p.groupText 1 ++ (p.groupText 2 ++
        (p.groupText 3 ++ p.text)))))) := by
    simp only [line, append_assoc]
    rfl
  rw [hline, splitWords_replicate_append, splitWords_word (by simp) hsolid]
  simp only [splitWords_groupText, ← groupWords_eq h, flatMap_def]
  simp [range_succ]

theorem isWord_groupWords : ∀ w ∈ p.groupWords, isWord w = true := by
  intro w hw
  obtain ⟨i, hi, rfl⟩ := mem_map.1 hw
  have hne : (p.group i).length ≠ 0 := by
    rw [Ne, length_eq_zero_iff, p.group_eq_nil_iff]
    exact not_le.2 (mem_range.1 hi)
  have hlen := p.length_group i
  have hbytes := length_bytesHex (p.group i)
  have hdigits : (bytesHex (p.group i)).all isHexDigit = true :=
    all_eq_true.2 fun c hc => isHexDigit_of_mem_bytesHex hc
  rw [isWord, hdigits, Bool.and_true, decide_eq_true_eq]
  omega

variable {cs : List Char}

theorem literalDigits_eq (h : ∀ c ∈ cs, isHexDigit c = true) : literalDigits cs = some cs := by
  induction cs with
  | nil => rfl
  | cons c cs ih =>
    have hc := h c mem_cons_self
    have hne : c ≠ '_' := by
      rintro rfl
      cases hc
    rw [literalDigits.eq_3 c cs (fun _ _ hu => absurd hu hne), if_pos hc,
      ih fun x hx => h x (mem_cons_of_mem _ hx)]
    rfl

theorem literal_fixedHex (a : Nat) : literal ("0x".toList ++ fixedHex 8 a) = some a := by
  have hdigits : literalDigits (("0x".toList ++ fixedHex 8 a).drop 2) = some (fixedHex 8 a) :=
    literalDigits_eq fun c hc => isHexDigit_of_mem_fixedHex hc
  have hvalue := hexValue_fixedHex 8 a
  rw [literal, hdigits]
  cases hd : fixedHex 8 a with
  | nil => exact absurd hd (fixedHex_ne_nil 8 a)
  | cons d ds => exact congrArg some (hd ▸ hvalue)

/-- The script finds the address of a dump line, its groups, and the text words that look like data.
-/
theorem parseLine_line {p : Piece} (h : p.Printed) :
    parseLine p.line = some (p.address, p.groupWords ++ p.extra) := by
  have hlen : p.groupWords.length = p.groups := by simp [groupWords]
  have hle : p.groups ≤ 4 := by
    unfold groups
    have := h.2
    omega
  have hwords : ((p.groupWords ++ splitWords p.text).take 4).takeWhile isWord =
      p.groupWords ++ p.extra := by
    rw [take_append, hlen, take_of_length_le (by omega),
      takeWhile_append_of_pos (isWord_groupWords p)]
    rfl
  have hne : (p.groupWords ++ p.extra).isEmpty = false := by
    have hpos : 0 < p.groups := by
      unfold groups
      have := h.1
      omega
    have hwide : p.groupWords ≠ [] := ne_nil_of_length_pos (by omega)
    cases hg : p.groupWords with
    | nil => exact absurd hg hwide
    | cons _ _ => rfl
  rw [parseLine, splitWords_line h]
  simp only [hwords, hne, literal_fixedHex]
  rfl

/-! ## The output line -/

theorem fillWords_eq (words : List (List Char)) (h : words.length ≤ 4) :
    fillWords words =
      (range 4).map fun i => ljust (words.getD i "00000000".toList) := by
  apply ext_getElem
  · simp [fillWords, rightpad]
    omega
  · intro i hi _
    simp only [fillWords, rightpad, getElem_map, getElem_take, getElem_range]
    congr 1
    by_cases hw : i < words.length
    · rw [getElem_append_left hw, getD_eq_getElem _ _ hw]
    · rw [getElem_append_right (by omega), getElem_replicate, getD_eq_default _ _ (by omega)]

/-- The output line of a dump line: its address and its four words. -/
def Piece.imageLine (p : Piece) : Line :=
  formatLine p.address ((range 4).map fun i => ljust (p.wordText i))

theorem convertLine_line {p : Piece} (h : p.Printed) : convertLine p.line = some p.imageLine := by
  have hlen : p.groupWords.length = p.groups := by simp [groupWords]
  have hle : p.groups ≤ 4 := by
    unfold groups
    have := h.2
    omega
  have hextra : p.extra.length ≤ 4 - p.groups :=
    (takeWhile_sublist _).length_le.trans (by simp)
  have hfill := fillWords_eq (p.groupWords ++ p.extra) (by simp; omega)
  rw [convertLine, parseLine_line h, Option.map_some]
  dsimp only
  rw [hfill, imageLine]
  congr 2
  apply map_congr_left
  intro i _
  congr 1
  rw [wordText]
  split
  next hi =>
    rw [getD_append _ _ _ _ (by omega)]
    simp [groupWords, hi]
  next hi => rw [getD_append_right _ _ _ _ (by omega), hlen]

/-! ## What the loader reads in a line -/

variable {rest w : List Char}

theorem takeWhile_isHexDigit (hw : ∀ c ∈ w, isHexDigit c = true) (hrest : Ended rest) :
    (w ++ rest).takeWhile isHexDigit = w := by
  rw [takeWhile_append_of_pos hw]
  rcases hrest with rfl | ⟨cs, rfl⟩
  · simp
  · rw [takeWhile_cons_of_neg (by decide), append_nil]

theorem dropWhile_isHexDigit (hw : ∀ c ∈ w, isHexDigit c = true) (hrest : Ended rest) :
    (w ++ rest).dropWhile isHexDigit = rest := by
  rw [dropWhile_append_of_pos hw]
  rcases hrest with rfl | ⟨cs, rfl⟩
  · rfl
  · exact dropWhile_cons_of_neg (by decide)

/-- Digits after white space and the optional base are read as their number. -/
theorem extractHex_of_digits {text : List Char} (x : Word) {c : Char}
    (hskip : text.dropWhile isBlank = c :: cs) (hsign : (c == '-' || c == '+') = false)
    (hbase : afterBase (c :: cs) = w ++ rest) (hne : w ≠ []) (hw : ∀ c ∈ w, isHexDigit c = true)
    (hlt : hexValue w < 2 ^ 32) (hrest : Ended rest) :
    Stream.extractHex ⟨text, false⟩ x = (BitVec.ofNat 32 (hexValue w), ⟨rest, false⟩) := by
  obtain ⟨hminus, hplus⟩ := Bool.or_eq_false_iff.1 hsign
  have hempty : w.isEmpty = false := by simpa using hne
  simp only [Stream.extractHex, hskip, hminus, hplus, Bool.or_false, if_off, hbase,
    takeWhile_isHexDigit hw hrest, dropWhile_isHexDigit hw hrest, hempty, if_neg (not_le.2 hlt)]

/-- The address of a line. -/
theorem extractHex_address {a : Nat} (ha : a < 2 ^ 32) (x : Word) (hrest : Ended rest) :
    Stream.extractHex ⟨"0x".toList ++ (fixedHex 8 a ++ rest), false⟩ x =
      (BitVec.ofNat 32 a, ⟨rest, false⟩) := by
  have hvalue := hexValue_fixedHex 8 a
  have hread := extractHex_of_digits (w := fixedHex 8 a) x
    (show ("0x".toList ++ (fixedHex 8 a ++ rest)).dropWhile isBlank = _ from rfl) (by decide) rfl
    (fixedHex_ne_nil 8 a) (fun c hc => isHexDigit_of_mem_fixedHex hc) (by omega) hrest
  rw [hread, hvalue]

/-- A word of a line. -/
theorem extractHex_word (hne : w ≠ []) (hw : ∀ c ∈ w, isHexDigit c = true)
    (hlt : hexValue w < 2 ^ 32) (x : Word) (hrest : Ended rest) :
    Stream.extractHex ⟨' ' :: (w ++ rest), false⟩ x =
      (BitVec.ofNat 32 (hexValue w), ⟨rest, false⟩) := by
  obtain ⟨c, cs, rfl⟩ := exists_cons_of_ne_nil hne
  have hc := hw c mem_cons_self
  have hblank : isBlank c = false := isBlank_of_isHexDigit hc
  have hskip : (' ' :: ((c :: cs) ++ rest)).dropWhile isBlank = c :: (cs ++ rest) := by
    rw [dropWhile_cons_of_pos (by decide), cons_append, dropWhile_cons_of_neg (by simp [hblank])]
  have hsign : (c == '-' || c == '+') = false := by
    simp only [Bool.or_eq_false_iff, beq_eq_false_iff_ne]
    constructor <;> rintro rfl <;> cases hc
  exact extractHex_of_digits x hskip hsign (afterBase_of_digits hw hrest) hne hw hlt hrest

/-! ## Storing -/

/-- A stored word: its index, its value, and whether the line has no group for it. -/
structure Slot where
  index : Nat
  value : Word
  spilled : Bool
  deriving DecidableEq

/-- Word `i` of a line. -/
def Piece.slot (p : Piece) (i : Nat) : Slot where
  index := p.address / 4 + i
  value := BitVec.ofNat 32 (hexValue (ljust (p.wordText i)))
  spilled := decide (p.groups ≤ i)

/-- Once `count` has reached the memory's size, only a line's first word is stored. -/
def roomFor (count : Nat) : Nat := if count < nwords then 4 else 1

/-- The words that the lines make the loader store, in order. -/
def slotsFrom : Nat → List Piece → List Slot
  | _, [] => []
  | n, p :: ps =>
    (range (roomFor n)).map p.slot ++ slotsFrom (n + roomFor n) ps

/-- The memory with the words stored in order. -/
def putSlots (core : Nat → Word) (slots : List Slot) : Nat → Word :=
  slots.foldl (fun core s => update core s.index s.value) core

/-- The memory with the words stored in order, if all of them lie inside. -/
def stored (core : Nat → Word) (slots : List Slot) : Option (Nat → Word) :=
  if ∀ s ∈ slots, s.index < nwords then some (putSlots core slots) else none

variable (core : Nat → Word)

theorem stored_append (xs ys : List Slot) :
    stored core (xs ++ ys) = (stored core xs).bind (stored · ys) := by
  unfold stored
  by_cases hx : ∀ s ∈ xs, s.index < nwords
  · have hiff : (∀ s ∈ xs ++ ys, s.index < nwords) ↔
        ∀ s ∈ ys, s.index < nwords := by
      simp only [mem_append]
      exact ⟨fun h s hs => h s (.inr hs), fun h s hs => hs.elim (hx s) (h s)⟩
    simp only [if_pos hx, hiff, Option.bind_some, putSlots, foldl_append]
  · have hnot : ¬ ∀ s ∈ xs ++ ys, s.index < nwords :=
      fun h => hx fun s hs => h s (mem_append_left _ hs)
    rw [if_neg hx, if_neg hnot]
    rfl

theorem stored_cons (s : Slot) (ss : List Slot) :
    stored core (s :: ss) =
      if s.index < nwords then stored (update core s.index s.value) ss
      else none := by
  rw [← singleton_append, stored_append, stored]
  simp only [mem_singleton, forall_eq]
  split <;> rfl

variable (slot : Nat → Slot)

/-- With room for all of them, the words are stored one after another. -/
theorem storeWords_of_room (is : List Nat) (l : Loader) (hroom : l.count + is.length ≤ nwords)
    (hslot : ∀ i ∈ is, (slot i).index = l.addr.toNat >>> 2 + i ∧ (slot i).value = l.word i) :
    l.storeWords is = (stored l.core (is.map slot)).map fun core =>
      { l with core := core, count := l.count + is.length } := by
  induction is generalizing l with
  | nil => rfl
  | cons i is ih =>
    obtain ⟨hindex, hvalue⟩ := hslot i mem_cons_self
    rw [length_cons] at hroom
    rw [Loader.storeWords, map_cons, stored_cons, hindex, hvalue]
    split
    next hlt =>
      have hrest := ih { l with
        core := update l.core (l.addr.toNat >>> 2 + i) (l.word i)
        count := l.count + 1 } (by dsimp only; omega)
        fun j hj => hslot j (mem_cons_of_mem _ hj)
      dsimp only at hrest ⊢
      split
      next hfull =>
        -- the counter reaches the size of the memory at the last word only
        have hnil : is = [] := length_eq_zero_iff.1 (by omega)
        subst hnil
        rfl
      next =>
        rw [hrest]
        congr 1
        funext core
        rw [length_cons, add_assoc, add_comm 1]
    next => rfl

/-- With the counter at its end, only the first word is stored. -/
theorem storeWords_of_full (i : Nat) (is : List Nat) (l : Loader) (hfull : nwords ≤ l.count)
    (hslot : (slot i).index = l.addr.toNat >>> 2 + i ∧ (slot i).value = l.word i) :
    l.storeWords (i :: is) = (stored l.core [slot i]).map fun core =>
      { l with core := core, count := l.count + 1 } := by
  rw [Loader.storeWords, stored_cons, hslot.1, hslot.2]
  split
  next =>
    dsimp only
    rw [if_pos (by omega)]
    rfl
  next => rfl

/-- The counter passes the size of the memory at the end of a line. -/
def Counted (count : Nat) : Prop := count % 4 = 0 ∨ nwords ≤ count

theorem counted_add_roomFor {count : Nat} (h : Counted count) :
    Counted (count + roomFor count) := by
  unfold Counted roomFor at *
  split <;> omega

theorem storeWords_eq (l : Loader) (hcount : Counted l.count) (haddr : l.addr.toNat = p.address)
    (hword : ∀ i < 4, l.word i = (p.slot i).value) :
    l.storeWords [0, 1, 2, 3] =
      (stored l.core ((range (roomFor l.count)).map p.slot)).map fun core =>
        { l with core := core, count := l.count + roomFor l.count } := by
  have hslot : ∀ i < 4, (p.slot i).index = l.addr.toNat >>> 2 + i ∧
      (p.slot i).value = l.word i := by
    intro i hi
    refine ⟨?_, (hword i hi).symm⟩
    rw [haddr, shiftRight_eq_div_pow]
    rfl
  by_cases hlt : l.count < nwords
  · have hroom : roomFor l.count = 4 := if_pos hlt
    have hwords : nwords = 67108864 := rfl
    rw [hroom]
    refine storeWords_of_room p.slot [0, 1, 2, 3] l ?_ ?_
    · rcases hcount with h | h
      · simp only [length_cons, length_nil]
        omega
      · omega
    · intro i hi
      exact hslot i (by simp at hi; omega)
  · have hroom : roomFor l.count = 1 := if_neg hlt
    rw [hroom]
    exact storeWords_of_full p.slot 0 [1, 2, 3] l (by omega) (hslot 0 (by decide))

/-! ## Whole lines -/

/-- Every word of an output line is made of hexadecimal digits. -/
theorem Piece.isWord_wordText (i : Nat) : isWord (p.wordText i) = true := by
  unfold wordText
  split
  next hi => exact isWord_groupWords p _ (mem_map.2 ⟨i, mem_range.2 hi, rfl⟩)
  next =>
    by_cases h : i - p.groups < p.extra.length
    · have hall : ∀ w ∈ p.extra, isWord w = true := all_eq_true.1 all_takeWhile
      rw [getD_eq_getElem _ _ h]
      exact hall _ (getElem_mem h)
    · rw [getD_eq_default _ _ (by omega)]
      decide

theorem length_ljust (h : isWord w = true) : (ljust w).length = 8 := by
  simp only [isWord, Bool.and_eq_true, decide_eq_true_eq] at h
  rw [ljust, rightpad, length_append, length_replicate]
  omega

theorem isHexDigit_of_mem_ljust (h : isWord w = true) : ∀ c ∈ ljust w, isHexDigit c = true := by
  intro c hc
  simp only [isWord, Bool.and_eq_true] at h
  rcases mem_append.1 hc with hc | hc
  · exact all_eq_true.1 h.2 c hc
  · rw [eq_of_mem_replicate hc]
    decide

theorem ended_words (ws : List (List Char)) : Ended (ws.flatMap (' ' :: ·)) := by
  cases ws with
  | nil => exact .inl rfl
  | cons w ws => exact .inr ⟨_, rfl⟩

theorem readWords_eq (w : Nat → List Char) (hw : ∀ i, isWord (w i) = true) (is : List Nat)
    (l : Loader) :
    l.readWords ⟨(is.map fun i => ljust (w i)).flatMap (' ' :: ·), false⟩ is =
      { l with
        word := fun j => if j ∈ is then BitVec.ofNat 32 (hexValue (ljust (w j))) else
          l.word j } := by
  induction is generalizing l with
  | nil => simp [Loader.readWords]
  | cons i is ih =>
    have hlen := length_ljust (hw i)
    have hne : ljust (w i) ≠ [] := ne_nil_of_length_pos (by omega)
    have hlt := hexValue_lt (isHexDigit_of_mem_ljust (hw i))
    rw [hlen] at hlt
    have hread := extractHex_word hne (isHexDigit_of_mem_ljust (hw i)) hlt (l.word i)
      (ended_words (is.map fun i => ljust (w i)))
    rw [Loader.readWords, map_cons, flatMap_cons, cons_append, hread]
    dsimp only
    rw [ih]
    congr 1
    funext j
    by_cases hj : j = i
    · subst hj
      simp
    · simp [hj]

/-- A dump line makes the loader store its words. -/
theorem line_formatLine (ha : p.address < 2 ^ 32) (l : Loader) (hcount : Counted l.count) :
    ∃ word, l.line p.imageLine =
      (stored l.core ((range (roomFor l.count)).map p.slot)).map fun core =>
        ⟨core, BitVec.ofNat 32 p.address, word, l.count + roomFor l.count⟩ := by
  have haddr := extractHex_address ha l.addr
    (ended_words ((range 4).map fun i => ljust (p.wordText i)))
  have hwords := readWords_eq p.wordText p.isWord_wordText (range 4)
    { l with addr := BitVec.ofNat 32 p.address }
  have hnonempty : ¬ (p.imageLine = [] ∨ p.imageLine = [' ']) := by
    rintro (h | h)
    · cases h
    · injection h with hhead _
      cases hhead
  refine ⟨fun j => if j ∈ range 4 then BitVec.ofNat 32 (hexValue (ljust (p.wordText j)))
    else l.word j, ?_⟩
  rw [Loader.line, if_neg hnonempty]
  simp only [imageLine, formatLine, haddr]
  rw [show [0, 1, 2, 3] = range 4 from rfl, hwords]
  refine storeWords_eq p _ hcount ?_ ?_
  · rw [BitVec.toNat_ofNat, mod_eq_of_lt ha]
  · intro i hi
    exact if_pos (mem_range.2 hi)

/-- The lines of a dump make the loader store their words in order. -/
theorem foldlM_lines (ps : List Piece) (h : ∀ p ∈ ps, p.address < 2 ^ 32) (l : Loader)
    (hcount : Counted l.count) :
    ((ps.map imageLine).foldlM Loader.line l).map Loader.core =
      stored l.core (slotsFrom l.count ps) := by
  induction ps generalizing l with
  | nil => rfl
  | cons p ps ih =>
    obtain ⟨word, hline⟩ := line_formatLine p (h p mem_cons_self) l hcount
    rw [map_cons, foldlM_cons, hline, slotsFrom, stored_append]
    cases stored l.core ((range (roomFor l.count)).map p.slot) with
    | none => rfl
    | some core =>
      exact ih (fun q hq => h q (mem_cons_of_mem _ hq))
        ⟨core, BitVec.ofNat 32 p.address, word, l.count + roomFor l.count⟩
        (counted_add_roomFor hcount)

/-! ## The whole dump -/

/-- A line whose first word does not start with `0x` is skipped. -/
theorem convertLine_of_head {c : Char} (cs : List Char) (hsolid : ∀ c ∈ w, isSpace c = false)
    (hne : w ≠ []) (hc : isSpace c = true) (hfirst : "0x".toList.isPrefixOf w = false) :
    convertLine (w ++ c :: cs) = none := by
  rw [convertLine, parseLine, splitWords, wordsBy_append_cons _ _ hc, wordsBy_of_solid hne hsolid,
    singleton_append]
  dsimp only
  rw [if_neg (by rw [hfirst]; decide)]
  rfl

theorem Section.printed_of_mem_pieces {s : Section} {p : Piece} (h : p ∈ s.pieces) : p.Printed := by
  obtain ⟨k, hk, rfl⟩ := mem_map.1 h
  have hlt := mem_range.1 hk
  simp only [Printed, length_take, length_drop]
  omega

/-- Of the dump of a section the script keeps the lines that hold bytes. -/
theorem memimage_dump (s : Section) : memimage s.dump = s.pieces.map imageLine := by
  have hpieces : ∀ ps : List Piece, (∀ p ∈ ps, p.Printed) →
      (ps.map line).filterMap convertLine = ps.map imageLine := by
    intro ps hps
    induction ps with
    | nil => rfl
    | cons p ps ih =>
      rw [map_cons, filterMap_cons_some (convertLine_line (hps p mem_cons_self)), map_cons,
        ih fun q hq => hps q (mem_cons_of_mem _ hq)]
  have hhead := convertLine_of_head (w := "Hex".toList) (c := ' ')
    ("dump of section '".toList ++ (s.name ++ "':".toList)) (eq_false_of_all (by decide))
      (by decide)
    (by decide) (by decide)
  have hnone := convertLine_of_head (w := "Section".toList) (c := ' ')
    ("'".toList ++ (s.name ++ "' has no data to dump.".toList)) (eq_false_of_all (by decide))
      (by decide)
    (by decide) (by decide)
  rw [memimage, Section.dump]
  split
  next hempty =>
    have hlines : s.pieces = [] := by
      rw [Section.pieces, hempty]
      rfl
    rw [hlines]
    exact filterMap_cons_none hnone
  next =>
    rw [filterMap_append, filterMap_append, hpieces _ fun p hp => s.printed_of_mem_pieces hp]
    have hfront : [[], "Hex dump of section '".toList ++ (s.name ++ "':".toList)].filterMap
        convertLine = [] := by
      rw [filterMap_cons_none (by rfl)]
      exact filterMap_cons_none hhead
    rw [hfront]
    exact append_nil _

/-- Loading a dump stores the words of its lines in order. -/
theorem loadImage_eq (word : Nat → Word) (sections : List Section)
    (h : ∀ p ∈ pieces sections, p.address < 2 ^ 32) :
    loadImage word sections =
      (stored (fun _ => 0) (slotsFrom 0 (pieces sections))).map MemCore.mk := by
  have himage : memimage (dump sections) = (pieces sections).map imageLine := by
    rw [memimage, dump, pieces, filterMap_flatMap, map_flatMap]
    exact congrArg (flatMap · sections) (funext memimage_dump)
  have hfold := foldlM_lines (pieces sections) h ⟨fun _ => 0, 0, word, 0⟩ (.inl rfl)
  rw [loadImage, initializeMemory, himage, ← hfold, Option.map_map]
  rfl

end SparcV8.Image
