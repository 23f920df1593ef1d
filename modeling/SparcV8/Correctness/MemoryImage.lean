import Mathlib.Data.List.Pairwise
import SparcV8.Correctness.ByteOrder
import SparcV8.Image.Slots

/-!
# Memory images

The dump of disjoint sections loads as their bytes exactly when no spilled word does harm: the words
that a line with fewer than four groups adds lie in memory, and where such a word is the last one
stored at its place, it is what the sections have there.
-/

namespace SparcV8.Image

open Text List MemCore Nat Option

/-! ## What the memory should hold -/

/-- The section has a byte at address `a`. -/
def Section.Covers (s : Section) (a : Nat) : Prop := s.start ≤ a ∧ a < s.start + s.bytes.length

instance (s : Section) (a : Nat) : Decidable (s.Covers a) :=
  inferInstanceAs (Decidable (_ ∧ _))

/-- The byte that the sections have at address `a`, and zero where there is none. -/
def imageByte (sections : List Section) (a : Nat) : BitVec 8 :=
  match sections.find? (fun s => s.Covers a) with
  | some s => s.bytes.getD (a - s.start) 0
  | none => 0

/-- The word that the sections have at word index `w`. -/
def imageWord (sections : List Section) (w : Nat) : Word :=
  BitVec.ofNat 32 (readBytes (imageByte sections) (4 * w) 4)

/-- Pairwise disjoint sections at word-aligned addresses inside memory. -/
structure WellPlaced (sections : List Section) : Prop where
  aligned : ∀ s ∈ sections, s.start % 4 = 0
  inside : ∀ s ∈ sections, s.start + s.bytes.length ≤ memSize
  disjoint : sections.Pairwise fun s t => ∀ a, ¬ (s.Covers a ∧ t.Covers a)

/-- The memory holds the sections' bytes and zeros. -/
def Loads (word : Nat → Word) (sections : List Section) : Prop :=
  ∃ m, loadImage word sections = some m ∧
    ∀ a < memSize, m.bytes a = imageByte sections a

/-- The words stored by the dump of the sections, in order. -/
def slots (sections : List Section) : List Slot := slotsFrom 0 (pieces sections)

/-- The last of the stored words at word index `w`. -/
def lastSlot (ss : List Slot) (w : Nat) : Option Slot :=
  (ss.filter fun s => s.index == w).getLast?

/-- Where the last word stored is a spilled one, the sections have it there; a word never stored is
zero in them. -/
def Settled (sections : List Section) (w : Nat) : Prop :=
  match lastSlot (slots sections) w with
  | some s => s.spilled = true → s.value = imageWord sections w
  | none => imageWord sections w = 0

instance (sections : List Section) (w : Nat) : Decidable (Settled sections w) := by
  unfold Settled
  split <;> infer_instance

/-- No stored word lies outside memory, and no spilled word does harm. -/
def SpillsHarmless (sections : List Section) : Prop :=
  (∀ s ∈ slots sections, s.index < nwords) ∧ ∀ w < nwords, Settled sections w

/-! ## Stored words -/

theorem putSlots_apply (core : Nat → Word) (ss : List Slot) (w : Nat) :
    putSlots core ss w = ((lastSlot ss w).map Slot.value).getD (core w) := by
  induction ss using reverseRecOn with
  | nil => rfl
  | append_singleton ss s ih =>
    rw [putSlots, foldl_append, foldl_cons, foldl_nil, lastSlot, filter_append]
    by_cases h : s.index = w
    · subst h
      simp
    · rw [Function.update_of_ne (Ne.symm h)]
      have hnone : [s].filter (fun s => s.index == w) = [] := by simp [h]
      rw [hnone, append_nil]
      exact ih

theorem index_of_lastSlot {ss : List Slot} {w : Nat} {s : Slot} (h : lastSlot ss w = some s) :
    s ∈ ss ∧ s.index = w := by
  have hmem := mem_filter.1 (mem_of_getLast? h)
  exact ⟨hmem.1, by simpa using hmem.2⟩

theorem mem_slotsFrom {count : Nat} {ps : List Piece} {s : Slot} (h : s ∈ slotsFrom count ps) :
    ∃ p ∈ ps, ∃ i < 4, s = p.slot i := by
  induction ps generalizing count with
  | nil => cases h
  | cons p ps ih =>
    rcases mem_append.1 h with h | h
    · obtain ⟨i, hi, rfl⟩ := mem_map.1 h
      refine ⟨p, mem_cons_self, i, ?_, rfl⟩
      have hlt := mem_range.1 hi
      unfold roomFor at hlt
      split at hlt <;> omega
    · obtain ⟨q, hq, hslot⟩ := ih h
      exact ⟨q, mem_cons_of_mem _ hq, hslot⟩

/-! ## Groups -/

/-- A group filled up to a word is filled up with zero bytes. -/
theorem ljust_bytesHex {bs : List (BitVec 8)} (h : bs.length ≤ 4) :
    ljust (bytesHex bs) = bytesHex (bs ++ replicate (4 - bs.length) 0) := by
  have hzeros : ∀ n, replicate (2 * n) '0' = bytesHex (replicate n 0) := by
    intro n
    induction n with
    | zero => rfl
    | succ n ih =>
      rw [mul_succ, replicate_succ, replicate_succ, ih]
      rfl
  rw [ljust, rightpad, length_bytesHex, show 8 - 2 * bs.length = 2 * (4 - bs.length) by omega,
    hzeros]
  exact flatMap_append.symm

theorem getD_append_replicate (bs : List (BitVec 8)) (n k : Nat) :
    (bs ++ replicate n 0).getD k 0 = bs.getD k 0 := by
  by_cases h : k < bs.length
  · rw [getD_append _ _ _ _ h]
  · rw [getD_append_right _ _ _ _ (by omega), getD_eq_default bs _ (by omega)]
    by_cases hk : k - bs.length < n
    · rw [getD_eq_getElem _ _ (by simpa using hk), getElem_replicate]
    · rw [getD_eq_default _ _ (by simpa using hk)]

/-- The word of a group holds the bytes of the group, then zeros. -/
theorem Piece.value_slot_of_lt (p : Piece) {i : Nat} (hi : i < p.groups) :
    (p.slot i).value = BitVec.ofNat 32 (readBytes (fun k => (p.group i).getD k 0) 0 4) := by
  have hlen : (p.group i).length ≤ 4 := by
    rw [p.length_group]
    omega
  have hpad : (p.group i ++ replicate (4 - (p.group i).length) 0).length = 4 := by
    rw [length_append, length_replicate]
    omega
  rw [Piece.slot, Piece.wordText, if_pos hi, ljust_bytesHex hlen, hexValue_bytesHex, hpad]
  refine congrArg (BitVec.ofNat 32) (readBytes_congr ?_)
  intro k _
  exact getD_append_replicate _ _ _

theorem Piece.getD_group (p : Piece) {i k : Nat} (hk : k < 4) :
    (p.group i).getD k 0 = p.bytes.getD (4 * i + k) 0 := by
  simp only [Piece.group, getD_eq_getElem?_getD, getElem?_take, if_pos hk, getElem?_drop]

variable {s : Section}

namespace WellPlaced

variable {sections : List Section}

/-- At most one section covers an address. -/
theorem unique (h : WellPlaced sections) {t : Section} (hs : s ∈ sections) (ht : t ∈ sections)
    {a : Nat} (hsa : s.Covers a) (hta : t.Covers a) : s = t := by
  by_contra hne
  have hsymm : Std.Symm fun s t : Section => ∀ a, ¬ (s.Covers a ∧ t.Covers a) :=
    ⟨fun _ _ hst a hc => hst a hc.symm⟩
  exact h.disjoint.forall hs ht hne a ⟨hsa, hta⟩

section

variable (h : WellPlaced sections)
include h

theorem imageByte_of_covers (hs : s ∈ sections) {a : Nat} (ha : s.Covers a) :
    imageByte sections a = s.bytes.getD (a - s.start) 0 := by
  unfold imageByte
  cases hfind : sections.find? (fun s => s.Covers a) with
  | none => exact absurd ha (by simpa using find?_eq_none.1 hfind s hs)
  | some t =>
    have hcovers : t.Covers a := by simpa using find?_some hfind
    rw [h.unique hs (mem_of_find?_eq_some hfind) ha hcovers]

/-- After the end of a section, the rest of its last word is zero. -/
theorem imageByte_of_end (hs : s ∈ sections) {a k : Nat} (ha : s.Covers a) (haligned : a % 4 = 0)
    (hk : k < 4) (hend : ¬ s.Covers (a + k)) : imageByte sections (a + k) = 0 := by
  unfold imageByte
  cases hfind : sections.find? (fun s => s.Covers (a + k)) with
  | none => rfl
  | some t =>
    have hmem := mem_of_find?_eq_some hfind
    have hcovers : t.Covers (a + k) := by simpa using find?_some hfind
    have hfirst : t.Covers a := by
      have halt := h.aligned t hmem
      unfold Section.Covers at hcovers ⊢
      omega
    exact absurd (h.unique hs hmem ha hfirst ▸ hcovers) hend

/-- The bytes of a section from an aligned place on, with zeros after its end. -/
theorem imageByte_word (hs : s ∈ sections) {n k : Nat} (hn : n < s.bytes.length)
    (haligned : n % 4 = 0) (hk : k < 4) :
    imageByte sections (s.start + n + k) = s.bytes.getD (n + k) 0 := by
  have hstart := h.aligned s hs
  by_cases hend : n + k < s.bytes.length
  · have hcovers : s.Covers (s.start + n + k) := by
      unfold Section.Covers
      omega
    rw [h.imageByte_of_covers hs hcovers]
    congr 1
    omega
  · rw [h.imageByte_of_end hs (by unfold Section.Covers; omega) (by omega) hk
      (by unfold Section.Covers; omega), getD_eq_default _ _ (by omega)]

/-- A word stored from a group is the word of the sections. -/
theorem value_of_not_spilled {s : Slot} (hs : s ∈ slots sections) (hgroup : s.spilled = false) :
    s.value = imageWord sections s.index := by
  obtain ⟨p, hp, i, -, rfl⟩ := mem_slotsFrom hs
  obtain ⟨t, ht, hpt⟩ := mem_flatMap.1 hp
  obtain ⟨j, hj, rfl⟩ := mem_map.1 hpt
  have hstart := h.aligned t ht
  simp only [Piece.slot, decide_eq_false_iff_not, not_le] at hgroup
  rw [Piece.value_slot_of_lt _ hgroup, imageWord]
  refine congrArg (BitVec.ofNat 32) ?_
  have hplace : 4 * ((t.start + 16 * j) / 4 + i) = t.start + (16 * j + 4 * i) := by omega
  simp only [Piece.slot, hplace]
  have hn : 16 * j + 4 * i < t.bytes.length := by
    simp only [Piece.groups, length_take, length_drop] at hgroup
    omega
  have hbytes : ∀ k < 4,
      ((⟨t.start + 16 * j, (t.bytes.drop (16 * j)).take 16⟩ : Piece).group i).getD
      k 0 = imageByte sections (t.start + (16 * j + 4 * i) + k) := by
    intro k hk
    have hi : 4 * i + k < 16 := by
      simp only [Piece.groups, length_take, length_drop] at hgroup
      omega
    rw [Piece.getD_group _ hk, h.imageByte_word ht hn (by omega) hk]
    simp only [getD_eq_getElem?_getD, getElem?_take, if_pos hi, getElem?_drop]
    congr 2
    omega
  simp only [readBytes, zero_add, add_zero]
  rw [hbytes 0 (by decide), hbytes 1 (by decide), hbytes 2 (by decide), hbytes 3 (by decide)]
  rfl

theorem address_lt : ∀ p ∈ pieces sections, p.address < 2 ^ 32 := by
  intro p hp
  obtain ⟨t, ht, hpt⟩ := mem_flatMap.1 hp
  obtain ⟨j, hj, rfl⟩ := mem_map.1 hpt
  have hin := h.inside t ht
  have hlt := mem_range.1 hj
  have hsize : memSize = 268435456 := rfl
  dsimp only
  omega

end

end WellPlaced

/-! ## The loaded image -/

/-- A memory holds the sections' bytes when its words are the sections' words. -/
theorem bytes_eq_iff (sections : List Section) (core : Nat → Word) :
    (∀ a < memSize, (mk core).bytes a = imageByte sections a) ↔
      ∀ w < nwords, core w = imageWord sections w := by
  have hsize : memSize = 4 * nwords := rfl
  constructor
  · intro h w hw
    apply BitVec.eq_of_toNat_eq
    have hread : readBytes (imageByte sections) (4 * w) 4 = (core w).toNat := by
      have hbytes : ∀ i < 4, imageByte sections (4 * w + i) =
          bigEndianByte 4 (core w).toNat (0 + i) := by
        intro i hi
        have hdiv : (4 * w + i) / 4 = w := by omega
        have hmod : (4 * w + i) % 4 = i := by omega
        rw [← h (4 * w + i) (by omega), bytes, hdiv, hmod, zero_add]
      rw [readBytes_of_bytes 4 (by decide) hbytes]
      have hlt := (core w).isLt
      omega
    rw [imageWord, hread, BitVec.ofNat_toNat, BitVec.setWidth_eq]
  · intro h a ha
    have hlt : readBytes (imageByte sections) (4 * (a / 4)) 4 < 2 ^ 32 := readBytes_lt _ _ 4
    rw [bytes]
    dsimp only
    rw [h (a / 4) (by omega), imageWord, BitVec.toNat_ofNat, mod_eq_of_lt hlt,
      bigEndianByte_readBytes _ _ (by omega)]
    congr 1
    omega

/-- The dump of well placed sections loads as their bytes exactly when no spilled word does
harm. -/
theorem loads_iff (word : Nat → Word) (sections : List Section) (h : WellPlaced sections) :
    Loads word sections ↔ SpillsHarmless sections := by
  have hload := loadImage_eq word sections h.address_lt
  have hsettled : ∀ w, putSlots (fun _ => 0) (slots sections) w = imageWord sections w ↔
      Settled sections w := by
    intro w
    rw [putSlots_apply, Settled]
    cases hlast : lastSlot (slots sections) w with
    | none => exact eq_comm
    | some s =>
      obtain ⟨hs, rfl⟩ := index_of_lastSlot hlast
      constructor
      · intro hvalue _
        exact hvalue
      · intro hspilled
        by_cases hsp : s.spilled = true
        · exact hspilled hsp
        · exact h.value_of_not_spilled hs (by simpa using hsp)
  unfold Loads SpillsHarmless
  rw [hload, stored]
  by_cases hin : ∀ s ∈ slotsFrom 0 (pieces sections), s.index < nwords
  · rw [if_pos hin]
    simp only [map_some, some.injEq, exists_eq_left', bytes_eq_iff]
    constructor
    · intro hwords
      exact ⟨hin, fun w hw => (hsettled w).1 (hwords w hw)⟩
    · intro hspills w hw
      exact (hsettled w).2 (hspills.2 w hw)
  · rw [if_neg hin]
    constructor
    · rintro ⟨m, hm, -⟩
      cases hm
    · intro hspills
      exact absurd hspills.1 hin

/-- Two words and, right after them, one more: both lines have spilled words. -/
def shortSections : List Section :=
  [⟨".text".toList, 0x100, replicate 8 0x5A⟩, ⟨".data".toList, 0x108, replicate 4 0x7E⟩]

/-- The spilled words of the first section are overwritten, or zero as those of the second. -/
theorem loads_shortSections : Loads (fun _ => 0) shortSections := by
  have hplaced : WellPlaced shortSections := by
    refine ⟨by decide, by decide, ?_⟩
    simp only [shortSections, pairwise_pair, Section.Covers, length_replicate]
    omega
  refine (loads_iff _ _ hplaced).2 ⟨by decide +kernel, fun w _ => ?_⟩
  by_cases hw : 64 ≤ w ∧ w < 70
  · have hstored : ∀ j < 6, Settled shortSections (64 + j) := by decide +kernel
    have hsettled := hstored (w - 64) (by omega)
    rwa [Nat.add_sub_cancel' hw.1] at hsettled
  · have hindex : ∀ s ∈ slots shortSections, 64 ≤ s.index ∧ s.index < 70 := by decide +kernel
    unfold Settled
    cases hlast : lastSlot (slots shortSections) w with
    | some s =>
      obtain ⟨hmem, rfl⟩ := index_of_lastSlot hlast
      exact absurd (hindex s hmem) hw
    | none =>
      have hzero : ∀ i < 4, imageByte shortSections (4 * w + i) = 0 := by
        intro i hi
        have hnot : ∀ s ∈ shortSections, ¬ s.Covers (4 * w + i) := by
          simp only [shortSections, forall_mem_cons, Section.Covers, length_replicate]
          refine ⟨?_, ?_, nofun⟩ <;> omega
        rw [imageByte, find?_eq_none.2 (by simpa using hnot)]
      have hread : readBytes (imageByte shortSections) (4 * w) 4 = 0 := by
        rw [(readBytes_congr hzero : _ = readBytes (fun _ => 0) (4 * w) 4)]
        simp [readBytes]
      rw [imageWord, hread]
      rfl

/-- The text of the bytes `abc` looks like a hexadecimal number and is stored as the word after
them. -/
theorem abc_spills : WellPlaced [⟨".rodata".toList, 0, [0x61, 0x62, 0x63]⟩] ∧
    ¬ Loads (fun _ => 0) [⟨".rodata".toList, 0, [0x61, 0x62, 0x63]⟩] := by
  refine ⟨⟨by decide, by decide, pairwise_singleton _ _⟩, ?_⟩
  rintro ⟨m, hm, hbytes⟩
  have hword : (loadImage (fun _ => 0) [⟨".rodata".toList, 0, [0x61, 0x62, 0x63]⟩]).map
      (fun m => m.bytes 4) = some 0xAB := by decide +kernel
  rw [hm, map_some, hbytes 4 (by decide)] at hword
  exact absurd hword (by decide)

end SparcV8.Image
