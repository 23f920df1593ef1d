import SparcV8.Core.Store.Ways
import SparcV8.Processor.Memory
import Mathlib.Tactic.Ring

/-!
# The storage of a cache

The lines of one virtually indexed and virtually tagged cache: `CacheArray`. A set is a row of ways,
an invalid line an empty slot. Where the source passes the index of a line that it has found, the
model passes the line.
-/

namespace SparcV8

open BitVec Function

structure CacheArray.Line where
  tag : Word
  /-- The access rights of the page. -/
  acc : Word
  /-- The physical address divided by the size of a line. -/
  physicalLine : BitVec 64
  data : Fin 8 → BitVec 64

structure CacheArray where
  logSets : Nat
  /-- The ways of each set, and the one after the last one replaced. -/
  rows : Nat → Ways CacheArray.Line

/-- Overwrite each byte of a doubleword whose bit is set in the mask. -/
def mergeBytes (dw data : BitVec 64) (byteMask : BitVec 8) : BitVec 64 :=
  (List.range 8).foldl
    (fun dw j =>
      if byteMask &&& ((1 : BitVec 8) <<< j) ≠ 0 then
        let laneMask : BitVec 64 := 0xFF <<< (8 * j)
        (dw &&& ~~~laneMask) ||| (data &&& laneMask)
      else dw)
    dw

namespace CacheArray

def LOG_LINE_BYTES : Nat := 6

/-- The smallest page has 4 KB. -/
def LOG_PAGE_BYTES : Nat := 12

/-- An empty cache. The source asserts that both numbers are powers of two. -/
def configure (logSets ways : Nat) : CacheArray :=
  { logSets := logSets, rows := fun _ => Ways.empty ways }

def setIndex (a : CacheArray) (va : Word) : Nat := (va >>> LOG_LINE_BYTES).toNat % 2 ^ a.logSets

def tagOf (a : CacheArray) (va context : Word) : Word :=
  (va >>> (LOG_LINE_BYTES + a.logSets)) ||| (context <<< 24)

/-- The valid line for an address in a context. -/
def find (a : CacheArray) (va context : Word) : Option Line :=
  (a.rows (a.setIndex va)).find? fun l => l.tag == a.tagOf va context

/-- The way of its set that the line `find` returns stands in. -/
def findWay (a : CacheArray) (va context : Word) : Option Nat :=
  (a.rows (a.setIndex va)).findSlot? fun l => l.tag == a.tagOf va context

/-- `none` is the failure of the assertion that the address is not cached yet. -/
def fill (a : CacheArray) (va context acc : Word) (data : Fin 8 → BitVec 64)
    (physicalAddress : BitVec 64) : Option CacheArray :=
  if (a.find va context).isSome then none
  else
    let line := { tag := a.tagOf va context, acc := acc,
                  physicalLine := physicalAddress >>> LOG_LINE_BYTES, data := data }
    some { a with rows := update a.rows (a.setIndex va)
                    ((a.rows (a.setIndex va)).fill line) }

/-- The sets told apart by the bits an address and its translation share. -/
def knownSets (a : CacheArray) : Nat := 2 ^ min a.logSets (LOG_PAGE_BYTES - LOG_LINE_BYTES)

/-- Only the sets that the page offset allows are searched. -/
def invalidatePhysicalLine (a : CacheArray) (physicalAddress : BitVec 64) : CacheArray :=
  let physicalLine := physicalAddress >>> LOG_LINE_BYTES
  { a with
    rows := fun set =>
      if set % a.knownSets = physicalLine.toNat % a.knownSets then
        (a.rows set).removeIf fun l => l.physicalLine == physicalLine
      else a.rows set }

/-- The doubleword of a line that an address lies in. -/
def dwordIndex (va : Word) : Fin 8 :=
  ⟨(va >>> 3 &&& 7).toNat, by
    rw [toNat_and]
    exact lt_of_le_of_lt Nat.and_le_right (by decide)⟩

def readDoubleword (line : Line) (va : Word) : BitVec 64 := line.data (dwordIndex va)

/-- A line after a write of some bytes of one doubleword. -/
def Line.write (line : Line) (va : Word) (data : BitVec 64) (byteMask : BitVec 8) : Line :=
  { line with
    data := update line.data (dwordIndex va)
      (mergeBytes (line.data (dwordIndex va)) data byteMask) }

/-- The write to the line that `find` returns. -/
def writeBytes (a : CacheArray) (va context : Word) (data : BitVec 64) (byteMask : BitVec 8) :
    CacheArray :=
  { a with
    rows := update a.rows (a.setIndex va)
      ((a.rows (a.setIndex va)).updateFirst (fun l => l.tag == a.tagOf va context)
        fun l => l.write va data byteMask) }

def flushAll (a : CacheArray) : CacheArray := { a with rows := fun set => (a.rows set).clear }

/-! ## What a cache holds -/

/-- The line is valid in way `i` of a set. -/
def At (a : CacheArray) (set i : Nat) (l : Line) : Prop := (a.rows set).At i l

/-- The line is valid somewhere in the cache. -/
def Holds (a : CacheArray) (l : Line) : Prop := ∃ set i, a.At set i l

variable {l : Line}
variable {a : CacheArray} {set : Nat}

theorem At.holds {i : Nat} (h : a.At set i l) : a.Holds l :=
  ⟨set, i, h⟩

theorem not_holds_configure (logSets ways : Nat) (l : Line) :
    ¬ (configure logSets ways).Holds l := by
  rintro ⟨set, i, h⟩
  exact Ways.not_holds_empty ways l (Ways.At.holds h)

theorem not_holds_flushAll (a : CacheArray) (l : Line) : ¬ a.flushAll.Holds l := by
  rintro ⟨set, i, h⟩
  exact Ways.not_at_clear _ i l h

variable {context va : Word}

/-- A line that is found is held, in its set and with its tag. -/
theorem at_of_find (h : a.find va context = some l) :
    (∃ i, a.At (a.setIndex va) i l) ∧ l.tag = a.tagOf va context := by
  obtain ⟨hl, htag⟩ := Ways.holds_of_find? h
  exact ⟨Ways.holds_iff_at.1 hl, beq_iff_eq.1 htag⟩

theorem at_of_findWay {way : Nat} (h : a.findWay va context = some way) :
    ∃ l, a.At (a.setIndex va) way l ∧ l.tag = a.tagOf va context ∧ a.find va context = some l := by
  obtain ⟨l, hat, htag, hfind⟩ := Ways.at_findSlot? h
  exact ⟨l, hat, beq_iff_eq.1 htag, hfind⟩

theorem find_of_not_holds (h : ∀ l, ¬ a.Holds l) (va context : Word) :
    a.find va context = none := by
  cases hf : a.find va context with
  | none => rfl
  | some l =>
    obtain ⟨⟨i, hi⟩, -⟩ := at_of_find hf
    exact absurd hi.holds (h l)

variable {data : Fin 8 → BitVec 64} {pa : BitVec 64}
variable {a' : CacheArray} {acc : Word}

/-- A fill writes one way of one set. -/
theorem at_fill (h : a.fill va context acc data pa = some a') {j : Nat} (hl : a'.At set j l) :
    set = a.setIndex va ∧ j = (a.rows (a.setIndex va)).fillSlot ∧
      l = { tag := a.tagOf va context, acc := acc, physicalLine := pa >>> LOG_LINE_BYTES,
            data := data } ∨
    ¬(set = a.setIndex va ∧ j = (a.rows (a.setIndex va)).fillSlot) ∧ a.At set j l := by
  unfold fill at h
  split at h
  · cases h
  · cases h
    unfold At at hl ⊢
    dsimp only at hl
    by_cases hset : set = a.setIndex va
    · subst hset
      rw [update_self] at hl
      rcases Ways.at_fillSlot hl with ⟨hj, rfl⟩ | ⟨hj, hl⟩
      · exact .inl ⟨rfl, hj, rfl⟩
      · exact .inr ⟨fun hc => hj hc.2, hl⟩
    · rw [update_of_ne hset] at hl
      exact .inr ⟨fun hc => hset hc.1, hl⟩

theorem logSets_fill (h : a.fill va context acc data pa = some a') : a'.logSets = a.logSets := by
  unfold fill at h
  split at h
  · cases h
  · cases h
    rfl

theorem at_invalidatePhysicalLine {i : Nat} :
    (a.invalidatePhysicalLine pa).At set i l ↔ a.At set i l ∧
      (set % a.knownSets = (pa >>> LOG_LINE_BYTES).toNat % a.knownSets →
        l.physicalLine ≠ pa >>> LOG_LINE_BYTES) := by
  unfold At invalidatePhysicalLine
  dsimp only
  split
  · next hset =>
    rw [Ways.at_removeIf, beq_eq_false_iff_ne]
    exact ⟨fun h => ⟨h.1, fun _ => h.2⟩, fun h => ⟨h.1, h.2 hset⟩⟩
  · next hset => exact ⟨fun h => ⟨h, fun hc => absurd hc hset⟩, fun h => h.1⟩

theorem writeBytes_of_find_eq_none (h : a.find va context = none) (data : BitVec 64)
    (byteMask : BitVec 8) : a.writeBytes va context data byteMask = a := by
  rw [writeBytes, Ways.updateFirst_of_find?_eq_none h, update_eq_self]

variable {l₀ : Line}

/-- A write changes the line that is found, where it stands. -/
theorem at_writeBytes (h : a.find va context = some l₀) (data : BitVec 64) (byteMask : BitVec 8) :
    ∃ i, a.At (a.setIndex va) i l₀ ∧
      ∀ set j l, (a.writeBytes va context data byteMask).At set j l ↔
        set = a.setIndex va ∧ j = i ∧ l = l₀.write va data byteMask ∨
        ¬(set = a.setIndex va ∧ j = i) ∧ a.At set j l := by
  obtain ⟨i, hi, hat⟩ := Ways.at_updateFirst h
  refine ⟨i, hi, fun set j l => ?_⟩
  unfold At writeBytes
  dsimp only
  by_cases hset : set = a.setIndex va
  · subst hset
    rw [update_self, hat]
    simp
  · rw [update_of_ne hset]
    simp [hset]

/-! ## Fewer lines -/

/-- A cache with some of the lines of another. -/
structure Shrunk (a a' : CacheArray) : Prop where
  logSets : a'.logSets = a.logSets
  lines : ∀ set i l, a'.At set i l → a.At set i l

theorem Shrunk.refl (a : CacheArray) : Shrunk a a := ⟨rfl, fun _ _ _ h => h⟩

theorem Shrunk.holds (h : Shrunk a a') (hl : a'.Holds l) : a.Holds l := by
  obtain ⟨set, i, hat⟩ := hl
  exact (h.lines set i l hat).holds

theorem Shrunk.invalidatePhysicalLine (h : Shrunk a a') (pa : BitVec 64) :
    Shrunk a (a'.invalidatePhysicalLine pa) :=
  ⟨h.logSets, fun set i l hl => h.lines set i l (at_invalidatePhysicalLine.1 hl).1⟩

/-- Every line stands in a set that the search for it visits. -/
def Visited (a : CacheArray) : Prop :=
  ∀ set i l, a.At set i l → set % a.knownSets = l.physicalLine.toNat % a.knownSets

theorem Visited.of_shrunk (h : a.Visited) (hs : Shrunk a a') : a'.Visited := by
  intro set i l hl
  have hsets : a'.knownSets = a.knownSets := by rw [knownSets, knownSets, hs.logSets]
  rw [hsets]
  exact h set i l (hs.lines set i l hl)

theorem Visited.ne_of_holds (h : a.Visited) (hl : (a.invalidatePhysicalLine pa).Holds l) :
    l.physicalLine ≠ pa >>> LOG_LINE_BYTES := by
  obtain ⟨set, i, hat⟩ := hl
  obtain ⟨hold, hne⟩ := at_invalidatePhysicalLine.1 hat
  intro heq
  have hvisited := h set i l hold
  rw [heq] at hvisited
  exact hne hvisited heq

/-- The search for a line finds none, wherever it looks. -/
def Removed (a : CacheArray) (pa : BitVec 64) : Prop :=
  ∀ set i l, a.At set i l →
    set % a.knownSets = (pa >>> LOG_LINE_BYTES).toNat % a.knownSets →
    l.physicalLine ≠ pa >>> LOG_LINE_BYTES

theorem removed_invalidatePhysicalLine (a : CacheArray) (pa : BitVec 64) :
    (a.invalidatePhysicalLine pa).Removed pa :=
  fun _ _ _ hl => (at_invalidatePhysicalLine.1 hl).2

/-- Where the line is removed, there is nothing left to invalidate. -/
theorem Removed.invalidatePhysicalLine_eq (h : a.Removed pa) : a.invalidatePhysicalLine pa = a := by
  have hrows (set : Nat) : (a.invalidatePhysicalLine pa).rows set = a.rows set := by
    unfold invalidatePhysicalLine
    dsimp only
    split
    · next hset =>
      refine Ways.removeIf_eq_self fun l hl => beq_eq_false_iff_ne.2 ?_
      obtain ⟨i, hat⟩ := Ways.holds_iff_at.1 hl
      exact h set i l hat hset
    · rfl
  exact congrArg (fun rows => { a with rows := rows }) (funext hrows)

/-- Every line stands where a line of the same physical address stood before. -/
structure Inherited (a a' : CacheArray) : Prop where
  logSets : a'.logSets = a.logSets
  lines : ∀ set i l', a'.At set i l' → ∃ l, a.At set i l ∧ l.physicalLine = l'.physicalLine

theorem Shrunk.inherited (h : Shrunk a a') : Inherited a a' :=
  ⟨h.logSets, fun set i l hl => ⟨l, h.lines set i l hl, rfl⟩⟩

theorem Inherited.refl (a : CacheArray) : Inherited a a := (Shrunk.refl a).inherited

theorem inherited_flushAll (a : CacheArray) : Inherited a a.flushAll :=
  ⟨rfl, fun _ _ l hl => absurd hl.holds (not_holds_flushAll a l)⟩

theorem inherited_invalidatePhysicalLine (a : CacheArray) (pa : BitVec 64) :
    Inherited a (a.invalidatePhysicalLine pa) :=
  ((Shrunk.refl a).invalidatePhysicalLine pa).inherited

theorem inherited_writeBytes (h : a.find va context = some l₀) (data : BitVec 64)
    (byteMask : BitVec 8) : Inherited a (a.writeBytes va context data byteMask) := by
  obtain ⟨i, hold, hat⟩ := at_writeBytes h data byteMask
  refine ⟨rfl, fun set j l hl => ?_⟩
  rcases (hat set j l).1 hl with ⟨rfl, rfl, rfl⟩ | ⟨-, hl⟩
  · exact ⟨l₀, hold, rfl⟩
  · exact ⟨l, hl, rfl⟩

theorem Removed.of_inherited (h : a.Removed pa) (ha : Inherited a a') : a'.Removed pa := by
  have hsets : a'.knownSets = a.knownSets := by rw [knownSets, knownSets, ha.logSets]
  intro set i l' hl' hset
  obtain ⟨l, hl, heq⟩ := ha.lines set i l' hl'
  rw [← heq]
  rw [hsets] at hset
  exact h set i l hl hset

theorem Shrunk.find_eq_none (h : Shrunk a a') (hfind : a.find va context = none) :
    a'.find va context = none := by
  cases hfind' : a'.find va context with
  | none => rfl
  | some l =>
    obtain ⟨⟨i, hat⟩, htag⟩ := at_of_find hfind'
    have hold := h.lines _ i l hat
    rw [setIndex, h.logSets] at hold
    rw [tagOf, h.logSets] at htag
    have hne := Ways.not_of_find?_eq_none hfind (Ways.At.holds hold)
    exact absurd htag (beq_eq_false_iff_ne.1 hne)

/-! ## Tags -/

theorem getLsbD_setIndex (a : CacheArray) (va : Word) (i : Nat) :
    (a.setIndex va).testBit i = (decide (i < a.logSets) && va.getLsbD (LOG_LINE_BYTES + i)) := by
  rw [setIndex, Nat.testBit_mod_two_pow, ← getLsbD, getLsbD_ushiftRight]

theorem getLsbD_tagOf (a : CacheArray) (va context : Word) (i : Nat) :
    (a.tagOf va context).getLsbD i =
      (va.getLsbD (LOG_LINE_BYTES + a.logSets + i) ||
        (decide (i < 32) && !decide (i < 24) && context.getLsbD (i - 24))) := by
  rw [tagOf, getLsbD_or, getLsbD_ushiftRight, getLsbD_shiftLeft]

/-- The address leaves the top eight bits of its tag to the context. -/
def tagFits (logSets : Nat) (va : Word) : Prop := va.toNat < 2 ^ (30 + logSets)

theorem tagFits_of_sets {logSets : Nat} (hsets : 2 ≤ logSets) (va : Word) : tagFits logSets va :=
  lt_of_lt_of_le va.isLt (Nat.pow_le_pow_right (by decide) (by omega))

/-- Set and tag tell the lines of 256 contexts apart where the tags fit. -/
theorem eq_of_tagFits {va' context' : Word} (hva : tagFits a.logSets va)
    (hva' : tagFits a.logSets va') (hc : context.toNat < 256) (hc' : context'.toNat < 256)
    (hset : a.setIndex va = a.setIndex va') (htag : a.tagOf va context = a.tagOf va' context') :
    context = context' ∧ va >>> LOG_LINE_BYTES = va' >>> LOG_LINE_BYTES := by
  have hbit (i : Nat) : (a.tagOf va context).getLsbD i = (a.tagOf va' context').getLsbD i := by
    rw [htag]
  have hover {x : Word} (hx : tagFits a.logSets x) {i : Nat} (hi : 30 + a.logSets ≤ i) :
      x.getLsbD i = false :=
    getLsbD_of_toNat_lt hx hi
  constructor
  · apply eq_of_getLsbD_eq
    intro i hi
    by_cases hlow : i < 8
    · have hi' := hbit (24 + i)
      have htop : 30 + a.logSets ≤ LOG_LINE_BYTES + a.logSets + (24 + i) := by
        unfold LOG_LINE_BYTES
        omega
      rw [getLsbD_tagOf, getLsbD_tagOf, hover hva htop, hover hva' htop,
        Nat.add_sub_cancel_left] at hi'
      simpa [show 24 + i < 32 by omega] using hi'
    · have hhigh {x : Word} (hx : x.toNat < 2 ^ 8) : x.getLsbD i = false :=
        getLsbD_of_toNat_lt hx (Nat.not_lt.1 hlow)
      rw [hhigh hc, hhigh hc']
  · apply eq_of_getLsbD_eq
    intro i hi
    rw [getLsbD_ushiftRight, getLsbD_ushiftRight]
    by_cases hlow : i < a.logSets
    · have hi' := congrArg (fun n => n.testBit i) hset
      simpa [getLsbD_setIndex, hlow] using hi'
    · by_cases htop : 30 + a.logSets ≤ LOG_LINE_BYTES + i
      · rw [hover hva htop, hover hva' htop]
      · have hi' := hbit (i - a.logSets)
        have hsum : LOG_LINE_BYTES + a.logSets + (i - a.logSets) = LOG_LINE_BYTES + i := by omega
        have h24 : i - a.logSets < 24 := by
          unfold LOG_LINE_BYTES at htop
          omega
        simpa [getLsbD_tagOf, hsum, h24] using hi'

/-- With four sets or more, set and tag tell the lines of 256 contexts apart. -/
theorem eq_of_tagOf (hsets : 2 ≤ a.logSets) {va' context' : Word} (hc : context.toNat < 256)
    (hc' : context'.toNat < 256) (hset : a.setIndex va = a.setIndex va')
    (htag : a.tagOf va context = a.tagOf va' context') :
    context = context' ∧ va >>> LOG_LINE_BYTES = va' >>> LOG_LINE_BYTES :=
  eq_of_tagFits (tagFits_of_sets hsets va) (tagFits_of_sets hsets va') hc hc' hset htag

/-! ## Consistency -/

/-- A line stands in the set of an address that agrees with it within a page. -/
structure Placed (a : CacheArray) (set : Nat) (l : Line) (va context : Word) : Prop where
  set_eq : set = a.setIndex va
  tag_eq : l.tag = a.tagOf va context
  offset_eq : l.physicalLine.toNat % 64 = (va >>> LOG_LINE_BYTES).toNat % 64

/-- No physical line is cached twice. -/
def Unique (a : CacheArray) : Prop :=
  ∀ set i l set' i' l', a.At set i l → a.At set' i' l' → l.physicalLine = l'.physicalLine →
    set = set' ∧ i = i'

/-- The search for a physical line visits the set of every line placed by its address. -/
theorem Placed.visited (h : a.Placed set l va context) :
    set % a.knownSets = l.physicalLine.toNat % a.knownSets := by
  have hpow : a.knownSets ∣ 64 := Nat.pow_dvd_pow 2 (Nat.min_le_right _ _)
  have hsets : a.knownSets ∣ 2 ^ a.logSets := Nat.pow_dvd_pow 2 (Nat.min_le_left _ _)
  rw [h.set_eq, setIndex, Nat.mod_mod_of_dvd _ hsets, ← Nat.mod_mod_of_dvd _ hpow,
    ← Nat.mod_mod_of_dvd l.physicalLine.toNat hpow, h.offset_eq]

theorem Placed.of_logSets (h : a.Placed set l va context) (hsets : a'.logSets = a.logSets) :
    a'.Placed set l va context := by
  obtain ⟨hset, htag, hoffset⟩ := h
  refine ⟨?_, ?_, hoffset⟩
  · rw [hset, setIndex, setIndex, hsets]
  · rw [htag, tagOf, tagOf, hsets]

/-- Every line is that of an address and a context in `P`, and none is there twice. -/
structure Addressed (P : Line → Word → Word → Prop) (a : CacheArray) : Prop where
  /-- There are at least four sets. -/
  sets : 2 ≤ a.logSets
  lines : ∀ set i l, a.At set i l →
    ∃ va context, context.toNat < 256 ∧ a.Placed set l va context ∧ P l va context
  unique : a.Unique

section Addressed

variable {P Q : Line → Word → Word → Prop}

theorem addressed_of_empty (hsets : 2 ≤ a.logSets) (h : ∀ l, ¬ a.Holds l) : a.Addressed P where
  sets := hsets
  lines _ _ l hl := absurd hl.holds (h l)
  unique _ _ l _ _ _ hl := absurd hl.holds (h l)

section

variable (h : a.Addressed P)
include h

theorem Addressed.imp (hPQ : ∀ l va context, a.Holds l → P l va context → Q l va context) :
    a.Addressed Q where
  sets := h.sets
  lines set i l hl := by
    obtain ⟨va, context, hctx, hplaced, hP⟩ := h.lines set i l hl
    exact ⟨va, context, hctx, hplaced, hPQ l va context hl.holds hP⟩
  unique := h.unique

theorem Addressed.of_shrunk (hs : Shrunk a a') : a'.Addressed P where
  sets := hs.logSets ▸ h.sets
  lines set i l hl := by
    obtain ⟨va, context, hctx, hplaced, hP⟩ := h.lines set i l (hs.lines set i l hl)
    exact ⟨va, context, hctx, hplaced.of_logSets hs.logSets, hP⟩
  unique set i l set' i' l' hl hl' heq :=
    h.unique set i l set' i' l' (hs.lines set i l hl) (hs.lines set' i' l' hl') heq

theorem Addressed.visited : a.Visited := by
  intro set i l hl
  obtain ⟨va, context, -, hplaced, -⟩ := h.lines set i l hl
  exact hplaced.visited

/-- After a physical line has been invalidated no copy of it is left. -/
theorem Addressed.invalidatePhysicalLine (pa : BitVec 64) :
    (a.invalidatePhysicalLine pa).Addressed P ∧
      ∀ l, (a.invalidatePhysicalLine pa).Holds l → l.physicalLine ≠ pa >>> LOG_LINE_BYTES :=
  ⟨h.of_shrunk ((Shrunk.refl a).invalidatePhysicalLine pa), fun _ hl => h.visited.ne_of_holds hl⟩

/-- What holds of the line found, if it holds for all addresses of a line. -/
theorem Addressed.of_find (hctx : context.toNat < 256) (hfind : a.find va context = some l)
    (hline : ∀ va' : Word, va' >>> LOG_LINE_BYTES = va >>> LOG_LINE_BYTES → P l va' context → P l
      va context) : P l va context := by
  obtain ⟨⟨i, hat⟩, htag⟩ := at_of_find hfind
  obtain ⟨va', context', hcontext', hplaced, hP⟩ := h.lines _ i l hat
  obtain ⟨rfl, hsame⟩ := eq_of_tagOf h.sets hcontext' hctx hplaced.set_eq.symm
    (hplaced.tag_eq.symm.trans htag)
  exact hline va' hsame hP

/-- A line is put in of which there is no copy. -/
theorem Addressed.fill (hfill : a.fill va context acc data pa = some a')
    (hctx : context.toNat < 256) (hpage : pa.toNat % 4096 = va.toNat % 4096)
    (hnew : P { tag := a.tagOf va context, acc := acc, physicalLine := pa >>> LOG_LINE_BYTES, data
      := data } va context) (hunheld : ∀ l, a.Holds l → l.physicalLine ≠ pa >>> LOG_LINE_BYTES) :
    a'.Addressed P := by
  have hsets := logSets_fill hfill
  have hoffset : (pa >>> LOG_LINE_BYTES).toNat % 64 = (va >>> LOG_LINE_BYTES).toNat % 64 := by
    rw [toNat_ushiftRight, toNat_ushiftRight, Nat.shiftRight_eq_div_pow, Nat.shiftRight_eq_div_pow]
    unfold LOG_LINE_BYTES
    omega
  refine ⟨hsets ▸ h.sets, fun set i l hl => ?_, ?_⟩
  · rcases at_fill hfill hl with ⟨rfl, rfl, rfl⟩ | ⟨-, hold⟩
    · exact ⟨va, context, hctx, Placed.of_logSets ⟨rfl, rfl, hoffset⟩ hsets, hnew⟩
    · obtain ⟨va', context', hcontext', hplaced, hP⟩ := h.lines set i l hold
      exact ⟨va', context', hcontext', hplaced.of_logSets hsets, hP⟩
  · intro set i l set' i' l' hl hl' heq
    rcases at_fill hfill hl with ⟨rfl, rfl, rfl⟩ | ⟨-, hold⟩
    · rcases at_fill hfill hl' with ⟨rfl, rfl, -⟩ | ⟨-, hold'⟩
      · exact ⟨rfl, rfl⟩
      · exact absurd heq.symm (hunheld l' hold'.holds)
    · rcases at_fill hfill hl' with ⟨rfl, rfl, rfl⟩ | ⟨-, hold'⟩
      · exact absurd heq (hunheld l hold.holds)
      · exact h.unique set i l set' i' l' hold hold' heq

/-- The line found for an address is written. -/
theorem Addressed.writeBytes (hfind : a.find va context = some l₀) (data : BitVec 64)
    (mask : BitVec 8)
    (hnew : ∀ va' context', P l₀ va' context' → Q (l₀.write va data mask) va' context')
    (hold : ∀ l va' context', l.physicalLine ≠ l₀.physicalLine → P l va' context' → Q l va'
      context') :
    (a.writeBytes va context data mask).Addressed Q := by
  obtain ⟨way, hway, hat⟩ := at_writeBytes hfind data mask
  -- what stands in a way afterwards has the label of what stood there before
  have hbefore {set i : Nat} {l : Line} (hl : (a.writeBytes va context data mask).At set i l) :
      ∃ l₁, a.At set i l₁ ∧ l.physicalLine = l₁.physicalLine ∧ l.tag = l₁.tag ∧
        ∀ va' context', P l₁ va' context' → Q l va' context' := by
    rcases (hat set i l).1 hl with ⟨rfl, rfl, rfl⟩ | ⟨hne, hl⟩
    · exact ⟨l₀, hway, rfl, rfl, hnew⟩
    · refine ⟨l, hl, rfl, rfl, fun va' context' => hold l va' context' fun heq => hne ?_⟩
      exact h.unique _ _ _ _ _ _ hl hway heq
  refine ⟨h.sets, fun set i l hl => ?_, ?_⟩
  · obtain ⟨l₁, hl₁, hphysical, htag, hPQ⟩ := hbefore hl
    obtain ⟨va', context', hcontext', hplaced, hP⟩ := h.lines set i l₁ hl₁
    exact ⟨va', context', hcontext', ⟨hplaced.set_eq, htag.trans hplaced.tag_eq,
      hphysical ▸ hplaced.offset_eq⟩, hPQ va' context' hP⟩
  · intro set i l set' i' l' hl hl' heq
    obtain ⟨l₁, hl₁, hphysical₁, -⟩ := hbefore hl
    obtain ⟨l₂, hl₂, hphysical₂, -⟩ := hbefore hl'
    exact h.unique _ _ _ _ _ _ hl₁ hl₂ (hphysical₁.symm.trans (heq.trans hphysical₂))

end

end Addressed

end CacheArray

end SparcV8
