import SparcV8.Cache.CacheArray
import SparcV8.Core.Machine.Transition

/-!
# Isolation of contexts in a cache

A cache is run with a record of what each of its ways was last filled for. A line that is found for
an address in a context was filled for it, as long as the tags have room for both: contexts below
256, and addresses that do not reach into the eight bits that hold the context. An address has that
room in every cache of four sets or more. From `2 ^ 26` sets on the source shifts by 32 places or
more, which is not defined.
-/

namespace SparcV8

/-- What happens to a cache. -/
inductive CacheEvent where
  | fill (va context acc : Word) (data : Fin 8 → BitVec 64) (physicalAddress : BitVec 64)
  | writeBytes (va context : Word) (data : BitVec 64) (byteMask : BitVec 8)
  | invalidatePhysicalLine (physicalAddress : BitVec 64)
  | flushAll

/-- A cache, and what each way of each set was last filled for. -/
structure FilledCache where
  cache : CacheArray
  filledFor : Nat → Nat → Word × Word

namespace FilledCache

open CacheArray

def start (logSets ways : Nat) : FilledCache :=
  { cache := configure logSets ways, filledFor := fun _ _ => (0, 0) }

/-- Record what the way of a set was filled for. -/
def record (f : Nat → Nat → Word × Word) (set way : Nat) (x : Word × Word) :
    Nat → Nat → Word × Word :=
  fun set' way' => if set' = set ∧ way' = way then x else f set' way'

/-- A fill cannot happen where the source asserts that it does not. -/
def step (s : FilledCache) : CacheEvent → Option FilledCache
  | .fill va context acc data pa =>
    let set := s.cache.setIndex va
    (s.cache.fill va context acc data pa).map fun a =>
      { cache := a
        filledFor := record s.filledFor set (s.cache.rows set).fillSlot (va, context) }
  | .writeBytes va context data byteMask =>
    some { s with cache := s.cache.writeBytes va context data byteMask }
  | .invalidatePhysicalLine pa => some { s with cache := s.cache.invalidatePhysicalLine pa }
  | .flushAll => some { s with cache := s.cache.flushAll }

def machine : Machine FilledCache CacheEvent := ⟨step⟩

end FilledCache

/-- The tag is defined, and has room for the address and for the context. -/
structure CacheArray.RoomFor (logSets : Nat) (va context : Word) : Prop where
  shift_lt : LOG_LINE_BYTES + logSets < 32
  fits : tagFits logSets va
  context_lt : context.toNat < 256

/-- A fill is for an address and a context that the tag has room for. -/
def CacheEvent.HasRoom (logSets : Nat) : CacheEvent → Prop
  | .fill va context _ _ _ => CacheArray.RoomFor logSets va context
  | _ => True

/-- A line stands where an address puts it, with the tag of address and context. -/
structure CacheArray.LabelledBy (a : CacheArray) (set : Nat) (l : Line) (va context : Word) :
    Prop where
  set_eq : set = a.setIndex va
  tag_eq : l.tag = a.tagOf va context
  room : RoomFor a.logSets va context

/-- Only the number of sets and the tag matter. -/
theorem CacheArray.LabelledBy.congr {a a' : CacheArray} {set : Nat} {l l' : Line}
    {va context : Word} (h : a.LabelledBy set l va context) (hsets : a'.logSets = a.logSets)
    (htag : l'.tag = l.tag) : a'.LabelledBy set l' va context := by
  refine ⟨?_, ?_, ?_⟩
  · rw [h.set_eq, setIndex, setIndex, hsets]
  · rw [htag, h.tag_eq, tagOf, tagOf, hsets]
  · rw [hsets]
    exact h.room

namespace FilledCache

open CacheArray

/-- Every line carries the label of what its way was filled for. -/
def Labelled (s : FilledCache) : Prop :=
  ∀ set way l, s.cache.At set way l →
    s.cache.LabelledBy set l (s.filledFor set way).1 (s.filledFor set way).2

theorem labelled_start (logSets ways : Nat) : (start logSets ways).Labelled :=
  fun _ _ l h => absurd h.holds (not_holds_configure logSets ways l)

variable {s : FilledCache} {a : CacheArray}

/-- A step that puts no line anywhere keeps the labels. -/
theorem Labelled.of_at (h : s.Labelled) (hsets : a.logSets = s.cache.logSets)
    (hat : ∀ set way l, a.At set way l → ∃ l', s.cache.At set way l' ∧ l.tag = l'.tag) :
    Labelled { s with cache := a } := by
  intro set way l hl
  obtain ⟨l', hl', htag⟩ := hat set way l hl
  exact (h set way l' hl').congr hsets htag

theorem Labelled.fill (h : s.Labelled) {va context acc : Word} {data : Fin 8 → BitVec 64}
    {pa : BitVec 64} (hroom : RoomFor s.cache.logSets va context)
    (hfill : s.cache.fill va context acc data pa = some a) :
    Labelled
      { cache := a
        filledFor := record s.filledFor (s.cache.setIndex va)
          (s.cache.rows (s.cache.setIndex va)).fillSlot (va, context) } := by
  have hsets := logSets_fill hfill
  intro set way l hl
  dsimp only [record]
  rcases at_fill hfill hl with ⟨rfl, rfl, rfl⟩ | ⟨hne, hold⟩
  · rw [if_pos ⟨rfl, rfl⟩]
    exact LabelledBy.congr ⟨rfl, rfl, hroom⟩ hsets rfl
  · rw [if_neg hne]
    exact (h set way l hold).congr hsets rfl

theorem Labelled.writeBytes (h : s.Labelled) (va context : Word) (data : BitVec 64)
    (byteMask : BitVec 8) :
    Labelled { s with cache := s.cache.writeBytes va context data byteMask } := by
  refine h.of_at rfl fun set way l hl => ?_
  cases hfind : s.cache.find va context with
  | none =>
    rw [writeBytes_of_find_eq_none hfind] at hl
    exact ⟨l, hl, rfl⟩
  | some l₀ =>
    obtain ⟨i, hi, hat⟩ := at_writeBytes hfind data byteMask
    rcases (hat set way l).1 hl with ⟨rfl, rfl, rfl⟩ | ⟨-, hold⟩
    · exact ⟨l₀, hi, rfl⟩
    · exact ⟨l, hold, rfl⟩

/-- One step keeps the labels, and the number of sets. -/
theorem Labelled.step {s s' : FilledCache} {e : CacheEvent} (h : s.Labelled)
    (he : e.HasRoom s.cache.logSets) (hstep : s.step e = some s') :
    s'.Labelled ∧ s'.cache.logSets = s.cache.logSets := by
  cases e with
  | fill va context acc data pa =>
    obtain ⟨a, hfill, rfl⟩ := Option.map_eq_some_iff.1 hstep
    exact ⟨h.fill he hfill, logSets_fill hfill⟩
  | writeBytes va context data byteMask =>
    cases hstep
    exact ⟨h.writeBytes va context data byteMask, rfl⟩
  | invalidatePhysicalLine pa =>
    cases hstep
    exact ⟨h.of_at rfl fun set way l hl => ⟨l, (at_invalidatePhysicalLine.1 hl).1, rfl⟩, rfl⟩
  | flushAll =>
    cases hstep
    exact ⟨h.of_at rfl fun set way l hl => absurd hl.holds (not_holds_flushAll _ l), rfl⟩

/-- In every run whose fills leave room in the tags, a line is found only for the context and
the line of memory that it was filled for. -/
theorem filledFor_of_findWay {logSets ways : Nat} {es : List CacheEvent} {s : FilledCache}
    (hes : ∀ e ∈ es, e.HasRoom logSets) (hrun : machine.run es (start logSets ways) = some s)
    {va context : Word} (hroom : RoomFor logSets va context) {way : Nat}
    (hfind : s.cache.findWay va context = some way) :
    (s.filledFor (s.cache.setIndex va) way).2 = context ∧
      (s.filledFor (s.cache.setIndex va) way).1 >>> LOG_LINE_BYTES = va >>> LOG_LINE_BYTES := by
  obtain ⟨hlabels, hsets⟩ : s.Labelled ∧ s.cache.logSets = logSets := by
    refine Machine.invariant_allSteps (I := fun s => s.Labelled ∧ s.cache.logSets = logSets) ?_
      (Machine.allSteps_of_forall_mem hes _) ⟨labelled_start logSets ways, rfl⟩ hrun
    rintro s e s' ⟨hs, rfl⟩ he hstep
    exact hs.step he hstep
  subst hsets
  obtain ⟨l, hat, htag, -⟩ := at_of_findWay hfind
  have hlabel := hlabels _ way l hat
  exact eq_of_tagFits hlabel.room.fits hroom.fits hlabel.room.context_lt hroom.context_lt
    hlabel.set_eq.symm (hlabel.tag_eq.symm.trans htag)

/-- A fill of address 0x1000 in context 3 is found for another byte of the line. -/
theorem filledFor_of_findWay_same_line :
    ∃ s, machine.run [.fill 0x1000 3 0 (fun _ => 0) 0x5000] (start 6 2) = some s ∧
      s.cache.findWay 0x1038 3 = some 0 ∧ (s.filledFor (s.cache.setIndex 0x1038) 0).2 = 3 ∧
      (s.filledFor (s.cache.setIndex 0x1038) 0).1 >>> LOG_LINE_BYTES =
        (0x1038 : Word) >>> LOG_LINE_BYTES := by
  have hes : ∀ e ∈ [CacheEvent.fill 0x1000 3 0 (fun _ => 0) 0x5000], e.HasRoom 6 := by
    intro e he
    obtain rfl := List.mem_singleton.1 he
    exact ⟨by decide, tagFits_of_sets (by decide) _, by decide⟩
  have hroom : RoomFor 6 0x1038 3 := ⟨by decide, tagFits_of_sets (by decide) _, by decide⟩
  obtain ⟨s, hrun⟩ : ∃ s, machine.run [.fill 0x1000 3 0 (fun _ => 0) 0x5000] (start 6 2) = some s :=
    ⟨_, rfl⟩
  have hfind : s.cache.findWay 0x1038 3 = some 0 := by
    cases hrun
    decide
  exact ⟨s, hrun, hfind, filledFor_of_findWay hes hrun hroom hfind⟩

/-- Contexts 0 and 256 share their lines, as do two in a cache of one set. -/
theorem contexts_share_lines :
    (∃ s, machine.run [.fill 0x1000 0 0 (fun _ => 0) 0x5000] (start 6 2) = some s ∧
      s.cache.findWay 0x1000 256 = some 0 ∧
      s.filledFor (s.cache.setIndex 0x1000) 0 = (0x1000, 0)) ∧
    ∃ s, machine.run [.fill 0x40000000 0 0 (fun _ => 0) 0x5000] (start 0 1) = some s ∧
      s.cache.findWay 0 1 = some 0 ∧ s.filledFor (s.cache.setIndex 0) 0 = (0x40000000, 0) :=
  ⟨⟨_, rfl, by decide, by decide⟩, ⟨_, rfl, by decide, by decide⟩⟩

end FilledCache

end SparcV8
