import Mathlib.Data.List.Basic

/-!
# Associative slots with round-robin replacement

`Ways α` is a row of slots, each empty or holding one value. A new value goes to the first empty
slot, or else replaces the slot a round-robin counter names. The lemmas say what a row can hold
after each operation.
-/

namespace SparcV8

open Option List

/-- A row of slots, and the slot the next replacement takes. -/
structure Ways (α : Type) where
  slots : List (Option α)
  nextReplace : Nat

namespace Ways

variable {α : Type}

/-- `n` empty slots. -/
def empty (n : Nat) : Ways α := ⟨List.replicate n none, 0⟩

def clear (w : Ways α) : Ways α := empty w.slots.length

/-- The first value that satisfies `p`. -/
def find? (p : α → Bool) (w : Ways α) : Option α := w.slots.findSome? (Option.filter p)

def insert (e : α) (w : Ways α) : Ways α :=
  match w.slots.findIdx? isNone with
  | some i => { w with slots := w.slots.set i (some e) }
  | none =>
    { slots := w.slots.set w.nextReplace (some e)
      nextReplace := (w.nextReplace + 1) % w.slots.length }

/-- The slot of the first value that satisfies `p`. -/
def findSlot? (p : α → Bool) (w : Ways α) : Option Nat := w.slots.findIdx? (Option.any p)

/-- The slot that `fill` writes. -/
def fillSlot (w : Ways α) : Nat := (w.slots.findIdx? isNone).getD w.nextReplace

/-- As `insert`, but the counter follows also an insertion into an empty slot. -/
def fill (e : α) (w : Ways α) : Ways α :=
  let i := (w.slots.findIdx? isNone).getD w.nextReplace
  { slots := w.slots.set i (some e), nextReplace := (i + 1) % w.slots.length }

/-- Apply `f` to the first value that satisfies `p`. -/
def updateFirstIn (p : α → Bool) (f : α → α) : List (Option α) → List (Option α)
  | [] => []
  | none :: l => none :: updateFirstIn p f l
  | some e :: l => if p e then some (f e) :: l else some e :: updateFirstIn p f l

def updateFirst (p : α → Bool) (f : α → α) (w : Ways α) : Ways α :=
  { w with slots := updateFirstIn p f w.slots }

/-- Empty every slot whose value satisfies `p`. -/
def removeIf (p : α → Bool) (w : Ways α) : Ways α :=
  { w with slots := w.slots.map (Option.filter (fun e => !p e)) }

/-- Some slot holds `e`. -/
def Holds (w : Ways α) (e : α) : Prop := some e ∈ w.slots

theorem not_holds_empty (n : Nat) (e : α) : ¬ (empty n : Ways α).Holds e := by
  intro h
  cases List.eq_of_mem_replicate h

theorem not_holds_clear (w : Ways α) (e : α) : ¬ w.clear.Holds e :=
  not_holds_empty _ e

variable {p : α → Bool} {w : Ways α} {e : α}

/-- What a search finds is held and satisfies the test. -/
theorem holds_of_find? (h : w.find? p = some e) : w.Holds e ∧ p e = true := by
  obtain ⟨o, ho, he⟩ := List.exists_of_findSome?_eq_some h
  obtain ⟨rfl, hp⟩ := filter_eq_some_iff.1 he
  exact ⟨ho, hp⟩

theorem not_of_find?_eq_none (h : w.find? p = none) (he : w.Holds e) : p e = false := by
  have := List.findSome?_eq_none_iff.1 h (some e) he
  simpa using this

/-- An insertion writes one slot. -/
theorem exists_slots_insert (e : α) (w : Ways α) :
    ∃ i, (w.insert e).slots = w.slots.set i (some e) := by
  unfold insert
  split
  · exact ⟨_, rfl⟩
  · exact ⟨_, rfl⟩

theorem holds_insert {e x : α} (h : (w.insert e).Holds x) : x = e ∨ w.Holds x := by
  obtain ⟨i, hi⟩ := exists_slots_insert e w
  rw [Holds, hi] at h
  rcases mem_or_eq_of_mem_set h with h | h
  · exact .inr h
  · exact .inl (some.inj h)

/-- A removal leaves the first match in place if it does not remove it. -/
theorem find?_removeIf {q : α → Bool} (h : ∀ e ∈ w.find? q, p e = false) :
    (w.removeIf p).find? q = w.find? q := by
  obtain ⟨l, n⟩ := w
  simp only [find?, removeIf] at h ⊢
  induction l with
  | nil => rfl
  | cons o l ih =>
    cases o with
    | none => exact ih h
    | some e =>
      cases hq : q e with
      | true =>
        have hp : p e = false := h e (by simp [Option.filter, hq])
        simp [Option.filter, hq, hp]
      | false =>
        have hrest := ih fun d hd => h d (by simpa [Option.filter, hq] using hd)
        cases hp : p e <;> simp [Option.filter, hq, hp, hrest]

/-! ## Slots -/

/-- Slot `i` holds `e`. -/
def At (w : Ways α) (i : Nat) (e : α) : Prop := w.slots[i]? = some (some e)

theorem holds_iff_at : w.Holds e ↔ ∃ i, w.At i e :=
  List.mem_iff_getElem?

variable {f : α → α} {x : α} {i j : Nat}

theorem At.holds (h : w.At i e) : w.Holds e := holds_iff_at.2 ⟨i, h⟩

theorem At.unique {e e' : α} (h : w.At i e) (h' : w.At i e') : e = e' :=
  some.inj (some.inj (h.symm.trans h'))

theorem not_at_clear (w : Ways α) (i : Nat) (e : α) : ¬ w.clear.At i e :=
  fun h => not_holds_clear w e h.holds

theorem at_set (h : (w.slots.set i (some e))[j]? = some (some x)) :
    j = i ∧ x = e ∨ j ≠ i ∧ w.At j x := by
  rw [List.getElem?_set] at h
  split at h
  · next hj =>
    subst hj
    split at h
    · exact .inl ⟨rfl, (some.inj (some.inj h)).symm⟩
    · cases h
  · next hj => exact .inr ⟨Ne.symm hj, h⟩

/-- A fill writes the slot `fillSlot` names. -/
theorem at_fillSlot (h : (w.fill e).At j x) : j = w.fillSlot ∧ x = e ∨ j ≠ w.fillSlot ∧ w.At j x :=
  at_set h

theorem at_removeIf : (w.removeIf p).At i e ↔ w.At i e ∧ p e = false := by
  unfold At removeIf
  rw [List.getElem?_map, Option.map_eq_some_iff]
  constructor
  · rintro ⟨o, ho, he⟩
    obtain ⟨rfl, hp⟩ := filter_eq_some_iff.1 he
    exact ⟨ho, by simpa using hp⟩
  · rintro ⟨ho, hp⟩
    exact ⟨some e, ho, by simp [Option.filter, hp]⟩

theorem holds_removeIf : (w.removeIf p).Holds e ↔ w.Holds e ∧ p e = false := by
  simp only [holds_iff_at, at_removeIf, exists_and_right]

/-- Nothing is removed where no value satisfies the test. -/
theorem removeIf_eq_self (h : ∀ e, w.Holds e → p e = false) : w.removeIf p = w := by
  have hslot (o : Option α) (ho : o ∈ w.slots) : o.filter (fun e => !p e) = id o := by
    cases o with
    | none => rfl
    | some e => simp [Option.filter, h e ho]
  have hslots : w.slots.map (Option.filter fun e => !p e) = w.slots := by
    rw [List.map_congr_left hslot, List.map_id]
  exact congrArg (fun slots => { w with slots := slots }) hslots

/-- A search, its slot and an update are about the first value that passes. -/
theorem first_match (p : α → Bool) (f : α → α) (w : Ways α) :
    w.find? p = none ∧ w.findSlot? p = none ∧ w.updateFirst p f = w ∨
    ∃ i e, w.At i e ∧ p e = true ∧ w.find? p = some e ∧ w.findSlot? p = some i ∧
      w.updateFirst p f = { w with slots := w.slots.set i (some (f e)) } := by
  obtain ⟨l, n⟩ := w
  unfold find? findSlot? At updateFirst
  simp only [mk.injEq, and_true]
  induction l with
  | nil => exact .inl ⟨rfl, rfl, rfl⟩
  | cons o l ih =>
    by_cases ho : ∃ e, o = some e ∧ p e = true
    · obtain ⟨e, rfl, hp⟩ := ho
      exact .inr ⟨0, e, by simp [updateFirstIn, Option.filter, List.findIdx?_cons, hp]⟩
    · have hany : o.any p = false := by
        rw [← Bool.not_eq_true, Option.any_eq_true]
        exact ho
      have hskip : updateFirstIn p f (o :: l) = o :: updateFirstIn p f l ∧ o.filter p = none := by
        cases o with
        | none => exact ⟨rfl, rfl⟩
        | some e =>
          have hp : p e = false := hany
          simp [updateFirstIn, Option.filter, hp]
      rw [List.findSome?_cons, List.findIdx?_cons, hskip.1, hskip.2, hany]
      rcases ih with ⟨hfind, hslot, hupdate⟩ | ⟨i, e, hat, hp, hfind, hslot, hupdate⟩
      · exact .inl (by simp [hfind, hslot, hupdate])
      · exact .inr ⟨i + 1, e, by simp [hat, hp, hfind, hslot, hupdate]⟩

/-- The slot that a search names holds what the search finds. -/
theorem at_findSlot? (h : w.findSlot? p = some i) :
    ∃ e, w.At i e ∧ p e = true ∧ w.find? p = some e := by
  rcases first_match p id w with ⟨-, hslot, -⟩ | ⟨j, e, hat, hp, hfind, hslot, -⟩
  · cases hslot.symm.trans h
  · obtain rfl := some.inj (hslot.symm.trans h)
    exact ⟨e, hat, hp, hfind⟩

theorem updateFirst_of_find?_eq_none (h : w.find? p = none) : w.updateFirst p f = w := by
  rcases first_match p f w with ⟨-, -, hupdate⟩ | ⟨i, e, -, -, hfind, -⟩
  · exact hupdate
  · cases hfind.symm.trans h

/-- An update writes the slot of the value that a search finds. -/
theorem at_updateFirst (h : w.find? p = some e) :
    ∃ i, w.At i e ∧
      ∀ j x, (w.updateFirst p f).At j x ↔ j = i ∧ x = f e ∨ j ≠ i ∧ w.At j x := by
  rcases first_match p f w with ⟨hnone, -⟩ | ⟨i, e', hat, -, hfind, -, hupdate⟩
  · cases hnone.symm.trans h
  · obtain rfl := some.inj (hfind.symm.trans h)
    refine ⟨i, hat, fun j x => ?_⟩
    rw [hupdate]
    refine ⟨at_set, ?_⟩
    rintro (⟨rfl, rfl⟩ | ⟨hj, hx⟩)
    · exact List.getElem?_set_self (List.getElem?_eq_some_iff.1 hat).1
    · exact (List.getElem?_set_ne hj.symm).trans hx

theorem holds_updateFirst (h : (w.updateFirst p f).Holds x) :
    w.Holds x ∨ ∃ y, w.Holds y ∧ p y = true ∧ x = f y := by
  rcases first_match p f w with ⟨-, -, hupdate⟩ | ⟨i, e, hat, hp, -, -, hupdate⟩ <;>
    rw [hupdate] at h
  · exact .inl h
  · rcases mem_or_eq_of_mem_set h with h | h
    · exact .inl h
    · exact .inr ⟨e, hat.holds, hp, some.inj h⟩

/-- Updating right after inserting the only match changes just the new value. -/
theorem holds_updateFirst_insert {e x : α} (hw : w.find? p = none) (he : p e = true)
    (h : ((w.insert e).updateFirst p f).Holds x) : x = f e ∨ w.Holds x := by
  obtain ⟨k, hk⟩ := exists_slots_insert e w
  rcases first_match p f (w.insert e) with ⟨hnone, -, hupdate⟩ | ⟨i, d, hat, hp, -, -, hupdate⟩ <;>
    rw [hupdate] at h
  · rcases holds_insert h with rfl | hx
    · cases he.symm.trans (not_of_find?_eq_none hnone h)
    · exact .inr hx
  · rw [At, hk] at hat
    rcases at_set hat with ⟨rfl, rfl⟩ | ⟨-, hd⟩
    · rw [Holds, hk, List.set_set] at h
      rcases mem_or_eq_of_mem_set h with h | h
      · exact .inr h
      · exact .inl (some.inj h)
    · cases hp.symm.trans (not_of_find?_eq_none hw hd.holds)

end Ways

end SparcV8
