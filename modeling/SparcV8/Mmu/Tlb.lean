import SparcV8.Core.Store.Ways
import SparcV8.Mmu.PageTable
import Mathlib.Data.Fintype.Basic
import Mathlib.Tactic.FinCases

/-!
# The translation lookaside buffer

One row of slots for each of the levels 0 to 2, and 32 rows for level 3, chosen by the address. Only
leaves are cached. The row an entry is in says its level, and an invalid slot is an empty one.
-/

namespace SparcV8

open Option Ways

structure Tlb.Entry where
  /-- The bits of the virtual address that the level distinguishes. -/
  vaTag : Word
  context : Word
  pte : Word
  phyAddrOfPte : BitVec 64
  deriving DecidableEq

structure Tlb where
  level0 : Ways Tlb.Entry
  level1 : Ways Tlb.Entry
  level2 : Ways Tlb.Entry
  level3 : Fin 32 → Ways Tlb.Entry

namespace Tlb

/-- A TLB without entries, of the sizes the configuration gives. -/
def empty : Tlb :=
  { level0 := Ways.empty 2, level1 := Ways.empty 4, level2 := Ways.empty 16,
    level3 := fun _ => Ways.empty 8 }

def vaTagForLevel (va : Word) (level : Level) : Word :=
  match level with
  | 0 => 0
  | 1 => readBits va 31 24
  | 2 => readBits va 31 18
  | 3 => readBits va 31 12

/-- How many of the top bits of an address a tag holds. -/
def vaTagBitsForLevel (level : Level) : Nat :=
  match level with
  | 0 => 0
  | 1 => 8
  | 2 => 14
  | 3 => 20

def level3SetIndex (va : Word) : Fin 32 :=
  ⟨(readBits va 16 12).toNat, toNat_readBits_lt va (by decide)⟩

/-- The slots an address may use at a level. -/
def ways (t : Tlb) (level : Level) (va : Word) : Ways Entry :=
  match level with
  | 0 => t.level0
  | 1 => t.level1
  | 2 => t.level2
  | 3 => t.level3 (level3SetIndex va)

def modifyWays (t : Tlb) (level : Level) (va : Word) (f : Ways Entry → Ways Entry) : Tlb :=
  match level with
  | 0 => { t with level0 := f t.level0 }
  | 1 => { t with level1 := f t.level1 }
  | 2 => { t with level2 := f t.level2 }
  | 3 =>
    { t with
      level3 := Function.update t.level3 (level3SetIndex va) (f (t.level3 (level3SetIndex va))) }

/-- Apply an operation to every row, knowing its level. -/
def mapWays (t : Tlb) (f : Level → Ways Entry → Ways Entry) : Tlb :=
  { level0 := f 0 t.level0, level1 := f 1 t.level1, level2 := f 2 t.level2,
    level3 := fun i => f 3 (t.level3 i) }

/-- The entry serves this address. Level 0 looks at the context alone. -/
def hits (va context : Word) (level : Level) (e : Entry) : Bool :=
  e.context == context && (level == 0 || e.vaTag == vaTagForLevel va level)

def clear (t : Tlb) : Tlb := t.mapWays (fun _ w => w.clear)

def lookupLevel (t : Tlb) (va context : Word) (level : Level) : Option WalkResult :=
  ((t.ways level va).find? (hits va context level)).map
    (fun e => { pte := e.pte, level := level, phyAddrOfPte := e.phyAddrOfPte })

/-- The first hit, level 0 first. -/
def lookup (t : Tlb) (va context : Word) : Option WalkResult :=
  (t.lookupLevel va context 0).or ((t.lookupLevel va context 1).or
    ((t.lookupLevel va context 2).or (t.lookupLevel va context 3)))

def insert (t : Tlb) (va context : Word) (r : WalkResult) : Tlb :=
  t.modifyWays r.level va (Ways.insert
    { vaTag := vaTagForLevel va r.level, context := context, pte := r.pte,
      phyAddrOfPte := r.phyAddrOfPte })

def updatePte (t : Tlb) (va context : Word) (level : Level) (newPte : Word) : Tlb :=
  t.modifyWays level va
    (Ways.updateFirst (hits va context level) (fun e => { e with pte := newPte }))

/-- The addresses agree as far as both the flush type and the entry's tag reach. -/
def flushAddressMatches (flushBits : Nat) (va : Word) (level : Level) (e : Entry) : Bool :=
  let n := min flushBits (vaTagBitsForLevel level)
  n == 0 || va >>> (32 - n) == e.vaTag >>> (vaTagBitsForLevel level - n)

def flush (t : Tlb) (flushType va context : Word) : Tlb :=
  if flushType = 4 then t.clear
  else if flushType = 3 then
    t.mapWays (fun _ => Ways.removeIf (fun e => !Pte.accIsGlobal e.pte && e.context == context))
  else
    let flushBits := if flushType = 0 then 20 else if flushType = 1 then 14 else 8
    t.mapWays (fun level => Ways.removeIf (fun e =>
      (Pte.accIsGlobal e.pte || e.context == context) && flushAddressMatches flushBits va level e))

/-! ## What a TLB holds -/

/-- Some row of the level holds the entry. -/
def Holds (t : Tlb) (level : Level) (e : Entry) : Prop := ∃ va, (t.ways level va).Holds e

theorem ways_mapWays (t : Tlb) (f : Level → Ways Entry → Ways Entry) (level : Level) (va : Word) :
    (t.mapWays f).ways level va = f level (t.ways level va) := by
  fin_cases level <;> rfl

theorem not_holds_empty (level : Level) (e : Entry) : ¬ empty.Holds level e := by
  rintro ⟨va, h⟩
  fin_cases level <;> exact Ways.not_holds_empty _ _ h

theorem not_holds_clear (t : Tlb) (level : Level) (e : Entry) : ¬ t.clear.Holds level e := by
  rintro ⟨va, h⟩
  rw [clear, ways_mapWays] at h
  exact Ways.not_holds_clear _ _ h

variable {level : Level}
variable {t : Tlb} {e : Entry}
variable {va : Word}

/-- A flush only removes entries. -/
theorem holds_of_holds_flush {flushType context : Word}
    (h : (t.flush flushType va context).Holds level e) : t.Holds level e := by
  unfold flush at h
  split at h
  · exact absurd h (not_holds_clear t level e)
  · split at h
    all_goals
      obtain ⟨x, hx⟩ := h
      rw [ways_mapWays, holds_removeIf] at hx
      exact ⟨x, hx.1⟩

variable {f : Ways Entry → Ways Entry}

theorem ways_modifyWays (t : Tlb) (level level' : Level) (va va' : Word)
    (f : Ways Entry → Ways Entry) :
    (t.modifyWays level va f).ways level' va' =
      if level' = level ∧ (level = 3 → level3SetIndex va' = level3SetIndex va) then
        f (t.ways level va)
      else t.ways level' va' := by
  fin_cases level <;> fin_cases level' <;> simp [ways, modifyWays, Function.update_apply]

/-- An operation on the row of an address at a level is seen in that row only. -/
theorem holds_modifyWays {level' : Level} (h : (t.modifyWays level va f).Holds level' e) :
    t.Holds level' e ∨ level' = level ∧ (f (t.ways level va)).Holds e := by
  obtain ⟨x, hx⟩ := h
  rw [ways_modifyWays] at hx
  split at hx
  · next hrow => exact .inr ⟨hrow.1, hx⟩
  · exact .inl ⟨x, hx⟩

variable {context : Word} {r : WalkResult}

theorem exists_of_lookupLevel (h : t.lookupLevel va context level = some r) :
    ∃ e, t.Holds level e ∧ hits va context level e = true ∧
      r = { pte := e.pte, level := level, phyAddrOfPte := e.phyAddrOfPte } := by
  obtain ⟨e, he, rfl⟩ := map_eq_some_iff.1 h
  obtain ⟨hm, hp⟩ := Ways.holds_of_find? he
  exact ⟨e, ⟨va, hm⟩, hp, rfl⟩

theorem context_of_hits {e : Entry} (h : hits va context level e = true) : e.context = context := by
  simp only [hits, Bool.and_eq_true, beq_iff_eq] at h
  exact h.1

/-- A hit comes from an entry of its level that serves the address. -/
theorem exists_of_lookup (h : t.lookup va context = some r) :
    ∃ e, t.Holds r.level e ∧ hits va context r.level e = true ∧ r.pte = e.pte ∧
      r.phyAddrOfPte = e.phyAddrOfPte := by
  have hlevel : ∃ level, t.lookupLevel va context level = some r := by
    rcases or_eq_some_iff.1 h with h | ⟨_, h⟩
    · exact ⟨0, h⟩
    rcases or_eq_some_iff.1 h with h | ⟨_, h⟩
    · exact ⟨1, h⟩
    rcases or_eq_some_iff.1 h with h | ⟨_, h⟩
    · exact ⟨2, h⟩
    · exact ⟨3, h⟩
  obtain ⟨level, hl⟩ := hlevel
  obtain ⟨e, he, hp, rfl⟩ := exists_of_lookupLevel hl
  exact ⟨e, he, hp, rfl, rfl⟩

/-- After a miss no row of the address holds a hit. -/
theorem find?_eq_none_of_lookup (h : t.lookup va context = none) (level : Level) :
    (t.ways level va).find? (hits va context level) = none := by
  simp only [lookup, or_eq_none_iff, lookupLevel, map_eq_none_iff] at h
  fin_cases level
  · exact h.1
  · exact h.2.1
  · exact h.2.2.1
  · exact h.2.2.2

theorem holds_insert (h : (t.insert va context r).Holds level e) :
    t.Holds level e ∨ level = r.level ∧
      e = { vaTag := vaTagForLevel va r.level, context := context, pte := r.pte,
            phyAddrOfPte := r.phyAddrOfPte } := by
  rcases holds_modifyWays h with ho | ⟨rfl, hw⟩
  · exact .inl ho
  · rcases Ways.holds_insert hw with he | ho
    · exact .inr ⟨rfl, he⟩
    · exact .inl ⟨va, ho⟩

variable {newPte : Word}

theorem holds_updatePte {level' : Level}
    (h : (t.updatePte va context level newPte).Holds level' e) :
    t.Holds level' e ∨ level' = level ∧ ∃ e', t.Holds level e' ∧ hits va context level e' = true ∧
      e = { e' with pte := newPte } := by
  rcases holds_modifyWays h with ho | ⟨rfl, hw⟩
  · exact .inl ho
  · rcases Ways.holds_updateFirst hw with ho | ⟨e', ho, hp, he⟩
    · exact .inl ⟨va, ho⟩
    · exact .inr ⟨rfl, e', ⟨va, ho⟩, hp, he⟩

theorem modifyWays_modifyWays (t : Tlb) (level : Level) (va : Word)
    (f g : Ways Entry → Ways Entry) :
    (t.modifyWays level va f).modifyWays level va g = t.modifyWays level va (fun w => g (f w)) := by
  fin_cases level <;> simp [modifyWays]

/-- A fill after a miss, updated at once, adds just the updated entry. -/
theorem holds_updatePte_insert (hmiss : t.lookup va context = none)
    (h : ((t.insert va context r).updatePte va context r.level newPte).Holds level e) :
    t.Holds level e ∨ level = r.level ∧
      e = { vaTag := vaTagForLevel va r.level, context := context, pte := newPte,
            phyAddrOfPte := r.phyAddrOfPte } := by
  rw [insert, updatePte, modifyWays_modifyWays] at h
  rcases holds_modifyWays h with ho | ⟨rfl, hw⟩
  · exact .inl ho
  · have hhit : hits va context r.level ⟨vaTagForLevel va r.level, context, r.pte,
        r.phyAddrOfPte⟩ = true := by
      simp [hits]
    rcases Ways.holds_updateFirst_insert (find?_eq_none_of_lookup hmiss r.level) hhit hw with
      he | ho
    · exact .inr ⟨rfl, he⟩
    · exact .inl ⟨va, ho⟩

/-! ## Where entries are -/

/-- Every entry is in a row of some address that has its tag. -/
def Placed (t : Tlb) : Prop :=
  ∀ level va e, (t.ways level va).Holds e →
    ∃ va', e.vaTag = vaTagForLevel va' level ∧
      (level = 3 → level3SetIndex va' = level3SetIndex va)

/-- No two entries of a level serve one address with different words. -/
def Unique (t : Tlb) : Prop :=
  ∀ level e e', t.Holds level e → t.Holds level e' → ∀ va context,
    hits va context level e = true → hits va context level e' = true →
      e.phyAddrOfPte = e'.phyAddrOfPte

theorem placed_empty : Placed empty := by
  intro level va e h
  exact absurd ⟨va, h⟩ (not_holds_empty level e)

theorem unique_empty : Unique empty := by
  intro level e _ h
  exact absurd h (not_holds_empty level e)

theorem val_level3SetIndex (va : Word) :
    (level3SetIndex va).val = (vaTagForLevel va 3).toNat % 32 := by
  change (readBits va 16 12).toNat = (readBits va 31 12).toNat % 32
  rw [toNat_readBits _ (by decide), toNat_readBits _ (by decide)]
  omega

theorem level3SetIndex_of_vaTag {va' : Word} (h : vaTagForLevel va 3 = vaTagForLevel va' 3) :
    level3SetIndex va = level3SetIndex va' :=
  Fin.ext (by rw [val_level3SetIndex, h, val_level3SetIndex])

/-- The row of an address, at a level of which only the third has several. -/
theorem ways_of_level3SetIndex (t : Tlb) {va' : Word}
    (h : level = 3 → level3SetIndex va = level3SetIndex va') :
    t.ways level va = t.ways level va' := by
  fin_cases level
  · rfl
  · rfl
  · rfl
  · exact congrArg t.level3 (h rfl)

theorem vaTag_of_hits (hp : t.Placed) (he : t.Holds level e)
    (hhit : hits va context level e = true) : e.vaTag = vaTagForLevel va level := by
  simp only [hits, Bool.and_eq_true, Bool.or_eq_true, beq_iff_eq] at hhit
  rcases hhit.2 with rfl | htag
  · obtain ⟨x, hx⟩ := he
    obtain ⟨x', hx', -⟩ := hp 0 x e hx
    exact hx'
  · exact htag

/-- An entry that serves an address is in its row. -/
theorem ways_of_hits {x : Word} (hp : t.Placed) (hx : (t.ways level x).Holds e)
    (hhit : hits va context level e = true) : t.ways level x = t.ways level va := by
  obtain ⟨va', htag, hindex⟩ := hp level x e hx
  refine ways_of_level3SetIndex t fun hl => ?_
  subst hl
  rw [← hindex rfl]
  exact level3SetIndex_of_vaTag (htag.symm.trans (vaTag_of_hits hp ⟨x, hx⟩ hhit))

/-- After a miss no entry at all serves the address. -/
theorem not_hits_of_lookup (hp : t.Placed) (h : t.lookup va context = none) (he : t.Holds level e) :
    hits va context level e = false := by
  by_contra hhit
  rw [Bool.not_eq_false] at hhit
  obtain ⟨x, hx⟩ := he
  rw [ways_of_hits hp hx hhit] at hx
  exact absurd (Ways.not_of_find?_eq_none (find?_eq_none_of_lookup h level) hx)
    (by rw [hhit]; decide)

section

variable (h : t.Placed)
include h

/-- A row keeps its place when new entries have old tags or the address's. -/
theorem Placed.modifyWays
    (hf : ∀ e, (f (t.ways level va)).Holds e → (∃ e', (t.ways level va).Holds e' ∧ e.vaTag =
      e'.vaTag) ∨ e.vaTag = vaTagForLevel va level) :
    (t.modifyWays level va f).Placed := by
  intro level' va' e he
  rw [ways_modifyWays] at he
  split at he
  · next hrow =>
    obtain ⟨rfl, hindex⟩ := hrow
    rcases hf e he with ⟨e', he', htag⟩ | htag
    · obtain ⟨x, hx, hxi⟩ := h level' va e' he'
      exact ⟨x, htag.trans hx, fun hl => (hxi hl).trans (hindex hl).symm⟩
    · exact ⟨va, htag, fun hl => (hindex hl).symm⟩
  · exact h level' va' e he

theorem Placed.insert (va context : Word) (r : WalkResult) : (t.insert va context r).Placed := by
  refine h.modifyWays fun e he => ?_
  rcases Ways.holds_insert he with rfl | ho
  · exact .inr rfl
  · exact .inl ⟨e, ho, rfl⟩

theorem Placed.updatePte (va context : Word) (level : Level) (newPte : Word) :
    (t.updatePte va context level newPte).Placed := by
  refine h.modifyWays fun e he => ?_
  rcases Ways.holds_updateFirst he with ho | ⟨e', ho, -, rfl⟩
  · exact .inl ⟨e, ho, rfl⟩
  · exact .inl ⟨e', ho, rfl⟩

theorem Placed.mapWays {f : Level → Ways Entry → Ways Entry}
    (hf : ∀ level w e, (f level w).Holds e → w.Holds e) : (t.mapWays f).Placed := by
  intro level va e he
  rw [ways_mapWays] at he
  exact h level va e (hf _ _ _ he)

theorem Placed.clear : t.clear.Placed :=
  h.mapWays fun _ w e he => absurd he (Ways.not_holds_clear w e)

theorem Placed.flush (flushType va context : Word) : (t.flush flushType va context).Placed := by
  unfold Tlb.flush
  split
  · exact h.clear
  · split
    · exact h.mapWays fun _ _ _ he => (holds_removeIf.1 he).1
    · exact h.mapWays fun _ _ _ he => (holds_removeIf.1 he).1

end

/-- Fewer entries are unique too. -/
theorem Unique.of_holds {t t' : Tlb} (h : t.Unique)
    (hle : ∀ level e, t'.Holds level e → ∃ e', t.Holds level e' ∧ e'.vaTag = e.vaTag ∧
      e'.context = e.context ∧ e'.phyAddrOfPte = e.phyAddrOfPte) : t'.Unique := by
  intro level e e' he he' va context hhit hhit'
  obtain ⟨d, hd, htag, hctx, haddr⟩ := hle level e he
  obtain ⟨d', hd', htag', hcontext', haddr'⟩ := hle level e' he'
  rw [← haddr, ← haddr']
  refine h level d d' hd hd' va context ?_ ?_
  · rw [hits, htag, hctx]
    exact hhit
  · rw [hits, htag', hcontext']
    exact hhit'

theorem Unique.updatePte (h : t.Unique) (va context : Word) (level : Level) (newPte : Word) :
    (t.updatePte va context level newPte).Unique := by
  refine h.of_holds fun level' e he => ?_
  rcases holds_updatePte he with ho | ⟨rfl, e', ho, -, rfl⟩
  · exact ⟨e, ho, rfl, rfl, rfl⟩
  · exact ⟨e', ho, rfl, rfl, rfl⟩

/-- A fill after a miss. -/
theorem Unique.insert (h : t.Unique) (hp : t.Placed) (hmiss : t.lookup va context = none) :
    (t.insert va context r).Unique := by
  have hnew {level : Level} {e : Entry} (he : t.Holds level e) (hl : level = r.level)
      {va' context' : Word} (hhit : hits va' context' level e = true)
      (hhit' : hits va' context' level ⟨vaTagForLevel va r.level, context, r.pte, r.phyAddrOfPte⟩ =
        true) : False := by
    have hnot := not_hits_of_lookup hp hmiss he
    subst hl
    simp only [hits, Bool.and_eq_true, Bool.or_eq_true, beq_iff_eq] at hhit hhit'
    rw [hits, hhit.1, ← hhit'.1, beq_self_eq_true, Bool.true_and, Bool.or_eq_false_iff] at hnot
    have hne : ¬r.level = 0 := by simpa using hnot.1
    have htag : e.vaTag = vaTagForLevel va r.level :=
      (hhit.2.resolve_left hne).trans (hhit'.2.resolve_left hne).symm
    simp [htag] at hnot
  intro level e e' he he' va' context' hhit hhit'
  rcases holds_insert he with ho | ⟨hl, rfl⟩
  · rcases holds_insert he' with ho' | ⟨hl', rfl⟩
    · exact h level e e' ho ho' va' context' hhit hhit'
    · exact (hnew ho hl' hhit hhit').elim
  · rcases holds_insert he' with ho' | ⟨hl', rfl⟩
    · exact (hnew ho' hl hhit' hhit).elim
    · rfl

end Tlb

end SparcV8
