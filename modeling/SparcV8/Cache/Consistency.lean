import SparcV8.Cache.CachedMmu
import SparcV8.Cache.Lines
import SparcV8.Mmu.Mapping

/-!
# Consistent caches

A cache is consistent when every valid line stands where its address belongs, is the copy of the
line that the address is mapped to, and is the only copy of it. Each operation keeps this, for as
long as the words of the tables are kept.
-/

namespace SparcV8

open BitVec CacheArray Walk Set Translation

/-! ## Addresses of one line -/

variable {va context : Word} {dom : Nat → Bool}

section SameLine

variable {va' : Word} (h : va >>> LOG_LINE_BYTES = va' >>> LOG_LINE_BYTES)
include h

theorem getLsbD_of_sameLine {i : Nat} (hi : 6 ≤ i) : va.getLsbD i = va'.getLsbD i := by
  have hbit := congrArg (fun x => x.getLsbD (i - 6)) h
  simp only [LOG_LINE_BYTES, getLsbD_ushiftRight] at hbit
  rwa [show 6 + (i - 6) = i by omega] at hbit

theorem readBits_of_sameLine {hi lo : Nat} (hhi : hi < 32) (hlo : 6 ≤ lo) :
    readBits va hi lo = readBits va' hi lo := by
  apply eq_of_getLsbD_eq
  intro i _
  rw [getLsbD_readBits _ hhi, getLsbD_readBits _ hhi, getLsbD_of_sameLine h (by omega)]

theorem start_of_sameLine (ctp context : Word) : start ctp context va = start ctp context va' := by
  rw [start, start, readBits_of_sameLine h (by decide) (by decide),
    readBits_of_sameLine h (by decide) (by decide), readBits_of_sameLine h (by decide) (by decide)]

theorem constructPhysicalAddr_of_sameLine (pte : Word) (level : Level) :
    constructPhysicalAddr pte level va >>> LOG_LINE_BYTES =
      constructPhysicalAddr pte level va' >>> LOG_LINE_BYTES := by
  have hoffset (top i : Nat) (htop : top < 32) :
      (readBits va top 0).getLsbD (6 + i) = (readBits va' top 0).getLsbD (6 + i) := by
    rw [getLsbD_readBits _ htop, getLsbD_readBits _ htop, getLsbD_of_sameLine h (by omega)]
  have hpage (i : Nat) : (pageOffset level va).getLsbD (6 + i) =
      (pageOffset level va').getLsbD (6 + i) := by
    fin_cases level
    · exact hoffset 31 i (by decide)
    · exact hoffset 23 i (by decide)
    · exact hoffset 17 i (by decide)
    · exact hoffset 11 i (by decide)
  apply eq_of_getLsbD_eq
  intro i _
  simp only [LOG_LINE_BYTES, constructPhysicalAddr, getLsbD_ushiftRight,
    getLsbD_or, getLsbD_setWidth, hpage]

theorem setWidth_of_sameLine :
    va.setWidth 64 >>> LOG_LINE_BYTES = va'.setWidth 64 >>> LOG_LINE_BYTES := by
  apply eq_of_getLsbD_eq
  intro i _
  simp only [LOG_LINE_BYTES, getLsbD_ushiftRight, getLsbD_setWidth,
    getLsbD_of_sameLine h (show 6 ≤ 6 + i by omega)]

namespace MmuCore

variable {u : MmuCore} {c : Words} {W : Set Nat}

/-- The addresses of a line have one walk. -/
theorem tableWalk_of_sameLine (ctp : Word) :
    tableWalk dom ctp c context va = tableWalk dom ctp c context va' ∧
      tablePath dom ctp c context va = tablePath dom ctp c context va' := by
  rw [tableWalk, tableWalk, tablePath, tablePath, start_of_sameLine h]
  exact ⟨rfl, rfl⟩

/-- The addresses of a line are mapped to one line, with the same rights. -/
theorem mappedTo_of_sameLine :
    (u.mappedTo dom c context va).physicalAddr >>> LOG_LINE_BYTES =
        (u.mappedTo dom c context va').physicalAddr >>> LOG_LINE_BYTES ∧
      (u.mappedTo dom c context va).acc = (u.mappedTo dom c context va').acc := by
  cases ht : u.translates with
  | true =>
    rw [mappedTo_of_translates ht, mappedTo_of_translates ht, (tableWalk_of_sameLine h _).1]
    exact ⟨constructPhysicalAddr_of_sameLine h _ _, rfl⟩
  | false =>
    rw [mappedTo_of_not_translates ht, mappedTo_of_not_translates ht]
    exact ⟨setWidth_of_sameLine h, rfl⟩

theorem Settled.of_sameLine (hs : u.Settled dom c context va W) :
    u.Settled dom c context va' W := by
  obtain ⟨hwalk, hpath⟩ : tableWalk dom u.contextTablePointerRegister c context va =
      tableWalk dom u.contextTablePointerRegister c context va' ∧ _ :=
    tableWalk_of_sameLine h u.contextTablePointerRegister
  refine ⟨fun ht => ?_, fun ht => ?_, fun ht => ?_⟩
  · rw [← hwalk]
    exact hs.leaf ht
  · rw [← hwalk]
    exact hs.referenced ht
  · rw [← hpath]
    exact hs.path_subset ht

end MmuCore

end SameLine

/-- A mapping keeps the offset within a page. -/
theorem MmuCore.offset_mappedTo (dom : Nat → Bool) (u : MmuCore) (c : Words) (context va : Word) :
    (u.mappedTo dom c context va).physicalAddr.toNat % 4096 = va.toNat % 4096 := by
  cases ht : u.translates with
  | true =>
    rw [mappedTo_of_translates ht]
    exact toNat_constructPhysicalAddr_offset _ va _
  | false =>
    rw [mappedTo_of_not_translates ht]
    rw [toNat_setWidth_of_le (by decide)]

namespace CacheArray

/-! ## Consistency -/

/-- A valid line stands for an address that is mapped to it. -/
structure LineOk (dom : Nat → Bool) (u : MmuCore) (c : Words) (W X : Set Nat)
    (a : CacheArray) (set : Nat) (l : Line) (va context : Word) : Prop where
  context_lt : context.toNat < 256
  placed : a.Placed set l va context
  settled : u.Settled dom c context va W
  physicalLine_eq :
    l.physicalLine = (u.mappedTo dom c context va).physicalAddr >>> LOG_LINE_BYTES
  acc_eq : l.acc = (u.mappedTo dom c context va).acc
  copy : l.CopyOff dom c X
  inMemory : ∀ i < 16, dom (16 * l.physicalLine.toNat + i) = true

structure Consistent (dom : Nat → Bool) (u : MmuCore) (c : Words) (W X : Set Nat)
    (a : CacheArray) : Prop where
  /-- There are at least four sets. -/
  sets : 2 ≤ a.logSets
  /-- Without an MMU nothing is cached. -/
  mmu : ∀ l, a.Holds l → u.mmuIsPresent = true
  lines : ∀ set i l, a.At set i l → ∃ va context, LineOk dom u c W X a set l va context
  unique : a.Unique

variable {u u' : MmuCore} {c c' : Words} {W W' X X' : Set Nat} {a a' : CacheArray}

theorem toNat_physicalLine (pa : BitVec 64) : (pa >>> LOG_LINE_BYTES).toNat = pa.toNat / 64 := by
  rw [toNat_ushiftRight, Nat.shiftRight_eq_div_pow]
  rfl

/-- A valid line, by its address alone. -/
structure LabelOk (dom : Nat → Bool) (u : MmuCore) (c : Words) (W X : Set Nat) (l : Line)
    (va context : Word) : Prop where
  mmu : u.mmuIsPresent = true
  settled : u.Settled dom c context va W
  physicalLine_eq :
    l.physicalLine = (u.mappedTo dom c context va).physicalAddr >>> LOG_LINE_BYTES
  acc_eq : l.acc = (u.mappedTo dom c context va).acc
  copy : l.CopyOff dom c X
  inMemory : ∀ i < 16, dom (16 * l.physicalLine.toNat + i) = true

theorem consistent_iff_addressed :
    Consistent dom u c W X a ↔ a.Addressed (LabelOk dom u c W X) := by
  constructor
  · intro h
    refine ⟨h.sets, fun set i l hl => ?_, h.unique⟩
    obtain ⟨va, context, hok⟩ := h.lines set i l hl
    exact ⟨va, context, hok.context_lt, hok.placed, h.mmu l hl.holds, hok.settled,
      hok.physicalLine_eq, hok.acc_eq, hok.copy, hok.inMemory⟩
  · intro h
    refine ⟨h.sets, ?_, fun set i l hl => ?_, h.unique⟩
    · rintro l ⟨set, i, hl⟩
      obtain ⟨va, context, -, -, hok⟩ := h.lines set i l hl
      exact hok.mmu
    · obtain ⟨va, context, hctx, hplaced, hok⟩ := h.lines set i l hl
      exact ⟨va, context, hctx, hplaced, hok.settled, hok.physicalLine_eq, hok.acc_eq, hok.copy,
        hok.inMemory⟩

/-- An empty cache is consistent. -/
theorem consistent_of_empty (hsets : 2 ≤ a.logSets) (h : ∀ l, ¬ a.Holds l) :
    Consistent dom u c W X a :=
  consistent_iff_addressed.2 (addressed_of_empty hsets h)

/-- Consistency stays while the words of the tables are kept and the copies are good. -/
theorem Consistent.of_kept (h : Consistent dom u c W X a) (hsetup : u'.setup = u.setup)
    (hW : W ⊆ W') (hk : ∀ i ∈ W, Pte.Kept (c.read dom i) (c'.read dom i))
    (hcopy : ∀ l, a.Holds l → l.CopyOff dom c X → l.CopyOff dom c' X') :
    Consistent dom u' c' W' X' a := by
  rw [consistent_iff_addressed] at h ⊢
  refine h.imp fun l va context hl hok => ⟨(congrArg Prod.fst hsetup).trans hok.mmu,
    hok.settled.of_kept hsetup hW hk, ?_, ?_, hcopy l hl hok.copy, hok.inMemory⟩
  · rw [hok.settled.mappedTo_of_kept hsetup hk]
    exact hok.physicalLine_eq
  · rw [hok.settled.mappedTo_of_kept hsetup hk]
    exact hok.acc_eq

/-- An MMU with the same setup, over the same memory. -/
theorem Consistent.of_setup (h : Consistent dom u c W X a) (hsetup : u'.setup = u.setup) :
    Consistent dom u' c W X a :=
  h.of_kept hsetup (Subset.refl W) (fun _ _ => .inl rfl) fun _ _ hcopy => hcopy

theorem Consistent.visited (h : Consistent dom u c W X a) : a.Visited :=
  (consistent_iff_addressed.1 h).visited

/-- A cache with some of the lines. -/
theorem Consistent.of_at (h : Consistent dom u c W X a) (hsets : a'.logSets = a.logSets)
    (hat : ∀ set i l, a'.At set i l → a.At set i l) : Consistent dom u c W X a' :=
  consistent_iff_addressed.2 ((consistent_iff_addressed.1 h).of_shrunk ⟨hsets, hat⟩)

theorem Consistent.invalidatePhysicalLine (h : Consistent dom u c W X a) (pa : BitVec 64) :
    Consistent dom u c W X (a.invalidatePhysicalLine pa) :=
  consistent_iff_addressed.2 ((consistent_iff_addressed.1 h).invalidatePhysicalLine pa).1

variable {pa : BitVec 64} {l : Line}

/-- After a physical line has been invalidated no copy of it is left. -/
theorem Consistent.unheld_invalidatePhysicalLine (h : Consistent dom u c W X a)
    (hl : (a.invalidatePhysicalLine pa).Holds l) : l.physicalLine ≠ pa >>> LOG_LINE_BYTES :=
  h.visited.ne_of_holds hl

/-- The line that is found for an address is the one it is mapped to. -/
theorem Consistent.of_find (h : Consistent dom u c W X a) (hctx : context.toNat < 256)
    (hfind : a.find va context = some l) :
    u.Settled dom c context va W ∧
      l.physicalLine = (u.mappedTo dom c context va).physicalAddr >>> LOG_LINE_BYTES ∧
      l.acc = (u.mappedTo dom c context va).acc ∧ l.CopyOff dom c X ∧
      (∀ i < 16, dom (16 * l.physicalLine.toNat + i) = true) ∧ u.mmuIsPresent = true := by
  have hok := (consistent_iff_addressed.1 h).of_find hctx hfind fun va' hline hok => by
    obtain ⟨hpa, hacc⟩ : (u.mappedTo dom c context va').physicalAddr >>> LOG_LINE_BYTES =
        (u.mappedTo dom c context va).physicalAddr >>> LOG_LINE_BYTES ∧ _ :=
      MmuCore.mappedTo_of_sameLine hline
    exact ⟨hok.mmu, hok.settled.of_sameLine hline, hok.physicalLine_eq.trans hpa,
      hok.acc_eq.trans hacc, hok.copy, hok.inMemory⟩
  exact ⟨hok.settled, hok.physicalLine_eq, hok.acc_eq, hok.copy, hok.inMemory, hok.mmu⟩

/-- A copy of the line of an address is put in, if the cache holds no other. -/
theorem Consistent.exists_fill_of_copy (h : Consistent dom u c W X a) {acc : Word}
    {data : Fin 8 → BitVec 64} (hctx : context.toNat < 256) (hmmu : u.mmuIsPresent = true)
    (hpa : pa = (u.mappedTo dom c context va).physicalAddr)
    (hacc : acc = (u.mappedTo dom c context va).acc) (hsettled : u.Settled dom c context va W)
    (hdom : ∀ i < 16, dom (16 * (pa.toNat / 64) + i) = true)
    (hcopy : ∀ tag, (Line.mk tag acc (pa >>> LOG_LINE_BYTES) data).CopyOff dom c X)
    (hunheld : ∀ l, a.Holds l → l.physicalLine ≠ pa >>> LOG_LINE_BYTES) :
    ∃ a', a.fill va context acc data pa = some a' ∧ Consistent dom u c W X a' := by
  -- a line found for the address would be a copy of the line
  have hnone : a.find va context = none := by
    cases hfind : a.find va context with
    | none => rfl
    | some l =>
      obtain ⟨⟨i, hat⟩, -⟩ := at_of_find hfind
      obtain ⟨-, hmapped, -⟩ := h.of_find hctx hfind
      rw [← hpa] at hmapped
      exact absurd hmapped (hunheld l hat.holds)
  obtain ⟨a', hfill⟩ : ∃ a', a.fill va context acc data pa = some a' := by
    rw [fill, hnone]
    exact ⟨_, rfl⟩
  have hpage := u.offset_mappedTo dom c context va
  rw [← hpa] at hpage
  have haddressed := consistent_iff_addressed.1 h
  refine ⟨a', hfill, consistent_iff_addressed.2 (haddressed.fill hfill hctx hpage
    ⟨hmmu, hsettled, ?_, hacc, hcopy _, fun i hi => ?_⟩ hunheld)⟩
  · rw [← hpa]
  · rw [toNat_physicalLine]
    exact hdom i hi

variable {t : Translation}

section

variable (h : Consistent dom u c W X a) (hctx : context.toNat < 256)
  (hmmu : u.mmuIsPresent = true) (ht : t = u.mappedTo dom c context va)
  (hsettled : u.Settled dom c context va W)
  (hdom : ∀ i < 16, dom (16 * (t.physicalAddr.toNat / 64) + i) = true)
include h hctx hmmu ht hsettled hdom

/-- The line of an address is put in, if the cache holds no copy of it. -/
theorem Consistent.exists_fill_of_unheld
    (hunheld : ∀ l, a.Holds l → l.physicalLine ≠ t.physicalAddr >>> LOG_LINE_BYTES) :
    ∃ a', a.fill va context t.acc (c.lineAt dom (t.physicalAddr.toNat / 64)) t.physicalAddr =
        some a' ∧
      Consistent dom u c W X a' :=
  h.exists_fill_of_copy hctx hmmu (congrArg physicalAddr ht)
    (congrArg acc ht) hsettled hdom (fun _ => copyOff_lineAt _ _ _) hunheld

/-- The line of an address is put in, in the place of any other copy of it. -/
theorem Consistent.exists_fill :
    ∃ a', (a.invalidatePhysicalLine t.physicalAddr).fill va context t.acc
        (c.lineAt dom (t.physicalAddr.toNat / 64)) t.physicalAddr = some a' ∧
      Consistent dom u c W X a' :=
  (h.invalidatePhysicalLine t.physicalAddr).exists_fill_of_unheld hctx hmmu ht hsettled hdom
    fun _ hl => h.unheld_invalidatePhysicalLine hl

end

/-- The words that change are in the set, or in lines not held. -/
def Unaffected (dom : Nat → Bool) (c c' : Words) (X : Set Nat) (a : CacheArray) : Prop :=
  ∀ n, c'.read dom n ≠ c.read dom n → n ∉ X →
    ∀ l, a.Holds l → l.physicalLine.toNat ≠ n / 16

theorem unaffected_univ : a.Unaffected dom c c' univ :=
  fun n _ hn => absurd (mem_univ n) hn

theorem Consistent.of_unaffected (h : Consistent dom u c W X a) (hsetup : u'.setup = u.setup)
    (hW : W ⊆ W') (hk : ∀ i ∈ W, Pte.Kept (c.read dom i) (c'.read dom i)) (hX : X ⊆ X')
    (hun : a.Unaffected dom c c' X') : Consistent dom u' c' W' X' a := by
  refine h.of_kept hsetup hW hk fun l hl hcopy => hcopy.of_read_eq fun i hi hn => ?_
  refine ⟨fun hmem => hn (hX hmem), ?_⟩
  by_contra hne
  exact hun _ hne hn l hl (by omega)

theorem Consistent.mono (h : Consistent dom u c W X a) (hX : X ⊆ X') : Consistent dom u c W X' a :=
  h.of_kept rfl (Subset.refl W) (fun _ _ => .inl rfl)
    fun _ _ hcopy => hcopy.of_read_eq fun _ _ hn => ⟨fun hmem => hn (hX hmem), rfl⟩

/-- The words of the line that a physical address lies in. -/
def lineWords (pa : BitVec 64) : Set Nat := {n | n / 16 = pa.toNat / 64}

theorem notMem_lineWords (h : l.physicalLine ≠ pa >>> LOG_LINE_BYTES) {i : Nat} (hi : i < 16) :
    16 * l.physicalLine.toNat + i ∉ lineWords pa := by
  intro hmem
  refine h (eq_of_toNat_eq ?_)
  rw [toNat_physicalLine]
  change (16 * l.physicalLine.toNat + i) / 16 = pa.toNat / 64 at hmem
  omega

/-- Words of a line that is not held need no exception. -/
theorem Consistent.of_unheld (h : Consistent dom u c W (X ∪ lineWords pa) a)
    (hunheld : ∀ l, a.Holds l → l.physicalLine ≠ pa >>> LOG_LINE_BYTES) :
    Consistent dom u c W X a := by
  refine h.of_kept rfl (Subset.refl W) (fun _ _ => .inl rfl) fun l hl hcopy => ?_
  refine hcopy.of_read_eq fun i hi hn => ⟨fun hmem => ?_, rfl⟩
  exact hmem.elim hn (notMem_lineWords (hunheld l hl) hi)

/-- The line of an address is written, and then is a copy. -/
theorem Consistent.writeBytes_of_copy {l₀ : Line}
    (h : Consistent dom u c W (X ∪ lineWords pa) a) (hfind : a.find va context = some l₀)
    (hline : l₀.physicalLine = pa >>> LOG_LINE_BYTES) {data : BitVec 64} {mask : BitVec 8}
    (hcopy : (l₀.write va data mask).CopyOff dom c X) :
    Consistent dom u c W X (a.writeBytes va context data mask) := by
  rw [consistent_iff_addressed] at h ⊢
  refine h.writeBytes hfind data mask (fun va' context' hok => ?_) fun l va' context' hne hok => ?_
  · exact ⟨hok.mmu, hok.settled, hok.physicalLine_eq, hok.acc_eq, hcopy, hok.inMemory⟩
  · refine { hok with copy := hok.copy.of_read_eq fun k hk hn => ⟨fun hmem => ?_, rfl⟩ }
    exact hmem.elim hn (notMem_lineWords (hline ▸ hne) hk)

/-- A store reaches the memory, and no word of the tables. -/
theorem Consistent.stored (h : Consistent dom u c W X a) (hpa : pa.toNat % 8 = 0)
    (word0 word1 mask : Word)
    (hk : ∀ i ∈ W, (c.stored dom pa word0 word1 mask).read dom i = c.read dom i) :
    Consistent dom u (c.stored dom pa word0 word1 mask) W (X ∪ lineWords pa) a := by
  refine h.of_unaffected rfl (Subset.refl W) (fun i hi => .inl (hk i hi))
    subset_union_left fun n hn hnot => ?_
  refine absurd (Words.read_stored_of_ne dom c hpa _ _ _ fun hdw => hnot (.inr ?_)) hn
  change n / 16 = pa.toNat / 64
  omega

/-- A store that reaches its line and the memory, and no word of the tables. -/
theorem Consistent.writeBytes (h : Consistent dom u c W X a) {l₀ : Line}
    (hctx : context.toNat < 256) (hfind : a.find va context = some l₀)
    (hpa : pa = (u.mappedTo dom c context va).physicalAddr) (hva : va.toNat % 8 = 0)
    (word0 word1 mask : Word)
    (hk : ∀ i ∈ W, (c.stored dom pa word0 word1 mask).read dom i = c.read dom i) :
    Consistent dom u (c.stored dom pa word0 word1 mask) W X
      (a.writeBytes va context (doubleword word1 word0) (mask.setWidth 8)) := by
  obtain ⟨-, hline, -, hcopy, hdom, -⟩ := h.of_find hctx hfind
  have hpage := u.offset_mappedTo dom c context va
  rw [← hpa] at hline hpage
  have hline' : l₀.physicalLine.toNat = pa.toNat / 64 := by rw [hline, toNat_physicalLine]
  have hpa8 : pa.toNat % 8 = 0 := by omega
  exact (h.stored hpa8 word0 word1 mask hk).writeBytes_of_copy hfind hline
    (hcopy.write hline' hpa8 hpage hdom _ _ _)

/-- A store past the cache, when the copies of its line have been invalidated. -/
theorem Consistent.invalidate_stored (h : Consistent dom u c W X a) (hpa : pa.toNat % 8 = 0)
    (word0 word1 mask : Word)
    (hk : ∀ i ∈ W, (c.stored dom pa word0 word1 mask).read dom i = c.read dom i) :
    Consistent dom u (c.stored dom pa word0 word1 mask) W X
      (a.invalidatePhysicalLine pa) := by
  have hstored := h.stored hpa word0 word1 mask hk
  exact (hstored.invalidatePhysicalLine pa).of_unheld
    fun _ hl => hstored.unheld_invalidatePhysicalLine hl

end CacheArray

end SparcV8
