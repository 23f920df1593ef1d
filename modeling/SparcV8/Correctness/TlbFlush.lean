import SparcV8.Mmu.Tlb

/-!
# Flushes of the TLB

A flush removes exactly the entries it is for. The truncated tags that it compares agree just if
the pages of the entry and of the flush overlap, whichever of the two is larger.
-/

namespace SparcV8

open Option Pte

namespace Tlb

/-- What is done to a TLB. -/
inductive Op
  | insert (va context : Word) (r : WalkResult)
  | updatePte (va context : Word) (level : Level) (newPte : Word)
  | flush (flushType va context : Word)
  | clear

def apply (t : Tlb) : Op → Tlb
  | .insert va context r => t.insert va context r
  | .updatePte va context level newPte => t.updatePte va context level newPte
  | .flush flushType va context => t.flush flushType va context
  | .clear => t.clear

def Op.isInsert : Op → Bool
  | .insert .. => true
  | _ => false

/-- The addresses that an entry maps. -/
def Entry.Covers (e : Entry) (level : Level) (x : Word) : Prop := vaTagForLevel x level = e.vaTag

/-- The low bits of the addresses that a page, segment or region flush is for. -/
def flushOffsetBits (flushType : Word) : Nat :=
  if flushType = 0 then 12 else if flushType = 1 then 18 else 24

/-- The addresses in the flushed page, segment or region. -/
def InFlushed (flushType va x : Word) : Prop :=
  x >>> flushOffsetBits flushType = va >>> flushOffsetBits flushType

/-- The entry that a lookup finds, with its level. -/
def lookupEntry (t : Tlb) (va context : Word) : Option (Level × Entry) :=
  let find (level : Level) := ((t.ways level va).find? (hits va context level)).map (level, ·)
  (find 0).or ((find 1).or ((find 2).or (find 3)))

theorem lookup_eq (t : Tlb) (va context : Word) :
    t.lookup va context = (t.lookupEntry va context).map
      fun x => { pte := x.2.pte, level := x.1, phyAddrOfPte := x.2.phyAddrOfPte } := by
  simp only [lookup, lookupLevel, lookupEntry, map_or, map_map]
  rfl

/-! ## Overlaps -/

/-- Two aligned blocks of words overlap if the smaller lies in the larger. -/
theorem exists_ushiftRight_iff {w : Nat} (a b : BitVec w) (j k : Nat) :
    (∃ x : BitVec w, x >>> j = a >>> j ∧ x >>> k = b >>> k) ↔ a >>> max j k = b >>> max j k := by
  have hshift (x y : BitVec w) {i n : Nat} (hi : i ≤ n) (h : x >>> i = y >>> i) :
      x >>> n = y >>> n := by
    obtain ⟨d, rfl⟩ := Nat.exists_eq_add_of_le hi
    rw [BitVec.shiftRight_add, BitVec.shiftRight_add, h]
  constructor
  · rintro ⟨x, ha, hb⟩
    exact (hshift x a (le_max_left j k) ha).symm.trans (hshift x b (le_max_right j k) hb)
  · intro h
    rcases le_total j k with hjk | hkj
    · rw [max_eq_right hjk] at h
      exact ⟨a, rfl, h⟩
    · rw [max_eq_left hkj] at h
      exact ⟨b, h.symm, rfl⟩

theorem vaTagForLevel_eq (x : Word) (level : Level) :
    vaTagForLevel x level = x >>> (32 - vaTagBitsForLevel level) := by
  have hx := x.isLt
  have hread (l : Nat) (hl : l ≤ 31) : readBits x 31 l = x >>> l := by
    apply BitVec.eq_of_getLsbD_eq
    intro i _
    rw [getLsbD_readBits x (by decide), BitVec.getLsbD_ushiftRight]
    by_cases hi : l + i ≤ 31
    · rw [decide_eq_true hi, Bool.true_and]
    · rw [decide_eq_false hi, Bool.false_and, BitVec.getLsbD_of_ge x _ (by omega)]
  fin_cases level
  · exact (BitVec.ushiftRight_eq_zero (le_refl 32)).symm
  · exact hread 24 (by decide)
  · exact hread 18 (by decide)
  · exact hread 12 (by decide)

/-- The comparison of truncated tags is that of the ranges. -/
theorem flushAddressMatches_iff {flushBits : Nat} (hbits : flushBits ≤ 32) (va : Word)
    {level : Level} {e : Entry} {y : Word} (htag : e.vaTag = vaTagForLevel y level) :
    flushAddressMatches flushBits va level e = true ↔
      ∃ x : Word, x >>> (32 - flushBits) = va >>> (32 - flushBits) ∧ e.Covers level x := by
  have hlevel : vaTagBitsForLevel level ≤ 32 := by fin_cases level <;> decide
  simp only [Entry.Covers, htag, vaTagForLevel_eq, exists_ushiftRight_iff]
  simp only [flushAddressMatches, htag, vaTagForLevel_eq, ← BitVec.shiftRight_add,
    Bool.or_eq_true, beq_iff_eq]
  have hmax : max (32 - flushBits) (32 - vaTagBitsForLevel level) =
      32 - min flushBits (vaTagBitsForLevel level) := by omega
  have hsum : 32 - vaTagBitsForLevel level +
      (vaTagBitsForLevel level - min flushBits (vaTagBitsForLevel level)) =
      32 - min flushBits (vaTagBitsForLevel level) := by omega
  rw [hmax, hsum]
  refine or_iff_right_of_imp fun h => ?_
  rw [h, BitVec.ushiftRight_eq_zero (by decide), BitVec.ushiftRight_eq_zero (by decide)]

/-! ## What survives -/

variable {t : Tlb} {level : Level} {e : Entry}

/-- The entries that a flush removes, by the tests that it makes. -/
def flushes (flushType va context : Word) (level : Level) (e : Entry) : Bool :=
  if flushType = 4 then true
  else if flushType = 3 then !accIsGlobal e.pte && e.context == context
  else (accIsGlobal e.pte || e.context == context) &&
    flushAddressMatches (32 - flushOffsetBits flushType) va level e

theorem slots_flush (t : Tlb) (flushType va context : Word) (level : Level) (x : Word) :
    ((t.flush flushType va context).ways level x).slots =
      ((t.ways level x).removeIf (flushes flushType va context level)).slots := by
  unfold flush flushes flushOffsetBits
  split
  · rw [clear, ways_mapWays, Ways.clear, Ways.empty, Ways.removeIf, ← List.map_const']
    refine List.map_congr_left fun o _ => ?_
    cases o <;> rfl
  · split
    · rw [ways_mapWays]
    · rw [ways_mapWays]
      congr
      split_ifs <;> rfl

variable {context va : Word}

theorem holds_flush_iff {flushType : Word} :
    (t.flush flushType va context).Holds level e ↔
      t.Holds level e ∧ flushes flushType va context level e = false := by
  have hrow (x : Word) : ((t.flush flushType va context).ways level x).Holds e ↔
      (t.ways level x).Holds e ∧ flushes flushType va context level e = false := by
    rw [← Ways.holds_removeIf, Ways.Holds, slots_flush]
    rfl
  simp only [Holds, hrow, exists_and_right]

/-- No entry serves the address. -/
def Misses (t : Tlb) (va context : Word) : Prop :=
  ∀ level e, t.Holds level e → hits va context level e = false

theorem Misses.lookup (h : t.Misses va context) : t.lookup va context = none := by
  rw [eq_none_iff_forall_ne_some]
  intro r hr
  obtain ⟨e, he, hhit, -⟩ := exists_of_lookup hr
  rw [h _ e he] at hhit
  cases hhit

theorem Misses.apply (h : t.Misses va context) {op : Op} (hop : op.isInsert = false) :
    (t.apply op).Misses va context := by
  intro level e he
  cases op with
  | insert => cases hop
  | updatePte va' context' level' newPte =>
    rcases holds_updatePte he with ho | ⟨rfl, e', ho, -, rfl⟩
    · exact h level e ho
    · exact h level e' ho
  | flush => exact h level e (holds_of_holds_flush he)
  | clear => exact absurd he (not_holds_clear t level e)

theorem Placed.apply (h : t.Placed) (op : Op) : (t.apply op).Placed := by
  cases op with
  | insert => exact h.insert _ _ _
  | updatePte => exact h.updatePte _ _ _ _
  | flush => exact h.flush _ _ _
  | clear => exact h.clear

theorem or_eq_or {α : Type} {P : α → Prop} {a a' b b' : Option α}
    (ha : (∀ y ∈ a, P y) → a' = a) (hb : (∀ y ∈ b, P y) → b' = b) (h : ∀ y ∈ a.or b, P y) :
    a'.or b' = a.or b := by
  cases a with
  | none =>
    rw [ha nofun, none_or, none_or]
    exact hb h
  | some y =>
    rw [ha h]
    rfl

/-- A lookup that misses, or finds a surviving entry, is answered as before. -/
theorem lookupEntry_flush {flushType x c : Word}
    (h : ∀ y ∈ t.lookupEntry x c, flushes flushType va context y.1 y.2 = false) :
    (t.flush flushType va context).lookupEntry x c = t.lookupEntry x c := by
  have hlevel (level : Level) (hl : ∀ y ∈ ((t.ways level x).find? (hits x c level)).map (level, ·),
      flushes flushType va context y.1 y.2 = false) :
      (((t.flush flushType va context).ways level x).find? (hits x c level)).map (level, ·) =
        ((t.ways level x).find? (hits x c level)).map (level, ·) := by
    rw [Ways.find?, slots_flush]
    exact congrArg _ (Ways.find?_removeIf fun e he => hl (level, e) (mem_map_of_mem _ he))
  exact or_eq_or (hlevel 0) (or_eq_or (hlevel 1) (or_eq_or (hlevel 2) (hlevel 3))) h

/-- After any operations on an empty TLB, a page, segment or region flush leaves exactly the
entries that do not overlap it or are of another context and not global, a context flush those
that are global or of another context, and an entire flush none. Then no address of the flushed
range hits in the context before the next insertion, and a lookup that found an entry that
survives, or none, finds the same. -/
theorem flush_exact (ops : List Op) (va context : Word) :
    let t := ops.foldl apply empty
    (∀ flushType, flushType = 0 ∨ flushType = 1 ∨ flushType = 2 →
      (∀ level e, (t.flush flushType va context).Holds level e ↔ t.Holds level e ∧
        ((¬ ∃ x, InFlushed flushType va x ∧ e.Covers level x) ∨
          accIsGlobal e.pte = false ∧ e.context ≠ context)) ∧
      ∀ x, InFlushed flushType va x → ∀ later : List Op, (∀ op ∈ later, op.isInsert = false) →
        (later.foldl apply (t.flush flushType va context)).lookup x context = none) ∧
    (∀ level e, (t.flush 3 va context).Holds level e ↔
      t.Holds level e ∧ (accIsGlobal e.pte = true ∨ e.context ≠ context)) ∧
    (∀ level e, ¬(t.flush 4 va context).Holds level e) ∧
    ∀ flushType x c, (∀ y ∈ t.lookupEntry x c, (t.flush flushType va context).Holds y.1 y.2) →
      (t.flush flushType va context).lookup x c = t.lookup x c := by
  intro t
  have hplaced : t.Placed :=
    List.foldlRecOn (motive := Placed) ops apply placed_empty fun _ h op _ => h.apply op
  have hpart {flushType : Word} (htype : flushType = 0 ∨ flushType = 1 ∨ flushType = 2)
      {level : Level} {e : Entry} (he : t.Holds level e) :
      flushes flushType va context level e = true ↔
        (accIsGlobal e.pte = true ∨ e.context = context) ∧
          ∃ x, InFlushed flushType va x ∧ e.Covers level x := by
    obtain ⟨y, hy⟩ := he
    obtain ⟨z, htag, -⟩ := hplaced level y e hy
    have hbits : 32 - (32 - flushOffsetBits flushType) = flushOffsetBits flushType := by
      rcases htype with rfl | rfl | rfl <;> rfl
    have hmatch := flushAddressMatches_iff
      (show 32 - flushOffsetBits flushType ≤ 32 by omega) va htag
    rw [hbits] at hmatch
    rw [flushes, if_neg (by rcases htype with rfl | rfl | rfl <;> decide),
      if_neg (by rcases htype with rfl | rfl | rfl <;> decide), Bool.and_eq_true, hmatch,
      Bool.or_eq_true, beq_iff_eq]
    rfl
  refine ⟨fun flushType htype => ⟨fun level e => ?_, fun x hx later hlater => ?_⟩,
    fun level e => ?_, fun level e he => ?_, fun flushType x c h => ?_⟩
  · rw [holds_flush_iff]
    refine and_congr_right fun he => ?_
    rw [← Bool.not_eq_true, hpart htype he, not_and_or, not_or, Bool.not_eq_true, or_comm]
  · have hmiss : (t.flush flushType va context).Misses x context := by
      intro level e he
      rw [holds_flush_iff, ← Bool.not_eq_true] at he
      by_contra hhit
      rw [Bool.not_eq_false] at hhit
      exact he.2 ((hpart htype he.1).2
        ⟨.inr (context_of_hits hhit), x, hx, (vaTag_of_hits hplaced he.1 hhit).symm⟩)
    have hlast : (later.foldl apply (t.flush flushType va context)).Misses x context :=
      List.foldlRecOn (motive := (Misses · x context)) later apply hmiss
        fun _ h op hop => h.apply (hlater op hop)
    exact hlast.lookup
  · rw [holds_flush_iff]
    refine and_congr_right fun _ => ?_
    cases h : accIsGlobal e.pte <;> simp [flushes, h]
  · rw [holds_flush_iff] at he
    cases he.2
  · rw [lookup_eq, lookup_eq, lookupEntry_flush fun y hy => (holds_flush_iff.1 (h y hy)).2]

end Tlb

end SparcV8
