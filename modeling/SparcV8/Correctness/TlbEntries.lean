import SparcV8.Correctness.TlbFlush
import SparcV8.Mmu.Mapping

/-!
# One entry for each page

An insertion does not look for an entry that is there already, and an update takes the first one
that matches. As insertions come after misses, no two entries of a level have one context and tag,
and an update writes the slot of the lookup or the insertion before it.
-/

namespace SparcV8

open Pte MmuCore List Option

variable {va context : Word} {level : Level} {i : Nat}

/-- An insertion writes one slot. -/
theorem Ways.at_insert {α : Type} (e : α) (w : Ways α) :
    ∃ k, ∀ j x, (w.insert e).At j x → j = k ∧ x = e ∨ j ≠ k ∧ w.At j x := by
  obtain ⟨k, hk⟩ := Ways.exists_slots_insert e w
  refine ⟨k, fun j x h => ?_⟩
  rw [At, hk] at h
  exact at_set h

/-- The slot of the next replacement is one of the row. -/
def Ways.Ready {α : Type} (w : Ways α) : Prop := w.nextReplace < w.slots.length

namespace Ways

variable {α : Type} {w : Ways α} {p : α → Bool} {f : α → α} {e : α}

/-- What is inserted is there. -/
theorem holds_insert_self (h : w.Ready) : (w.insert e).Holds e := by
  unfold insert
  split
  · next i hi => exact mem_set (findIdx?_eq_some_iff_getElem.1 hi).1 _
  · exact mem_set h _

/-- The next slot is one of the row again. -/
theorem Ready.insert (h : w.Ready) : (w.insert e).Ready := by
  unfold Ways.insert
  split
  · exact h.trans_eq length_set.symm
  · exact (Nat.mod_lt _ (Nat.zero_lt_of_lt h)).trans_eq length_set.symm

theorem Ready.updateFirst (h : w.Ready) : (w.updateFirst p f).Ready := by
  rcases first_match p f w with ⟨-, -, hupdate⟩ | ⟨i, e, -, -, -, -, hupdate⟩ <;> rw [hupdate]
  · exact h
  · exact h.trans_eq length_set.symm

theorem Ready.removeIf (h : w.Ready) : (w.removeIf p).Ready := h.trans_eq (length_map _).symm

theorem Ready.clear (h : w.Ready) : w.clear.Ready :=
  (Nat.zero_lt_of_lt h).trans_eq length_replicate.symm

end Ways

variable {τ : Type} {phys : PhysicalMemory τ} {request : VirtualMemoryRequest}

namespace Tlb

variable {t t' : Tlb} {e : Entry}

/-- An entry is where its tag belongs, alone with its context and tag in the row. -/
structure Exact (t : Tlb) : Prop where
  ready : ∀ level va, (t.ways level va).Ready
  placed : t.Placed
  single : ∀ level va i j e e', (t.ways level va).At i e → (t.ways level va).At j e' →
    e.context = e'.context → e.vaTag = e'.vaTag → i = j

/-- An empty TLB has no two entries. -/
theorem exact_empty : Exact empty :=
  ⟨fun level _ => by fin_cases level <;> exact length_pos_of_ne_nil nofun, placed_empty,
    fun level va _ _ e _ he => absurd ⟨va, he.holds⟩ (not_holds_empty level e)⟩

/-- Nothing is moved, and no tag is changed. -/
theorem Exact.of_at (h : t.Exact) (hr : ∀ level va, (t'.ways level va).Ready) (hp : t'.Placed)
    (hle : ∀ level va j x, (t'.ways level va).At j x →
      ∃ y, (t.ways level va).At j y ∧ y.context = x.context ∧ y.vaTag = x.vaTag) : t'.Exact := by
  refine ⟨hr, hp, fun level va i j e e' he he' hctx htag => ?_⟩
  obtain ⟨y, hy, hyc, hyt⟩ := hle level va i e he
  obtain ⟨y', hy', hyc', hyt'⟩ := hle level va j e' he'
  exact h.single level va i j y y' hy hy' (by rw [hyc, hyc', hctx]) (by rw [hyt, hyt', htag])

/-- One row is changed. -/
theorem Exact.ready_modifyWays (h : t.Exact) {f : Ways Entry → Ways Entry}
    (hf : (f (t.ways level va)).Ready) (level' : Level) (va' : Word) :
    ((t.modifyWays level va f).ways level' va').Ready := by
  rw [ways_modifyWays]
  split
  · exact hf
  · exact h.ready level' va'

/-- The entry that serves an address is the one the row's search finds. -/
theorem Exact.find?_eq (h : t.Exact) (he : (t.ways level va).Holds e)
    (hhit : hits va context level e = true) :
    (t.ways level va).find? (hits va context level) = some e := by
  cases hf : (t.ways level va).find? (hits va context level) with
  | none => exact absurd (Ways.not_of_find?_eq_none hf he) (by rw [hhit]; decide)
  | some d =>
    obtain ⟨hd, hdhit⟩ := Ways.holds_of_find? hf
    obtain ⟨i, hi⟩ := Ways.holds_iff_at.1 he
    obtain ⟨j, hj⟩ := Ways.holds_iff_at.1 hd
    obtain rfl := h.single level va i j e d hi hj
      ((context_of_hits hhit).trans (context_of_hits hdhit).symm)
      ((vaTag_of_hits h.placed ⟨va, he⟩ hhit).trans (vaTag_of_hits h.placed ⟨va, hd⟩ hdhit).symm)
    rw [hj.unique hi]

/-- One entry of a level serves an address. -/
theorem Exact.eq_of_hits (h : t.Exact) {d : Entry} (hd : t.Holds level d)
    (hdhit : hits va context level d = true) (he : t.Holds level e)
    (hhit : hits va context level e = true) : d = e := by
  obtain ⟨x, hx⟩ := hd
  obtain ⟨y, hy⟩ := he
  rw [ways_of_hits h.placed hx hdhit] at hx
  rw [ways_of_hits h.placed hy hhit] at hy
  exact some.inj ((h.find?_eq hx hdhit).symm.trans (h.find?_eq hy hhit))

/-- An update of this entry writes just its slot. -/
def UpdatesOnly (t : Tlb) (va context : Word) (level : Level) (e : Entry) : Prop :=
  ∃ i, (t.ways level va).At i e ∧ ∀ newPte level' va' j x,
    ((t.updatePte va context level newPte).ways level' va').At j x ↔
      if (level' = level ∧ (level = 3 → level3SetIndex va' = level3SetIndex va)) ∧ j = i then
        x = { e with pte := newPte }
      else (t.ways level' va').At j x

/-- The first entry that matches is the only one. -/
theorem Exact.updatesOnly (h : t.Exact) (he : (t.ways level va).Holds e)
    (hhit : hits va context level e = true) : t.UpdatesOnly va context level e := by
  have hfind := h.find?_eq he hhit
  obtain ⟨i, hi⟩ := Ways.holds_iff_at.1 he
  refine ⟨i, hi, fun newPte level' va' j x => ?_⟩
  obtain ⟨k, hk, hat⟩ := Ways.at_updateFirst (f := fun e => { e with pte := newPte }) hfind
  obtain rfl : k = i := h.single level va k i e e hk hi rfl rfl
  rw [updatePte, ways_modifyWays]
  by_cases hrow : level' = level ∧ (level = 3 → level3SetIndex va' = level3SetIndex va)
  · rw [if_pos hrow, hat]
    by_cases hj : j = k
    · rw [if_pos ⟨hrow, hj⟩]
      simp [hj]
    · rw [if_neg fun hc => hj hc.2, hrow.1, ways_of_level3SetIndex t hrow.2]
      simp [hj]
  · rw [if_neg hrow, if_neg fun hc => hrow hc.1]

/-- An update leaves contexts and tags. -/
theorem Exact.updatePte (h : t.Exact) (va context : Word) (level : Level) (newPte : Word) :
    (t.updatePte va context level newPte).Exact := by
  refine h.of_at (h.ready_modifyWays (h.ready level va).updateFirst)
    (h.placed.updatePte va context level newPte) fun level' va' j x hx => ?_
  rw [Tlb.updatePte, ways_modifyWays] at hx
  split at hx
  · next hrow =>
    rw [hrow.1, ways_of_level3SetIndex t hrow.2]
    rcases Ways.first_match (hits va context level) (fun e => { e with pte := newPte })
      (t.ways level va) with ⟨-, -, hupdate⟩ | ⟨k, e, hk, -, -, -, hupdate⟩ <;> rw [hupdate] at hx
    · exact ⟨x, hx, rfl, rfl⟩
    · rcases Ways.at_set hx with ⟨rfl, rfl⟩ | ⟨-, ho⟩
      · exact ⟨e, hk, rfl, rfl⟩
      · exact ⟨x, ho, rfl, rfl⟩
  · exact ⟨x, hx, rfl, rfl⟩

/-- An insertion after a miss. -/
theorem Exact.insert (h : t.Exact) (hmiss : t.lookup va context = none) (r : WalkResult) :
    (t.insert va context r).Exact := by
  refine ⟨h.ready_modifyWays (h.ready r.level va).insert, h.placed.insert va context r,
    fun level va' i j e e' he he' hctx htag => ?_⟩
  rw [Tlb.insert, ways_modifyWays] at he he'
  by_cases hrow : level = r.level ∧ (r.level = 3 → level3SetIndex va' = level3SetIndex va)
  · rw [if_pos hrow] at he he'
    -- no entry of the row has the context and the tag that are new
    have hnew {k : Nat} {d : Entry} (hd : (t.ways r.level va).At k d) (hc : d.context = context)
        (ht : d.vaTag = vaTagForLevel va r.level) : False := by
      have hnot := Ways.not_of_find?_eq_none (find?_eq_none_of_lookup hmiss r.level) hd.holds
      simp [hits, hc, ht] at hnot
    obtain ⟨k, hk⟩ := Ways.at_insert _ (t.ways r.level va)
    rcases hk i e he with ⟨rfl, rfl⟩ | ⟨-, ho⟩
    · rcases hk j e' he' with ⟨rfl, -⟩ | ⟨-, ho'⟩
      · rfl
      · exact (hnew ho' hctx.symm htag.symm).elim
    · rcases hk j e' he' with ⟨rfl, rfl⟩ | ⟨-, ho'⟩
      · exact (hnew ho hctx htag).elim
      · exact h.single _ _ i j e e' ho ho' hctx htag
  · rw [if_neg hrow] at he he'
    exact h.single level va' i j e e' he he' hctx htag

/-- A flush removes entries, and moves none. -/
theorem Exact.flush (h : t.Exact) (flushType va context : Word) :
    (t.flush flushType va context).Exact := by
  refine h.of_at (fun level x => ?_) (h.placed.flush flushType va context) fun level x j e he =>
    ⟨e, ?_, rfl, rfl⟩
  · unfold Tlb.flush
    split_ifs
    · rw [Tlb.clear, ways_mapWays]
      exact (h.ready level x).clear
    all_goals
      rw [ways_mapWays]
      exact (h.ready level x).removeIf
  · rw [Ways.At, slots_flush] at he
    exact (Ways.at_removeIf.1 he).1

theorem Exact.clear (h : t.Exact) : t.clear.Exact := h.flush 4 0 0

/-- The entry may have become the other by the bits that translations set. -/
structure Entry.SameBut (e e' : Entry) : Prop where
  vaTag : e.vaTag = e'.vaTag
  context : e.context = e'.context
  phyAddrOfPte : e.phyAddrOfPte = e'.phyAddrOfPte
  pte : setModified (setReferenced e.pte) = setModified (setReferenced e'.pte)

theorem Entry.SameBut.rfl : e.SameBut e := ⟨.refl _, .refl _, .refl _, .refl _⟩

/-- The access missed, the walk's entry permits it, and of the walk's word at most the referenced
and the modified bit have changed since. -/
structure InsertedBy {τ : Type} (phys : PhysicalMemory τ) (request : VirtualMemoryRequest)
    (u : MmuCore) (m : τ) (level : Level) (e : Entry) : Prop where
  translated : u.translatesRequest request = true
  miss : u.tlbLookup request.address u.contextRegister = none
  permitted : (checkFault request.asi request.isWrite request.isAtomic
    (u.findEntry phys request.address m).1.pte).2 = .NONE
  level_eq : level = (u.findEntry phys request.address m).1.level
  vaTag : e.vaTag = vaTagForLevel request.address level
  context : e.context = u.contextRegister
  phyAddrOfPte : e.phyAddrOfPte = (u.findEntry phys request.address m).1.phyAddrOfPte
  pte : setModified (setReferenced e.pte) =
    setModified (setReferenced (u.findEntry phys request.address m).1.pte)

namespace InsertedBy

variable {u : MmuCore} {m : τ}

/-- Bits may be set later on. -/
theorem of_sameBut {e' : Entry} (h : InsertedBy phys request u m level e) (hs : e.SameBut e') :
    InsertedBy phys request u m level e' :=
  { h with
    vaTag := hs.vaTag.symm.trans h.vaTag
    context := hs.context.symm.trans h.context
    phyAddrOfPte := hs.phyAddrOfPte.symm.trans h.phyAddrOfPte
    pte := hs.pte.symm.trans h.pte }

/-- What is permitted is a leaf. -/
theorem entryType_eq (h : InsertedBy phys request u m level e) : entryType e.pte = etPte := by
  have hset (x : Word) : entryType (setModified (setReferenced x)) = entryType x := by simp
  rw [← hset, h.pte, hset]
  exact entryType_of_checkFault h.permitted

end InsertedBy

end Tlb

/-! ## Accesses -/

namespace MmuCore

open Tlb

variable {u : MmuCore} {r : WalkResult} {asi : Word} {isWrite isAtomic : Bool}

/-- A translation sets no other bits than these. -/
theorem set_staged (pte : Word) (isWrite : Bool) :
    setModified (setReferenced ((computeAndStageRMUpdate pte isWrite).getD pte)) =
      setModified (setReferenced pte) := by
  unfold computeAndStageRMUpdate
  dsimp only
  split_ifs <;> simp only [getD_some, getD_none, setReferenced_eq, setModified_eq,
    BitVec.or_assoc] <;> rfl

/-- A translation leaves the TLB, or takes it through a permitted access. -/
theorem tlb_translate (phys : PhysicalMemory τ) (u : MmuCore) (va asi : Word)
    (isFetch isWrite isAtomic : Bool) (m : τ) :
    (u.translate phys va asi isFetch isWrite isAtomic m).2.1.tlb = u.tlb ∨
      (checkFault asi isWrite isAtomic (u.findEntry phys va m).1.pte).2 = .NONE ∧
        (u.translate phys va asi isFetch isWrite isAtomic m).2.1.tlb =
          (u.afterTranslation va (u.findEntry phys va m).1
            (u.tlbLookup va u.contextRegister).isSome isWrite).tlb := by
  unfold translate
  split_ifs
  · exact .inl rfl
  have hhit : (u.findEntry phys va m).2.1 = (u.tlbLookup va u.contextRegister).isSome := by
    unfold findEntry
    cases u.tlbLookup va u.contextRegister <;> rfl
  rw [← hhit]
  obtain ⟨r, hit, m'⟩ := u.findEntry phys va m
  dsimp only [checkAndRecordFault]
  by_cases hr : (checkFault asi isWrite isAtomic r.pte).2 = .NONE
  · refine .inr ⟨hr, ?_⟩
    simp only [if_pos hr, if_off, updateRM, afterTranslation]
    cases computeAndStageRMUpdate r.pte isWrite with
    | none => rfl
    | some staged => rfl
  · left
    simp [if_neg hr, recordFault, tlb_updateFsrFar]

/-- A translation inserts after a miss, and updates after a hit. -/
theorem exact_afterTranslation (h : u.tlb.Exact) (isWrite : Bool) :
    (u.afterTranslation va r (u.tlbLookup va u.contextRegister).isSome isWrite).tlb.Exact := by
  have hfill : (u.commitTranslation va u.contextRegister r
      (u.tlbLookup va u.contextRegister).isSome).1.tlb.Exact := by
    unfold commitTranslation
    split_ifs with hc
    · simp only [Bool.and_eq_true, Bool.not_eq_true', isSome_eq_false_iff,
        isNone_iff_eq_none, tlbLookup] at hc
      rw [if_pos hc.2] at hc
      exact h.insert hc.1 r
    · exact h
  unfold afterTranslation
  cases computeAndStageRMUpdate r.pte isWrite with
  | none => exact hfill
  | some staged =>
    dsimp only [commitRMTlbUpdate]
    split_ifs
    · exact hfill.updatePte _ _ _ _
    · exact hfill

variable {m : τ}

/-- The entries after a permitted access: old ones, the one it has filled in, and one with bits set.
-/
theorem inserted_afterTranslation {e : Entry} (h : u.tlb.Exact)
    (ht : u.translatesRequest request = true)
    (hr : (checkFault request.asi request.isWrite request.isAtomic
      (u.findEntry phys request.address m).1.pte).2 = .NONE)
    (he : (u.afterTranslation request.address (u.findEntry phys request.address m).1
      (u.tlbLookup request.address u.contextRegister).isSome
      request.isWrite).tlb.Holds level e) :
    InsertedBy phys request u m level e ∨ ∃ e', u.tlb.Holds level e' ∧ e'.SameBut e := by
  rcases holds_afterTranslation he with
    ho | ⟨rfl, hmiss, rfl⟩ | ⟨rfl, hfound, staged, e', hs, ho, hhit, rfl⟩
  · exact .inr ⟨e, ho, .rfl⟩
  · exact .inl ⟨ht, hmiss, hr, rfl, rfl, rfl, rfl, set_staged _ _⟩
  · refine .inr ⟨e', ho, ⟨rfl, rfl, rfl, ?_⟩⟩
    obtain ⟨r, hl⟩ := ne_none_iff_exists'.1 hfound
    have hr : (u.findEntry phys request.address m).1 = r := by rw [findEntry, hl]
    rw [hr] at hs ho hhit
    -- the entry that is updated is the one of the lookup
    obtain ⟨d, hd, hdhit, hpte, -⟩ := exists_of_lookup (lookup_of_tlbLookup hl)
    have hstaged := set_staged r.pte request.isWrite
    rw [hs, getD_some, hpte, h.eq_of_hits hd hdhit ho hhit] at hstaged
    exact hstaged.symm

variable (phys)

/-- An access keeps the TLB exact; its entries are old ones, maybe with bits set, and one filled in.
-/
theorem exact_access (request : VirtualMemoryRequest) (m : τ) (h : u.tlb.Exact) :
    (access phys request (u, m)).2.1.tlb.Exact ∧
      ∀ level e, (access phys request (u, m)).2.1.tlb.Holds level e →
        InsertedBy phys request u m level e ∨ ∃ e', u.tlb.Holds level e' ∧ e'.SameBut e := by
  have hsame : u.tlb.Exact ∧ ∀ level e, u.tlb.Holds level e →
      InsertedBy phys request u m level e ∨ ∃ e', u.tlb.Holds level e' ∧ e'.SameBut e :=
    ⟨h, fun level e he => .inr ⟨e, he, .rfl⟩⟩
  cases tlbStep_access phys u request m with
  | same _ _ ht =>
    rw [tlb_of_tables ht]
    exact hsame
  | clear _ _ ctp ht =>
    rw [tlb_of_tables ht]
    dsimp only
    split_ifs
    · exact ⟨h.clear, fun level e he => absurd he (not_holds_clear _ level e)⟩
    · exact hsame
  | flush _ _ flushType va context ht =>
    rw [tlb_of_tables ht]
    exact ⟨h.flush _ _ _, fun level e he => hsame.2 level e (holds_of_holds_flush he)⟩
  | translate hr _ ht =>
    rw [tlb_of_tables ht]
    rcases tlb_translate phys u request.address request.asi request.isFetch
      request.isWrite request.isAtomic m with heq | ⟨hpermitted, hafter⟩
    · rw [translateRequest, tables, heq]
      exact hsame
    · rw [translateRequest, tables, hafter]
      exact ⟨exact_afterTranslation h _, fun level e => inserted_afterTranslation h hr hpermitted⟩

/-- The MMU after accesses, each with what the memory then holds. -/
def afterAccesses (u : MmuCore) (accesses : List (VirtualMemoryRequest × τ)) : MmuCore :=
  accesses.foldl (fun u x => (access phys x.1 (u, x.2)).2.1) u

/-- From an empty TLB, every entry has been filled in by one of the accesses. -/
theorem exact_afterAccesses (hu : u.tlb = empty) (accesses : List (VirtualMemoryRequest × τ)) :
    (u.afterAccesses phys accesses).tlb.Exact ∧
      ∀ level e, (u.afterAccesses phys accesses).tlb.Holds level e →
        ∃ before request m after, accesses = before ++ (request, m) :: after ∧
          InsertedBy phys request (u.afterAccesses phys before) m level e := by
  induction accesses using reverseRecOn with
  | nil =>
    rw [afterAccesses, foldl_nil, hu]
    exact ⟨exact_empty, fun level e he => absurd he (not_holds_empty level e)⟩
  | append_singleton accesses x ih =>
    obtain ⟨hexact, hentries⟩ := exact_access phys x.1 x.2 ih.1
    rw [afterAccesses, foldl_append, foldl_cons, foldl_nil]
    refine ⟨hexact, fun level e he => ?_⟩
    rcases hentries level e he with hnew | ⟨e', he', hsame⟩
    · exact ⟨accesses, x.1, x.2, [], rfl, hnew⟩
    · obtain ⟨before, request, m, after, rfl, hold⟩ := ih.2 level e' he'
      exact ⟨before, request, m, after ++ [x], append_assoc _ _ _, hold.of_sameBut hsame⟩

end MmuCore

open Tlb in
/-- In every state that accesses lead to, whatever the memory holds at each of them: at most one
entry has a level, context and tag; an entry of level 3 is in the set of its tag; every entry is a
leaf, and an access that it permitted has filled it in; and an update after a lookup or an insertion
writes the entry of the lookup or the insertion. -/
theorem tlb_entries_exact {τ : Type} (phys : PhysicalMemory τ) (mmuIsPresent tlbEnabled
    atomicRMUpdates : Bool) (layout : SystemAddressMap.Layout)
    (accesses : List (VirtualMemoryRequest × τ)) :
    let u := MmuCore.initial mmuIsPresent tlbEnabled atomicRMUpdates layout
    let t := (u.afterAccesses phys accesses).tlb
    (∀ level va va' i j e e', (t.ways level va).At i e → (t.ways level va').At j e' →
      e.context = e'.context → e.vaTag = e'.vaTag →
        i = j ∧ (level = 3 → level3SetIndex va = level3SetIndex va')) ∧
    (∀ set i e, (t.level3 set).At i e → e.vaTag.toNat % 32 = set) ∧
    (∀ level e, t.Holds level e → entryType e.pte = etPte ∧
      ∃ before request m after, accesses = before ++ (request, m) :: after ∧
        InsertedBy phys request (u.afterAccesses phys before) m level e) ∧
    ∀ va context r,
      (t.lookup va context = some r → ∃ e, r.pte = e.pte ∧ r.phyAddrOfPte = e.phyAddrOfPte ∧
        hits va context r.level e = true ∧ t.UpdatesOnly va context r.level e) ∧
      (t.lookup va context = none → (t.insert va context r).UpdatesOnly va context r.level
        ⟨vaTagForLevel va r.level, context, r.pte, r.phyAddrOfPte⟩) := by
  intro u t
  obtain ⟨h, hinserted⟩ := exact_afterAccesses phys (u := u) rfl accesses
  have hset {va : Word} {i : Nat} {e : Entry} (he : (t.ways 3 va).At i e) :
      e.vaTag.toNat % 32 = level3SetIndex va := by
    obtain ⟨x, hx, hindex⟩ := h.placed 3 va e he.holds
    rw [hx, ← hindex rfl, val_level3SetIndex]
  refine ⟨fun level va va' i j e e' he he' hc htag => ?_, fun set i e he => ?_,
    fun level e he => ⟨?_, hinserted level e he⟩, fun va context r => ⟨fun hl => ?_, fun hl => ?_⟩⟩
  · have hindex : level = 3 → level3SetIndex va = level3SetIndex va' := by
      rintro rfl
      exact Fin.ext ((hset he).symm.trans ((congrArg (·.toNat % 32) htag).trans (hset he')))
    rw [← ways_of_level3SetIndex t hindex] at he'
    exact ⟨h.single level va i j e e' he he' hc htag, hindex⟩
  · have hva : ∀ set, level3SetIndex (BitVec.ofNat 32 (set.val * 4096)) = set := by decide
    rw [← hva set] at he ⊢
    exact hset he
  · obtain ⟨before, request, m, after, -, hby⟩ := hinserted level e he
    exact hby.entryType_eq
  · obtain ⟨e, ⟨x, hx⟩, hhit, hpte, haddr⟩ := exists_of_lookup hl
    rw [ways_of_hits h.placed hx hhit] at hx
    exact ⟨e, hpte, haddr, hhit, h.updatesOnly hx hhit⟩
  · refine (h.insert hl r).updatesOnly ?_ (by simp [hits])
    rw [Tlb.insert, ways_modifyWays, if_pos ⟨rfl, fun _ => rfl⟩]
    exact Ways.holds_insert_self (h.ready r.level va)

end SparcV8
