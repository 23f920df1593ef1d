import SparcV8.Mmu.Reads

/-!
# Pages whose rights are rewritten

The rights of a page may change in memory while the TLB still has the old ones. Where the page is
does not change, nor whether it may be cached, and an access that is let through goes there.
-/

namespace SparcV8

open Words Pte Tlb BitVec

variable {pte : Word}

namespace Pte

/-- Another leaf of the same page: but for access rights, referenced and modified bit it is as it
was. -/
def SamePage (old new : Word) : Prop :=
  new = old ∨ entryType old = etPte ∧ new &&& ~~~0x7C = old &&& ~~~0x7C

instance (old new : Word) : Decidable (SamePage old new) :=
  inferInstanceAs (Decidable (_ ∨ _ ∧ _))

/-- The other fields of an entry. -/
theorem readBits_of_masked {old new : Word} (h : new &&& ~~~0x7C = old &&& ~~~0x7C) {hi lo : Nat}
    (hhi : hi < 32) (hfield : hi < 2 ∨ 6 < lo) : readBits new hi lo = readBits old hi lo := by
  have hmask : ∀ i < 32, (~~~0x7C : Word).getLsbD i = decide (i < 2 ∨ 6 < i) := by decide
  apply eq_of_getLsbD_eq
  intro i _
  rw [getLsbD_readBits _ hhi, getLsbD_readBits _ hhi]
  by_cases hin : lo + i ≤ hi
  · have hbit := congrArg (fun x => x.getLsbD (lo + i)) h
    simp only [getLsbD_and, hmask _ (show lo + i < 32 by omega)] at hbit
    rw [decide_eq_true (show lo + i < 2 ∨ 6 < lo + i by omega), Bool.and_true,
      Bool.and_true] at hbit
    rw [hbit]
  · rw [decide_eq_false hin, Bool.false_and, Bool.false_and]

section SamePage

variable {old mid new : Word}

section

variable (h : SamePage old new)
include h

theorem SamePage.masked : new &&& ~~~0x7C = old &&& ~~~0x7C := by
  rcases h with rfl | ⟨-, h⟩
  · rfl
  · exact h

theorem SamePage.entryType : entryType new = entryType old :=
  readBits_of_masked h.masked (by decide) (by decide)

theorem SamePage.ppn : ppn new = ppn old :=
  readBits_of_masked h.masked (by decide) (by decide)

theorem SamePage.cacheable : cacheable new = cacheable old :=
  readBits_of_masked h.masked (by decide) (by decide)

theorem SamePage.symm : SamePage new old := by
  have htype := h.entryType
  rcases h with rfl | ⟨hleaf, h⟩
  · exact .inl rfl
  · exact .inr ⟨htype.trans hleaf, h.symm⟩

end

theorem SamePage.trans (h : SamePage old mid) (h' : SamePage mid new) : SamePage old new := by
  have hmasked := h.masked
  rcases h with rfl | ⟨hleaf, -⟩
  · exact h'
  · exact .inr ⟨hleaf, h'.masked.trans hmasked⟩

theorem SamePage.sameWay (h : SamePage old new) : SameWay old new := by
  have htype := h.entryType
  rcases h with rfl | ⟨hleaf, -⟩
  · exact .inl rfl
  · exact .inr ⟨hleaf, htype.trans hleaf⟩

/-- Setting referenced and modified bits keeps the page. -/
theorem samePage_or {bits : Word} (hleaf : entryType pte = etPte) (hbits : bits &&& ~~~0x60 = 0) :
    SamePage pte (pte ||| bits) := by
  have hzero : bits &&& ~~~0x7C = 0 := by
    rw [show (~~~0x7C : Word) = ~~~0x60 &&& ~~~0x7C by decide, ← BitVec.and_assoc, hbits]
    decide
  refine .inr ⟨hleaf, ?_⟩
  rw [BitVec.and_or_distrib_right, hzero]
  exact BitVec.or_zero

end SamePage

end Pte

namespace MmuCore

variable {dom : Nat → Bool}
variable {isWrite : Bool}

theorem samePage_of_staged {staged : Word} (hleaf : entryType pte = etPte)
    (h : computeAndStageRMUpdate pte isWrite = some staged) : SamePage pte staged := by
  obtain ⟨bits, rfl, hbits⟩ := exists_bits_of_staged h
  exact samePage_or hleaf hbits

/-- Bits that are staged for one entry of a page may be set in another. -/
theorem samePage_stageRMUpdateOnCurrentPte {staged current : Word}
    (h : computeAndStageRMUpdate pte isWrite = some staged) :
    SamePage current (stageRMUpdateOnCurrentPte pte staged current) := by
  obtain ⟨bits, rfl, hbits⟩ := exists_bits_of_staged h
  unfold stageRMUpdateOnCurrentPte
  split
  · next hleaf =>
    refine samePage_or hleaf ?_
    apply eq_of_getLsbD_eq
    intro i hi
    have hbit := congrArg (fun x => x.getLsbD i) hbits
    simp only [getLsbD_and, BitVec.getLsbD_xor, BitVec.getLsbD_or] at hbit ⊢
    revert hbit
    cases pte.getLsbD i <;> cases bits.getLsbD i <;> cases (~~~0x60 : Word).getLsbD i <;> simp
  · exact .inl rfl

theorem translationOf_of_samePage {r r' : WalkResult} (hlevel : r'.level = r.level)
    (h : SamePage r.pte r'.pte) (va : Word) :
    (translationOf va r').physicalAddr = (translationOf va r).physicalAddr ∧
      (translationOf va r').cacheable = (translationOf va r).cacheable := by
  unfold translationOf constructPhysicalAddr
  rw [hlevel, h.ppn, h.cacheable]
  exact ⟨rfl, rfl⟩

/-! ## The TLB -/

/-- The entry is a leaf, for the page that the tables lead to. -/
abbrev EntryPages := EntryTracks (fun pte => entryType pte = etPte) SamePage

/-- Every entry of the TLB is for the page that the tables lead to; switched off, the TLB has none.
-/
structure TlbPages (dom : Nat → Bool) (u : MmuCore) (c : Words) (W : Set Nat) : Prop where
  pages : ∀ level e, u.tlb.Holds level e →
    EntryPages dom u.contextTablePointerRegister c W level e
  disabled : u.tlbEnabled = false → ∀ level e, ¬ u.tlb.Holds level e

variable {u : MmuCore} {c : Words} {va : Word} {r : VirtualMemoryRequest}

section Tlb

variable {c' : Words} {W W' : Set Nat}

theorem tlbPages_of_empty (h : ∀ level e, ¬ u.tlb.Holds level e) : TlbPages dom u c W :=
  ⟨fun level e he => absurd he (h level e), fun _ => h⟩

/-- An entry is for its page for as long as the words of the tables are. -/
theorem EntryPages.of_samePage {ctp : Word} {level : Level} {e : Entry}
    (h : EntryPages dom ctp c W level e) (hW : W ⊆ W')
    (hk : ∀ i ∈ W, SamePage (c.read dom i) (c'.read dom i)) : EntryPages dom ctp c' W' level e :=
  h.of_sameWay hW (fun i hi => (hk i hi).sameWay) fun i hi hp => hp.trans (hk i hi)

section

variable (h : TlbPages dom u c W)
include h

/-- The entry an access finds leads to the page that its walk ends at. -/
theorem foundEntry_of_pages (va : Word) :
    (u.foundEntry dom c va).level = (u.walkEnd dom c va).level ∧
      (u.foundEntry dom c va).phyAddrOfPte = (u.walkEnd dom c va).phyAddrOfPte ∧
      SamePage (u.foundEntry dom c va).pte (u.walkEnd dom c va).pte := by
  rcases foundEntry_cases dom u c va with hsame | ⟨level, e, he, hhit, hwalk, hfound⟩
  · rw [hsame]
    exact ⟨rfl, rfl, .inl rfl⟩
  · have hpage := h.pages level e he
    rw [hfound, hwalk]
    exact ⟨(hpage.level_eq va hhit).symm, (hpage.phyAddrOfPte_eq va hhit).symm,
      hpage.related va hhit⟩

/-- An update of an entry keeps the pages of all words. -/
theorem samePage_updatedMemory (isWrite : Bool)
    (hleaf : entryType (u.foundEntry dom c va).pte = etPte) (i : Nat) :
    SamePage (c.read dom i)
      ((u.updatedMemory dom c (u.foundEntry dom c va) isWrite).read dom i) := by
  obtain ⟨-, haddr, hpage⟩ := foundEntry_of_pages h va
  unfold updatedMemory writtenEntry
  cases hs : computeAndStageRMUpdate (u.foundEntry dom c va).pte isWrite with
  | none => exact .inl rfl
  | some staged =>
    dsimp only [Option.map_some]
    rw [Words.read_write]
    split
    · next hi =>
      split
      · -- the word is the entry that the walk ends at
        have hword : c.read dom i = (u.walkEnd dom c va).pte := by
          rw [hi, haddr]
          exact pte_tableWalk.symm
        split
        · rw [Words.entryAt, ← hi]
          exact samePage_stageRMUpdateOnCurrentPte hs
        · rw [hword]
          exact hpage.symm.trans (samePage_of_staged hleaf hs)
      · next hp =>
        left
        rw [Words.read, hi, if_neg hp]
    · exact .inl rfl

theorem tlbPages_afterTranslation (va : Word) (isWrite : Bool)
    (hleaf : entryType (u.foundEntry dom c va).pte = etPte) :
    ∀ level e, (u.afterTranslation va (u.foundEntry dom c va)
        (u.tlbLookup va u.contextRegister).isSome isWrite).tlb.Holds level e →
      EntryPages dom u.contextTablePointerRegister
        (u.updatedMemory dom c (u.foundEntry dom c va) isWrite) (withPath dom u c W va)
        level e := by
  obtain ⟨hlevel, haddr, hpage⟩ := foundEntry_of_pages h va
  have hkept := samePage_updatedMemory h isWrite hleaf
  refine fun level e he => tracks_afterTranslation
    (fun level e he => (h.pages level e he).of_samePage Set.subset_union_left fun i _ => hkept i)
    (fun i => (hkept i).sameWay) (fun i hi => .inr hi) hlevel haddr
    (entryType_getD_staged hleaf) ?_ e he
  -- the entry was for this page before, and the word in memory still is
  have hold : (u.walkEnd dom c va).pte =
      c.read dom ((u.foundEntry dom c va).phyAddrOfPte.toNat / 4) := by
    rw [haddr]
    exact pte_tableWalk
  have hword := (hold ▸ hpage).trans (hkept _)
  cases hs : computeAndStageRMUpdate (u.foundEntry dom c va).pte isWrite with
  | none => exact hword
  | some staged => exact (samePage_of_staged hleaf hs).symm.trans hword

/-- A translation keeps the pages, with the words of its walk added. -/
theorem tlbPages_translate (ht : u.translates = true) (va asi : Word)
    (isFetch isWrite isAtomic : Bool) :
    let x := u.translate (ram dom) va asi isFetch isWrite
      isAtomic c
    (∀ i, SamePage (c.read dom i) (x.2.2.read dom i)) ∧
      ∀ level e, x.2.1.tlb.Holds level e →
        EntryPages dom u.contextTablePointerRegister x.2.2 (withPath dom u c W va) level
          e := by
  cases hf : u.faults dom c va asi isWrite isAtomic with
  | true =>
    rw [translate_of_faults dom u c hf]
    refine ⟨fun i => .inl rfl, fun level e he => ?_⟩
    dsimp only [recordFault] at he
    rw [tlb_updateFsrFar] at he
    exact (h.pages level e he).of_samePage Set.subset_union_left fun i _ => .inl rfl
  | false =>
    rw [translate_of_not_faults dom u c ht hf]
    have hleaf := entryType_of_not_faults ht hf
    exact ⟨samePage_updatedMemory h isWrite hleaf, tlbPages_afterTranslation h va isWrite hleaf⟩

end

theorem entryPages_of_tables {u' : MmuCore} {t : Tables} {ctp : Word} (ht : u'.tables = t)
    (hctp : t.contextTablePointer = ctp)
    (h : ∀ level e, t.tlb.Holds level e → EntryPages dom ctp c W level e)
    (hk : ∀ i ∈ W, SamePage (c.read dom i) (c'.read dom i)) {level : Level} {e : Entry}
    (he : u'.tlb.Holds level e) : EntryPages dom u'.contextTablePointerRegister c' W level e := by
  subst ht hctp
  exact (h level e he).of_samePage (Set.Subset.refl _) hk

variable (dom u c W) in
/-- The request keeps the pages of the words of the tables. -/
def KeepsPages (r : VirtualMemoryRequest) : Prop :=
  ∀ i ∈ tableWords dom u c W r, SamePage (c.read dom i)
    ((access (ram dom) r (u, c)).2.2.read dom i)

/-- An access that keeps the pages of the tables keeps those of the TLB. -/
theorem TlbPages.access (h : TlbPages dom u c W) (hk : KeepsPages dom u c W r) :
    TlbPages dom (access (ram dom) r (u, c)).2.1
      (MmuCore.access (ram dom) r (u, c)).2.2
      (tableWords dom u c W r) := by
  cases hen : u.tlbEnabled with
  | false => exact tlbPages_of_empty (not_holds_access_of_disabled _ hen (h.disabled hen) r c)
  | true =>
    refine ⟨fun level e he => ?_, fun hd => ?_⟩
    · unfold KeepsPages tableWords at hk
      unfold tableWords
      cases tlbStep_access (ram dom) u r c with
      | same hr hw ht =>
        simp only [hr, hw, if_off] at hk ⊢
        exact entryPages_of_tables ht rfl h.pages hk he
      | clear hr hw ctp ht =>
        rw [tlb_of_tables ht, hen, if_pos rfl] at he
        exact absurd he (not_holds_clear _ level e)
      | flush hr hw flushType va context ht =>
        simp only [hr, hw, if_off] at hk ⊢
        exact entryPages_of_tables ht rfl
          (fun level e he => h.pages level e (holds_of_holds_flush he)) hk he
      | translate hr hw ht =>
        simp only [hr, hw, if_off, if_true] at hk ⊢
        obtain ⟨hkept, hpages⟩ := tlbPages_translate h (translates_of_translatesRequest hr)
          r.address r.asi r.isFetch r.isWrite r.isAtomic
        have hfixed : (u.translateRequest (ram dom) r c).2.1.fixedPart =
            u.fixedPart := fixedPart_translate _ _ _ _ _
        have hctp := congrArg (fun x : MmuCore => x.contextTablePointerRegister) hfixed
        exact entryPages_of_tables ht hctp hpages (fun i hi => (hkept i).symm.trans (hk i hi)) he
    · rw [tlbEnabled_access, hen] at hd
      exact absurd hd.symm Bool.false_ne_true

end Tlb

/-! ## Where an address is mapped -/

/-- The walk for an address ends at a leaf, and reads words of the set. -/
structure Paged (dom : Nat → Bool) (u : MmuCore) (c : Words) (context va : Word)
    (W : Set Nat) : Prop where
  leaf : u.translates = true →
    entryType (tableWalk dom u.contextTablePointerRegister c context va).pte = etPte
  path_subset : u.translates = true →
    ∀ i ∈ tablePath dom u.contextTablePointerRegister c context va, i ∈ W

section Paged

variable {u' : MmuCore} {c' : Words} {context : Word} {W W' : Set Nat}

/-- The page of an address stays while the words of the tables keep theirs. -/
theorem Paged.of_samePage (h : u.Paged dom c context va W) (hsetup : u'.setup = u.setup)
    (hW : W ⊆ W') (hk : ∀ i ∈ W, SamePage (c.read dom i) (c'.read dom i)) :
    u'.Paged dom c' context va W' ∧
      (u.translates = true →
        (tableWalk dom u.contextTablePointerRegister c' context va).phyAddrOfPte =
          (tableWalk dom u.contextTablePointerRegister c context va).phyAddrOfPte) ∧
      (u'.mappedTo dom c' context va).physicalAddr =
        (u.mappedTo dom c context va).physicalAddr ∧
      (u'.mappedTo dom c' context va).cacheable =
        (u.mappedTo dom c context va).cacheable := by
  have htr := translates_of_setup hsetup
  have hctp := contextTablePointerRegister_of_setup hsetup
  cases ht : u.translates with
  | false =>
    have hoff : u'.translates ≠ true := by
      rw [htr, ht]
      exact Bool.false_ne_true
    refine ⟨⟨fun h' => absurd h' hoff, fun h' => absurd h' hoff⟩, nofun, ?_⟩
    rw [mappedTo_of_not_translates (htr.trans ht), mappedTo_of_not_translates ht, alwaysCacheable,
      alwaysCacheable, controlRegister_of_setup hsetup]
    exact ⟨rfl, rfl⟩
  | true =>
    obtain ⟨hwalk, hpath⟩ : tableWalk dom u.contextTablePointerRegister c' context va = _ ∧ _ :=
      tableWalk_of_sameWay fun i hi => (hk i (h.path_subset ht i hi)).sameWay
    have hpage : SamePage (tableWalk dom u.contextTablePointerRegister c context va).pte
        (tableWalk dom u.contextTablePointerRegister c' context va).pte := by
      rw [hwalk, pte_tableWalk]
      exact hk _ (h.path_subset ht _ mem_tablePath)
    refine ⟨⟨fun _ => ?_, fun _ => ?_⟩, fun _ => by rw [hwalk], ?_⟩
    · rw [hctp]
      exact hpage.entryType.trans (h.leaf ht)
    · rw [hctp, hpath]
      exact fun i hi => hW (h.path_subset ht i hi)
    · rw [mappedTo_of_translates (htr.trans ht), mappedTo_of_translates ht, hctp]
      exact translationOf_of_samePage (by rw [hwalk]) hpage va

/-- A request that is let through goes to the page of its address. -/
structure PageTranslated (dom : Nat → Bool) (W : Set Nat) (u : MmuCore) (c : Words)
    (r : VirtualMemoryRequest) (t : Translation) (u' : MmuCore) (c' : Words) : Prop where
  translate_eq : u.translateRequest (ram dom) r c = (some t, u', c')
  physicalAddr_eq :
    t.physicalAddr = (u.mappedTo dom c u.contextRegister r.address).physicalAddr
  cacheable_eq : t.cacheable = (u.mappedTo dom c u.contextRegister r.address).cacheable
  samePage : ∀ i, SamePage (c.read dom i) (c'.read dom i)
  same : ∀ tlb, u'.withoutTlb tlb = u.withoutTlb tlb
  paged : u.Paged dom c u.contextRegister r.address (tableWords dom u c W r)
  changed : ∀ i, c'.read dom i ≠ c.read dom i → u.translates = true ∧
    i = (tableWalk dom u.contextTablePointerRegister c u.contextRegister
      r.address).phyAddrOfPte.toNat / 4

/-- A request of an MMU that is there, if it is not refused. -/
theorem exists_pageTranslated (h : TlbPages dom u c W) (hp : u.mmuIsPresent = true)
    (hr : u.translatesRequest r = u.translates) (hw : u.writesTablePointer r = false)
    (hf : u.faultsRequest dom c r = false) : ∃ t u' c', PageTranslated dom W u c r t u' c' := by
  cases ht : u.translates with
  | false =>
    have hoff : u.translates ≠ true := by
      rw [ht]
      exact Bool.false_ne_true
    refine ⟨_, u, c, translate_of_not_translates _ u c ht _ _ _ _ _, ?_, ?_, fun i => .inl rfl,
      fun _ => rfl, ⟨fun h' => absurd h' hoff, fun h' => absurd h' hoff⟩, fun i hi => absurd rfl hi⟩
    · rw [mappedTo_of_not_translates ht]
    · rw [mappedTo_of_not_translates ht, hp]
      rfl
  | true =>
    rw [faultsRequest, hr, ht, Bool.true_and] at hf
    have hleaf := entryType_of_not_faults ht hf
    obtain ⟨hlevel, haddr, hpage⟩ := foundEntry_of_pages h r.address
    obtain ⟨hpa, hcacheable⟩ := translationOf_of_samePage hlevel.symm hpage r.address
    refine ⟨_, _, _, translate_of_not_faults dom u c ht hf r.isFetch, ?_, ?_,
      samePage_updatedMemory h _ hleaf, fun tlb => afterTranslation_withoutTlb tlb _ _ _ _,
      ⟨fun _ => hpage.entryType.trans hleaf, fun _ => ?_⟩, fun i hi => ⟨ht, ?_⟩⟩
    · rw [mappedTo_of_translates ht]
      exact hpa.symm
    · rw [mappedTo_of_translates ht]
      exact hcacheable.symm
    · rw [tableWords_of_translates hw (hr.trans ht)]
      exact fun i hi => .inr hi
    · rw [(changed_updatedMemory hi).1, haddr]
      rfl

end Paged

end MmuCore

end SparcV8
