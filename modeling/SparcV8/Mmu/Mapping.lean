import SparcV8.Mmu.Access
import SparcV8.Mmu.WithoutTlb

/-!
# Where an address is mapped

Once a translation has marked its leaf referenced, only the modified bit of the leaf can still
change, and with the words of its walk the mapping stays. A translation through a TLB that agrees
with the tables goes where the address is mapped.
-/

namespace SparcV8

open Pte Words

namespace MmuCore

/-- What the mapping depends on besides the tables. -/
def setup (u : MmuCore) : Bool × Word × Word :=
  (u.mmuIsPresent, u.controlRegister, u.contextTablePointerRegister)

section Mapping

variable (dom : Nat → Bool) (u : MmuCore) (c : Words) (context va : Word)

/-- Where an address is mapped in a context. -/
def mappedTo : Translation :=
  if u.translates then
    translationOf va (tableWalk dom u.contextTablePointerRegister c context va)
  else { physicalAddr := va.setWidth 64, cacheable := u.alwaysCacheable, acc := 3 }

/-- The leaf for an address is referenced, and its walk reads words of the set. -/
structure Settled (W : Set Nat) : Prop where
  leaf : u.translates = true →
    entryType (tableWalk dom u.contextTablePointerRegister c context va).pte = etPte
  referenced : u.translates = true →
    referenced (tableWalk dom u.contextTablePointerRegister c context va).pte ≠ 0
  path_subset : u.translates = true →
    ∀ i ∈ tablePath dom u.contextTablePointerRegister c context va, i ∈ W

end Mapping

variable {dom : Nat → Bool} {u u' : MmuCore} {c c' : Words} {context va : Word}
  {W W' : Set Nat}

theorem translates_of_setup (h : u'.setup = u.setup) : u'.translates = u.translates := by
  obtain ⟨hp, hctl⟩ := Prod.mk.inj h
  obtain ⟨hctl, -⟩ := Prod.mk.inj hctl
  rw [translates, translates, mmuEnabled, mmuEnabled, hp, hctl]

theorem contextTablePointerRegister_of_setup (h : u'.setup = u.setup) :
    u'.contextTablePointerRegister = u.contextTablePointerRegister :=
  congrArg (fun x => x.2.2) h

theorem controlRegister_of_setup (h : u'.setup = u.setup) :
    u'.controlRegister = u.controlRegister :=
  congrArg (fun x => x.2.1) h

theorem mappedTo_of_translates (ht : u.translates = true) :
    u.mappedTo dom c context va =
      translationOf va (tableWalk dom u.contextTablePointerRegister c context va) :=
  if_pos ht

theorem mappedTo_of_not_translates (ht : u.translates = false) :
    u.mappedTo dom c context va =
      { physicalAddr := va.setWidth 64, cacheable := u.alwaysCacheable, acc := 3 } :=
  if_neg (by rw [ht]; exact Bool.false_ne_true)

section

variable (h : u.Settled dom c context va W)
include h

/-- The walk for an address that is settled, after its words have been kept. -/
theorem Settled.tableWalk_of_kept (ht : u.translates = true)
    (hk : ∀ i ∈ W, Kept (c.read dom i) (c'.read dom i)) :
    (tableWalk dom u.contextTablePointerRegister c' context va).level =
        (tableWalk dom u.contextTablePointerRegister c context va).level ∧
      Reflects (tableWalk dom u.contextTablePointerRegister c context va).pte
        (tableWalk dom u.contextTablePointerRegister c' context va).pte ∧
      tablePath dom u.contextTablePointerRegister c' context va =
        tablePath dom u.contextTablePointerRegister c context va := by
  obtain ⟨hwalk, hpath⟩ := tableWalk_of_sameWay fun i hi =>
    (hk i (h.path_subset ht i hi)).sameWay
  have hkept := hk _ (h.path_subset ht _ mem_tablePath)
  change Kept (c.entryAt dom _) (c'.entryAt dom _) at hkept
  rw [← pte_tableWalk] at hkept
  have hreflects := Reflects.of_kept (.inl rfl) (h.referenced ht) hkept
  rw [hwalk]
  exact ⟨rfl, hreflects, hpath⟩

/-- A settled mapping stays for as long as the words of the set are kept. -/
theorem Settled.of_kept (hsetup : u'.setup = u.setup) (hW : W ⊆ W')
    (hk : ∀ i ∈ W, Kept (c.read dom i) (c'.read dom i)) : u'.Settled dom c' context va W' := by
  have htr := translates_of_setup hsetup
  have hctp := contextTablePointerRegister_of_setup hsetup
  refine ⟨fun ht => ?_, fun ht => ?_, fun ht => ?_⟩
  · rw [htr] at ht
    rw [hctp, (h.tableWalk_of_kept ht hk).2.1.entryType]
    exact h.leaf ht
  · rw [htr] at ht
    rw [hctp, (h.tableWalk_of_kept ht hk).2.1.referenced]
    exact h.referenced ht
  · rw [htr] at ht
    rw [hctp, (h.tableWalk_of_kept ht hk).2.2]
    exact fun i hi => hW (h.path_subset ht i hi)

theorem Settled.mappedTo_of_kept (hsetup : u'.setup = u.setup)
    (hk : ∀ i ∈ W, Kept (c.read dom i) (c'.read dom i)) :
    u'.mappedTo dom c' context va = u.mappedTo dom c context va := by
  have htr := translates_of_setup hsetup
  cases ht : u.translates with
  | true =>
    rw [mappedTo_of_translates (htr.trans ht), mappedTo_of_translates ht,
      contextTablePointerRegister_of_setup hsetup]
    obtain ⟨hlevel, hreflects, -⟩ := h.tableWalk_of_kept ht hk
    exact (translationOf_of_reflects hlevel.symm hreflects va).symm
  | false =>
    rw [mappedTo_of_not_translates (htr.trans ht), mappedTo_of_not_translates ht, alwaysCacheable,
      alwaysCacheable, controlRegister_of_setup hsetup]

end

/-! ## Translations -/

/-- A translation goes where the address is mapped, keeps every word, and leaves the mapping
settled. -/
structure Translated (dom : Nat → Bool) (W : Set Nat) (u : MmuCore) (c : Words)
    (r : VirtualMemoryRequest) (t : Translation) (u' : MmuCore) (c' : Words) : Prop where
  translate_eq : u.translateRequest (ram dom) r c = (some t, u', c')
  mapped : t = u.mappedTo dom c u.contextRegister r.address
  kept : ∀ i, Kept (c.read dom i) (c'.read dom i)
  agrees : TlbAgrees dom u' c' (tableWords dom u c W r)
  same : ∀ tlb, u'.withoutTlb tlb = u.withoutTlb tlb
  mapped_after : u'.mappedTo dom c' u.contextRegister r.address = t
  settled : u'.Settled dom c' u.contextRegister r.address (tableWords dom u c W r)
  changed : ∀ i, c'.read dom i ≠ c.read dom i → u.translates = true ∧
    i = (u.foundEntry dom c r.address).phyAddrOfPte.toNat / 4 ∧
    (computeAndStageRMUpdate (u.foundEntry dom c r.address).pte r.isWrite).isSome = true
  unchanged : (u.translates = true →
    computeAndStageRMUpdate (u.foundEntry dom c r.address).pte r.isWrite = none) → c' = c

theorem setup_of_withoutTlb {tlb : Tlb} (h : u'.withoutTlb tlb = u.withoutTlb tlb) :
    u'.setup = u.setup := by
  have hsetup := congrArg setup h
  exact hsetup

variable {r : VirtualMemoryRequest} {t : Translation}

section

variable (h : Translated dom W u c r t u' c')
include h

/-- A translation leaves the registers. -/
theorem Translated.registers : u'.setup = u.setup ∧
    u'.contextRegister = u.contextRegister ∧ u'.layout = u.layout := by
  have hctx := congrArg contextRegister (h.same u.tlb)
  have hlayout := congrArg layout (h.same u.tlb)
  exact ⟨setup_of_withoutTlb (h.same u.tlb), hctx, hlayout⟩

theorem Translated.decode_eq (hc : (t.cacheable && u'.isCacheableTarget t.physicalAddr) = true) :
    SystemAddressMap.decode u.layout t.physicalAddr = .MAIN_MEMORY := by
  rw [Bool.and_eq_true, isCacheableTarget, beq_iff_eq, h.registers.2.2] at hc
  exact hc.2

/-- The memory after a translation is the one before the data are accessed. -/
theorem Translated.translatedMemory_eq (hr : u.translatesRequest r = u.translates) :
    translatedMemory dom u c r = c' := by
  rw [translatedMemory, hr]
  cases ht : u.translates with
  | true =>
    rw [if_pos rfl, h.translate_eq]
  | false =>
    rw [if_off]
    exact (h.unchanged fun hc => absurd (ht.symm.trans hc) Bool.false_ne_true).symm

end

section

variable (hw : u.writesTablePointer r = false)
include hw

theorem tableWords_of_translates (hr : u.translatesRequest r = true) :
    tableWords dom u c W r = withPath dom u c W r.address := by
  rw [tableWords, hw, hr, if_off, if_pos rfl]

theorem tableWords_of_not_translates (hr : u.translatesRequest r = false) :
    tableWords dom u c W r = W := by
  rw [tableWords, hw, hr, if_off, if_off]

/-- The words of a request's walk are added to the set. -/
theorem subset_tableWords : W ⊆ tableWords dom u c W r := by
  rw [tableWords, hw, if_off]
  split
  · exact Set.subset_union_left
  · exact Set.Subset.refl W

end

/-- The entry found for an address maps it where the tables do. -/
theorem reflects_foundEntry (h : TlbAgrees dom u c W) (va : Word) :
    (u.foundEntry dom c va).level = (u.walkEnd dom c va).level ∧
      Reflects (u.foundEntry dom c va).pte (u.walkEnd dom c va).pte := by
  obtain ⟨hlevel, -, hsame | ⟨-, -, hreflects⟩⟩ := foundEntry_of_agrees h va
  · rw [hsame]
    exact ⟨rfl, .inl rfl⟩
  · exact ⟨hlevel, hreflects⟩

/-- An update writes at most the word of its entry. -/
theorem changed_updatedMemory {r : WalkResult} {isWrite : Bool} {i : Nat}
    (h : (u.updatedMemory dom c r isWrite).read dom i ≠ c.read dom i) :
    i = r.phyAddrOfPte.toNat / 4 ∧ (computeAndStageRMUpdate r.pte isWrite).isSome = true := by
  unfold updatedMemory writtenEntry at h
  cases hs : computeAndStageRMUpdate r.pte isWrite with
  | none =>
    rw [hs] at h
    exact absurd rfl h
  | some staged =>
    rw [hs, Option.map_some] at h
    refine ⟨?_, rfl⟩
    by_contra hi
    rw [read_write, if_neg hi] at h
    exact h rfl

/-- The bits an access sets are not those that say where a page is. -/
theorem translationOf_staged (r : WalkResult) (isWrite : Bool) (va : Word) :
    translationOf va { r with pte := (computeAndStageRMUpdate r.pte isWrite).getD r.pte } =
      translationOf va r := by
  have hppn (pte : Word) : ppn (setReferenced pte) = ppn pte :=
    readBits_writeBits_off (by decide)
  have hcacheable (pte : Word) : cacheable (setReferenced pte) = cacheable pte :=
    readBits_writeBits_off (by decide)
  have hacc (pte : Word) : acc (setReferenced pte) = acc pte :=
    readBits_writeBits_off (by decide)
  unfold translationOf constructPhysicalAddr computeAndStageRMUpdate
  dsimp only
  split
  · rfl
  · split <;> split <;> simp [hppn, hcacheable, hacc]

/-- A request of an MMU that is there, if it is not refused. -/
theorem exists_translated (h : TlbAgrees dom u c W) (hp : u.mmuIsPresent = true)
    (hr : u.translatesRequest r = u.translates) (hw : u.writesTablePointer r = false)
    (hf : u.faultsRequest dom c r = false) : ∃ t u' c', Translated dom W u c r t u' c' := by
  cases ht : u.translates with
  | false =>
    have hwords : tableWords dom u c W r = W := tableWords_of_not_translates hw (hr.trans ht)
    refine ⟨_, u, c, translate_of_not_translates _ u c ht _ _ _ _ _, ?_, fun i => .inl rfl, ?_,
      fun _ => rfl, ?_, ⟨?_, ?_, ?_⟩, fun i hi => absurd rfl hi, fun _ => rfl⟩
    · rw [mappedTo_of_not_translates ht, hp]
      rfl
    · rw [hwords]
      exact h
    · rw [mappedTo_of_not_translates ht, hp]
      rfl
    all_goals exact fun hn => absurd (ht.symm.trans hn) Bool.false_ne_true
  | true =>
    rw [faultsRequest, hr, ht, Bool.true_and] at hf
    have hwords : tableWords dom u c W r = withPath dom u c W r.address :=
      tableWords_of_translates hw (hr.trans ht)
    have heq := translate_of_not_faults dom u c ht hf r.isFetch
    have hagrees := tlbAgrees_translate h ht r.address r.asi r.isFetch r.isWrite
      r.isAtomic
    obtain ⟨hlevel, hreflects⟩ := reflects_foundEntry h r.address
    have hleaf : entryType (u.walkEnd dom c r.address).pte = etPte :=
      hreflects.entryType.trans (entryType_of_not_faults ht hf)
    have hkept (i : Nat) : Kept (c.read dom i) ((u.updatedMemory dom c
        (u.foundEntry dom c r.address) r.isWrite).read dom i) := by
      rw [updatedMemory_foundEntry h]
      exact kept_updatedMemory pte_tableWalk hleaf _ i
    obtain ⟨hwalk, hpath⟩ : tableWalk dom u.contextTablePointerRegister
        (u.updatedMemory dom c (u.foundEntry dom c r.address) r.isWrite)
        u.contextRegister r.address = _ ∧ _ :=
        tableWalk_of_sameWay fun i _ => (hkept i).sameWay
    have hword := entryAt_updatedMemory (u := u) (r := u.walkEnd dom c r.address)
      pte_tableWalk hleaf r.isWrite
    rw [← updatedMemory_foundEntry h] at hword
    -- the leaf the walk ends at after the update
    have hend : tableWalk dom u.contextTablePointerRegister
        (u.updatedMemory dom c (u.foundEntry dom c r.address) r.isWrite)
        u.contextRegister r.address =
        { u.walkEnd dom c r.address with
          pte := (computeAndStageRMUpdate (u.walkEnd dom c r.address).pte
            r.isWrite).getD (u.walkEnd dom c r.address).pte } := by
      rw [hwalk]
      exact congrArg (fun pte => ({ u.walkEnd dom c r.address with pte := pte } : WalkResult))
        hword
    have hsame := fun tlb => afterTranslation_withoutTlb (u := u) tlb r.address
      (u.foundEntry dom c r.address) (u.tlbLookup r.address u.contextRegister).isSome
      r.isWrite
    have hctp := contextTablePointerRegister_of_setup (setup_of_withoutTlb (hsame u.tlb))
    rw [heq] at hagrees
    have hmapped : translationOf r.address (u.foundEntry dom c r.address) =
        translationOf r.address (u.walkEnd dom c r.address) :=
      translationOf_of_reflects hlevel hreflects r.address
    refine ⟨_, _, _, heq, ?_, hkept, ?_, hsame, ?_, ⟨fun _ => ?_, fun _ => ?_, fun _ => ?_⟩, ?_, ?_⟩
    · rw [mappedTo_of_translates ht]
      exact hmapped
    · rw [hwords]
      exact hagrees
    · rw [mappedTo_of_translates
        ((translates_of_setup (setup_of_withoutTlb (hsame u.tlb))).trans ht),
        hctp, hend, hmapped]
      exact translationOf_staged (u.walkEnd dom c r.address) _ _
    · rw [hctp, hend]
      exact entryType_getD_staged hleaf
    · rw [hctp, hend]
      exact referenced_getD_staged _ _
    · rw [hctp, hpath, hwords]
      exact fun i hi => .inr hi
    · intro i hi
      exact ⟨ht, changed_updatedMemory hi⟩
    · intro hnone
      rw [updatedMemory, writtenEntry, hnone ht]
      rfl

/-- After a translation the TLB keeps track of the tables. -/
theorem Translated.tracks (h : Translated dom W u c r t u' c') (hu : TlbTracks dom u c W) :
    TlbTracks dom u' c' (tableWords dom u c W r) := by
  refine ⟨h.agrees, fun hd => ?_⟩
  have henabled := tlbEnabled_translate (ram dom) u r.address r.asi
    r.isFetch r.isWrite r.isAtomic c
  have heq := h.translate_eq
  rw [translateRequest] at heq
  rw [heq] at henabled
  have hoff : u.tlbEnabled = false := henabled.symm.trans hd
  have htlb := tlb_translate_of_disabled (ram dom) hoff r.address r.asi
    r.isFetch r.isWrite r.isAtomic c
  rw [heq] at htlb
  rw [htlb]
  exact hu.disabled hoff

/-- What the MMU's own updates for a request write. -/
theorem translatedMemory_eq (hr : u.translatesRequest r = u.translates) :
    translatedMemory dom u c r =
      if u.translates && !u.faultsRequest dom c r then
        u.updatedMemory dom c (u.foundEntry dom c r.address) r.isWrite
      else c := by
  rw [translatedMemory, faultsRequest, hr]
  cases ht : u.translates with
  | false => rfl
  | true =>
    rw [if_pos rfl, Bool.true_and, Bool.true_and, translateRequest]
    cases hf : u.faults dom c r.address r.asi r.isWrite r.isAtomic with
    | true =>
      rw [translate_of_faults dom u c hf]
      rfl
    | false =>
      rw [translate_of_not_faults dom u c ht hf]
      rfl

end MmuCore

end SparcV8
