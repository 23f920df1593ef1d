import SparcV8.Cache.Served

/-!
# A core between requests

What a request to a cached address space leaves of the MMU and of the tables, and that it keeps both
caches consistent, the one that does not serve it as long as no word of its copies changes.
-/

namespace SparcV8

open L1CachesCore MmuCore Set CachedRequest Words

/-- What the caches of a core depend on is left by a request. -/
structure Moved (dom : Nat → Bool) (W : Set Nat) (u : MmuCore) (c : Words) (W' : Set Nat)
    (x : MmuCore × Words) : Prop where
  setup : x.1.setup = u.setup
  context : x.1.contextRegister = u.contextRegister
  layout : x.1.layout = u.layout
  subset : W ⊆ W'
  kept : ∀ i ∈ W', Pte.Kept (c.read dom i) (x.2.read dom i)
  tracks : TlbTracks dom x.1 x.2 W'

variable {dom : Nat → Bool} {r : VirtualMemoryRequest} {x : MmuCore × Words}
  {c' : Words}
variable {u' : MmuCore} {t : Translation}

section Moved

variable {W W' X : Set Nat} {u : MmuCore} {c : Words} {a : CacheArray}

theorem Moved.consistent (h : Moved dom W u c W' x) (ha : a.Consistent dom u c W X)
    (hun : a.Unaffected dom c x.2 X) : a.Consistent dom x.1 x.2 W' X :=
  ha.of_unaffected h.setup h.subset (fun i hi => h.kept i (h.subset hi)) (Subset.refl X) hun

theorem TlbTracks.mono (h : TlbTracks dom u c W) (hW : W ⊆ W') : TlbTracks dom u c W' :=
  ⟨fun level e he => (h.agrees level e he).of_kept hW fun _ _ => .inl rfl, h.disabled⟩

theorem Moved.refl (hu : TlbTracks dom u c W) (hW : W ⊆ W') : Moved dom W u c W' (u, c) :=
  ⟨rfl, rfl, rfl, hW, fun _ _ => .inl rfl, TlbTracks.mono hu hW⟩

/-- A refusal records a fault. -/
theorem moved_afterRefusal (hu : TlbTracks dom u c W) (hW : W ⊆ W') :
    Moved dom W u c W' (u.afterRefusal dom c r, c) := by
  have hfault : (u.afterRefusal dom c r).withoutFault = u.withoutFault :=
    withoutFault_afterRefusal
  have hctx := congrArg contextRegister hfault
  have hlayout := congrArg layout hfault
  have htables := congrArg tables hfault
  exact ⟨setup_afterRefusal, hctx, hlayout, hW, fun _ _ => .inl rfl,
    (TlbTracks.mono hu hW).of_tables htables fun _ _ => rfl⟩

theorem MmuCore.Translated.moved (ht : Translated dom W u c r t u' c') (hu : TlbTracks dom u c W)
    (hw : u.writesTablePointer r = false) : Moved dom W u c (tableWords dom u c W r) (u', c') :=
  ⟨ht.registers.1, ht.registers.2.1, ht.registers.2.2, subset_tableWords hw, fun i _ => ht.kept i,
    ht.tracks hu⟩

/-- Data that are no words of the tables are written. -/
theorem Moved.written {c₁ : Words} (h : Moved dom W u c W' (u', c')) (pa : BitVec 64)
    (hk : ∀ i ∈ W', c₁.read dom i = c'.read dom i) :
    Moved dom W u c W' ({ u' with lastPhysicalAddress := pa }, c₁) := by
  refine ⟨h.setup, h.context, h.layout, h.subset, fun i hi => ?_, h.tracks.of_tables rfl hk⟩
  rw [hk i hi]
  exact h.kept i hi

theorem tableWords_of_cachedRequest (hr : CachedRequest r) :
    tableWords dom u c W r = if u.translates then withPath dom u c W r.address else W := by
  rw [tableWords, hr.writesTablePointer, hr.translatesRequest, if_off]

theorem tableWords_lineRequest (hr : CachedRequest r) :
    tableWords dom u c W (lineRequest r) = tableWords dom u c W r := by
  rw [tableWords_of_cachedRequest hr, tableWords_of_cachedRequest (r := lineRequest r)
    ⟨hr.asi, rfl⟩]
  rfl

/-- A settled address has its walk among the words. -/
theorem MmuCore.Settled.tableWords_eq (h : u.Settled dom c u.contextRegister r.address W)
    (hr : CachedRequest r) : tableWords dom u c W r = W := by
  rw [tableWords_of_cachedRequest hr]
  split
  · next ht => exact union_eq_left.2 (h.path_subset ht)
  · rfl

end Moved

/-! ## Requests that are served -/

section Served

variable {W X : Set Nat} {u : MmuCore} {c : Words} {a b : CacheArray}
  {y : VirtualMemoryResponse × CacheArray}

theorem ReadServed.moved (h : ReadServed dom W u c a r y x) (hu : TlbTracks dom u c W)
    (hr : CachedRequest r) : Moved dom W u c (tableWords dom u c W r) x := by
  have hW : W ⊆ tableWords dom u c W r := subset_tableWords hr.writesTablePointer
  have hline (t : Translation) (u' : MmuCore) (c' : Words)
      (ht : Translated dom W u c (lineRequest r) t u' c') :
      Moved dom W u c (tableWords dom u c W r) (u', c') := by
    rw [← tableWords_lineRequest hr]
    exact ht.moved hu (writesTablePointer ⟨hr.asi, rfl⟩)
  cases h with
  | hit hl => exact .refl hu hW
  | absent hp => exact .refl hu hW
  | refused hf => exact moved_afterRefusal hu hW
  | uncached ht hc => exact hline _ _ _ ht
  | filled hp ht hc hfill => exact hline _ _ _ ht

/-- A read keeps the cache that serves it consistent. -/
theorem ReadServed.consistent (h : ReadServed dom W u c a r y x) (hu : TlbTracks dom u c W)
    (hs : Settings dom u) (hr : CachedRequest r) (ha : a.Consistent dom u c W X)
    (hun : a.Unaffected dom c x.2 X) : y.2.Consistent dom x.1 x.2 (tableWords dom u c W r) X := by
  have hcons := (h.moved hu hr).consistent ha hun
  cases h with
  | hit hline => exact hcons
  | absent hp => exact hcons
  | refused hf => exact hcons
  | uncached ht hc => exact hcons
  | @filled t u' c' a' hp ht hc hfill =>
    have hsettled := ht.settled
    rw [tableWords_lineRequest hr] at hsettled
    obtain ⟨a₁, hfill₁, hcons₁⟩ := hcons.exists_fill hs.context_lt
      ((congrArg Prod.fst ht.registers.1).trans hp) ht.mapped_after.symm hsettled
      (hs.lines _ (ht.decode_eq hc))
    rw [show (lineRequest r).address = r.address from rfl, hfill] at hfill₁
    cases hfill₁
    exact hcons₁

/-- A request that is translated is completed where it goes to. -/
theorem MmuCore.Translated.access_eq (ht : Translated dom W u c r t u' c')
    (hp : u.mmuIsPresent = true) (hr : CachedRequest r) :
    access (ram dom) r (u, c) =
      u'.complete (ram dom) r t c' := by
  rw [access_of_cachedRequest _ hp hr, ht.translate_eq]

/-- A store or an atomic leaves the memory that it leaves without the caches. -/
theorem WriteServed.memory_eq (h : WriteServed dom W u c a r y x)
    (hasi : isCachedAsi r.asi = true) (hk : r.Stores) : x.2 = (access (ram dom) r (u, c)).2.2 := by
  have hcomplete (t : Translation) (u' : MmuCore) (c' : Words) (hp : u.mmuIsPresent = true)
      (ht : Translated dom W u c r t u' c') : writtenTo dom c' r t.physicalAddr =
        (access (ram dom) r (u, c)).2.2 := by
    rw [ht.access_eq hp (.of_stores hasi hk)]
    rcases hk with hk | hk
    · rw [complete_store hk]
    · rw [complete_atomic hk]
  cases h with
  | absent hp =>
    rcases hk with hk | hk
    · rw [access_store_of_absent hp hk]
    · rw [access_atomic_of_absent hp hk]
  | refused hf => rw [access_of_faultsRequest hf]
  | hit hp ht hfind => exact hcomplete _ _ _ hp ht
  | past hp ht => exact hcomplete _ _ _ hp ht
  | allocated hp ht hc ht₂ hfill => exact hcomplete _ _ _ hp ht

/-- The data of a store or an atomic are no words of the tables. -/
theorem MmuCore.Translated.written (ht : Translated dom W u c r t u' c')
    (hp : u.mmuIsPresent = true) (hasi : isCachedAsi r.asi = true) (hk : r.Stores)
    (hkeep : KeepsTables dom u c W r) : ∀ i ∈ tableWords dom u c W r,
      (writtenTo dom c' r t.physicalAddr).read dom i = c'.read dom i :=
  kept_written ht hasi hk (ht.access_eq hp (.of_stores hasi hk)) hkeep

theorem WriteServed.moved (h : WriteServed dom W u c a r y x) (hu : TlbTracks dom u c W)
    (hasi : isCachedAsi r.asi = true) (hk : r.Stores) (hkeep : KeepsTables dom u c W r) :
    Moved dom W u c (tableWords dom u c W r) x := by
  have hw := (of_stores hasi hk).writesTablePointer (u := u)
  have hmemory := h.memory_eq hasi hk
  cases h with
  | absent hp =>
    have hwords : tableWords dom u c W r = W :=
      tableWords_of_not_translates hw (translatesRequest_of_not_present hp)
    rw [KeepsTables, hwords, translatedMemory, translatesRequest_of_not_present hp,
      if_off, ← hmemory] at hkeep
    rw [hwords]
    exact ⟨rfl, rfl, rfl, Subset.refl W, fun i hi => .inl (hkeep i hi), hu.of_tables rfl hkeep⟩
  | refused hf => exact moved_afterRefusal hu (subset_tableWords hw)
  | hit hp ht hfind => exact (ht.moved hu hw).written _ (ht.written hp hasi hk hkeep)
  | past hp ht => exact (ht.moved hu hw).written _ (ht.written hp hasi hk hkeep)
  | @allocated t u' u₂ c' a' hp ht hc ht₂ hfill =>
    have hwritten := ht.written hp hasi hk hkeep
    have hmoved := (ht.moved hu hw).written t.physicalAddr hwritten
    have hr₂ : CachedRequest (allocateRequest r) := ⟨hasi, rfl⟩
    have hmoved₂ := ht₂.moved hmoved.tracks hr₂.writesTablePointer
    -- the walk of the line read is among the words already
    have hctx : u'.contextRegister = u.contextRegister := hmoved.context
    have hsettled : (u'.reached t).Settled dom (writtenTo dom c' r t.physicalAddr)
        u'.contextRegister r.address (tableWords dom u c W r) := by
      rw [hctx]
      exact ht.settled.of_kept rfl (Subset.refl _) fun i hi => .inl (hwritten i hi)
    rw [Settled.tableWords_eq (r := allocateRequest r) hsettled hr₂] at hmoved₂
    exact ⟨hmoved₂.setup.trans hmoved.setup, hmoved₂.context.trans hmoved.context,
      hmoved₂.layout.trans hmoved.layout, hmoved.subset, hmoved.kept, hmoved₂.tracks⟩

/-- A store or an atomic keeps the data cache consistent. -/
theorem WriteServed.consistent (h : WriteServed dom W u c a r y x)
    (hu : TlbTracks dom u c W) (hs : Settings dom u) (hasi : isCachedAsi r.asi = true)
    (hk : r.Stores) (hva : r.address.toNat % 8 = 0) (hkeep : KeepsTables dom u c W r)
    (ha : a.Consistent dom u c W X) (hun : a.Unaffected dom c (translatedMemory dom u c r) X) :
    y.2.Consistent dom x.1 x.2 (tableWords dom u c W r) X := by
  have hr : CachedRequest r := .of_stores hasi hk
  -- the cache is consistent after the translation
  have htranslated (t : Translation) (u' : MmuCore) (c' : Words)
      (ht : Translated dom W u c r t u' c') :
      a.Consistent dom u' c' (tableWords dom u c W r) X := by
    rw [ht.translatedMemory_eq hr.translatesRequest] at hun
    exact (ht.moved hu hr.writesTablePointer).consistent ha hun
  have hpa (t : Translation) (u' : MmuCore) (c' : Words)
      (ht : Translated dom W u c r t u' c') : t.physicalAddr.toNat % 8 = 0 := by
    have hpage := u.offset_mappedTo dom c u.contextRegister r.address
    rw [← ht.mapped] at hpage
    omega
  have hmoved := h.moved hu hasi hk hkeep
  cases h with
  | absent hp =>
    exact CacheArray.consistent_of_empty ha.sets
      fun l hl => Bool.false_ne_true (hp.symm.trans (ha.mmu l hl))
  | refused hf => exact hmoved.consistent ha fun n hn => absurd rfl hn
  | hit hp ht hfind =>
    have hcons := (htranslated _ _ _ ht).writeBytes hs.context_lt hfind
      (congrArg Translation.physicalAddr ht.mapped_after.symm) hva r.word0 r.word1 r.byteMask
      (ht.written hp hasi hk hkeep)
    exact hcons.of_setup rfl
  | past hp ht =>
    have hcons := (htranslated _ _ _ ht).invalidate_stored (hpa _ _ _ ht) r.word0 r.word1 r.byteMask
      (ht.written hp hasi hk hkeep)
    exact hcons.of_setup rfl
  | @allocated t u' u₂ c' a' hp ht hc ht₂ hfill =>
    have hcons := (htranslated _ _ _ ht).invalidate_stored (hpa _ _ _ ht) r.word0 r.word1 r.byteMask
      (ht.written hp hasi hk hkeep)
    have hsetup₂ := ht₂.registers.1
    have hcons₂ : (a.invalidatePhysicalLine t.physicalAddr).Consistent dom u₂
        (writtenTo dom c' r t.physicalAddr) (tableWords dom u c W r) X :=
      hcons.of_setup hsetup₂
    have hkept : ∀ i ∈ tableWords dom u c W r, Pte.Kept (c'.read dom i)
        ((writtenTo dom c' r t.physicalAddr).read dom i) :=
      fun i hi => .inl (ht.written hp hasi hk hkeep i hi)
    have hsettled : u₂.Settled dom (writtenTo dom c' r t.physicalAddr) u.contextRegister
        r.address (tableWords dom u c W r) :=
      ht.settled.of_kept hsetup₂ (Subset.refl _) hkept
    have hmapped : t = u₂.mappedTo dom (writtenTo dom c' r t.physicalAddr)
        u.contextRegister r.address :=
      ((ht.settled.mappedTo_of_kept hsetup₂ hkept).trans ht.mapped_after).symm
    obtain ⟨a₁, hfill₁, hcons₁⟩ := hcons₂.exists_fill_of_unheld hs.context_lt
      ((congrArg Prod.fst hmoved.setup).trans hp) hmapped hsettled (hs.lines _ (ht.decode_eq hc))
      fun l hl => (htranslated _ _ _ ht).unheld_invalidatePhysicalLine hl
    rw [hfill] at hfill₁
    cases hfill₁
    exact hcons₁

end Served

end SparcV8
