import SparcV8.Cache.OneCore
import SparcV8.Mmu.Reads

/-!
# One request of a core

The requests a core makes: accesses with a cached address space, flushes, and accesses to the
registers of its MMU. Each is answered, keeps the caches consistent and leaves the memory that it
leaves without them.
-/

namespace SparcV8

open L1CachesCore MmuCore Words CacheArray Caches Set MemAccessType Bool VirtualMemoryRequest

/-! ## The requests -/

variable {r : VirtualMemoryRequest}

/-- A request with a cached address space is passed on, and empties nothing. -/
theorem flushesCaches_of_isCachedAsi (hasi : isCachedAsi r.asi = true)
    (hk : r.accessType ≠ .FLUSH) :
    flushesCaches r = false ∧ clearsInstruction r = false ∧ clearsData r = false := by
  obtain ⟨hd, hi, hmmu, -⟩ := not_flush_of_isCachedAsi hasi
  have hmmu' : isMmuAsi r.asi = false := by
    rw [isMmuAsi, Bool.or_eq_false_iff, beq_eq_false_iff_ne, beq_eq_false_iff_ne]
    exact not_or.1 hmmu
  have hk' : (r.accessType == FLUSH) = false := beq_eq_false_iff_ne.2 hk
  simp [flushesCaches, clearsInstruction, clearsData, isFlushAsi, hd, hi, hmmu', hk']

/-! ## The invariant -/

/-- A core between requests: its TLB agrees with the tables, whose words so far are in `W`, and its
caches are consistent off `Y` and `X`. -/
structure CoreOk (dom : Nat → Bool) (W X Y : Set Nat) (cs : Caches) (x : MmuCore × Words) :
    Prop where
  tracks : TlbTracks dom x.1 x.2 W
  instruction : cs.instruction.Consistent dom x.1 x.2 W Y
  data : cs.data.Consistent dom x.1 x.2 W X

theorem ne_of_isWrite (h : r.isWrite = false) :
    r.accessType ≠ .STORE ∧ r.accessType ≠ .ATOMIC_LS := by
  unfold isWrite at h
  constructor <;> intro hk <;> rw [hk] at h <;> cases h

variable {dom : Nat → Bool} {a : CacheArray}
variable {x : MmuCore × Words}

section Reads

variable {W X : Set Nat} {u : MmuCore} {c : Words} {y : VirtualMemoryResponse × CacheArray}

theorem isWrite_of_isRead (hk : r.Reads) : r.isWrite = false ∧ r.isAtomic = false := by
  rcases hk with hk | hk <;> rw [isWrite, isAtomic, hk] <;> exact ⟨rfl, rfl⟩

/-- A read is refused when its line read is. -/
theorem faultsRequest_lineRequest (hasi : isCachedAsi r.asi = true) (hk : r.Reads) :
    u.faultsRequest dom c (lineRequest r) = u.faultsRequest dom c r := by
  obtain ⟨hw, hat⟩ := isWrite_of_isRead hk
  have hr : CachedRequest (lineRequest r) := ⟨hasi, rfl⟩
  rw [faultsRequest, faultsRequest, hw, hat, (CachedRequest.of_reads hasi hk).translatesRequest,
    hr.translatesRequest]
  rfl

theorem translatedMemory_lineRequest (hasi : isCachedAsi r.asi = true) (hk : r.Reads) :
    translatedMemory dom u c (lineRequest r) = translatedMemory dom u c r := by
  have hr : CachedRequest (lineRequest r) := ⟨hasi, rfl⟩
  rw [translatedMemory_eq (CachedRequest.of_reads hasi hk).translatesRequest,
    translatedMemory_eq hr.translatesRequest, faultsRequest_lineRequest hasi hk,
    (isWrite_of_isRead hk).1]
  rfl

theorem translatedMemory_of_faultsRequest (hr : u.translatesRequest r = u.translates)
    (hf : u.faultsRequest dom c r = true) : translatedMemory dom u c r = c := by
  rw [translatedMemory_eq hr, hf, Bool.not_true, Bool.and_false, if_off]

/-- A read of a settled address updates nothing. -/
theorem translatedMemory_of_settled (hag : TlbAgrees dom u c W)
    (hs : u.Settled dom c u.contextRegister r.address W) (hasi : isCachedAsi r.asi = true)
    (hk : r.Reads) : translatedMemory dom u c r = c := by
  rw [translatedMemory_eq (CachedRequest.of_reads hasi hk).translatesRequest,
    (isWrite_of_isRead hk).1]
  split
  · next h =>
    rw [and_eq_true] at h
    have href := referenced_foundEntry hag h.1 hs
    have hnone : computeAndStageRMUpdate (u.foundEntry dom c r.address).pte false = none := by
      rw [computeAndStageRMUpdate, if_pos]
      rw [Bool.false_and, Bool.not_false, Bool.and_true, Bool.not_eq_true', beq_eq_false_iff_ne]
      exact href
    rw [updatedMemory, writtenEntry, hnone]
    rfl
  · rfl

/-- A read leaves the memory after the MMU's own updates for it. -/
theorem ReadServed.memory_eq (h : ReadServed dom W u c a r y x) (hu : TlbTracks dom u c W)
    (hctx : u.contextRegister.toNat < 256) (hasi : isCachedAsi r.asi = true)
    (hk : r.Reads) (ha : a.Consistent dom u c W X) : x.2 = translatedMemory dom u c r := by
  have hr : CachedRequest (lineRequest r) := ⟨hasi, rfl⟩
  have hline (t : Translation) (u' : MmuCore) (c' : Words)
      (ht : Translated dom W u c (lineRequest r) t u' c') :
      c' = translatedMemory dom u c r := by
    rw [← translatedMemory_lineRequest hasi hk, ht.translatedMemory_eq hr.translatesRequest]
  cases h with
  | hit hl =>
    obtain ⟨hsettled, -⟩ := ha.of_find hctx (Option.filter_eq_some_iff.1 hl).1
    exact (translatedMemory_of_settled hu.agrees hsettled hasi hk).symm
  | absent hp =>
    rw [translatedMemory, translatesRequest_of_not_present hp, if_off]
  | refused hf =>
    rw [← translatedMemory_lineRequest hasi hk,
      translatedMemory_of_faultsRequest hr.translatesRequest hf]
  | uncached ht hc => exact hline _ _ _ ht
  | filled hp ht hc hfill => exact hline _ _ _ ht

end Reads

/-! ## The MMU's own updates -/

variable {z : VirtualMemoryResponse}

section Updates

variable {u : MmuCore} {c : Words} {W : Set Nat}

/-- The request sets bits of a page table entry whose line is in the data cache. -/
def updatesHeldEntry (dom : Nat → Bool) (u : MmuCore) (c : Words) (a : CacheArray)
    (r : VirtualMemoryRequest) : Prop :=
  u.translatesRequest r = true ∧ u.faultsRequest dom c r = false ∧
    (computeAndStageRMUpdate (u.foundEntry dom c r.address).pte r.isWrite).isSome =
      true ∧
    ∃ l, a.Holds l ∧ l.physicalLine =
      (u.foundEntry dom c r.address).phyAddrOfPte >>> LOG_LINE_BYTES

/-- The word that the MMU's own update changes. -/
theorem changed_translatedMemory {n : Nat}
    (h : (translatedMemory dom u c r).read dom n ≠ c.read dom n) :
    u.translatesRequest r = true ∧ u.faultsRequest dom c r = false ∧
      n = (u.foundEntry dom c r.address).phyAddrOfPte.toNat / 4 ∧
      (computeAndStageRMUpdate (u.foundEntry dom c r.address).pte r.isWrite).isSome =
        true := by
  cases hr : u.translatesRequest r with
  | false =>
    rw [translatedMemory, hr, if_off] at h
    exact absurd rfl h
  | true =>
    have ht := translates_of_translatesRequest hr
    rw [translatedMemory_eq (hr.trans ht.symm), ht, Bool.true_and] at h
    cases hf : u.faultsRequest dom c r with
    | true =>
      rw [hf, Bool.not_true, if_off] at h
      exact absurd rfl h
    | false =>
      rw [hf, Bool.not_false, if_pos rfl] at h
      exact ⟨rfl, rfl, changed_updatedMemory h⟩

theorem unaffected_of_not_updatesHeldEntry {X : Set Nat} (h : ¬ updatesHeldEntry dom u c a r) :
    a.Unaffected dom c (translatedMemory dom u c r) X := by
  intro n hn _ l hl heq
  obtain ⟨hr, hf, rfl, hsome⟩ := changed_translatedMemory hn
  refine h ⟨hr, hf, hsome, l, hl, BitVec.eq_of_toNat_eq ?_⟩
  rw [toNat_physicalLine, heq]
  omega

/-- The update sets referenced and modified bits only. -/
theorem kept_translatedMemory (hag : TlbAgrees dom u c W) (n : Nat) :
    Pte.Kept (c.read dom n) ((translatedMemory dom u c r).read dom n) := by
  by_cases hn : (translatedMemory dom u c r).read dom n = c.read dom n
  · exact .inl hn
  · obtain ⟨hr, hf, -⟩ := changed_translatedMemory hn
    have ht := translates_of_translatesRequest hr
    have hp : u.mmuIsPresent = true := by
      rw [translates, and_eq_true] at ht
      exact ht.1
    obtain ⟨t, u', c', htranslated⟩ := exists_translated hag hp (hr.trans ht.symm)
      (writesTablePointer_of_translatesRequest hr) hf
    rw [htranslated.translatedMemory_eq (hr.trans ht.symm)]
    exact htranslated.kept n

variable (hx : MmuCore.access (ram dom) r (u, c) = (z, x))

include hx

/-- A request that is neither a store nor an atomic. -/
theorem moved_access_of_read (hu : TlbTracks dom u c W) (hk : r.accessType ≠ .STORE)
    (hk' : r.accessType ≠ .ATOMIC_LS) : Moved dom W u c (tableWords dom u c W r) x := by
  obtain ⟨hmemory, hfixed⟩ : (MmuCore.access (ram dom) r (u, c)).2.2 =
      translatedMemory dom u c r ∧ _ := access_of_read hk hk'
  have htracks := hu.access (r := r) fun i _ => by rw [hmemory]
  rw [hx] at hmemory hfixed htracks
  have hsetup := congrArg setup hfixed
  have hctx := congrArg MmuCore.contextRegister hfixed
  have hlayout := congrArg layout hfixed
  refine ⟨hsetup, hctx, hlayout, subset_tableWords (writesTablePointer_of_ne hk), ?_, htracks⟩
  intro i _
  rw [hmemory]
  exact kept_translatedMemory hu.agrees i

/-- A store or an atomic of data that are no words of the tables. -/
theorem moved_access_of_write (hu : TlbTracks dom u c W) (hasi : isCachedAsi r.asi = true)
    (hk : r.Stores) (hkeep : KeepsTables dom u c W r) :
    Moved dom W u c (tableWords dom u c W r) x := by
  have hr : CachedRequest r := .of_stores hasi hk
  have htracks := hu.access hkeep
  rw [KeepsTables, hx] at hkeep
  rw [hx] at htracks
  have hkept (i : Nat) (hi : i ∈ tableWords dom u c W r) :
      Pte.Kept (c.read dom i) (x.2.read dom i) := by
    rw [hkeep i hi]
    exact kept_translatedMemory hu.agrees i
  obtain ⟨hsetup, hctx, hlayout⟩ : x.1.setup = u.setup ∧
      x.1.contextRegister = u.contextRegister ∧ x.1.layout = u.layout := by
    cases hp : u.mmuIsPresent with
    | false =>
      rcases hk with hk | hk
      · cases (access_store_of_absent hp hk).symm.trans hx
        exact ⟨rfl, rfl, rfl⟩
      · cases (access_atomic_of_absent hp hk).symm.trans hx
        exact ⟨rfl, rfl, rfl⟩
    | true =>
      rcases access_cases hu.agrees hp hr with ⟨-, heq⟩ | ⟨-, t, u', c', ht, heq⟩
      · have hmoved := moved_afterRefusal (r := r) hu (Set.Subset.refl W)
        cases heq.symm.trans hx
        exact ⟨hmoved.setup, hmoved.context, hmoved.layout⟩
      · have hmoved := ht.moved hu hr.writesTablePointer
        rcases hk with hk | hk
        · cases (heq.trans (complete_store hk t)).symm.trans hx
          exact ⟨hmoved.setup, hmoved.context, hmoved.layout⟩
        · cases (heq.trans (complete_atomic hk t)).symm.trans hx
          exact ⟨hmoved.setup, hmoved.context, hmoved.layout⟩
  exact ⟨hsetup, hctx, hlayout, subset_tableWords hr.writesTablePointer, hkept, htracks⟩

end Updates

/-! ## The step -/

section Step

variable (dom : Nat → Bool) (W X Y : Set Nat) (cs : Caches) (u : MmuCore) (c : Words)
  (r : VirtualMemoryRequest)

/-- A request is answered, and leaves consistent caches and the memory that it leaves without them.
-/
structure Answered (y : VirtualMemoryResponse) (cs' : Caches) (x : MmuCore × Words) : Prop where
  access_eq : mmuAccess (ram dom) r (cs, (u, c)) =
    some (y, (cs', x))
  ok : CoreOk dom (tableWords dom u c W r) X Y cs' x
  memory_eq : x.2 = if flushesCaches r then c
    else (MmuCore.access (ram dom) r (u, c)).2.2
  layout : x.1.layout = u.layout

variable {dom W X Y cs u c r}

/-- A read is served by a consistent cache, and keeps it consistent. -/
theorem exists_read (hu : TlbTracks dom u c W) (hs : Settings dom u) (hk : r.Reads)
    (hasi : isCachedAsi r.asi = true) (ha : a.Consistent dom u c W X)
    (hun : a.Unaffected dom c (translatedMemory dom u c r) X) :
    ∃ y x, Caches.read (virtualMemory (ram dom)) u.contextRegister r a (u, c) =
        some (y, x) ∧
      Moved dom W u c (tableWords dom u c W r) x ∧ x.2 = translatedMemory dom u c r ∧
      y.2.Consistent dom x.1 x.2 (tableWords dom u c W r) X := by
  obtain ⟨y, x, hread, hserved⟩ := exists_readServed hu.agrees ha hs hasi
  have hr : CachedRequest r := .of_reads hasi hk
  have hmemory := hserved.memory_eq hu hs.context_lt hasi hk ha
  exact ⟨y, x, hread, hserved.moved hu hr, hmemory,
    hserved.consistent hu hs hr ha (hmemory ▸ hun)⟩

/-- A fetch is served by the instruction cache, a load by the data cache. -/
theorem CoreOk.fetchOrLoad (h : CoreOk dom W X univ cs (u, c)) (hs : Settings dom u)
    (hk : r.Reads) (hasi : isCachedAsi r.asi = true)
    (hun : cs.data.Unaffected dom c (translatedMemory dom u c r) X) :
    ∃ y cs' x, Answered dom W X univ cs u c r y cs' x := by
  have hmemory (x : MmuCore × Words) (hx : x.2 = translatedMemory dom u c r) :
      x.2 = if flushesCaches r then c
        else (MmuCore.access (ram dom) r (u, c)).2.2 := by
    have hne : r.accessType ≠ .FLUSH := by rcases hk with hk | hk <;> rw [hk] <;> decide
    obtain ⟨hk₁, hk₂⟩ := ne_of_isWrite (isWrite_of_isRead hk).1
    rw [(flushesCaches_of_isCachedAsi hasi hne).1, if_off, (access_of_read hk₁ hk₂).1, hx]
  rcases hk with hk | hk
  · obtain ⟨y, x, hread, hmoved, hx, hcons⟩ :=
      exists_read h.tracks hs (.inl hk) hasi h.instruction unaffected_univ
    refine ⟨y.1, { cs with instruction := y.2 }, x, ?_,
      ⟨hmoved.tracks, hcons, hmoved.consistent h.data (hx ▸ hun)⟩, hmemory x hx, hmoved.layout⟩
    rw [mmuAccess, Caches.access, hk]
    rw [if_pos hasi, hread]
    rfl
  · obtain ⟨y, x, hread, hmoved, hx, hcons⟩ :=
      exists_read h.tracks hs (.inr hk) hasi h.data hun
    refine ⟨y.1, { cs with data := y.2 }, x, ?_,
      ⟨hmoved.tracks, hmoved.consistent h.instruction unaffected_univ, hcons⟩, hmemory x hx,
      hmoved.layout⟩
    rw [mmuAccess, Caches.access, hk]
    dsimp only
    rw [if_pos hasi, hread]
    rfl

/-- Stores and atomics go through the data cache. -/
theorem CoreOk.write (h : CoreOk dom W X univ cs (u, c)) (hs : Settings dom u)
    (hk : r.Stores) (hasi : isCachedAsi r.asi = true)
    (hva : r.address.toNat % 8 = 0) (hkeep : KeepsTables dom u c W r)
    (hun : cs.data.Unaffected dom c (translatedMemory dom u c r) X) :
    ∃ y cs' x, Answered dom W X univ cs u c r y cs' x := by
  obtain ⟨y, x, hwrite, hserved⟩ : ∃ y x,
      mmuAccess (ram dom) r (cs, (u, c)) =
        some (y.1, ({ cs with data := y.2 }, x)) ∧ WriteServed dom W u c cs.data r y x := by
    rcases hk with hk | hk
    · obtain ⟨y, x, hstore, hserved⟩ :=
        exists_storeServed h.tracks.agrees h.data hs hasi hk hkeep
      refine ⟨y, x, ?_, hserved⟩
      rw [mmuAccess, Caches.access, hk]
      exact hstore
    · obtain ⟨y, x, hatomic, hserved⟩ := exists_atomicServed h.tracks.agrees h.data hs hasi hk
      refine ⟨y, x, ?_, hserved⟩
      rw [mmuAccess, Caches.access, hk]
      exact congrArg some hatomic
  have hmoved := hserved.moved h.tracks hasi hk hkeep
  have hmemory := hserved.memory_eq hasi hk
  refine ⟨y.1, { cs with data := y.2 }, x, hwrite,
    ⟨hmoved.tracks, hmoved.consistent h.instruction unaffected_univ, ?_⟩, ?_, hmoved.layout⟩
  · exact hserved.consistent h.tracks hs hasi hk hva hkeep h.data hun
  · have hne : r.accessType ≠ .FLUSH := by rcases hk with hk | hk <;> rw [hk] <;> decide
    rw [(flushesCaches_of_isCachedAsi hasi hne).1, if_off, hmemory]

theorem consistent_flushAll (ha : a.Consistent dom u c W X) (u' : MmuCore) (c' : Words)
    (W' : Set Nat) : a.flushAll.Consistent dom u' c' W' X :=
  consistent_of_empty ha.sets (not_holds_flushAll a)

/-- A request that is served by emptying caches. -/
theorem CoreOk.flush (h : CoreOk dom W X Y cs (u, c)) (hf : flushesCaches r = true) :
    ∃ cs', Answered dom W X Y cs u c r {} cs' (u, c) := by
  have hcases := hf
  rw [flushesCaches, or_eq_true, and_eq_true, beq_iff_eq, beq_iff_eq] at hcases
  have hwords : tableWords dom u c W r = W := by
    have hspace (hasi : isFlushAsi r.asi = true) : asiSpace r.asi = .cache := by
      rw [isFlushAsi] at hasi
      rw [asiSpace, if_pos]
      rw [Bool.or_assoc, Bool.or_comm (asiIsIcacheFlush _), hasi, Bool.or_true]
    apply tableWords_of_not_translates
    · rcases hcases with hk | ⟨hk, hasi⟩
      · exact writesTablePointer_of_ne (by rw [hk]; decide)
      · exact writesTablePointer_of_asiSpace (hspace hasi) (by decide)
    · rcases hcases with hk | ⟨hk, hasi⟩
      · rw [translatesRequest, hk]
        exact Bool.and_false _
      · rw [translatesRequest_eq (.inr (.inr hk)), hspace hasi]
        exact Bool.and_false _
  have hinstruction := consistent_flushAll h.instruction u c W
  have hmemory : c = if flushesCaches r then c
      else (MmuCore.access (ram dom) r (u, c)).2.2 := by
    rw [hf, if_pos rfl]
  have hboth (heq : mmuAccess (ram dom) r (cs, (u, c)) =
      some ({}, (cs.flush, (u, c)))) :
      ∃ cs', Answered dom W X Y cs u c r {} cs' (u, c) := by
    refine ⟨cs.flush, heq, ?_, hmemory, rfl⟩
    rw [hwords]
    exact ⟨h.tracks, hinstruction, consistent_flushAll h.data u c W⟩
  rcases hcases with hk | ⟨hk, hasi⟩
  · apply hboth
    rw [mmuAccess, Caches.access, hk]
  · cases hd : asiIsDcacheFlush (r.asi.setWidth 8) with
    | true =>
      apply hboth
      rw [mmuAccess, Caches.access, hk]
      rw [store, if_pos hd]
    | false =>
      have hi : asiIsIcacheFlush (r.asi.setWidth 8) = true := by
        rw [isFlushAsi, hd, Bool.false_or] at hasi
        exact hasi
      refine ⟨cs.flushInstruction, ?_, ?_, hmemory, rfl⟩
      · rw [mmuAccess, Caches.access, hk]
        dsimp only
        rw [store, if_neg (by rw [hd]; exact false_ne_true), if_pos hi]
      · rw [hwords]
        exact ⟨h.tracks, hinstruction, h.data⟩

section Registers

variable (hx : MmuCore.access (ram dom) r (u, c) = (z, x))

include hx

/-- A read of a register changes the fault registers at most. -/
theorem access_mmuRead (hk : r.accessType = .LOAD) (hasi : r.asi = asiMmuRegister) :
    x.2 = c ∧ x.1.withoutFault = u.withoutFault := by
  have hspace : asiSpace r.asi = .register := by rw [hasi]; decide
  cases hp : u.mmuIsPresent with
  | false =>
    simp only [MmuCore.access, hk, handleReadAccess, hp, Bool.not_false, if_true, readData_eq] at hx
    cases hx
    exact ⟨rfl, rfl⟩
  | true =>
    simp only [MmuCore.access, hk, handleReadAccess, hp, Bool.not_true, if_off, hspace] at hx
    cases hx
    refine ⟨rfl, ?_⟩
    unfold readRegister
    split <;> rfl

omit hx in
theorem flushesCaches_of_isMmuAsi (hasi : isMmuAsi r.asi = true) (hk : r.accessType ≠ .FLUSH) :
    flushesCaches r = false ∧ isCachedAsi r.asi = false := by
  have hk' : (r.accessType == FLUSH) = false := beq_eq_false_iff_ne.2 hk
  have hmmu : ∀ asi, isMmuAsi asi = true → isFlushAsi asi = false ∧ isCachedAsi asi = false := by
    intro asi h
    rw [isMmuAsi, or_eq_true, beq_iff_eq, beq_iff_eq] at h
    rcases h with rfl | rfl <;> decide
  rw [flushesCaches, hk', (hmmu _ hasi).1, Bool.and_false]
  exact ⟨rfl, (hmmu _ hasi).2⟩

/-- A read of a register of the MMU. -/
theorem CoreOk.mmuRead (h : CoreOk dom W X Y cs (u, c)) (hk : r.accessType = .LOAD)
    (hasi : r.asi = asiMmuRegister) : Answered dom W X Y cs u c r (forwardedResponse z) cs x := by
  obtain ⟨hmemory, hfault⟩ := access_mmuRead hx hk hasi
  have hmmu : isMmuAsi r.asi = true := by rw [hasi]; decide
  obtain ⟨hflush, hcached⟩ := flushesCaches_of_isMmuAsi hmmu (by rw [hk]; decide)
  have hsetup := congrArg setup hfault
  have hlayout := congrArg layout hfault
  have htables := congrArg tables hfault
  have hwords : tableWords dom u c W r = W := by
    apply tableWords_of_not_translates
    · exact writesTablePointer_of_ne (by rw [hk]; decide)
    · rw [translatesRequest_eq (.inr (.inl hk)), hasi]
      exact Bool.and_false _
  have hcons {a : CacheArray} {Z : Set Nat} (ha : a.Consistent dom u c W Z) :
      a.Consistent dom x.1 x.2 W Z := by
    rw [hmemory]
    exact ha.of_setup hsetup
  refine ⟨?_, ?_, ?_, hlayout⟩
  · rw [mmuAccess, Caches.access, hk]
    dsimp only
    rw [hcached, if_off, Caches.forward]
    exact congrArg (fun w => some (forwardedResponse w.1, cs, w.2)) hx
  · rw [hwords]
    refine ⟨h.tracks.of_tables htables fun i _ => ?_, hcons h.instruction, hcons h.data⟩
    exact congrArg (fun m => read dom m i) hmemory
  · rw [hflush, if_off, hx]

omit hx in
/-- The registers that the mapping depends on are not the context register. -/
theorem number_of_isContextRegisterWrite (h : isContextRegisterWrite r = true) :
    (readBits r.address 31 8).toNat % 8 = 2 := by
  rw [isContextRegisterWrite, and_eq_true, beq_iff_eq, beq_iff_eq] at h
  have hlow := congrArg BitVec.toNat h.2
  rw [BitVec.toNat_and, BitVec.toNat_ushiftRight, Nat.shiftRight_eq_div_pow,
    show (7 : Word).toNat = 2 ^ 3 - 1 from rfl, Nat.and_two_pow_sub_one_eq_mod] at hlow
  have haddress := r.address.isLt
  have htwo : (2 : Word).toNat = 2 := rfl
  rw [toNat_readBits _ (by decide)]
  omega

/-- A store to the MMU's own spaces writes a register, or flushes the TLB. -/
theorem access_mmuWrite (hk : r.accessType = .STORE) (hasi : isMmuAsi r.asi = true) :
    (u.mmuIsPresent = true → x.2 = c) ∧
      (isContextRegisterWrite r = true → x.1.setup = u.setup) ∧ x.1.layout = u.layout := by
  obtain ⟨hsetup, hlayout⟩ := registers_access dom u c r
  rw [hx] at hsetup hlayout
  refine ⟨fun hp => ?_, fun hctx => hsetup ?_, hlayout⟩
  · have hroute : u.route r = .flush ∨ u.route r = .writeRegister := by
      rw [isMmuAsi, or_eq_true, beq_iff_eq, beq_iff_eq] at hasi
      rw [route, hk, hp]
      rcases hasi with hasi | hasi
      · rw [hasi]
        exact .inl rfl
      · rw [hasi]
        exact .inr rfl
    rw [access_eq] at hx
    rcases hroute with hroute | hroute <;> rw [hroute] at hx <;> cases hx <;> rfl
  · have hnumber := number_of_isContextRegisterWrite hctx
    rw [writesSetup, decide_eq_false (by omega), Bool.and_false]

/-- A store to the MMU's own spaces. -/
theorem CoreOk.mmuWrite (h : CoreOk dom W X Y cs (u, c)) (hk : r.accessType = .STORE)
    (hasi : isMmuAsi r.asi = true) (hkeep : KeepsTables dom u c W r) :
    ∃ cs', Answered dom W X Y cs u c r (forwardedResponse z) cs' x := by
  obtain ⟨hmemory, hsetup, hlayout⟩ := access_mmuWrite hx hk hasi
  obtain ⟨hflush, hcached⟩ := flushesCaches_of_isMmuAsi hasi (by rw [hk]; decide)
  have hnot : asiIsDcacheFlush (r.asi.setWidth 8) = false ∧
      asiIsIcacheFlush (r.asi.setWidth 8) = false := by
    have hboth := hflush
    rw [flushesCaches, hk] at hboth
    exact Bool.or_eq_false_iff.1 hboth
  have hmmu : r.asi = asiMmuFlushProbe ∨ r.asi = asiMmuRegister := by
    rw [isMmuAsi, or_eq_true, beq_iff_eq, beq_iff_eq] at hasi
    exact hasi
  have htracks := h.tracks.access hkeep
  rw [hx] at htracks
  refine ⟨cs.mmuWritten r, ?_, ⟨htracks, ?_, ?_⟩, ?_, hlayout⟩
  · rw [mmuAccess, Caches.access, hk]
    rw [store, hnot.1, hnot.2, hcached]
    exact congrArg (fun w => some (forwardedResponse w.1, cs.mmuWritten r, w.2)) hx
  · rw [mmuWritten, if_pos hmmu]
    split <;> exact consistent_flushAll h.instruction _ _ _
  · rw [mmuWritten, if_pos hmmu]
    split
    · next hctx =>
      cases hp : u.mmuIsPresent with
      | false =>
        exact consistent_of_empty h.data.sets
          fun l hl => false_ne_true (hp.symm.trans (h.data.mmu l hl))
      | true =>
        rw [hmemory hp]
        have hw : u.writesTablePointer r = false := by
          have hnumber := number_of_isContextRegisterWrite hctx
          have hne : readBits r.address 31 8 ≠ 1 := by
            intro hone
            rw [hone] at hnumber
            cases hnumber
          rw [writesTablePointer, beq_eq_false_iff_ne.2 hne, Bool.and_false]
        exact h.data.of_kept (hsetup hctx) (subset_tableWords hw) (fun _ _ => .inl rfl)
          fun _ _ hcopy => hcopy
    · exact consistent_flushAll h.data _ _ _
  · rw [hflush, if_off, hx]

end Registers

/-- Every request of a core is answered. -/
theorem CoreOk.step (h : CoreOk dom W X univ cs (u, c)) (hs : Settings dom u)
    (hr : isCoreRequest r = true)
    (hva : u.writesData r = true → flushesCaches r = false → r.address.toNat % 8 = 0)
    (hkeep : flushesCaches r = false → KeepsTables dom u c W r) (hun : clearsData r = false →
      cs.data.Unaffected dom c (translatedMemory dom u c r) X) :
    ∃ y cs' x, Answered dom W X univ cs u c r y cs' x := by
  by_cases hcached : isCachedAsi r.asi = true ∧ r.accessType ≠ .FLUSH
  · obtain ⟨hasi, hne⟩ := hcached
    obtain ⟨hflush, -, hdata⟩ := flushesCaches_of_isCachedAsi hasi hne
    have hspace := asiSpace_of_isCachedAsi hasi
    cases hk : r.accessType with
    | IFETCH => exact h.fetchOrLoad hs (.inl hk) hasi (hun hdata)
    | LOAD => exact h.fetchOrLoad hs (.inr hk) hasi (hun hdata)
    | STORE =>
      have hwrites : u.writesData r = true := by simp [writesData, hk, hspace]
      exact h.write hs (.inl hk) hasi (hva hwrites hflush) (hkeep hflush) (hun hdata)
    | ATOMIC_LS =>
      have hwrites : u.writesData r = true := by simp [writesData, hk]
      exact h.write hs (.inr hk) hasi (hva hwrites hflush) (hkeep hflush) (hun hdata)
    | FLUSH => exact absurd hk hne
    | NO_ACCESS => simp [isCoreRequest, hk] at hr
    | READ_LINE => simp [isCoreRequest, hk] at hr
  · cases hflush : flushesCaches r with
    | true =>
      obtain ⟨cs', hanswered⟩ := h.flush hflush
      exact ⟨_, cs', _, hanswered⟩
    | false =>
      -- what is left are accesses to the MMU's own spaces
      have hne : r.accessType ≠ .FLUSH := by
        intro hk
        rw [flushesCaches, hk] at hflush
        exact false_ne_true hflush.symm
      have hasi : isCachedAsi r.asi = false := by
        cases hasi : isCachedAsi r.asi with
        | false => rfl
        | true => exact absurd ⟨hasi, hne⟩ hcached
      cases hk : r.accessType with
      | LOAD =>
        have hregister : r.asi = asiMmuRegister := by
          rw [isCoreRequest, hk] at hr
          simpa [hasi] using hr
        exact ⟨_, _, _, h.mmuRead rfl hk hregister⟩
      | STORE =>
        have hmmu : isMmuAsi r.asi = true := by
          rw [flushesCaches, hk] at hflush
          rw [isCoreRequest, hk] at hr
          simpa [hasi, show isFlushAsi r.asi = false from hflush] using hr
        obtain ⟨cs', hanswered⟩ := h.mmuWrite rfl hk hmmu (hkeep hflush)
        exact ⟨_, cs', _, hanswered⟩
      | FLUSH => exact absurd hk hne
      | IFETCH => simp [isCoreRequest, hk, hasi] at hr
      | ATOMIC_LS => simp [isCoreRequest, hk, hasi] at hr
      | NO_ACCESS => simp [isCoreRequest, hk] at hr
      | READ_LINE => simp [isCoreRequest, hk] at hr

end Step

end SparcV8
