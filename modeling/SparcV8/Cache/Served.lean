import SparcV8.Cache.Consistency

/-!
# What one request does

A request to a cached address space is served from a line or by the MMU, or refused. The rights kept
with a line are those of the page, so that a store which the MMU lets through hits every line of its
address.
-/

namespace SparcV8

open L1CachesCore MmuCore Words CacheArray Pte SystemAddressMap Set MemCore Caches
  VirtualMemoryRequest

/-! ## Rights -/

theorem toNat_acc_lt (pte : Word) : (acc pte).toNat < 8 :=
  toNat_readBits_lt pte (by decide)

/-- What the MMU allows, the cache allows; what the cache allows to read, the MMU allows; and who
may write a page may read it. -/
theorem rights {acc asi : Word} (hacc : acc.toNat < 8) (hasi : isCachedAsi asi = true) :
    (∀ isWrite, permissionFault acc.toNat (computeAccessType asi isWrite) = .NONE →
      accessAllowed acc asi isWrite = true) ∧
    (accessAllowed acc asi false = true →
      permissionFault acc.toNat (computeAccessType asi false) = .NONE) ∧
    (permissionFault acc.toNat (computeAccessType asi true) = .NONE →
      permissionFault acc.toNat (computeAccessType asi false) = .NONE) := by
  have hcases : acc.toNat = 0 ∨ acc.toNat = 1 ∨ acc.toNat = 2 ∨ acc.toNat = 3 ∨ acc.toNat = 4 ∨
      acc.toNat = 5 ∨ acc.toNat = 6 ∨ acc.toNat = 7 := by omega
  unfold accessAllowed permissionFault
  rcases eq_of_isCachedAsi hasi with rfl | rfl | rfl | rfl <;>
    rcases hcases with h | h | h | h | h | h | h | h <;> rw [h] <;> decide

namespace MmuCore

/-- A leaf refuses an access by its rights alone. -/
theorem checkFault_of_leaf {pte asi : Word} (h : entryType pte = etPte) (isWrite : Bool) :
    (checkFault asi isWrite false pte).2 =
      permissionFault (acc pte).toNat (computeAccessType asi isWrite) := by
  have hfault (accessType : AccessType) :
      computeFaultType accessType pte = permissionFault (acc pte).toNat accessType := by
    rw [computeFaultType, h, if_neg (by decide), if_neg (by decide)]
  rw [checkFault, if_neg (fun hc => absurd hc.1 Bool.false_ne_true), hfault]

/-! ## The MMU -/

variable {r : VirtualMemoryRequest}

section Requests

variable {τ : Type} (phys : PhysicalMemory τ) {u : MmuCore}

/-- The kinds of request that a cached address space has. -/
def isDataRequest (r : VirtualMemoryRequest) : Bool :=
  r.accessType == .IFETCH || r.accessType == .LOAD || r.accessType == .STORE ||
    r.accessType == .ATOMIC_LS || r.accessType == .READ_LINE

/-- A request for data of a cached address space. -/
structure CachedRequest (r : VirtualMemoryRequest) : Prop where
  asi : isCachedAsi r.asi = true
  kind : isDataRequest r = true

theorem CachedRequest.of_reads (hasi : isCachedAsi r.asi = true) (hk : r.Reads) :
    CachedRequest r := by
  refine ⟨hasi, ?_⟩
  rcases hk with hk | hk <;> rw [isDataRequest, hk] <;> rfl

theorem CachedRequest.of_stores (hasi : isCachedAsi r.asi = true) (hk : r.Stores) :
    CachedRequest r := by
  refine ⟨hasi, ?_⟩
  rcases hk with hk | hk <;> rw [isDataRequest, hk] <;> rfl

theorem CachedRequest.translatesRequest (hr : CachedRequest r) :
    u.translatesRequest r = u.translates := by
  have hk := hr.kind
  refine translatesRequest_of_isCachedAsi hr.asi (fun h => ?_) (fun h => ?_) <;>
    simp [isDataRequest, h] at hk

theorem CachedRequest.writesTablePointer (hr : CachedRequest r) : u.writesTablePointer r = false :=
  writesTablePointer_of_asiSpace (asiSpace_of_isCachedAsi hr.asi) (by decide)

/-- A request to a cached space is refused by its translation, or completed after it. -/
theorem access_of_cachedRequest (hp : u.mmuIsPresent = true) (hr : CachedRequest r) (m : τ) :
    access phys r (u, m) =
      match u.translateRequest phys r m with
      | (none, u', m') => (u'.refusal r, (u', m'))
      | (some t, u', m') => u'.complete phys r t m' := by
  cases ht : u.translates with
  | true => exact access_of_translatesRequest phys (hr.translatesRequest.trans ht) m
  | false =>
    have hoff : (!u.mmuIsPresent || !u.mmuEnabled) = true := by rw [not_translates, ht]; rfl
    have htranslate (isFetch isWrite isAtomic : Bool) :
        u.translate phys r.address r.asi isFetch isWrite isAtomic m =
          (some { physicalAddr := r.address.setWidth 64, cacheable := u.alwaysCacheable,
                  acc := 3 }, u, m) := by
      rw [translate, if_pos hoff, hp]
      rfl
    obtain ⟨hasi, hk⟩ := hr
    have hspace := asiSpace_of_isCachedAsi hasi
    have hpass := (not_flush_of_isCachedAsi hasi).2.2.2
    rw [translateRequest, htranslate]
    unfold access handleReadAccess handleWriteAccess handleAtomicAccess handleReadLine complete
    cases hkind : r.accessType with
    | IFETCH => simp [htranslate, hp, hspace]
    | LOAD => simp only [htranslate, hp, hspace, Bool.not_true, if_off]
    | STORE => simp [htranslate, hp, hspace]
    | ATOMIC_LS => simp only [htranslate, hp, Bool.not_true, if_off]
    | READ_LINE =>
      have hoff' : (!u.mmuIsPresent || asiMmuPassThrough (r.asi.setWidth 8) || !u.mmuEnabled) =
          true := by rw [hpass, Bool.or_false, hoff]
      dsimp only
      rw [if_pos hoff', if_pos hp, untranslatedCacheable, hpass, Bool.not_false, Bool.true_and]
    | FLUSH => simp [isDataRequest, hkind] at hk
    | NO_ACCESS => simp [isDataRequest, hkind] at hk

end Requests

section Cases

variable {dom : Nat → Bool} {u : MmuCore} {c : Words} {W : Set Nat}

/-- A request to a cached space is refused, or goes where its address is mapped. -/
theorem access_cases (hag : TlbAgrees dom u c W) (hp : u.mmuIsPresent = true)
    (hr : CachedRequest r) :
    u.faultsRequest dom c r = true ∧
        access (ram dom) r (u, c) =
          ((u.afterRefusal dom c r).refusal r, (u.afterRefusal dom c r, c)) ∨
      u.faultsRequest dom c r = false ∧ ∃ t u' c', Translated dom W u c r t u' c' ∧
        access (ram dom) r (u, c) =
          u'.complete (ram dom) r t c' := by
  cases hf : u.faultsRequest dom c r with
  | true => exact .inl ⟨rfl, access_of_faultsRequest hf⟩
  | false =>
    obtain ⟨t, u', c', ht⟩ :=
      exists_translated hag hp hr.translatesRequest hr.writesTablePointer hf
    refine .inr ⟨rfl, t, u', c', ht, ?_⟩
    rw [access_of_cachedRequest _ hp hr, ht.translate_eq]

/-- Whether a request is refused, by the rights of the page of its address. -/
theorem faultsRequest_of_leaf (hag : TlbAgrees dom u c W) (hr : CachedRequest r)
    (hatomic : r.isAtomic = false)
    (hleaf : u.translates = true → entryType (u.walkEnd dom c r.address).pte = etPte) :
    u.faultsRequest dom c r = (u.translates &&
      permissionFault (u.mappedTo dom c u.contextRegister r.address).acc.toNat
        (computeAccessType r.asi r.isWrite) != .NONE) := by
  rw [faultsRequest, hr.translatesRequest, faults, hatomic]
  cases ht : u.translates with
  | false => rfl
  | true =>
    have hreflects := (reflects_foundEntry hag r.address).2
    have hcheck := checkFault_of_reflects hreflects r.asi r.isWrite false
    have hacc : (u.mappedTo dom c u.contextRegister r.address).acc =
        acc (u.walkEnd dom c r.address).pte := by
      rw [mappedTo_of_translates ht]
      rfl
    rw [← hcheck, checkFault_of_leaf (hleaf ht), hacc]
    rfl

theorem toNat_acc_mappedTo_lt (context va : Word) :
    (u.mappedTo dom c context va).acc.toNat < 8 := by
  cases ht : u.translates with
  | true =>
    rw [mappedTo_of_translates ht]
    exact toNat_acc_lt _
  | false =>
    rw [mappedTo_of_not_translates ht]
    exact (by decide : (3 : Word).toNat < 8)

/-- A request is let through exactly when the rights of its page allow it. -/
theorem permissionFault_iff (hag : TlbAgrees dom u c W) (hr : CachedRequest r)
    (hatomic : r.isAtomic = false)
    (hleaf : u.translates = true → entryType (u.walkEnd dom c r.address).pte = etPte) :
    u.faultsRequest dom c r = false ↔
      permissionFault (u.mappedTo dom c u.contextRegister r.address).acc.toNat
        (computeAccessType r.asi r.isWrite) = .NONE := by
  rw [faultsRequest_of_leaf hag hr hatomic hleaf]
  cases ht : u.translates with
  | true => simp
  | false =>
    have hall : ∀ accessType, permissionFault 3 accessType = .NONE := by
      intro accessType
      cases accessType <;> rfl
    rw [mappedTo_of_not_translates ht]
    simpa using hall _

/-- The walk for a request that is let through ends at a leaf. -/
theorem leaf_of_not_faultsRequest (hag : TlbAgrees dom u c W) (hr : CachedRequest r)
    (hf : u.faultsRequest dom c r = false) (ht : u.translates = true) :
    entryType (u.walkEnd dom c r.address).pte = etPte := by
  rw [faultsRequest, hr.translatesRequest, ht, Bool.true_and] at hf
  exact (reflects_foundEntry hag r.address).2.entryType.trans (entryType_of_not_faults ht hf)

/-- With the no-fault bit clear every refusal reports an exception. -/
theorem mae_refusal (hnf : readBits u.controlRegister 1 1 = 0) :
    ((u.afterRefusal dom c r).refusal r).mae = true := by
  have hclear : (readBits u.controlRegister 1 1 != 0) = false := by rw [hnf]; rfl
  rw [refusal, afterRefusal, noFaultSuppressesTrap_recordFault, noFaultSuppressesTrap, hclear]
  rfl

theorem setup_afterRefusal : (u.afterRefusal dom c r).setup = u.setup := by
  have hfault : (u.afterRefusal dom c r).withoutFault = u.withoutFault :=
    withoutFault_afterRefusal
  have hsetup := congrArg setup hfault
  exact hsetup

/-- The entry that an access finds for a settled address is marked referenced. -/
theorem referenced_foundEntry (hag : TlbAgrees dom u c W) (ht : u.translates = true)
    {va : Word} (hs : u.Settled dom c u.contextRegister va W) :
    referenced (u.foundEntry dom c va).pte ≠ 0 := by
  rw [← (reflects_foundEntry hag va).2.referenced]
  exact hs.referenced ht

/-- The MMU after an access to memory. -/
abbrev reached (u : MmuCore) (t : Translation) : MmuCore :=
  { u with lastPhysicalAddress := t.physicalAddr }

theorem complete_store (hk : r.accessType = .STORE) (t : Translation) :
    u.complete (ram dom) r t c =
      ({ cacheable := t.cacheable && u.isCacheableTarget t.physicalAddr,
         physicalAddress := t.physicalAddr, physicalAddressValid := true },
        (u.reached t, c.stored dom t.physicalAddr r.word0 r.word1 r.byteMask)) := by
  unfold complete
  simp [hk, writePhysicalMaskedDoubleWord_eq]

theorem complete_atomic (hk : r.accessType = .ATOMIC_LS) (t : Translation) :
    u.complete (ram dom) r t c =
      ({ readWord0 := c.read dom (t.physicalAddr.toNat / 4),
         readWord1 := c.read dom (t.physicalAddr.toNat / 4 + 1),
         physicalAddress := t.physicalAddr, physicalAddressValid := true },
        (u.reached t, c.stored dom t.physicalAddr r.word0 r.word1 r.byteMask)) := by
  unfold complete
  simp only [hk, atomicReadModifyWritePhysical_eq]

theorem complete_readLine (hk : r.accessType = .READ_LINE) (t : Translation) :
    u.complete (ram dom) r t c =
      ({ readWord0 := lowWord (u.lineFound dom c t r.byteMask (lineOffset t.physicalAddr))
         readWord1 := highWord (u.lineFound dom c t r.byteMask (lineOffset t.physicalAddr))
         line := u.lineFound dom c t r.byteMask
         cacheable := t.cacheable && u.isCacheableTarget t.physicalAddr
         acc := t.acc, physicalAddress := t.physicalAddr }, (u, c)) := by
  unfold complete
  simp only [hk, readLineAt_eq]

variable (dom c) in
/-- Without an MMU a line read is not cacheable. -/
theorem access_readLine_of_absent (hp : u.mmuIsPresent = false) (hk : r.accessType = .READ_LINE) :
    access (ram dom) r (u, c) =
      let t : Translation := { physicalAddr := r.address.setWidth 64, cacheable := false, acc := 3 }
      ({ readWord0 := lowWord (u.lineFound dom c t r.byteMask (lineOffset t.physicalAddr))
         readWord1 := highWord (u.lineFound dom c t r.byteMask (lineOffset t.physicalAddr))
         line := u.lineFound dom c t r.byteMask
         cacheable := false, acc := 3, physicalAddress := t.physicalAddr }, (u, c)) := by
  have heq : access (ram dom) r (u, c) =
      u.complete (ram dom) r
        { physicalAddr := r.address.setWidth 64, cacheable := false, acc := 3 } c := by
    simp [access, hk, handleReadLine, hp, complete]
  rw [heq, complete_readLine hk]
  rfl

end Cases

end MmuCore

/-! ## Reads -/

/-- Every line of main memory is there. -/
def HasLines (dom : Nat → Bool) (l : Layout) : Prop :=
  ∀ a, decode l a = .MAIN_MEMORY →
    ∀ i < 16, dom (16 * (a.toNat / 64) + i) = true

/-- The lines of the flat layout. -/
theorem hasLines_flat : HasLines SystemBus.dom {} := by
  have hsize : memSize = 4 * nwords := rfl
  have hwords : nwords = 16 * 4194304 := rfl
  intro a ha i hi
  rw [SystemBus.decode_flat] at ha
  exact decide_eq_true (by omega)

/-- The settings of an MMU under which its caches are used. -/
structure Settings (dom : Nat → Bool) (u : MmuCore) : Prop where
  noFault : readBits u.controlRegister 1 1 = 0
  context_lt : u.contextRegister.toNat < 256
  lines : HasLines dom u.layout

section Served

open MmuCore

variable (dom : Nat → Bool) (W : Set Nat) (u : MmuCore) (c : Words) (a : CacheArray)
  (r : VirtualMemoryRequest)

/-- The ways a read is served: what the core gets and the cache after it, and the MMU and the
memory. -/
inductive ReadServed : VirtualMemoryResponse × CacheArray → MmuCore × Words → Prop
  | hit {l : Line} (hline : allowedLine a r u.contextRegister false = some l) :
      ReadServed (serveRead r (readDoubleword l r.address), a) (u, c)
  | absent (hp : u.mmuIsPresent = false) :
      ReadServed
        (serveRead r (u.lineFound dom c
          { physicalAddr := r.address.setWidth 64, cacheable := false, acc := 3 }
          (lineRequest r).byteMask (dwordIndex r.address)), a)
        (u, c)
  | refused (hf : u.faultsRequest dom c (lineRequest r) = true) :
      ReadServed ({ mae := true }, a) (u.afterRefusal dom c (lineRequest r), c)
  | uncached {t : Translation} {u' : MmuCore} {c' : Words}
      (ht : Translated dom W u c (lineRequest r) t u' c')
      (hc : (t.cacheable && u'.isCacheableTarget t.physicalAddr) = false) :
      ReadServed
        (serveRead r (u'.lineFound dom c' t (lineRequest r).byteMask
          (dwordIndex r.address)), a)
        (u', c')
  | filled {t : Translation} {u' : MmuCore} {c' : Words} {a' : CacheArray}
      (hp : u.mmuIsPresent = true) (ht : Translated dom W u c (lineRequest r) t u' c')
      (hc : (t.cacheable && u'.isCacheableTarget t.physicalAddr) = true)
      (hfill : (a.invalidatePhysicalLine t.physicalAddr).fill r.address u.contextRegister t.acc
        (c'.lineAt dom (t.physicalAddr.toNat / 64)) t.physicalAddr = some a') :
      ReadServed
        (serveRead r (c'.lineAt dom (t.physicalAddr.toNat / 64)
          (dwordIndex r.address)), a')
        (u', c')

variable {dom W u c a r} {X : Set Nat}

variable {c' : Words}
variable {t : Translation} {u' : MmuCore}

/-- A line of main memory that a translation goes to is put into the cache. -/
theorem MmuCore.Translated.exists_fill (ht : Translated dom W u c r t u' c')
    (ha : a.Consistent dom u c W X) (hp : u.mmuIsPresent = true) (hs : Settings dom u)
    (hw : u.writesTablePointer r = false)
    (hc : (t.cacheable && u'.isCacheableTarget t.physicalAddr) = true) :
    ∃ a', (a.invalidatePhysicalLine t.physicalAddr).fill r.address u.contextRegister t.acc
      (c'.lineAt dom (t.physicalAddr.toNat / 64)) t.physicalAddr = some a' := by
  have hsetup := ht.registers.1
  have ha' : a.Consistent dom u' c' (tableWords dom u c W r) univ :=
    ha.of_kept hsetup (subset_tableWords hw) (fun i _ => ht.kept i)
      fun _ _ _ _ _ hX => absurd (mem_univ _) hX
  obtain ⟨a', hfill, -⟩ := ha'.exists_fill hs.context_lt ((congrArg Prod.fst hsetup).trans hp)
    ht.mapped_after.symm ht.settled (hs.lines _ (ht.decode_eq hc))
  exact ⟨a', hfill⟩

variable {context : Word} {z : VirtualMemoryResponse}

/-- A read that misses, by the answer to its line read. -/
theorem read_of_miss {σ : Type} {downstream : VirtualMemory σ} {x x' : σ}
    {y : VirtualMemoryResponse × CacheArray} (hline : allowedLine a r context false = none)
    (hacc : downstream.access (lineRequest r) x = (z, x'))
    (hfilled : filled context r z a = some y) :
    Caches.read downstream context r a x = some (y, x') := by
  rw [Caches.read, hline]
  dsimp only
  rw [hacc, hfilled]
  rfl

/-- The answer to a line read that is not cacheable. -/
theorem filled_of_not_cacheable (hmae : z.mae = false) (hc : z.cacheable = false) :
    filled context r z a =
      some (serveRead r (z.line (dwordIndex r.address)), a) := by
  rw [filled, hmae, hc]
  rfl

/-- Every read is served in one of these ways. -/
theorem exists_readServed (hag : TlbAgrees dom u c W) (ha : a.Consistent dom u c W X)
    (hs : Settings dom u) (hasi : isCachedAsi r.asi = true) :
    ∃ y x, Caches.read (virtualMemory (ram dom)) u.contextRegister
        r a (u, c) = some (y, x) ∧ ReadServed dom W u c a r y x := by
  cases hline : allowedLine a r u.contextRegister false with
  | some l =>
    rw [Caches.read, hline]
    exact ⟨_, _, rfl, .hit hline⟩
  | none =>
    cases hp : u.mmuIsPresent with
    | false =>
      have heq := access_readLine_of_absent dom c (r := lineRequest r) hp rfl
      exact ⟨_, _, read_of_miss hline heq (filled_of_not_cacheable rfl rfl), .absent hp⟩
    | true =>
      have hr : CachedRequest (lineRequest r) := ⟨hasi, rfl⟩
      rcases access_cases hag hp hr with ⟨hf, heq⟩ | ⟨hf, t, u', c', ht, heq⟩
      · refine ⟨_, _, read_of_miss hline heq ?_, .refused hf⟩
        rw [filled, mae_refusal hs.noFault, if_pos rfl]
      · rw [complete_readLine rfl] at heq
        cases hc : t.cacheable && u'.isCacheableTarget t.physicalAddr with
        | false =>
          exact ⟨_, _, read_of_miss hline heq (filled_of_not_cacheable rfl hc), .uncached ht hc⟩
        | true =>
          obtain ⟨a', hfill⟩ := ht.exists_fill ha hp hs hr.writesTablePointer hc
          have hfound : u'.lineFound dom c' t (lineRequest r).byteMask =
              c'.lineAt dom (t.physicalAddr.toNat / 64) := by
            rw [lineFound, hc, if_pos rfl]
          rw [hfound, hc] at heq
          refine ⟨_, _, read_of_miss hline heq ?_, .filled hp ht hc hfill⟩
          have hinstall := congrArg (Option.map fun cache => (serveRead r
            (c'.lineAt dom (t.physicalAddr.toNat / 64) (dwordIndex r.address)),
            cache)) hfill
          exact hinstall

/-! ## Stores and atomics -/

/-- What the core gets from a store, or from an atomic at a physical address. -/
def writeAnswer (dom : Nat → Bool) (c : Words) (r : VirtualMemoryRequest)
    (pa : BitVec 64) : VirtualMemoryResponse :=
  if r.accessType = .ATOMIC_LS then
    { readWord0 := c.read dom (pa.toNat / 4), readWord1 := c.read dom (pa.toNat / 4 + 1) }
  else {}

variable (dom W u c a r)

/-- The memory after a store or an atomic at a physical address. -/
abbrev writtenTo (pa : BitVec 64) : Words := c.stored dom pa r.word0 r.word1 r.byteMask

/-- The ways in which a store or an atomic is served. -/
inductive WriteServed : VirtualMemoryResponse × CacheArray → MmuCore × Words → Prop
  | absent (hp : u.mmuIsPresent = false) :
      WriteServed (writeAnswer dom c r (r.address.setWidth 64), a)
        (u, writtenTo dom c r (r.address.setWidth 64))
  | refused (hf : u.faultsRequest dom c r = true) :
      WriteServed ({ mae := true }, a) (u.afterRefusal dom c r, c)
  | hit {t : Translation} {u' : MmuCore} {c' : Words} {l : Line}
      (hp : u.mmuIsPresent = true) (ht : Translated dom W u c r t u' c')
      (hfind : a.find r.address u.contextRegister = some l) :
      WriteServed
        (writeAnswer dom c' r t.physicalAddr,
          a.writeBytes r.address u.contextRegister (storeData r) (r.byteMask.setWidth 8))
        (u'.reached t, writtenTo dom c' r t.physicalAddr)
  | past {t : Translation} {u' : MmuCore} {c' : Words}
      (hp : u.mmuIsPresent = true) (ht : Translated dom W u c r t u' c') :
      WriteServed
        (writeAnswer dom c' r t.physicalAddr, a.invalidatePhysicalLine t.physicalAddr)
        (u'.reached t, writtenTo dom c' r t.physicalAddr)
  | allocated {t : Translation} {u' u₂ : MmuCore} {c' : Words} {a' : CacheArray}
      (hp : u.mmuIsPresent = true) (ht : Translated dom W u c r t u' c')
      (hc : (t.cacheable && u'.isCacheableTarget t.physicalAddr) = true)
      (ht₂ : Translated dom (tableWords dom u c W r)
        (u'.reached t) (writtenTo dom c' r t.physicalAddr) (allocateRequest r) t u₂
        (writtenTo dom c' r t.physicalAddr))
      (hfill : (a.invalidatePhysicalLine t.physicalAddr).fill r.address u.contextRegister t.acc
        ((writtenTo dom c' r t.physicalAddr).lineAt dom (t.physicalAddr.toNat / 64))
        t.physicalAddr = some a') :
      WriteServed (writeAnswer dom c' r t.physicalAddr, a')
        (u₂, writtenTo dom c' r t.physicalAddr)

variable {dom W u c a r}

/-- The line read after a store goes to the same place and updates nothing. -/
theorem MmuCore.Translated.exists_allocate {c₁ : Words} (ht : Translated dom W u c r t u' c')
    (hag : TlbAgrees dom u c W) (hp : u.mmuIsPresent = true) (hasi : isCachedAsi r.asi = true)
    (hk : r.accessType = .STORE) (hf : u.faultsRequest dom c r = false)
    (hkeep : ∀ i ∈ tableWords dom u c W r, c₁.read dom i = c'.read dom i) :
    ∃ u₂, Translated dom (tableWords dom u c W r) (u'.reached t) c₁ (allocateRequest r) t
        u₂ c₁ ∧
      MmuCore.access (ram dom) (allocateRequest r) (u'.reached t, c₁) =
        u₂.complete (ram dom) (allocateRequest r) t c₁ := by
  have hr : CachedRequest r := .of_stores hasi (.inl hk)
  have hwrite : r.isWrite = true := by rw [isWrite, hk]
  obtain ⟨hsetup, hctx, -⟩ := ht.registers
  have hp' : u'.mmuIsPresent = true := (congrArg Prod.fst hsetup).trans hp
  -- the page may be written, so it may be read
  have hperm := (permissionFault_iff hag hr (by rw [isAtomic, hk])
    (leaf_of_not_faultsRequest hag hr hf)).1 hf
  rw [hwrite, ← ht.mapped] at hperm
  have hread := (rights (ht.mapped ▸ toNat_acc_mappedTo_lt _ _) hasi).2.2 hperm
  set u₁ : MmuCore := u'.reached t with hu₁
  have hkept : ∀ i ∈ tableWords dom u c W r, Kept (c'.read dom i) (c₁.read dom i) :=
    fun i hi => .inl (hkeep i hi)
  have hag₁ : TlbAgrees dom u₁ c₁ (tableWords dom u c W r) :=
    ht.agrees.of_tables rfl (fun _ _ he => he) rfl hkeep
  have hsettled : u₁.Settled dom c₁ u.contextRegister r.address (tableWords dom u c W r) :=
    ht.settled.of_kept rfl (Subset.refl _) hkept
  have hmapped : u₁.mappedTo dom c₁ u.contextRegister r.address = t :=
    (ht.settled.mappedTo_of_kept rfl hkept).trans ht.mapped_after
  have hctx₁ : u₁.contextRegister = u.contextRegister := hctx
  have hf₁ : u₁.faultsRequest dom c₁ (allocateRequest r) = false := by
    refine (permissionFault_iff (r := allocateRequest r) hag₁ ⟨hasi, rfl⟩ rfl ?_).2 ?_
    · rw [walkEnd, hctx₁]
      exact hsettled.leaf
    · rw [hctx₁]
      exact hmapped ▸ hread
  rcases access_cases (r := allocateRequest r) hag₁ hp' ⟨hasi, rfl⟩ with
    ⟨hf', -⟩ | ⟨-, t₂, u₂, c₂, ht₂, heq⟩
  · cases hf₁.symm.trans hf'
  · have hsame₂ : t₂ = t := by
      rw [ht₂.mapped, hctx₁]
      exact hmapped
    have hmem : c₂ = c₁ := by
      refine ht₂.unchanged fun htr => ?_
      have href := referenced_foundEntry hag₁ htr (hctx₁ ▸ hsettled)
      rw [computeAndStageRMUpdate, if_pos]
      rw [show (allocateRequest r).isWrite = false from rfl, Bool.false_and, Bool.not_false,
        Bool.and_true, Bool.not_eq_true', beq_eq_false_iff_ne]
      exact href
    subst hsame₂ hmem
    exact ⟨u₂, ht₂, heq⟩

/-- A store that the MMU lets through may write the line of its address. -/
theorem allowedLine_of_find (hag : TlbAgrees dom u c W) (ha : a.Consistent dom u c W X)
    (hctx : u.contextRegister.toNat < 256) (hasi : isCachedAsi r.asi = true)
    (hk : r.accessType = .STORE) (hf : u.faultsRequest dom c r = false) {l : Line}
    (hfind : a.find r.address u.contextRegister = some l) :
    allowedLine a r u.contextRegister true = some l := by
  obtain ⟨hsettled, -, hacc, -⟩ := ha.of_find hctx hfind
  have hperm := (permissionFault_iff hag (.of_stores hasi (.inl hk)) (by rw [isAtomic, hk])
    hsettled.leaf).1 hf
  rw [isWrite, hk, ← hacc] at hperm
  rw [allowedLine, hfind, Option.filter_some, if_pos]
  exact (rights (hacc ▸ toNat_acc_mappedTo_lt _ _) hasi).1 true hperm

theorem allowedLine_eq_none {isWrite : Bool} (hfind : a.find r.address context = none) :
    allowedLine a r context isWrite = none := by
  rw [allowedLine, hfind, Option.filter_none]

theorem find_of_absent (ha : a.Consistent dom u c W X) (hp : u.mmuIsPresent = false)
    (va context : Word) : a.find va context = none :=
  find_of_not_holds (fun l hl => Bool.false_ne_true (hp.symm.trans (ha.mmu l hl))) _ _

variable {cs : Caches}

section Store

variable {τ : Type} {phys : PhysicalMemory τ} {x x' x₂ : MmuCore × τ} {y : VirtualMemoryResponse}

/-- A store that is answered with an exception goes past the caches. -/
theorem store_of_mae (hasi : isCachedAsi r.asi = true) (hacc : MmuCore.access phys r x = (z, x'))
    (hmae : z.mae = true) (hy : forwardedResponse z = y) :
    store (virtualMemory phys) context r (cs, x) = some (y, (cs, x')) := by
  obtain ⟨hd, hi, hmmu, -⟩ := not_flush_of_isCachedAsi hasi
  have hacc' : (virtualMemory phys).access r x = (z, x') := hacc
  rw [store, hd, hi]
  dsimp only
  rw [hacc', hmae, hasi, Caches.mmuWritten, if_neg hmmu, hy]
  rfl

/-- Any other store of data is followed up in the data cache. -/
theorem store_of_stored (hasi : isCachedAsi r.asi = true)
    (hacc : MmuCore.access phys r x = (z, x')) (hmae : z.mae = false) (hy : forwardedResponse z = y)
    (hstored : Caches.stored (virtualMemory phys) context r z cs.data x' = some (a, x₂)) :
    store (virtualMemory phys) context r (cs, x) =
      some (y, ({ cs with data := a }, x₂)) := by
  obtain ⟨hd, hi, -, -⟩ := not_flush_of_isCachedAsi hasi
  have hacc' : (virtualMemory phys).access r x = (z, x') := hacc
  rw [store, hd, hi]
  dsimp only
  rw [hacc', hmae, hasi]
  rw [hstored, hy]
  rfl

/-- A store to a line not in the cache reads the line, if it is cacheable. -/
theorem stored_of_allocate {z₂ : VirtualMemoryResponse} {data : CacheArray}
    (hfind : a.find r.address context = none) (hc : z.cacheable = true)
    (hacc : MmuCore.access phys (allocateRequest r) x = (z₂, x₂)) (hmae : z₂.mae = false)
    (hc₂ : z₂.cacheable = true) (hinstall : installLine a r context z₂ = some data) :
    Caches.stored (virtualMemory phys) context r z a x = some (data, x₂) := by
  have hacc' : (virtualMemory phys).access (allocateRequest r) x = (z₂, x₂) := hacc
  rw [Caches.stored, allowedLine_eq_none hfind, hc]
  dsimp only
  rw [hacc', Caches.allocated, hmae, hc₂, hfind, hinstall]
  rfl

end Store

/-- A store or an atomic of an absent MMU goes to the address as it is. -/
theorem access_store_of_absent (hp : u.mmuIsPresent = false) (hk : r.accessType = .STORE) :
    MmuCore.access (ram dom) r (u, c) =
      ({ physicalAddress := u.lastPhysicalAddress },
        (u, writtenTo dom c r (r.address.setWidth 64))) := by
  simp [MmuCore.access, hk, handleWriteAccess, hp, writePhysicalMaskedDoubleWord_eq]

theorem access_atomic_of_absent (hp : u.mmuIsPresent = false) (hk : r.accessType = .ATOMIC_LS) :
    MmuCore.access (ram dom) r (u, c) =
      ({ readWord0 := c.read dom ((r.address.setWidth 64).toNat / 4),
         readWord1 := c.read dom ((r.address.setWidth 64).toNat / 4 + 1),
         physicalAddress := u.lastPhysicalAddress },
        (u, writtenTo dom c r (r.address.setWidth 64))) := by
  simp [MmuCore.access, hk, handleAtomicAccess, hp, atomicReadModifyWritePhysical_eq]

/-- The data of a translated request do not change what the walks have read. -/
theorem kept_written (ht : Translated dom W u c r t u' c') (hasi : isCachedAsi r.asi = true)
    (hk : r.Stores) (heq : MmuCore.access (ram dom) r (u, c) =
      u'.complete (ram dom) r t c') (hkeep : KeepsTables dom u c W r) :
    ∀ i ∈ tableWords dom u c W r,
      (writtenTo dom c' r t.physicalAddr).read dom i = c'.read dom i := by
  intro i hi
  have hword := hkeep i hi
  rw [heq, ht.translatedMemory_eq (CachedRequest.of_stores hasi hk).translatesRequest] at hword
  rcases hk with hk | hk
  · rw [complete_store hk] at hword
    exact hword
  · rw [complete_atomic hk] at hword
    exact hword

/-- A store to a line of memory that is not in the cache. -/
theorem exists_allocated (ht : Translated dom W u c r t u' c') (hag : TlbAgrees dom u c W)
    (ha : cs.data.Consistent dom u c W X) (hs : Settings dom u)
    (hp : u.mmuIsPresent = true) (hasi : isCachedAsi r.asi = true)
    (hk : r.accessType = .STORE) (hf : u.faultsRequest dom c r = false)
    (hkept : ∀ i ∈ tableWords dom u c W r, (writtenTo dom c' r t.physicalAddr).read dom
      i = c'.read dom i) (hc : (t.cacheable && u'.isCacheableTarget t.physicalAddr) = true)
    (hfind : cs.data.find r.address u.contextRegister = none) (hz : z.cacheable = true) :
    ∃ a' u₂, Caches.stored (virtualMemory (ram dom)) u.contextRegister r z cs.data
        (u'.reached t, writtenTo dom c' r t.physicalAddr) =
          some (a', (u₂, writtenTo dom c' r t.physicalAddr)) ∧
      WriteServed dom W u c cs.data r (writeAnswer dom c' r t.physicalAddr, a')
        (u₂, writtenTo dom c' r t.physicalAddr) := by
  obtain ⟨u₂, ht₂, heq₂⟩ := ht.exists_allocate hag hp hasi hk hf hkept
  obtain ⟨hsetup, hcontext', hlayout⟩ := ht.registers
  have hlayout₂ : u₂.layout = u'.layout := ht₂.registers.2.2
  have ha' : cs.data.Consistent dom u' c' (tableWords dom u c W r) univ :=
    ha.of_kept hsetup (subset_tableWords
      (CachedRequest.of_stores hasi (.inl hk)).writesTablePointer)
      (fun i _ => ht.kept i) fun _ _ _ _ _ hX => absurd (mem_univ _) hX
  have ha₁ : cs.data.Consistent dom (u'.reached t) (writtenTo dom c' r t.physicalAddr)
      (tableWords dom u c W r) univ :=
    ha'.of_kept rfl (Subset.refl _) (fun i hi => .inl (hkept i hi))
      fun _ _ _ _ _ hX => absurd (mem_univ _) hX
  have hc₂ : (t.cacheable && u₂.isCacheableTarget t.physicalAddr) = true := by
    rw [isCacheableTarget, hlayout₂]
    exact hc
  have hs₁ : Settings dom (u'.reached t) :=
    ⟨(controlRegister_of_setup hsetup).symm ▸ hs.noFault, hcontext' ▸ hs.context_lt,
      hlayout ▸ hs.lines⟩
  obtain ⟨a', hfill⟩ := ht₂.exists_fill ha₁ ((congrArg Prod.fst hsetup).trans hp) hs₁
    (CachedRequest.writesTablePointer ⟨hasi, rfl⟩) hc₂
  rw [hcontext'] at hfill
  refine ⟨a', u₂, ?_, .allocated hp ht hc ht₂ hfill⟩
  rw [complete_readLine rfl] at heq₂
  have hfound : u₂.lineFound dom (writtenTo dom c' r t.physicalAddr) t
      (allocateRequest r).byteMask =
      (writtenTo dom c' r t.physicalAddr).lineAt dom (t.physicalAddr.toNat / 64) := by
    rw [lineFound, hc₂, if_pos rfl]
  rw [hfound, hc₂] at heq₂
  exact stored_of_allocate hfind hz heq₂ rfl rfl hfill

section

variable (hag : TlbAgrees dom u c W) (ha : cs.data.Consistent dom u c W X) (hs : Settings dom u)
  (hasi : isCachedAsi r.asi = true)
include hag ha hs hasi

/-- Every store is served in one of these ways. -/
theorem exists_storeServed (hk : r.accessType = .STORE) (hkeep : KeepsTables dom u c W r) :
    ∃ y x, store (virtualMemory (ram dom)) u.contextRegister r
        (cs, (u, c)) = some (y.1, ({ cs with data := y.2 }, x)) ∧
      WriteServed dom W u c cs.data r y x := by
  have hanswer (c : Words) (pa : BitVec 64) : {} = writeAnswer dom c r pa := by
    rw [writeAnswer, hk]
    rfl
  cases hp : u.mmuIsPresent with
  | false =>
    refine ⟨(writeAnswer dom c r (r.address.setWidth 64), cs.data), _,
      store_of_stored hasi (access_store_of_absent hp hk) rfl (hanswer _ _) ?_, .absent hp⟩
    rw [Caches.stored, allowedLine_eq_none (find_of_absent ha hp _ _)]
    rfl
  | true =>
    rcases access_cases hag hp (.of_stores hasi (.inl hk)) with
      ⟨hf, heq⟩ | ⟨hf, t, u', c', ht, heq⟩
    · refine ⟨({ mae := true }, cs.data), _, store_of_mae hasi heq (mae_refusal hs.noFault) ?_,
        .refused hf⟩
      rw [forwardedResponse, mae_refusal hs.noFault]
      rfl
    · have hkept := kept_written ht hasi (.inl hk) heq hkeep
      rw [complete_store hk] at heq
      cases hfind : cs.data.find r.address u.contextRegister with
      | some l =>
        refine ⟨(writeAnswer dom c' r t.physicalAddr, _), _,
          store_of_stored hasi heq rfl (hanswer _ _) ?_, .hit hp ht hfind⟩
        rw [Caches.stored, allowedLine_of_find hag ha hs.context_lt hasi hk hf hfind]
        rfl
      | none =>
        cases hc : t.cacheable && u'.isCacheableTarget t.physicalAddr with
        | false =>
          refine ⟨(writeAnswer dom c' r t.physicalAddr, _), _,
            store_of_stored hasi heq rfl (hanswer _ _) ?_, .past hp ht⟩
          rw [Caches.stored, allowedLine_eq_none hfind, hc]
          rfl
        | true =>
          rw [hc] at heq
          obtain ⟨a', u₂, hstored, hserved⟩ :=
            exists_allocated ht hag ha hs hp hasi hk hf hkept hc hfind
              (z := { cacheable := true, physicalAddress := t.physicalAddr,
                      physicalAddressValid := true }) rfl
          exact ⟨(writeAnswer dom c' r t.physicalAddr, a'), _,
            store_of_stored hasi heq rfl (hanswer _ _) hstored, hserved⟩

/-- Every atomic is served in one of these ways. -/
theorem exists_atomicServed (hk : r.accessType = .ATOMIC_LS) :
    ∃ y x, atomic (virtualMemory (ram dom)) u.contextRegister r
        (cs, (u, c)) = (y.1, ({ cs with data := y.2 }, x)) ∧
      WriteServed dom W u c cs.data r y x := by
  have hatomic {z : VirtualMemoryResponse} {x : MmuCore × Words}
      (hacc : MmuCore.access (ram dom) r (u, c) = (z, x)) :
      atomic (virtualMemory (ram dom)) u.contextRegister r
        (cs, (u, c)) =
        (forwardedResponse z, ({ cs with
          data := if z.mae then cs.data else swapped u.contextRegister r z cs.data }, x)) := by
    have hacc' : (virtualMemory (ram dom)).access r (u, c) =
        (z, x) := hacc
    rw [atomic]
    rw [hacc', hasi]
    cases z.mae <;> rfl
  have hanswer (c : Words) (pa : BitVec 64) :
      { readWord0 := c.read dom (pa.toNat / 4), readWord1 := c.read dom (pa.toNat / 4 + 1) } =
        writeAnswer dom c r pa := by
    rw [writeAnswer, hk]
    rfl
  cases hp : u.mmuIsPresent with
  | false =>
    refine ⟨(writeAnswer dom c r (r.address.setWidth 64), cs.data), _, ?_, .absent hp⟩
    rw [hatomic (access_atomic_of_absent hp hk), ← hanswer, swapped, find_of_absent ha hp]
    rfl
  | true =>
    rcases access_cases hag hp (.of_stores hasi (.inr hk)) with
      ⟨hf, heq⟩ | ⟨hf, t, u', c', ht, heq⟩
    · refine ⟨({ mae := true }, cs.data), _, ?_, .refused hf⟩
      rw [hatomic heq, forwardedResponse, mae_refusal hs.noFault]
      rfl
    · rw [complete_atomic hk] at heq
      cases hfind : cs.data.find r.address u.contextRegister with
      | some l =>
        refine ⟨(writeAnswer dom c' r t.physicalAddr, _), _, ?_, .hit hp ht hfind⟩
        rw [hatomic heq, ← hanswer, swapped, hfind]
        rfl
      | none =>
        refine ⟨(writeAnswer dom c' r t.physicalAddr, _), _, ?_, .past hp ht⟩
        rw [hatomic heq, ← hanswer, swapped, hfind]
        rfl

end

end Served

end SparcV8
