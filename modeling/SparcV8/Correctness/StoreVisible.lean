import SparcV8.Cache.Stepwise
import SparcV8.Mmu.Pages

/-!
# Stores to pages whose rights are rewritten

The rights of pages are rewritten at any time, also while a request is in progress. A line of the
data cache keeps the rights that its page had when it was filled. A store whose line lets it through
is written to the line; a store that finds no line has its line read, or removed.
-/

namespace SparcV8

open L1CachesCore MmuCore Words CacheArray SystemBus SteppedCore Option Line Pte Set Bool
  Translation VirtualMemoryRequest

/-! ## Bytes of a store -/

theorem mergeBytes_mergeBytes (dw data : BitVec 64) (mask : BitVec 8) :
    mergeBytes (mergeBytes dw data mask) data mask = mergeBytes dw data mask := by
  apply BitVec.eq_of_getLsbD_eq
  intro i hi
  rw [getLsbD_mergeBytes _ _ _ hi, getLsbD_mergeBytes _ _ _ hi]
  split <;> rfl

variable {dom : Nat → Bool} {c : Words} {va : Word} {pa : BitVec 64}

namespace Words

/-- A store merges its bytes into its doubleword. -/
theorem dwordAt_stored {a : BitVec 64} (ha : a.toNat % 8 = 0) (word0 word1 mask : Word)
    (h0 : dom (2 * (a.toNat / 8)) = true) (h1 : dom (2 * (a.toNat / 8) + 1) = true) :
    (c.stored dom a word0 word1 mask).dwordAt dom (a.toNat / 8) =
      mergeBytes (c.dwordAt dom (a.toNat / 8)) (doubleword word1 word0)
        (mask.setWidth 8) := by
  have hlow : 2 * (a.toNat / 8) = a.toNat / 4 := by omega
  rw [dwordAt, dwordAt, read_stored, read_stored,
    if_neg (fun hc => absurd hc.2 (by omega)), if_pos ⟨h1, by omega⟩, if_pos ⟨h0, hlow⟩,
    ← doubleword_words (mergeBytes _ _ _), lowWord_mergeBytes, highWord_mergeBytes,
    lowWord_doubleword, highWord_doubleword, lowWord_doubleword, highWord_doubleword]

variable (dom c) in
/-- The doubleword has the bytes of the store. -/
def HasBytes (r : VirtualMemoryRequest) (pa : BitVec 64) : Prop :=
  let dw := c.dwordAt dom (pa.toNat / 8)
  mergeBytes dw (storeData r) (r.byteMask.setWidth 8) = dw

/-- The doubleword of a line that an address selects, by the physical address. -/
theorem lineAt_dwordIndex (hpage : pa.toNat % 4096 = va.toNat % 4096) :
    c.lineAt dom (pa.toNat / 64) (dwordIndex va) =
      c.dwordAt dom (pa.toNat / 8) := by
  have hindex : 8 * (pa.toNat / 64) + (dwordIndex va).val = pa.toNat / 8 := by
    rw [toNat_dwordIndex]
    omega
  rw [lineAt, hindex]

end Words

variable {u : MmuCore}

namespace CacheArray

variable {u' : MmuCore} {c' : Words} {W W' : Set Nat} {l : Line} {context : Word}
  {a : CacheArray}

/-- A line that has the bytes of a store is left as it is by them. -/
theorem Line.write_eq_self {data : BitVec 64} {mask : BitVec 8}
    (h : mergeBytes (l.data (dwordIndex va)) data mask = l.data (dwordIndex va)) :
    l.write va data mask = l := by
  unfold write
  rw [h, Function.update_eq_self]

theorem Line.write_write (data : BitVec 64) (mask : BitVec 8) :
    (l.write va data mask).write va data mask = l.write va data mask := by
  refine write_eq_self ?_
  unfold write
  dsimp only
  rw [Function.update_self, mergeBytes_mergeBytes]

/-- A line stands for an address whose page it is in. -/
structure PageLine (dom : Nat → Bool) (u : MmuCore) (c : Words) (W : Set Nat) (l : Line)
    (va context : Word) : Prop where
  mmu : u.mmuIsPresent = true
  paged : u.Paged dom c context va W
  physicalLine_eq :
    l.physicalLine = (u.mappedTo dom c context va).physicalAddr >>> LOG_LINE_BYTES

theorem PageLine.of_samePage (h : PageLine dom u c W l va context)
    (hsetup : u'.setup = u.setup) (hW : W ⊆ W')
    (hk : ∀ i ∈ W, SamePage (c.read dom i) (c'.read dom i)) :
    PageLine dom u' c' W' l va context := by
  obtain ⟨hpaged, -, haddress, -⟩ := h.paged.of_samePage hsetup hW hk
  refine ⟨(congrArg Prod.fst hsetup).trans h.mmu, hpaged, ?_⟩
  rw [haddress]
  exact h.physicalLine_eq

theorem PageLine.of_physicalLine {l' : Line} (h : PageLine dom u c W l va context)
    (hline : l'.physicalLine = l.physicalLine) : PageLine dom u c W l' va context :=
  ⟨h.mmu, h.paged, hline.trans h.physicalLine_eq⟩

/-- The line found for an address is the one that the address is mapped to. -/
theorem Addressed.pageLine_of_find (h : a.Addressed (PageLine dom u c W))
    (hctx : context.toNat < 256) (hfind : a.find va context = some l) :
    PageLine dom u c W l va context := by
  refine h.of_find hctx hfind fun va' hline hpage => ?_
  obtain ⟨hwalk, hpath⟩ : tableWalk dom u.contextTablePointerRegister c context va' = _ ∧ _ :=
    tableWalk_of_sameLine hline u.contextTablePointerRegister
  refine ⟨hpage.mmu, ⟨fun ht => hwalk ▸ hpage.paged.leaf ht, fun ht => ?_⟩,
    hpage.physicalLine_eq.trans (mappedTo_of_sameLine hline).1⟩
  rw [← hpath]
  exact hpage.paged.path_subset ht

end CacheArray

namespace SteppedCore

variable {τ : Type} {phys : PhysicalMemory τ} (p : PlainMemory phys) (s : SteppedCore τ)

/-! ## The invariant -/

/-- A store to a cached address space. -/
def IsCachedStore (r : VirtualMemoryRequest) : Prop :=
  r.accessType = .STORE ∧ isCachedAsi r.asi = true

instance (r : VirtualMemoryRequest) : Decidable (IsCachedStore r) :=
  inferInstanceAs (Decidable (_ ∧ _))

/-- The tables are rewritten only in rights, referenced and modified bits. -/
def RewritesRights : Event τ → Prop
  | .serve => KeepsPages p.dom s.mmu (s.contents p) s.words s.caches.downstreamRequest
  | .change m => ∀ i ∈ s.words,
      SamePage ((s.contents p).read p.dom i) ((p.contents m).read p.dom i)
  | .begin _ | .downstreamDone | .invalidatePhysicalLine _ => True

/-- Every line of the data cache is in the page of its address. -/
def Mapped : Prop :=
  s.caches.dataCache.Addressed (PageLine p.dom s.mmu (s.contents p) s.words)

/-- The address of the request is in a page. -/
def OnPage : Prop :=
  s.mmu.Paged p.dom (s.contents p) s.caches.context s.caches.request.address s.words

/-- The line has the bytes of the last store, if they went to it. -/
def Shows (l : Line) : Prop :=
  IsCachedStore s.caches.request → s.caches.response.mae = false →
    ∀ pa, s.storedTo = some pa → l.physicalLine = pa >>> LOG_LINE_BYTES →
      l.write s.caches.request.address (storeData s.caches.request)
        (s.caches.request.byteMask.setWidth 8) = l

/-- Every line is in the page of its address, and has the bytes of the last store if they went to
it. -/
def Visible : Prop :=
  s.caches.dataCache.Addressed fun l va context =>
    PageLine p.dom s.mmu (s.contents p) s.words l va context ∧ s.Shows l

/-- The bytes of a store are in memory, where its address is mapped, apart from its page table
entry. -/
structure InMemory (pa : BitVec 64) : Prop where
  mmu : s.mmu.mmuIsPresent = true
  paged : s.OnPage p
  physicalAddr_eq : pa = (s.mapped p).physicalAddr
  entry_ne : s.mmu.translates = true →
    (s.walk p).phyAddrOfPte.toNat / 8 ≠ pa.toNat / 8
  bytes : p.dom (2 * (pa.toNat / 8)) = true → p.dom (2 * (pa.toNat / 8) + 1) = true →
    (s.contents p).HasBytes p.dom s.caches.request pa

/-- The store has hit its line, or there is none. -/
def HitOrMiss : Prop :=
  s.caches.lastHit = true ∨
    s.caches.dataCache.find s.caches.request.address s.caches.context = none

/-- The MMU has let a store through. -/
structure Stored (r : VirtualMemoryResponse) (pa : BitVec 64) : Prop where
  inMemory : s.InMemory p pa
  physicalAddress : r.physicalAddress = pa
  valid : r.physicalAddressValid = true
  cacheable : r.cacheable = ((s.mapped p).cacheable && s.mmu.isCacheableTarget pa)
  context : s.caches.context = s.mmu.contextRegister
  hit : s.HitOrMiss

/-- The answer to a store says where its bytes are, or there is nothing to do. -/
def StoreAnswered (r : VirtualMemoryResponse) : Prop :=
  (∃ pa, s.storedTo = some pa ∧ s.Stored p r pa) ∨
    r.cacheable = false ∧ (s.storedTo = none ∨ s.mmu.mmuIsPresent = false)

/-- The line of a store is read. -/
structure Allocates (pa : BitVec 64) : Prop where
  storedTo : s.storedTo = some pa
  store : IsCachedStore s.caches.request
  inMemory : s.InMemory p pa
  cacheable : ((s.mapped p).cacheable && s.mmu.isCacheableTarget pa) = true
  find : s.caches.dataCache.find s.caches.request.address s.caches.context = none
  unheld : pa >>> LOG_LINE_BYTES ∈ s.caches.invalidatedDuringFill →
    ∀ l, s.caches.dataCache.Holds l → l.physicalLine ≠ pa >>> LOG_LINE_BYTES

/-- The caches empty the data cache once the request has been served. -/
def ClearsLater (r : VirtualMemoryRequest) : Prop :=
  r.accessType = .STORE ∧ r.asi = asiMmuRegister ∧ isContextRegisterWrite r = false

/-- The answer to a line read is for the page of its address. -/
structure LineOfPage (r : VirtualMemoryResponse) : Prop where
  mmu : s.mmu.mmuIsPresent = true
  paged : s.OnPage p
  physicalAddress_eq : r.physicalAddress = (s.mapped p).physicalAddr

/-- Where a core is in a request, and what its data cache holds there. -/
inductive StorePhase : Step → Option VirtualMemoryResponse → Prop
  | idle (hdata : s.Visible p) : StorePhase .DONE none
  | passing (hd : s.caches.downstreamRequest = s.caches.request)
      (hctx : s.caches.context = s.mmu.contextRegister) (hdata : s.Mapped p)
      (hstore : IsCachedStore s.caches.request →
        s.caches.request.address.toNat % 8 = 0 ∧ s.HitOrMiss) : StorePhase .FORWARD none
  | passed {r : VirtualMemoryResponse}
      (hdata : ClearsLater s.caches.request ∧ 2 ≤ s.caches.dataCache.logSets ∨ s.Mapped p)
      (hstore : IsCachedStore s.caches.request → r.mae = false → s.StoreAnswered p r) :
      StorePhase .FORWARD (some r)
  | reading (hd : s.caches.downstreamRequest = lineRequest s.caches.request)
      (hcached : isCachedAsi s.caches.request.asi = true)
      (hctx : s.caches.context = s.mmu.contextRegister) (hdata : s.Mapped p)
      (hkind : ¬ IsCachedStore s.caches.request) : StorePhase .FILL_FOR_READ none
  | read {r : VirtualMemoryResponse} (hdata : s.Mapped p)
      (hline : r.mae = false → r.cacheable = true → s.LineOfPage p r)
      (hkind : ¬ IsCachedStore s.caches.request) : StorePhase .FILL_FOR_READ (some r)
  | allocating {pa : BitVec 64} (hd : s.caches.downstreamRequest = allocateRequest s.caches.request)
      (hctx : s.caches.context = s.mmu.contextRegister) (hdata : s.Mapped p)
      (halloc : s.Allocates p pa) : StorePhase .FILL_FOR_WRITE none
  | allocated {r : VirtualMemoryResponse} (hdata : s.Mapped p)
      (halloc : s.Allocates p r.physicalAddress) (hmae : r.mae = false)
      (hcacheable : r.cacheable = true)
      (hbytes : mergeBytes (r.line (dwordIndex s.caches.request.address))
        (storeData s.caches.request) (s.caches.request.byteMask.setWidth 8) =
          r.line (dwordIndex s.caches.request.address)) :
      StorePhase .FILL_FOR_WRITE (some r)

/-- What holds of a core between two steps. -/
structure Shown : Prop where
  pages : TlbPages p.dom s.mmu (s.contents p) s.words
  lines : HasLines p.dom s.mmu.layout
  context_lt : s.caches.step ≠ .DONE → s.caches.context.toNat < 256
  phase : s.StorePhase p s.caches.step s.answer

variable {p s}

theorem StorePhase.of_eq {k : Step} {a : Option VirtualMemoryResponse} (h : s.StorePhase p k a)
    (hstep : s.caches.step = k) (hanswer : s.answer = a) :
    s.StorePhase p s.caches.step s.answer := by
  rw [hstep, hanswer]
  exact h

/-! ## What stays -/

variable {r : VirtualMemoryResponse}

section Same

variable {s' : SteppedCore τ}

/-- A step that leaves the caches' request and the pages. -/
structure SamePages (p : PlainMemory phys) (s s' : SteppedCore τ) : Prop where
  setup : s'.mmu.setup = s.mmu.setup
  layout : s'.mmu.layout = s.mmu.layout
  words : s.words ⊆ s'.words
  pages : ∀ i ∈ s.words,
    SamePage ((s.contents p).read p.dom i) ((s'.contents p).read p.dom i)
  request : s'.caches.request = s.caches.request
  context : s'.caches.context = s.caches.context

section

variable (h : SamePages p s s')
include h

theorem SamePages.pageLine {l : Line} {context : Word}
    (hl : PageLine p.dom s.mmu (s.contents p) s.words l va context) :
    PageLine p.dom s'.mmu (s'.contents p) s'.words l va context :=
  hl.of_samePage h.setup h.words h.pages

theorem SamePages.mapped (hdata : s.Mapped p) (hs : Shrunk s.caches.dataCache s'.caches.dataCache) :
    s'.Mapped p :=
  (hdata.of_shrunk hs).imp fun _ _ _ _ hl => h.pageLine hl

theorem SamePages.paged (hp : s.OnPage p) :
    s'.OnPage p ∧
      (s.mmu.translates = true → (s'.walk p).phyAddrOfPte = (s.walk p).phyAddrOfPte) ∧
      (s'.mapped p).physicalAddr = (s.mapped p).physicalAddr ∧
      (s'.mapped p).cacheable = (s.mapped p).cacheable := by
  unfold OnPage walk SteppedCore.mapped
  rw [h.request, h.context, contextTablePointerRegister_of_setup h.setup]
  exact hp.of_samePage h.setup h.words h.pages

theorem SamePages.inMemory (hm : s.InMemory p pa)
    (hbytes : (s'.contents p).dwordAt p.dom (pa.toNat / 8) = (s.contents p).dwordAt p.dom
      (pa.toNat / 8)) : s'.InMemory p pa := by
  obtain ⟨hpaged, hentry, haddress, -⟩ := h.paged hm.paged
  refine ⟨(congrArg Prod.fst h.setup).trans hm.mmu, hpaged, ?_, fun ht => ?_, fun h0 h1 => ?_⟩
  · rw [haddress]
    exact hm.physicalAddr_eq
  · rw [translates_of_setup h.setup] at ht
    rw [hentry ht]
    exact hm.entry_ne ht
  · unfold HasBytes
    rw [hbytes, h.request]
    exact hm.bytes h0 h1

theorem SamePages.cacheable (hm : s.InMemory p pa) :
    ((s'.mapped p).cacheable && s'.mmu.isCacheableTarget pa) =
      ((s.mapped p).cacheable && s.mmu.isCacheableTarget pa) := by
  rw [(h.paged hm.paged).2.2.2, isCacheableTarget, isCacheableTarget, h.layout]

theorem SamePages.lineOfPage (hl : s.LineOfPage p r) : s'.LineOfPage p r := by
  obtain ⟨hpaged, -, haddress, -⟩ := h.paged hl.paged
  exact ⟨(congrArg Prod.fst h.setup).trans hl.mmu, hpaged,
    hl.physicalAddress_eq.trans haddress.symm⟩

end

/-- A step beside the request: the caches may lose lines, and are told which. -/
structure Beside (p : PlainMemory phys) (s s' : SteppedCore τ) : Prop extends SamePages p s s' where
  step : s'.caches.step = s.caches.step
  answer : s'.answer = s.answer
  storedTo : s'.storedTo = s.storedTo
  lastHit : s'.caches.lastHit = s.caches.lastHit
  response : s'.caches.response = s.caches.response
  downstreamRequest : s'.caches.downstreamRequest = s.caches.downstreamRequest
  contextRegister : s'.mmu.contextRegister = s.mmu.contextRegister
  shrunk : Shrunk s.caches.dataCache s'.caches.dataCache
  bytes : s.caches.step ≠ .DONE → ∀ pa, s.storedTo = some pa →
    (s'.contents p).dwordAt p.dom (pa.toNat / 8) =
      (s.contents p).dwordAt p.dom (pa.toNat / 8)
  invalidated : s.caches.step = .FILL_FOR_WRITE → s.Mapped p →
    ∀ line ∈ s'.caches.invalidatedDuringFill, line ∈ s.caches.invalidatedDuringFill ∨
      ∀ l, s'.caches.dataCache.Holds l → l.physicalLine ≠ line

theorem Beside.hitOrMiss (h : Beside p s s') (hh : s.HitOrMiss) : s'.HitOrMiss := by
  unfold HitOrMiss
  rw [h.lastHit, h.request, h.context]
  exact hh.imp id h.shrunk.find_eq_none

theorem Beside.allocates (h : Beside p s s') (hstep : s.caches.step = .FILL_FOR_WRITE)
    (hdata : s.Mapped p) (ha : s.Allocates p pa) : s'.Allocates p pa := by
  have hbytes := h.bytes (by rw [hstep]; decide) pa ha.storedTo
  refine ⟨h.storedTo.trans ha.storedTo, h.request ▸ ha.store, h.inMemory ha.inMemory hbytes,
    (h.cacheable ha.inMemory).trans ha.cacheable, ?_, fun hmem l hl => ?_⟩
  · rw [h.request, h.context]
    exact h.shrunk.find_eq_none ha.find
  · rcases h.invalidated hstep hdata _ hmem with hold | hgone
    · exact ha.unheld hold l (h.shrunk.holds hl)
    · exact hgone l hl

theorem Beside.storeAnswered (h : Beside p s s') (hstep : s.caches.step = .FORWARD)
    (hr : s.StoreAnswered p r) : s'.StoreAnswered p r := by
  unfold StoreAnswered
  rw [h.storedTo, show s'.mmu.mmuIsPresent = _ from congrArg Prod.fst h.setup]
  rcases hr with ⟨pa, hpa, hstored⟩ | hnothing
  · refine .inl ⟨pa, hpa, ?_⟩
    have hbytes := h.bytes (by rw [hstep]; decide) pa hpa
    exact ⟨h.inMemory hstored.inMemory hbytes, hstored.physicalAddress, hstored.valid,
      hstored.cacheable.trans (h.cacheable hstored.inMemory).symm,
      h.context.trans (hstored.context.trans h.contextRegister.symm), h.hitOrMiss hstored.hit⟩
  · exact .inr hnothing

theorem Beside.visible (h : Beside p s s') (hdata : s.Visible p) : s'.Visible p := by
  refine (hdata.of_shrunk h.shrunk).imp fun l va context _ ⟨hl, hshows⟩ => ⟨h.pageLine hl, ?_⟩
  unfold Shows
  rw [h.request, h.response, h.storedTo]
  exact hshows

theorem Shown.beside (hs : Shown p s) (h : Beside p s s')
    (hpages : TlbPages p.dom s'.mmu (s'.contents p) s'.words) : Shown p s' := by
  refine ⟨hpages, h.layout ▸ hs.lines, fun hne => ?_, ?_⟩
  · rw [h.step] at hne
    rw [h.context]
    exact hs.context_lt hne
  have hctx (hc : s.caches.context = s.mmu.contextRegister) :
      s'.caches.context = s'.mmu.contextRegister := by
    rw [h.context, h.contextRegister, hc]
  have hreq := h.request
  have hphase := hs.phase
  rw [h.step, h.answer]
  generalize hstep : s.caches.step = k, s.answer = a at hphase ⊢
  cases hphase with
  | idle hdata => exact .idle (h.visible hdata)
  | passing hd hc hdata hstore =>
    refine .passing ?_ (hctx hc) (h.mapped hdata h.shrunk) fun hk => ?_
    · rw [h.downstreamRequest, hreq, hd]
    · rw [hreq] at hk ⊢
      exact ⟨(hstore hk).1, h.hitOrMiss (hstore hk).2⟩
  | passed hdata hstore =>
    refine .passed ?_ fun hk hmae => ?_
    · rw [hreq, h.shrunk.logSets]
      exact hdata.imp id fun hmapped => h.mapped hmapped h.shrunk
    · rw [hreq] at hk
      exact h.storeAnswered hstep (hstore hk hmae)
  | reading hd hcached hc hdata hkind =>
    refine .reading ?_ (hreq ▸ hcached) (hctx hc) (h.mapped hdata h.shrunk) (hreq ▸ hkind)
    rw [h.downstreamRequest, hreq, hd]
  | read hdata hline hkind =>
    exact .read (h.mapped hdata h.shrunk)
      (fun hmae hcacheable => h.lineOfPage (hline hmae hcacheable)) (hreq ▸ hkind)
  | allocating hd hc hdata halloc =>
    refine .allocating ?_ (hctx hc) (h.mapped hdata h.shrunk) (h.allocates hstep hdata halloc)
    rw [h.downstreamRequest, hreq, hd]
  | allocated hdata halloc hmae hcacheable hbytes =>
    refine .allocated (h.mapped hdata h.shrunk) (h.allocates hstep hdata halloc) hmae hcacheable ?_
    rw [hreq]
    exact hbytes

end Same

/-! ## Rewriting, and invalidates -/

/-- The pages of the tables are kept, and the bytes of a store in progress. -/
structure Rewrites (p : PlainMemory phys) (s : SteppedCore τ) (m : τ) : Prop where
  pages : ∀ i ∈ s.words,
    SamePage ((s.contents p).read p.dom i) ((p.contents m).read p.dom i)
  bytes : s.caches.step ≠ .DONE → ∀ pa, s.storedTo = some pa →
    (p.contents m).dwordAt p.dom (pa.toNat / 8) =
      (s.contents p).dwordAt p.dom (pa.toNat / 8)

theorem Shown.changed (h : Shown p s) {m : τ} (hm : Rewrites p s m) : Shown p (s.changed p m) := by
  refine h.beside ⟨⟨rfl, rfl, Subset.refl _, hm.pages, rfl, rfl⟩, rfl, rfl, rfl, rfl, rfl, rfl,
    rfl, .refl _, hm.bytes, fun _ _ line hline => .inl hline⟩ ⟨fun level e he => ?_,
      h.pages.disabled⟩
  exact (h.pages.pages level e he).of_samePage (Subset.refl _) hm.pages

theorem Shown.invalidated (h : Shown p s) (q : BitVec 64) : Shown p (s.invalidated q) := by
  refine h.beside ⟨⟨rfl, rfl, Subset.refl _, fun _ _ => .inl rfl, rfl, rfl⟩, rfl, rfl, rfl, rfl,
    rfl, rfl, rfl, shrunk_invalidated, fun _ _ _ => rfl, fun hstep hdata line hline => ?_⟩ h.pages
  rw [invalidatedDuringFill_invalidated (.inr hstep), List.mem_append, List.mem_singleton] at hline
  refine hline.imp id fun heq l hl => ?_
  rw [heq]
  exact hdata.visited.ne_of_holds hl

/-! ## The caches take an answer -/

section Done

variable {c : L1CachesCore}

/-- The request is served. -/
theorem Shown.of_done (h : Shown p s) (hstep : c.step = .DONE)
    (hd : (s.taken c).Visible p) : Shown p (s.taken c) :=
  ⟨h.pages, h.lines, fun hne => absurd hstep hne, .of_eq (.idle hd) hstep rfl⟩

theorem visible_of_not_store (hk : ¬ IsCachedStore s.caches.request) (hdata : s.Mapped p) :
    s.Visible p :=
  hdata.imp fun _ _ _ _ hl => ⟨hl, fun hk' => absurd hk' hk⟩

/-- Lines stay in their pages once a store or an atomic has been passed on. -/
theorem Mapped.forwarded {c c' : L1CachesCore} (hdata : (s.taken c).Mapped p)
    (h : Forwarded c c') : (s.taken c').Mapped p := by
  rcases h.data with hshrunk | ⟨hsome, heq⟩
  · exact Addressed.of_shrunk hdata hshrunk
  · obtain ⟨l, hfind⟩ := isSome_iff_exists.1 hsome
    change c'.dataCache.Addressed _
    rw [heq]
    exact Addressed.writeBytes hdata hfind _ _ (fun _ _ hl => hl.of_physicalLine rfl)
      fun _ _ _ _ hl => hl

/-- A line is put into the data cache. -/
theorem Mapped.installLine {Q : Line → Prop} {a : CacheArray} (hdata : s.Mapped p)
    (hctx : s.caches.context.toNat < 256) (hline : s.LineOfPage p r)
    (hother : ∀ l, l.physicalLine ≠ r.physicalAddress >>> LOG_LINE_BYTES → Q l)
    (hnew : ∀ l, l.data = r.line → Q l)
    (h : installLine s.caches.dataCache s.caches.request s.caches.context r = some a) :
    a.Addressed fun l va context =>
      PageLine p.dom s.mmu (s.contents p) s.words l va context ∧ Q l := by
  obtain ⟨hleft, hunheld⟩ := hdata.invalidatePhysicalLine r.physicalAddress
  have hleft' := hleft.imp (Q := fun l va context =>
    PageLine p.dom s.mmu (s.contents p) s.words l va context ∧ Q l)
    fun l _ _ hl hpage => ⟨hpage, hother l (hunheld l hl)⟩
  refine hleft'.fill h hctx ?_ ⟨⟨hline.mmu, hline.paged, ?_⟩, hnew _ rfl⟩ hunheld
  · rw [hline.physicalAddress_eq]
    exact s.mmu.offset_mappedTo p.dom (s.contents p) s.caches.context s.caches.request.address
  · rw [hline.physicalAddress_eq]
    rfl

/-- The line of a read is put into its cache, or given up. -/
theorem Shown.taken_read (h : Shown p s) (hstep : s.caches.step = .FILL_FOR_READ)
    (hdata : s.Mapped p) (hline : r.mae = false → r.cacheable = true → s.LineOfPage p r)
    (hkind : ¬ IsCachedStore s.caches.request) (hdone : s.caches.downstreamDone r = some c) :
    Shown p (s.taken c) := by
  simp only [downstreamDone, hstep] at hdone
  split at hdone
  · cases hdone
    exact h.of_done rfl (visible_of_not_store hkind hdata)
  · next hmae =>
    rw [Bool.not_eq_true] at hmae
    split at hdone
    · next hinstall =>
      rw [and_eq_true] at hinstall
      obtain ⟨a, ha, rfl⟩ := map_eq_some_iff.1 hdone
      cases hi : s.caches.isInstruction with
      | true => exact h.of_done rfl (visible_of_not_store hkind hdata)
      | false =>
        rw [cacheOf, hi] at ha
        exact h.of_done rfl (hdata.installLine (h.context_lt (by rw [hstep]; decide))
          (hline hmae hinstall.1) (fun _ _ hk => absurd hk hkind)
            (fun _ _ hk => absurd hk hkind) ha)
    · cases hdone
      exact h.of_done rfl (visible_of_not_store hkind hdata)

/-- The line of a store is put into the data cache, or given up. -/
theorem Shown.taken_allocated (h : Shown p s)
    (hstep : s.caches.step = .FILL_FOR_WRITE) (hdata : s.Mapped p)
    (halloc : s.Allocates p r.physicalAddress) (hmae : r.mae = false)
    (hcacheable : r.cacheable = true)
    (hbytes : mergeBytes (r.line (dwordIndex s.caches.request.address))
      (storeData s.caches.request) (s.caches.request.byteMask.setWidth 8) =
        r.line (dwordIndex s.caches.request.address))
    (hdone : s.caches.downstreamDone r = some c) : Shown p (s.taken c) := by
  have hother {c : L1CachesCore} {l : Line}
      (hl : l.physicalLine ≠ r.physicalAddress >>> LOG_LINE_BYTES) :
      (s.taken c).Shows l := by
    intro _ _ pa hpa heq
    obtain rfl := some.inj (halloc.storedTo.symm.trans hpa)
    exact absurd heq hl
  simp only [downstreamDone, hstep, hmae, hcacheable, halloc.find, Bool.not_false,
    isNone_none, Bool.and_self, Bool.true_and] at hdone
  split at hdone
  · obtain ⟨a, ha, rfl⟩ := map_eq_some_iff.1 hdone
    refine h.of_done rfl (hdata.installLine (h.context_lt (by rw [hstep]; decide))
      ⟨halloc.inMemory.mmu, halloc.inMemory.paged, halloc.inMemory.physicalAddr_eq⟩
      (fun _ hl => hother hl) (fun l hl _ _ _ _ _ => write_eq_self ?_) ha)
    rw [hl]
    exact hbytes
  · next hnot =>
    cases hdone
    rw [Bool.not_eq_true', ← Ne.eq_def, Bool.ne_false_iff, isInvalidatedDuringFill,
      List.contains_iff_mem] at hnot
    exact h.of_done rfl (hdata.imp fun l _ _ hl hpage => ⟨hpage, hother (halloc.unheld hnot l hl)⟩)

theorem ClearsLater.dataCache (hk : ClearsLater c.request) :
    (c.storeForwarded r).dataCache = c.dataCache.flushAll := by
  obtain ⟨-, hasi, hnumber⟩ := hk
  have hcached : isCachedAsi c.request.asi = false := by
    rw [hasi]
    decide
  unfold storeForwarded
  dsimp only
  rw [hcached, Bool.false_and, if_off, if_pos (.inr hasi), hnumber]
  rfl

theorem not_isCachedStore_of_clearsLater {q : VirtualMemoryRequest} (hk : ClearsLater q) :
    ¬ IsCachedStore q := by
  rintro ⟨-, hcached⟩
  rw [hk.2.1] at hcached
  exact absurd hcached (by decide)

/-- A store that is let through writes its line, has it removed, or reads it. -/
theorem Shown.taken_stored (h : Shown p s) (hstep : s.caches.step = .FORWARD)
    (hc : c.step = .DONE) (hd : c.dataCache = s.caches.dataCache)
    (hreq : c.request = s.caches.request) (hctx : c.context = s.caches.context)
    (hhit : c.lastHit = s.caches.lastHit) (hdata : s.Mapped p) (hk : IsCachedStore s.caches.request)
    (hmae : r.mae = false) (hpa : s.storedTo = some pa) (hs : s.Stored p r pa) :
    Shown p (s.taken (c.storeForwarded r)) := by
  have hne : s.caches.step ≠ .DONE := by
    rw [hstep]
    decide
  have hasi : isCachedAsi c.request.asi = true := hreq ▸ hk.2
  have hother {c : L1CachesCore} {l : Line}
      (hl : l.physicalLine ≠ pa >>> LOG_LINE_BYTES) : (s.taken c).Shows l := by
    intro _ _ pa' hpa' heq
    obtain rfl := some.inj (hpa.symm.trans hpa')
    exact absurd heq hl
  cases hfind : s.caches.dataCache.find s.caches.request.address s.caches.context with
  | some l =>
    have hlast : c.lastHit = true := by
      rw [hhit]
      rcases hs.hit with hlast | hnone
      · exact hlast
      · rw [hnone] at hfind
        cases hfind
    have hfind' : c.dataCache.find c.request.address c.context = some l := by
      rw [hd, hreq, hctx, hfind]
    -- the line that is found is the one of the page
    have hline : l.physicalLine = pa >>> LOG_LINE_BYTES := by
      rw [(hdata.pageLine_of_find (h.context_lt hne) hfind).physicalLine_eq,
        hs.inMemory.physicalAddr_eq]
      rfl
    rw [storeForwarded_of_hit hasi hmae hlast hfind']
    refine h.of_done hc ?_
    rw [hd, hreq, hctx]
    refine Addressed.writeBytes hdata hfind _ _ (fun _ _ hl => ⟨hl.of_physicalLine rfl, ?_⟩)
      fun l' _ _ hne' hl => ⟨hl, hother (hline ▸ hne')⟩
    intro _ _ _ _ _
    exact write_write _ _
  | none =>
    have hfind' : c.dataCache.find c.request.address c.context = none := by
      rw [hd, hreq, hctx, hfind]
    rw [storeForwarded_of_miss hasi hmae hfind' hs.valid]
    cases hcacheable : r.cacheable with
    | false =>
      rw [if_off, hs.physicalAddress]
      refine h.of_done hc ?_
      rw [hd]
      obtain ⟨hleft, hunheld⟩ := Addressed.invalidatePhysicalLine hdata pa
      exact hleft.imp fun l _ _ hl hpage => ⟨hpage, hother (hunheld l hl)⟩
    | true =>
      rw [if_pos rfl]
      refine ⟨h.pages, h.lines, fun _ => ?_, ?_⟩
      · rw [hctx]
        exact h.context_lt hne
      · refine @StorePhase.allocating _ _ _ _ pa rfl (hctx.trans hs.context) ?_ ?_
        · rw [hd]
          exact hdata
        · have hsame : SamePages p s (s.taken { c with
              downstreamRequest := allocateRequest c.request, invalidatedDuringFill := [],
              step := .FILL_FOR_WRITE }) :=
            ⟨rfl, rfl, Subset.refl _, fun _ _ => .inl rfl, hreq, hctx⟩
          refine ⟨hpa, hsame.request ▸ hk, hsame.inMemory hs.inMemory rfl, ?_, hfind',
            fun hmem => ?_⟩
          · rw [hsame.cacheable hs.inMemory, ← hs.cacheable, hcacheable]
          · cases hmem

/-- The request itself has been answered. -/
theorem Shown.taken_passed (h : Shown p s) (hstep : s.caches.step = .FORWARD)
    (hdata : ClearsLater s.caches.request ∧ 2 ≤ s.caches.dataCache.logSets ∨ s.Mapped p)
    (hstore : IsCachedStore s.caches.request → r.mae = false → s.StoreAnswered p r)
    (hdone : s.caches.downstreamDone r = some c) : Shown p (s.taken c) := by
  obtain ⟨c₀, hdone', hc, -, hd, hreq, hctx, hhit, hmae⟩ := downstreamDone_forward hstep
  obtain rfl := some.inj (hdone.symm.trans hdone')
  have hmapped (hm : s.Mapped p) : (s.taken c₀).Mapped p := by
    unfold Mapped
    dsimp only [taken]
    rw [hd]
    exact hm
  cases hk : s.caches.request.accessType with
  | STORE =>
    obtain ⟨hforwarded, hsame⟩ := forwarded_storeForwarded c₀ r
    by_cases hcached : isCachedAsi s.caches.request.asi = true
    · have hisstore : IsCachedStore s.caches.request := ⟨hk, hcached⟩
      have hm : s.Mapped p :=
        hdata.resolve_left fun hclears => not_isCachedStore_of_clearsLater hclears.1 hisstore
      have hm' := (hmapped hm).forwarded hforwarded
      cases hrmae : r.mae with
      | true =>
        refine h.of_done ((hsame (by rw [hrmae]; simp)).trans hc)
          (hm'.imp fun l _ _ _ hl => ⟨hl, ?_⟩)
        intro _ hno
        change (c₀.storeForwarded r).response.mae = false at hno
        rw [hforwarded.response, hmae, hrmae] at hno
        cases hno
      | false =>
        rcases hstore hisstore hrmae with ⟨pa, hpa, hstored⟩ | ⟨hcacheable, hnothing⟩
        · exact h.taken_stored hstep hc hd hreq hctx hhit hm hisstore hrmae hpa hstored
        · refine h.of_done ((hsame (by rw [hcacheable]; simp)).trans hc)
            (hm'.imp fun l _ _ _ hl => ⟨hl, ?_⟩)
          intro _ _ pa hpa
          rcases hnothing with hnone | habsent
          · rw [show (s.taken _).storedTo = s.storedTo from rfl, hnone] at hpa
            cases hpa
          · cases habsent.symm.trans hl.mmu
    · have hnot : ¬ IsCachedStore (s.taken (c₀.storeForwarded r)).caches.request := by
        rintro ⟨-, hasi⟩
        rw [show (s.taken (c₀.storeForwarded r)).caches.request = _ from hforwarded.request,
          hreq] at hasi
        exact hcached hasi
      rw [Bool.not_eq_true] at hcached
      refine h.of_done ((hsame (by rw [hreq, hcached]; rfl)).trans hc)
        (visible_of_not_store hnot ?_)
      rcases hdata with ⟨hclears, hsets⟩ | hm
      · unfold Mapped
        dsimp only [taken]
        rw [ClearsLater.dataCache (hreq ▸ hclears), hd]
        exact addressed_of_empty hsets (not_holds_flushAll _)
      · exact (hmapped hm).forwarded hforwarded
  | ATOMIC_LS =>
    obtain ⟨hforwarded, hsame⟩ := forwarded_atomicForwarded c₀ r
    have hnot : ¬ IsCachedStore (s.taken (c₀.atomicForwarded r)).caches.request := by
      rintro ⟨hk', -⟩
      rw [show (s.taken (c₀.atomicForwarded r)).caches.request = _ from hforwarded.request, hreq,
        hk] at hk'
      cases hk'
    have hm : s.Mapped p := hdata.resolve_left fun hclears => by
      have hk' := hclears.1.1
      rw [hk] at hk'
      cases hk'
    exact h.of_done (hsame.trans hc)
      (visible_of_not_store hnot ((hmapped hm).forwarded hforwarded))
  | _ =>
    have hnot : ¬ IsCachedStore c₀.request := by
      rintro ⟨hk', -⟩
      rw [hreq, hk] at hk'
      cases hk'
    have hm : s.Mapped p := hdata.resolve_left fun hclears => by
      have hk' := hclears.1.1
      rw [hk] at hk'
      cases hk'
    exact h.of_done hc (visible_of_not_store hnot (hmapped hm))

/-- The caches take an answer. -/
theorem Shown.taken (h : Shown p s) (hr : s.answer = some r)
    (hdone : s.caches.downstreamDone r = some c) : Shown p (s.taken c) := by
  have hphase := h.phase
  rw [hr] at hphase
  generalize hstep : s.caches.step = k at hphase
  cases hphase with
  | passed hdata hstore => exact h.taken_passed hstep hdata hstore hdone
  | read hdata hline hkind => exact h.taken_read hstep hdata hline hkind hdone
  | allocated hdata halloc hmae hcacheable hbytes =>
    exact h.taken_allocated hstep hdata halloc hmae hcacheable hbytes hdone

end Done

/-! ## The MMU serves a request -/

section Serve

variable {d : VirtualMemoryRequest}

/-- A register request that changes the mapping has the data cache emptied. -/
theorem clearsLater_of_writesSetup (h : s.mmu.writesSetup d = true) : ClearsLater d := by
  simp only [writesSetup, and_eq_true, beq_iff_eq, decide_eq_true_eq] at h
  obtain ⟨⟨⟨-, hk⟩, hspace⟩, hnumber⟩ := h
  refine ⟨hk, ?_, ?_⟩
  · unfold asiSpace at hspace
    dsimp only at hspace
    split at hspace
    · cases hspace
    · split at hspace
      · cases hspace
      · split at hspace
        · next hasi => exact hasi
        · split at hspace
          · cases hspace
          · split at hspace <;> cases hspace
  · by_contra hctx
    rw [Bool.not_eq_false] at hctx
    have := number_of_isContextRegisterWrite hctx
    omega

/-- The MMU leaves the pages. -/
theorem samePages_serve (hw : s.mmu.writesSetup s.caches.downstreamRequest = false)
    (hk : RewritesRights p s .serve) : SamePages p s (s.serve p) := by
  have heq := serve_spec p s
  have hregisters := registers_access p.dom s.mmu (s.contents p) s.caches.downstreamRequest
  unfold RewritesRights KeepsPages at hk
  rw [heq] at hregisters hk
  have hsubset : s.words ⊆ (s.serve p).words :=
    subset_tableWords (writesTablePointer_of_not_writesSetup hw)
  exact ⟨hregisters.1 hw, hregisters.2, hsubset, fun i hi => hk i (hsubset hi), rfl, rfl⟩

theorem tlbPages_serve (h : TlbPages p.dom s.mmu (s.contents p) s.words)
    (hk : RewritesRights p s .serve) :
    TlbPages p.dom (s.serve p).mmu ((s.serve p).contents p) (s.serve p).words := by
  have heq := serve_spec p s
  have hpages := h.access hk
  rw [heq] at hpages
  exact hpages

/-- The core after the MMU has served a request, with a cache in some phase. -/
theorem Shown.of_serve (h : Shown p s) (hk : RewritesRights p s .serve)
    {k : Step} (hstep : s.caches.step = k)
    (hphase : (s.serve p).StorePhase p k (some (s.reply p))) : Shown p (s.serve p) := by
  have heq := serve_spec p s
  have hregisters := registers_access p.dom s.mmu (s.contents p) s.caches.downstreamRequest
  rw [heq] at hregisters
  have hlayout : (s.serve p).mmu.layout = s.mmu.layout := hregisters.2
  exact ⟨tlbPages_serve h.pages hk, hlayout ▸ h.lines, h.context_lt, hphase.of_eq hstep rfl⟩

/-- The page of a request that is let through, once it has been served. -/
theorem paged_serve {t : Translation} {u' : MmuCore} {c' : Words}
    (ht : PageTranslated p.dom s.words s.mmu (s.contents p) s.caches.downstreamRequest t u' c')
    (haddress : s.caches.downstreamRequest.address = s.caches.request.address)
    (hctx : s.caches.context = s.mmu.contextRegister) (hk : RewritesRights p s .serve)
    (hsame : SamePages p s (s.serve p)) :
    (s.serve p).OnPage p ∧
      (s.mmu.translates = true → ((s.serve p).walk p).phyAddrOfPte = (s.walk p).phyAddrOfPte) ∧
      t.physicalAddr = ((s.serve p).mapped p).physicalAddr ∧
      t.cacheable = ((s.serve p).mapped p).cacheable := by
  have heq := serve_spec p s
  unfold RewritesRights KeepsPages at hk
  rw [heq] at hk
  obtain ⟨hpaged, hentry, hpa, hcacheable⟩ :=
    ht.paged.of_samePage hsame.setup (Subset.refl _) hk
  have hctp := contextTablePointerRegister_of_setup hsame.setup
  rw [haddress, ← hctx] at hpaged hentry hpa hcacheable
  refine ⟨hpaged, ?_, ?_, ?_⟩
  · unfold walk
    rw [hctp]
    exact hentry
  · rw [ht.physicalAddr_eq, haddress, ← hctx]
    exact hpa.symm
  · rw [ht.cacheable_eq, haddress, ← hctx]
    exact hcacheable.symm

/-- A request to a cached space is refused, or goes to the page of its address. -/
theorem access_page_cases {W : Set Nat} (h : TlbPages dom u c W) (hp : u.mmuIsPresent = true)
    (hr : CachedRequest d) :
    u.faultsRequest dom c d = true ∧
        access (ram dom) d (u, c) =
          ((u.afterRefusal dom c d).refusal d, (u.afterRefusal dom c d, c)) ∨
      ∃ t u' c', PageTranslated dom W u c d t u' c' ∧
        access (ram dom) d (u, c) =
          u'.complete (ram dom) d t c' := by
  cases hf : u.faultsRequest dom c d with
  | true => exact .inl ⟨rfl, access_of_faultsRequest hf⟩
  | false =>
    obtain ⟨t, u', c', ht⟩ :=
      exists_pageTranslated h hp hr.translatesRequest hr.writesTablePointer hf
    refine .inr ⟨t, u', c', ht, ?_⟩
    rw [access_of_cachedRequest _ hp hr, ht.translate_eq]

theorem writesSetup_of_isCachedAsi (hasi : isCachedAsi d.asi = true) : u.writesSetup d = false := by
  rw [writesSetup, asiSpace_of_isCachedAsi hasi]
  simp

/-- What the MMU answers to a line read that it lets through. -/
structure LineServed (p : PlainMemory phys) (s : SteppedCore τ) : Prop where
  mae : (s.reply p).mae = false
  line : (s.serve p).LineOfPage p (s.reply p)
  cacheable : (s.reply p).cacheable =
    (((s.serve p).mapped p).cacheable &&
      (s.serve p).mmu.isCacheableTarget ((s.serve p).mapped p).physicalAddr)
  data : (s.reply p).cacheable = true →
    (s.reply p).line = ((s.serve p).contents p).lineAt p.dom
      (((s.serve p).mapped p).physicalAddr.toNat / 64)
  changed : ∀ i, ((s.serve p).contents p).read p.dom i ≠ (s.contents p).read p.dom i →
    s.mmu.translates = true ∧
      i = (s.walk p).phyAddrOfPte.toNat / 4

/-- A line read is answered, or the answer is not cacheable. -/
theorem Shown.lineServed (h : Shown p s) (hd : s.caches.downstreamRequest.accessType = .READ_LINE)
    (hasi : isCachedAsi s.caches.downstreamRequest.asi = true)
    (haddress : s.caches.downstreamRequest.address = s.caches.request.address)
    (hctx : s.caches.context = s.mmu.contextRegister) (hk : RewritesRights p s .serve) :
    LineServed p s ∨ (s.reply p).cacheable = false ∧
      (s.mmu.mmuIsPresent = false ∨
        s.mmu.faultsRequest p.dom (s.contents p) s.caches.downstreamRequest = true) := by
  have hr : CachedRequest s.caches.downstreamRequest := ⟨hasi, by rw [isDataRequest, hd]; rfl⟩
  have hsame := samePages_serve (writesSetup_of_isCachedAsi hasi) hk
  cases hp : s.mmu.mmuIsPresent with
  | false =>
    rw [(serve_eq rfl (access_readLine_of_absent p.dom _ hp hd)).1]
    exact .inr ⟨rfl, .inl rfl⟩
  | true =>
    rcases access_page_cases h.pages hp hr with ⟨hf, heq⟩ | ⟨t, u', c', ht, heq⟩
    · rw [(serve_eq rfl heq).1]
      exact .inr ⟨rfl, .inr hf⟩
    · obtain ⟨hpaged, -, hpa, hcacheable⟩ := paged_serve ht haddress hctx hk hsame
      rw [complete_readLine hd] at heq
      obtain ⟨hr, hu, hc⟩ := serve_eq rfl heq
      refine .inl ⟨?_, ⟨(congrArg Prod.fst hsame.setup).trans hp, hpaged, ?_⟩, ?_, ?_, ?_⟩
      · rw [hr]
      · rw [hr]
        exact hpa
      · rw [hr, ← hpa, ← hcacheable, hu]
      · rw [hr, ← hpa, hc]
        intro hcached
        rw [lineFound, if_pos hcached]
      · unfold walk
        rw [hc, ← haddress, hctx]
        exact ht.changed

/-- The MMU answers the line read of a miss. -/
theorem Shown.served_reading (h : Shown p s) (hstep : s.caches.step = .FILL_FOR_READ)
    (hd : s.caches.downstreamRequest = lineRequest s.caches.request)
    (hcached : isCachedAsi s.caches.request.asi = true)
    (hctx : s.caches.context = s.mmu.contextRegister) (hdata : s.Mapped p)
    (hkind : ¬ IsCachedStore s.caches.request) (hk : RewritesRights p s .serve) :
    Shown p (s.serve p) := by
  have hasi : isCachedAsi s.caches.downstreamRequest.asi = true := by
    rw [hd]
    exact hcached
  have hsame := samePages_serve (writesSetup_of_isCachedAsi hasi) hk
  refine h.of_serve hk hstep (.read (hsame.mapped hdata (.refl _)) (fun _ hcacheable => ?_) hkind)
  rcases h.lineServed (by rw [hd]; rfl) hasi (by rw [hd]; rfl) hctx hk with hserved | ⟨hno, -⟩
  · exact hserved.line
  · exact absurd (hno.symm.trans hcacheable) Bool.false_ne_true

/-- The MMU answers the line read that follows a store. -/
theorem Shown.served_allocating (h : Shown p s) (hstep : s.caches.step = .FILL_FOR_WRITE)
    (hd : s.caches.downstreamRequest = allocateRequest s.caches.request)
    (hctx : s.caches.context = s.mmu.contextRegister) (hdata : s.Mapped p)
    (halloc : s.Allocates p pa) (hk : RewritesRights p s .serve)
    (hlet : s.mmu.faultsRequest p.dom (s.contents p) s.caches.downstreamRequest = false) :
    Shown p (s.serve p) := by
  have hasi : isCachedAsi s.caches.downstreamRequest.asi = true := by
    rw [hd]
    exact halloc.store.2
  have hsame := samePages_serve (writesSetup_of_isCachedAsi hasi) hk
  rcases h.lineServed (by rw [hd]; rfl) hasi (by rw [hd]; rfl) hctx hk with
    hserved | ⟨-, hno⟩
  · -- the update of the entry leaves the bytes of the store
    have hbytes : ((s.serve p).contents p).dwordAt p.dom (pa.toNat / 8) =
        (s.contents p).dwordAt p.dom (pa.toNat / 8) := by
      have hread (i : Nat) (hi : i / 2 = pa.toNat / 8) :
          ((s.serve p).contents p).read p.dom i = (s.contents p).read p.dom i := by
        by_contra hne
        obtain ⟨htr, hentry⟩ := hserved.changed i hne
        refine halloc.inMemory.entry_ne htr ?_
        omega
      rw [dwordAt, dwordAt, hread _ (by omega), hread _ (by omega)]
    have hin := hsame.inMemory halloc.inMemory hbytes
    have hcacheable : (((s.serve p).mapped p).cacheable &&
        (s.serve p).mmu.isCacheableTarget pa) = true :=
      (hsame.cacheable halloc.inMemory).trans halloc.cacheable
    have hpa : (s.reply p).physicalAddress = pa :=
      hserved.line.physicalAddress_eq.trans hin.physicalAddr_eq.symm
    have hcached : (s.reply p).cacheable = true := by
      rw [hserved.cacheable, ← hin.physicalAddr_eq]
      exact hcacheable
    refine h.of_serve hk hstep (.allocated (hsame.mapped hdata (.refl _)) ?_ hserved.mae hcached ?_)
    · rw [hpa]
      refine ⟨?_, halloc.store, hin, hcacheable, halloc.find, halloc.unheld⟩
      have hread : s.caches.downstreamRequest.isWrite = false := by
        rw [hd]
        rfl
      unfold serve
      dsimp only
      rw [hread, if_off]
      exact halloc.storedTo
    · have hmain : SystemAddressMap.decode s.mmu.layout pa = .MAIN_MEMORY := by
        have := halloc.cacheable
        rw [and_eq_true, isCacheableTarget, beq_iff_eq] at this
        exact this.2
      have hlines := h.lines pa hmain
      have hoffset : pa.toNat % 4096 = (s.serve p).caches.request.address.toNat % 4096 := by
        rw [halloc.inMemory.physicalAddr_eq]
        exact s.mmu.offset_mappedTo p.dom (s.contents p) s.caches.context
          s.caches.request.address
      change mergeBytes ((s.reply p).line _) _ _ = (s.reply p).line _
      rw [hserved.data hcached, ← hin.physicalAddr_eq, lineAt_dwordIndex hoffset]
      refine hin.bytes ?_ ?_
      · have hdom := hlines (2 * (pa.toNat / 8) % 16) (by omega)
        rw [show 16 * (pa.toNat / 64) + 2 * (pa.toNat / 8) % 16 = 2 * (pa.toNat / 8) by omega]
          at hdom
        exact hdom
      · have hdom := hlines ((2 * (pa.toNat / 8) + 1) % 16) (by omega)
        rw [show 16 * (pa.toNat / 64) + (2 * (pa.toNat / 8) + 1) % 16 = 2 * (pa.toNat / 8) + 1 by
          omega] at hdom
        exact hdom
  · rcases hno with habsent | hf
    · cases habsent.symm.trans halloc.inMemory.mmu
    · exact absurd (hlet.symm.trans hf) Bool.false_ne_true

/-- Where a store goes. -/
theorem storedTo_serve (hd : s.caches.downstreamRequest = s.caches.request)
    (hk : IsCachedStore s.caches.request) :
    (s.serve p).storedTo = (s.mmu.translateRequest (ram p.dom)
      s.caches.request (s.contents p)).1.map physicalAddr := by
  have hwrite : s.caches.request.isWrite = true := by
    rw [isWrite, hk.1]
  have hlift := p.lift_translate s.mmu s.caches.request.address s.caches.request.asi
    s.caches.request.isFetch s.caches.request.isWrite
    s.caches.request.isAtomic s.memory
  unfold serve
  dsimp only
  rw [hd, hwrite, if_pos rfl]
  exact congrArg (fun x => x.1.map physicalAddr) hlift.symm

/-- The MMU answers a store. -/
theorem Shown.storeAnswered_serve (h : Shown p s)
    (hd : s.caches.downstreamRequest = s.caches.request)
    (hctx : s.caches.context = s.mmu.contextRegister) (hk : IsCachedStore s.caches.request)
    (haligned : s.caches.request.address.toNat % 8 = 0) (hhit : s.HitOrMiss)
    (hkeep : RewritesRights p s .serve) (hentry : s.mmu.translates = true →
      (s.walk p).phyAddrOfPte.toNat / 8 ≠ (s.mapped p).physicalAddr.toNat / 8) :
    (s.serve p).StoreAnswered p (s.reply p) := by
  have hstored := storedTo_serve (p := p) hd hk
  have hsame := samePages_serve (writesSetup_of_isCachedAsi (hd ▸ hk.2)) hkeep
  cases hp : s.mmu.mmuIsPresent with
  | false =>
    rw [(serve_eq hd (access_store_of_absent hp hk.1)).1]
    exact .inr ⟨rfl, .inr ((congrArg Prod.fst hsame.setup).trans hp)⟩
  | true =>
    rcases access_page_cases h.pages hp (hd ▸ CachedRequest.of_stores hk.2 (.inl hk.1)) with
      ⟨hf, heq⟩ | ⟨t, u', c', ht, heq⟩
    · refine .inr ⟨by rw [(serve_eq rfl heq).1]; rfl, .inl ?_⟩
      rw [hd, faultsRequest, and_eq_true] at hf
      rw [hstored, translateRequest, translate_of_faults p.dom s.mmu _ hf.2]
      rfl
    · obtain ⟨hpaged, hentry', hpa, hcacheable⟩ := paged_serve ht (by rw [hd]) hctx hkeep hsame
      have hsetup := ht.same s.mmu.tlb
      have hmapped : t.physicalAddr = (s.mapped p).physicalAddr := by
        rw [ht.physicalAddr_eq, hd, ← hctx]
        rfl
      rw [complete_store (by rw [hd]; exact hk.1)] at heq
      obtain ⟨hr, hu, hc⟩ := serve_eq rfl heq
      refine .inl ⟨t.physicalAddr, ?_, ?_⟩
      · have htranslate := ht.translate_eq
        rw [hd] at htranslate
        rw [hstored, htranslate]
        rfl
      rw [hr]
      refine ⟨⟨(congrArg Prod.fst hsame.setup).trans hp, hpaged, hpa, fun htr => ?_,
        fun h0 h1 => ?_⟩,
        rfl, rfl, ?_, ?_, hhit⟩
      · rw [translates_of_setup hsame.setup] at htr
        rw [hentry' htr, hmapped]
        exact hentry htr
      · have hoffset : t.physicalAddr.toNat % 4096 = s.caches.request.address.toNat % 4096 := by
          rw [hmapped]
          exact s.mmu.offset_mappedTo p.dom (s.contents p) s.caches.context
            s.caches.request.address
        unfold HasBytes
        rw [hc, hd, dwordAt_stored (by omega) _ _ _ h0 h1]
        exact mergeBytes_mergeBytes _ _ _
      · rw [← hcacheable, hu]
        rfl
      · rw [hu]
        have hregister := congrArg contextRegister hsetup
        exact hctx.trans hregister.symm

/-- The MMU answers the request itself. -/
theorem Shown.served_passing (h : Shown p s) (hstep : s.caches.step = .FORWARD)
    (hd : s.caches.downstreamRequest = s.caches.request)
    (hctx : s.caches.context = s.mmu.contextRegister) (hdata : s.Mapped p)
    (hstore : IsCachedStore s.caches.request →
      s.caches.request.address.toNat % 8 = 0 ∧ s.HitOrMiss)
    (hkeep : RewritesRights p s .serve)
    (hentry : IsCachedStore s.caches.request → s.mmu.translates = true →
      (s.walk p).phyAddrOfPte.toNat / 8 ≠ (s.mapped p).physicalAddr.toNat / 8) :
    Shown p (s.serve p) := by
  refine h.of_serve hkeep hstep (.passed ?_ fun hk _ => ?_)
  · cases hw : s.mmu.writesSetup s.caches.downstreamRequest with
    | true => exact .inl ⟨hd ▸ clearsLater_of_writesSetup hw, hdata.sets⟩
    | false => exact .inr ((samePages_serve hw hkeep).mapped hdata (.refl _))
  · exact h.storeAnswered_serve hd hctx hk (hstore hk).1 (hstore hk).2 hkeep (hentry hk)

end Serve

/-! ## A request begins -/

section Begin

variable {r : VirtualMemoryRequest}

theorem Shown.data_of_done (h : Shown p s) (hstep : s.caches.step = .DONE) :
    s.answer = none ∧ s.Visible p := by
  have hphase := h.phase
  rw [hstep] at hphase
  generalize s.answer = a at hphase ⊢
  cases hphase with
  | idle hdata => exact ⟨rfl, hdata⟩

/-- A request begins. -/
theorem Shown.begun (h : Shown p s) (hstep : s.caches.step = .DONE)
    (hctx : s.mmu.contextRegister.toNat < 256) (hstore : IsCachedStore r → r.address.toNat % 8 = 0 ∧
      ∀ l, s.caches.dataCache.find r.address s.mmu.contextRegister = some l →
        accessAllowed l.acc r.asi true = true) : Shown p (s.begun r) := by
  obtain ⟨hanswer, hvisible⟩ := h.data_of_done hstep
  have hdata : s.Mapped p := hvisible.imp fun _ _ _ _ hl => hl.1
  have hbegun := begun_begin s.caches s.mmu.contextRegister r
  change Shown p
    { s with caches := s.caches.begin s.mmu.contextRegister r, storedTo := none }
  generalize s.caches.begin s.mmu.contextRegister r = c at hbegun
  cases hbegun with
  | done hdone hinstruction hd =>
    refine ⟨h.pages, h.lines, fun hne => absurd hdone hne, .of_eq (.idle ?_) hdone hanswer⟩
    exact (hdata.of_shrunk hd).imp fun _ _ _ _ hl => ⟨hl, fun _ _ _ hpa => nomatch hpa⟩
  | forward lastHit hkind hhit =>
    refine ⟨h.pages, h.lines, fun _ => hctx,
      .of_eq (.passing rfl rfl hdata fun hk => ?_) rfl hanswer⟩
    change IsCachedStore r at hk
    refine ⟨(hstore hk).1, ?_⟩
    change lastHit = true ∨ s.caches.dataCache.find r.address s.mmu.contextRegister = none
    cases hfind : s.caches.dataCache.find r.address s.mmu.contextRegister with
    | none => exact .inr rfl
    | some l =>
      left
      rw [hhit hk.1, hk.2, allowedLine, hfind, filter_some, if_pos ((hstore hk).2 l hfind)]
      rfl
  | fill hkind hasi =>
    refine ⟨h.pages, h.lines, fun _ => hctx,
      .of_eq (.reading rfl hasi rfl hdata ?_) rfl hanswer⟩
    rintro ⟨hk, -⟩
    change r.accessType = .STORE at hk
    rcases hkind with hkind | hkind <;> cases hk.symm.trans hkind

end Begin

/-! ## Runs -/

variable (p s) in
/-- Nothing is in progress, data cache and TLB are empty, and there are four sets. -/
structure EmptyStart : Prop where
  step : s.caches.step = .DONE
  answer : s.answer = none
  lines : HasLines p.dom s.mmu.layout
  tlb : ∀ level e, ¬ s.mmu.tlb.Holds level e
  sets : 2 ≤ s.caches.dataCache.logSets
  data : ∀ l, ¬ s.caches.dataCache.Holds l

variable (p s) in
/-- A store finds no line, or one whose rights let it through, and goes to a doubleword that is
not the one of its own page table entry; its line may be read, and nobody else writes its
doubleword before it has completed. Contexts are below 256. -/
def MeetsLine : Event τ → Prop
  | .begin r => s.mmu.contextRegister.toNat < 256 ∧
      (IsCachedStore r → r.address.toNat % 8 = 0 ∧
        ∀ l ∈ s.caches.dataCache.find r.address s.mmu.contextRegister,
          accessAllowed l.acc r.asi true = true)
  | .serve =>
      (s.caches.step = .FORWARD → IsCachedStore s.caches.request → s.mmu.translates = true →
        (s.walk p).phyAddrOfPte.toNat / 8 ≠ (s.mapped p).physicalAddr.toNat / 8) ∧
      (s.caches.step = .FILL_FOR_WRITE →
        s.mmu.faultsRequest p.dom (s.contents p) s.caches.downstreamRequest = false)
  | .change m => s.caches.step ≠ .DONE → ∀ pa ∈ s.storedTo,
      (p.contents m).dwordAt p.dom (pa.toNat / 8) =
        (s.contents p).dwordAt p.dom (pa.toNat / 8)
  | .downstreamDone | .invalidatePhysicalLine _ => True

instance (e : Event τ) : Decidable (MeetsLine p s e) :=
  match e with
  | .begin _ => inferInstanceAs (Decidable (_ ∧ (_ → _ ∧ ∀ _ ∈ _, _)))
  | .serve => inferInstanceAs (Decidable ((_ → _ → _ → _) ∧ (_ → _)))
  | .change m =>
    -- not by trying all physical addresses
    have : Decidable (∀ pa ∈ s.storedTo,
        (p.contents m).dwordAt p.dom (pa.toNat / 8) =
          (s.contents p).dwordAt p.dom (pa.toNat / 8)) := decidableForallMem _
    inferInstanceAs (Decidable (_ → _))
  | .downstreamDone | .invalidatePhysicalLine _ => inferInstanceAs (Decidable True)

theorem Shown.of_start (h : EmptyStart p s) : Shown p s :=
  ⟨tlbPages_of_empty h.tlb, h.lines, fun hne => absurd h.step hne,
    .of_eq (.idle (addressed_of_empty h.sets h.data)) h.step h.answer⟩

/-- One step keeps the invariant. -/
theorem Shown.step {s' : SteppedCore τ} {e : Event τ} (h : Shown p s)
    (hr : RewritesRights p s e) (hm : MeetsLine p s e) (hstep : s.step p e = some s') :
    Shown p s' := by
  cases stepped_of_step hstep with
  | begin hdone => exact h.begun hdone hm.1 hm.2
  | serve hneeds hanswer =>
    have hphase := h.phase
    rw [hanswer] at hphase
    generalize hs : s.caches.step = k at hphase
    cases hphase with
    | idle => exact absurd hs hneeds
    | passing hd hctx hdata hstore =>
      exact h.served_passing hs hd hctx hdata hstore hr (hm.1 hs)
    | reading hd hcached hctx hdata hkind =>
      exact h.served_reading hs hd hcached hctx hdata hkind hr
    | allocating hd hctx hdata halloc =>
      exact h.served_allocating hs hd hctx hdata halloc hr (hm.2 hs)
  | downstreamDone hanswer hdone => exact h.taken hanswer hdone
  | change => exact h.changed ⟨hr, hm⟩
  | invalidatePhysicalLine => exact h.invalidated _

/-- In every run in which only rights are rewritten, and whose stores meet their lines, every line
of the data cache has the bytes of the last store to it once that has completed without an
exception. -/
theorem stores_stay_visible (p : PlainMemory phys) (es : List (Event τ)) (s s' : SteppedCore τ)
    (hs : EmptyStart p s)
    (hes : (machine p).AllSteps (fun s e => RewritesRights p s e ∧ MeetsLine p s e) es s)
    (hrun : (machine p).run es s = some s') (hdone : s'.caches.needsDownstream = false)
    (hk : IsCachedStore s'.caches.request) (hmae : s'.caches.response.mae = false)
    {pa : BitVec 64} (hpa : s'.storedTo = some pa) {l : Line} (hl : s'.caches.dataCache.Holds l)
    (hline : l.physicalLine = pa >>> LOG_LINE_BYTES) :
    l.write s'.caches.request.address (storeData s'.caches.request)
      (s'.caches.request.byteMask.setWidth 8) = l := by
  have hvisible : Shown p s' :=
    Machine.invariant_allSteps (fun h he hstep => h.step he.1 he.2 hstep) hes (.of_start hs) hrun
  obtain ⟨-, hdata⟩ := hvisible.data_of_done (step_of_needsDownstream.1 hdone)
  obtain ⟨set, i, hat⟩ := hl
  obtain ⟨_, _, -, -, -, hshows⟩ := hdata.lines set i l hat
  exact hshows hk hmae pa hpa hline

end SteppedCore

/-! ## Two runs over the flat bus -/

open SteppedCore

theorem emptyStart_startedCore {mmu : MmuCore} (m : MemCore × Unit) (hlayout : mmu.layout = {})
    (htlb : mmu.tlb = Tlb.empty) : EmptyStart plain (startedCore mmu m) where
  step := rfl
  answer := rfl
  lines := by
    change HasLines dom mmu.layout
    rw [hlayout]
    exact hasLines_flat
  tlb level e := by
    change ¬ mmu.tlb.Holds level e
    rw [htlb]
    exact Tlb.not_holds_empty level e
  sets := Nat.le_refl 2
  data := not_holds_configure 2 2

variable {τ : Type} {phys : PhysicalMemory τ} {p : PlainMemory phys} {s s' : SteppedCore τ}
  {e : Event τ}
variable (p s) in
/-- The walks read the first word only, and its page stays. -/
def RewritesFirst : Event τ → Prop
  | .serve =>
      (∀ n ∈ tablePath p.dom s.mmu.contextTablePointerRegister (s.contents p)
        s.mmu.contextRegister s.caches.downstreamRequest.address, n = 0) ∧
      SamePage ((s.contents p).read p.dom 0)
        ((access (ram p.dom) s.caches.downstreamRequest
          (s.mmu, s.contents p)).2.2.read p.dom 0)
  | .change m => SamePage ((s.contents p).read p.dom 0) ((p.contents m).read p.dom 0)
  | .begin _ | .downstreamDone | .invalidatePhysicalLine _ => True

instance (e : Event τ) : Decidable (RewritesFirst p s e) :=
  match e with
  | .serve => inferInstanceAs (Decidable ((∀ _ ∈ _, _) ∧ _))
  | .change _ => inferInstanceAs (Decidable (SamePage _ _))
  | .begin _ | .downstreamDone | .invalidatePhysicalLine _ => inferInstanceAs (Decidable True)

theorem RewritesFirst.rewritesRights (h : RewritesFirst p s e) (hwords : ∀ n ∈ s.words, n = 0) :
    RewritesRights p s e := by
  cases e with
  | serve =>
    intro n hn
    rw [eq_zero_of_mem_tableWords hwords h.1 hn]
    exact h.2
  | change m =>
    intro n hn
    rw [hwords n hn]
    exact h
  | _ => trivial

theorem RewritesFirst.words (h : RewritesFirst p s e) (hwords : ∀ n ∈ s.words, n = 0)
    (hstep : s.step p e = some s') : ∀ n ∈ s'.words, n = 0 := by
  cases stepped_of_step hstep with
  | serve => exact fun n hn => eq_zero_of_mem_tableWords hwords h.1 hn
  | _ => exact hwords

/-- The rights of a page are widened after its line has been read: a store goes to memory, and the
line that is read for it is not put in. -/
theorem store_misses_widened_line :
    let es := [.begin (secondLineRequest .LOAD), .serve, .downstreamDone, .change (pageBus 0xAE),
      .begin (secondLineRequest .STORE), .serve, .downstreamDone, .serve, .downstreamDone]
    let s := startedCore { mmuOn with tlbEnabled := false } (pageBus 0x82)
    EmptyStart plain s ∧
      (machine plain).AllSteps (RewritesRights plain) es s ∧
      ∃ s', (machine plain).run es s = some s' ∧ s'.caches.needsDownstream = false ∧
        IsCachedStore s'.caches.request ∧ s'.caches.response.mae = false ∧
        ∃ pa l, s'.storedTo = some pa ∧ s'.caches.dataCache.Holds l ∧
          l.physicalLine = pa >>> LOG_LINE_BYTES ∧
          l.write s'.caches.request.address (storeData s'.caches.request)
            (s'.caches.request.byteMask.setWidth 8) ≠ l := by
  intro es s
  have hfirst : (machine plain).AllSteps (RewritesFirst plain) es s := by
    decide
  refine ⟨emptyStart_startedCore _ rfl rfl, ?_, ?_⟩
  · exact hfirst.imp_of_invariant
      (fun hI h => h.rewritesRights hI) (fun hI h hstep => h.words hI hstep)
      fun n hn => (notMem_empty n hn).elim
  · obtain ⟨s', hs'⟩ : ∃ s', (machine plain).run es s = some s' :=
      isSome_iff_exists.1 (by decide)
    have hend : ((machine plain).run es s).map (fun s' =>
        (s'.caches.needsDownstream, decide (IsCachedStore s'.caches.request),
          s'.caches.response.mae, s'.storedTo)) = some (false, true, false, some 0x40) := by
      decide
    have hheld : ((machine plain).run es s).map (fun s' =>
        (s'.caches.dataCache.find 0x40 0).map fun l =>
          (l.physicalLine, l.data 0, (l.write s'.caches.request.address
            (storeData s'.caches.request) (s'.caches.request.byteMask.setWidth 8)).data 0)) =
        some (some (1, 0, 7)) := by
      decide
    rw [hs', map_some, some.injEq] at hend hheld
    simp only [Prod.mk.injEq, decide_eq_true_eq] at hend
    obtain ⟨hdone, hk, hmae, hpa⟩ := hend
    obtain ⟨l, hl, hdata⟩ := map_eq_some_iff.mp hheld
    obtain ⟨⟨i, hi⟩, -⟩ := at_of_find hl
    simp only [Prod.mk.injEq] at hdata
    obtain ⟨hline, hold, hnew⟩ := hdata
    refine ⟨s', hs', hdone, hk, hmae, 0x40, l, hpa, hi.holds, hline, fun heq => ?_⟩
    rw [heq, hold] at hnew
    exact absurd hnew (by decide)

/-- The rights of the page are rewritten while the store is in progress. -/
theorem store_shown_after_rewriting :
    let es := [.begin (secondLineRequest .LOAD), .serve, .downstreamDone,
      .begin (secondLineRequest .STORE), .change (pageBus 0x86), .serve, .downstreamDone]
    let s := startedCore { mmuOn with tlbEnabled := false } (pageBus 0x8E)
    ∃ s' l, (machine plain).run es s = some s' ∧ s'.storedTo = some 0x40 ∧
      s'.caches.dataCache.Holds l ∧
      l.write s'.caches.request.address (storeData s'.caches.request)
        (s'.caches.request.byteMask.setWidth 8) = l := by
  intro es s
  have hsteps : (machine plain).AllSteps
      (fun s e => RewritesFirst plain s e ∧ MeetsLine plain s e) es s := by
    decide
  have hes : (machine plain).AllSteps
      (fun s e => RewritesRights plain s e ∧ MeetsLine plain s e) es s :=
    hsteps.imp_of_invariant
      (fun hI h => ⟨h.1.rewritesRights hI, h.2⟩) (fun hI h hstep => h.1.words hI hstep)
      fun n hn => (notMem_empty n hn).elim
  obtain ⟨s', hs'⟩ : ∃ s', (machine plain).run es s = some s' :=
    isSome_iff_exists.1 (by decide)
  have hend : ((machine plain).run es s).map (fun s' =>
      (s'.caches.needsDownstream, decide (IsCachedStore s'.caches.request),
        s'.caches.response.mae, s'.storedTo)) = some (false, true, false, some 0x40) := by
    decide
  have hheld : ((machine plain).run es s).map (fun s' =>
      (s'.caches.dataCache.find 0x40 0).map fun l => l.physicalLine) = some (some 1) := by
    decide
  rw [hs', map_some, some.injEq] at hend hheld
  simp only [Prod.mk.injEq, decide_eq_true_eq] at hend
  obtain ⟨hdone, hk, hmae, hpa⟩ := hend
  obtain ⟨l, hl, hline⟩ := map_eq_some_iff.mp hheld
  obtain ⟨⟨i, hi⟩, -⟩ := at_of_find hl
  exact ⟨s', l, hs', hpa, hi.holds, stores_stay_visible plain es s s'
    (emptyStart_startedCore _ rfl rfl) hes hs' hdone hk hmae hpa hi.holds hline⟩

end SparcV8
