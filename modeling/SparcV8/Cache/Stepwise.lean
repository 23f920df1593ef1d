import SparcV8.Cache.CoreStep
import SparcV8.Core.Machine.Transition

/-!
# A core in the middle of a request

The caches of one core, a step at a time: a request begins, the MMU serves what is passed on, and
the caches take the answer. In between others may change main memory, and the invalidates of the
lines they have changed may arrive.
-/

namespace SparcV8

open L1CachesCore MmuCore CacheArray Option VirtualMemoryRequest Shrunk

/-- The caches of a core, its MMU and the memory, between two steps. -/
structure SteppedCore (τ : Type) where
  caches : L1CachesCore
  mmu : MmuCore
  memory : τ
  /-- The MMU's answer, until the caches take it. -/
  answer : Option VirtualMemoryResponse
  /-- The words that the walks of the MMU have read. -/
  words : Set Nat
  /-- The lines that others have changed, until their invalidate arrives. -/
  outstanding : Set Nat
  /-- Where the data of the current store or atomic have gone. -/
  storedTo : Option (BitVec 64)

namespace SteppedCore

inductive Event (τ : Type) where
  | begin (request : VirtualMemoryRequest)
  | serve
  | downstreamDone
  | change (memory : τ)
  | invalidatePhysicalLine (physicalAddress : BitVec 64)

variable {τ : Type} {phys : PhysicalMemory τ} (p : PlainMemory phys)

/-- The words of memory. -/
def contents (s : SteppedCore τ) : Words := p.contents s.memory

/-- Where the address of the request is mapped. -/
def mapped (s : SteppedCore τ) : Translation :=
  s.mmu.mappedTo p.dom (s.contents p) s.caches.context s.caches.request.address

/-- The walk for the address of the request. -/
def walk (s : SteppedCore τ) : WalkResult :=
  tableWalk p.dom s.mmu.contextTablePointerRegister (s.contents p) s.caches.context
    s.caches.request.address

/-- The lines of the words in which two memories differ. -/
def changedLines (c c' : Words) : Set Nat :=
  {line | ∃ n, c'.read p.dom n ≠ c.read p.dom n ∧ n / 16 = line}

/-- The MMU serves the request that is passed on, in one step: nothing comes between the reads of a
walk, or between the eight of a line. -/
def serve (s : SteppedCore τ) : SteppedCore τ :=
  let d := s.caches.downstreamRequest
  let a := access phys d (s.mmu, s.memory)
  { s with
    mmu := a.2.1
    memory := a.2.2
    answer := some a.1
    words := tableWords p.dom s.mmu (s.contents p) s.words d
    storedTo :=
      if d.isWrite then
        (s.mmu.translateRequest phys d s.memory).1.map Translation.physicalAddr
      else s.storedTo }

/-- The answer of the MMU. -/
def reply (s : SteppedCore τ) : VirtualMemoryResponse := (s.serve p).answer.getD {}

def step (s : SteppedCore τ) : Event τ → Option (SteppedCore τ)
  | .begin request =>
    if s.caches.needsDownstream then none
    else some { s with caches := s.caches.begin s.mmu.contextRegister request, storedTo := none }
  | .serve => if s.caches.needsDownstream && s.answer.isNone then some (s.serve p) else none
  | .downstreamDone =>
    s.answer.bind fun r =>
      (s.caches.downstreamDone r).map fun c => { s with caches := c, answer := none }
  | .change memory =>
    some { s with
      memory := memory
      outstanding := s.outstanding ∪ changedLines p (s.contents p) (p.contents memory) }
  | .invalidatePhysicalLine pa =>
    some { s with
      caches := s.caches.invalidatePhysicalLine pa
      outstanding := s.outstanding \ {pa.toNat / 64} }

def machine : Machine (SteppedCore τ) (Event τ) := ⟨step p⟩

end SteppedCore

/-! ## The steps of the caches -/

namespace L1CachesCore

variable {c c' : L1CachesCore} {context : Word} {r : VirtualMemoryRequest}

/-- How a request begins: it is served at once, or something is passed on. -/
inductive Begun (c : L1CachesCore) (context : Word) (r : VirtualMemoryRequest) : L1CachesCore → Prop
  | done {c' : L1CachesCore} (hstep : c'.step = .DONE)
      (hinstruction : Shrunk c.instructionCache c'.instructionCache)
      (hdata : Shrunk c.dataCache c'.dataCache) : Begun c context r c'
  | forward (lastHit : Bool)
      (hkind : r.Reads → isCachedAsi r.asi = false)
      (hhit : r.accessType = .STORE →
        lastHit = (isCachedAsi r.asi && (allowedLine c.dataCache r context true).isSome)) :
      Begun c context r { c.start context r with lastHit := lastHit, step := .FORWARD }
  | fill (hkind : r.Reads) (hasi : isCachedAsi r.asi = true) :
      Begun c context r
        { c.start context r with
          downstreamRequest := lineRequest r, invalidatedDuringFill := [],
          step := .FILL_FOR_READ }

end L1CachesCore

namespace CacheArray

theorem shrunk_flushAll (a : CacheArray) : Shrunk a a.flushAll :=
  ⟨rfl, fun _ _ l h => absurd h.holds (not_holds_flushAll a l)⟩

end CacheArray

namespace L1CachesCore

variable (c : L1CachesCore) (context : Word) (r : VirtualMemoryRequest)

theorem begun_begin : Begun c context r (c.begin context r) := by
  have hforward (hkind : r.Reads → isCachedAsi r.asi = false) (hk : r.accessType ≠ .STORE) :
      Begun c context r { c.start context r with step := .FORWARD } :=
    .forward false hkind fun h => absurd h hk
  have hother (hk : r.accessType ≠ .IFETCH) (hk' : r.accessType ≠ .LOAD) (h : r.Reads) :
      isCachedAsi r.asi = false :=
    absurd h (not_or.2 ⟨hk, hk'⟩)
  unfold begin
  cases hk : r.accessType with
  | IFETCH | LOAD =>
    dsimp only
    cases hasi : isCachedAsi r.asi with
    | false => exact hforward (fun _ => hasi) (by rw [hk]; decide)
    | true =>
      rw [Bool.not_true, if_off]
      split
      · exact .done rfl (.refl _) (.refl _)
      · exact .fill (by rw [Reads, hk]; decide) hasi
  | STORE =>
    dsimp only
    split
    · exact .done rfl (shrunk_flushAll _) (shrunk_flushAll _)
    · split
      · exact .done rfl (shrunk_flushAll _) (.refl _)
      · exact .forward _ (hother (by rw [hk]; decide) (by rw [hk]; decide)) fun _ => rfl
  | ATOMIC_LS =>
    exact hforward (hother (by rw [hk]; decide) (by rw [hk]; decide)) (by rw [hk]; decide)
  | FLUSH => exact .done rfl (shrunk_flushAll _) (shrunk_flushAll _)
  | NO_ACCESS =>
    exact hforward (hother (by rw [hk]; decide) (by rw [hk]; decide)) (by rw [hk]; decide)
  | READ_LINE =>
    exact hforward (hother (by rw [hk]; decide) (by rw [hk]; decide)) (by rw [hk]; decide)

variable {c : L1CachesCore} {a : VirtualMemoryResponse}

section

variable (hasi : isCachedAsi c.request.asi = true)
include hasi

/-- A store or an atomic to a cached space that leaves the caches. -/
theorem forwarded_of_nothing
    (h : a.mae = true ∨ c.dataCache.find c.request.address c.context = none ∧ a.cacheable = false ∧
      a.physicalAddressValid = false) :
    c.storeForwarded a = c ∧ c.atomicForwarded a = c := by
  obtain ⟨-, -, hmmu, -⟩ := not_flush_of_isCachedAsi hasi
  unfold storeForwarded atomicForwarded
  dsimp only
  rcases h with hmae | ⟨hfind, hcacheable, hvalid⟩
  · rw [hmae, Bool.not_true, Bool.and_false, if_off, if_neg hmmu, if_off]
    exact ⟨rfl, rfl⟩
  · simp [hfind, hcacheable, hvalid, isSome_none, if_neg hmmu]

/-- A store to a cached space that is let through, and finds its line. -/
theorem storeForwarded_of_hit (hmae : a.mae = false) (hhit : c.lastHit = true) {l : Line}
    (hfind : c.dataCache.find c.request.address c.context = some l) :
    c.storeForwarded a =
      { c with dataCache := c.dataCache.writeBytes c.request.address c.context
                 (storeData c.request) (c.request.byteMask.setWidth 8) } := by
  simp [storeForwarded, hasi, hmae, hhit, hfind, isSome_some]

/-- A store to a cached space that is let through, and misses its line. -/
theorem storeForwarded_of_miss (hmae : a.mae = false)
    (hfind : c.dataCache.find c.request.address c.context = none)
    (hvalid : a.physicalAddressValid = true) :
    c.storeForwarded a =
      if a.cacheable then
        { c with
          downstreamRequest := allocateRequest c.request, invalidatedDuringFill := [],
          step := .FILL_FOR_WRITE }
      else { c with dataCache := c.dataCache.invalidatePhysicalLine a.physicalAddress } := by
  simp [storeForwarded, hasi, hmae, hfind, hvalid, isSome_none]

theorem atomicForwarded_of_let (hmae : a.mae = false) (hvalid : a.physicalAddressValid = true) :
    c.atomicForwarded a =
      if (c.dataCache.find c.request.address c.context).isSome then
        { c with dataCache := c.dataCache.writeBytes c.request.address c.context
                   (storeData c.request) (c.request.byteMask.setWidth 8) }
      else { c with dataCache := c.dataCache.invalidatePhysicalLine a.physicalAddress } := by
  simp [atomicForwarded, hasi, hmae, hvalid]

end

/-- A store or an atomic writes the line it finds, or removes lines. -/
structure Forwarded (c c' : L1CachesCore) : Prop where
  request : c'.request = c.request
  response : c'.response = c.response
  data : Shrunk c.dataCache c'.dataCache ∨
    (c.dataCache.find c.request.address c.context).isSome = true ∧
      c'.dataCache = c.dataCache.writeBytes c.request.address c.context (storeData c.request)
        (c.request.byteMask.setWidth 8)

theorem Forwarded.refl (c : L1CachesCore) : Forwarded c c := ⟨rfl, rfl, .inl (.refl _)⟩

variable (c a) in
theorem forwarded_atomicForwarded :
    Forwarded c (c.atomicForwarded a) ∧ (c.atomicForwarded a).step = c.step := by
  unfold atomicForwarded
  dsimp only
  split
  · split
    · next hsome => exact ⟨⟨rfl, rfl, .inr ⟨hsome, rfl⟩⟩, rfl⟩
    · split
      · exact ⟨⟨rfl, rfl, .inl ((refl _).invalidatePhysicalLine _)⟩, rfl⟩
      · exact ⟨.refl c, rfl⟩
  · exact ⟨.refl c, rfl⟩

variable (c a) in
/-- A store is followed by a line read only if its page may be cached. -/
theorem forwarded_storeForwarded :
    Forwarded c (c.storeForwarded a) ∧
      ((isCachedAsi c.request.asi && !a.mae && a.cacheable) = false →
        (c.storeForwarded a).step = c.step) := by
  unfold storeForwarded
  dsimp only
  split
  · next hcached =>
    rw [hcached, Bool.true_and]
    split
    · next hhit =>
      rw [Bool.and_eq_true] at hhit
      exact ⟨⟨rfl, rfl, .inr ⟨hhit.2, rfl⟩⟩, fun _ => rfl⟩
    · split
      · next hcacheable =>
        refine ⟨⟨rfl, rfl, .inl (.refl _)⟩, fun h => ?_⟩
        rw [hcacheable] at h
        cases h
      · split
        · exact ⟨⟨rfl, rfl, .inl ((refl _).invalidatePhysicalLine _)⟩, fun _ => rfl⟩
        · exact ⟨.refl c, fun _ => rfl⟩
  · split
    · split
      · exact ⟨⟨rfl, rfl, .inl (shrunk_flushAll _)⟩, fun _ => rfl⟩
      · exact ⟨⟨rfl, rfl, .inl (.refl _)⟩, fun _ => rfl⟩
    · exact ⟨.refl c, fun _ => rfl⟩

end L1CachesCore

theorem eq_of_isWrite {r : VirtualMemoryRequest} (h : r.isWrite = true) : r.Stores := by
  unfold isWrite at h
  cases hk : r.accessType <;> simp [Stores, hk] at h ⊢

namespace L1CachesCore

theorem step_of_needsDownstream {c : L1CachesCore} :
    c.needsDownstream = false ↔ c.step = .DONE := by
  rw [needsDownstream, bne_eq_false_iff_eq]

theorem isInvalidatedDuringFill_eq_false {c : L1CachesCore} {pa : BitVec 64} :
    c.isInvalidatedDuringFill pa = false ↔
      pa >>> LOG_LINE_BYTES ∉ c.invalidatedDuringFill := by
  rw [isInvalidatedDuringFill, ← Bool.not_eq_true, List.contains_iff_mem]

end L1CachesCore

/-! ## The steps of a core -/

namespace SteppedCore

variable {τ : Type} {phys : PhysicalMemory τ} {p : PlainMemory phys} {s s' : SteppedCore τ}

/-- The core after a request has begun. -/
def begun (s : SteppedCore τ) (r : VirtualMemoryRequest) : SteppedCore τ :=
  { s with caches := s.caches.begin s.mmu.contextRegister r, storedTo := none }

/-- The core after its caches have taken the answer. -/
def taken (s : SteppedCore τ) (c : L1CachesCore) : SteppedCore τ :=
  { s with caches := c, answer := none }

/-- The core after others have changed memory. -/
def changed (p : PlainMemory phys) (s : SteppedCore τ) (m : τ) : SteppedCore τ :=
  { s with
    memory := m
    outstanding := s.outstanding ∪ changedLines p (s.contents p) (p.contents m) }

/-- The core after an invalidate has arrived. -/
def invalidated (s : SteppedCore τ) (q : BitVec 64) : SteppedCore τ :=
  { s with
    caches := s.caches.invalidatePhysicalLine q
    outstanding := s.outstanding \ {q.toNat / 64} }

/-- What each event does. -/
inductive Stepped (p : PlainMemory phys) (s : SteppedCore τ) : Event τ → SteppedCore τ → Prop
  | begin {r : VirtualMemoryRequest} (hstep : s.caches.step = .DONE) :
      Stepped p s (.begin r) (s.begun r)
  | serve (hstep : s.caches.step ≠ .DONE) (hanswer : s.answer = none) :
      Stepped p s .serve (s.serve p)
  | downstreamDone {r : VirtualMemoryResponse} {c : L1CachesCore} (hanswer : s.answer = some r)
      (hdone : s.caches.downstreamDone r = some c) : Stepped p s .downstreamDone (s.taken c)
  | change {m : τ} : Stepped p s (.change m) (s.changed p m)
  | invalidatePhysicalLine {q : BitVec 64} :
      Stepped p s (.invalidatePhysicalLine q) (s.invalidated q)

theorem stepped_of_step {e : Event τ} (h : s.step p e = some s') : Stepped p s e s' := by
  cases e with
  | begin r =>
    rw [SteppedCore.step] at h
    split at h
    · cases h
    · next hneeds =>
      cases h
      rw [Bool.not_eq_true, step_of_needsDownstream] at hneeds
      exact .begin hneeds
  | serve =>
    rw [SteppedCore.step] at h
    split at h
    · next hneeds =>
      cases h
      rw [Bool.and_eq_true, isNone_iff_eq_none] at hneeds
      refine .serve (fun hdone => ?_) hneeds.2
      rw [step_of_needsDownstream.2 hdone] at hneeds
      exact Bool.false_ne_true hneeds.1
    · cases h
  | downstreamDone =>
    obtain ⟨r, hr, hdone⟩ := bind_eq_some_iff.1 h
    obtain ⟨c, hc, rfl⟩ := map_eq_some_iff.1 hdone
    exact .downstreamDone hr hc
  | change m =>
    cases h
    exact .change
  | invalidatePhysicalLine q =>
    cases h
    exact .invalidatePhysicalLine

section Steps

variable {q : BitVec 64} {r : VirtualMemoryResponse}

theorem invalidatedDuringFill_invalidated
    (hstep : s.caches.step = .FILL_FOR_READ ∨ s.caches.step = .FILL_FOR_WRITE) :
    (s.invalidated q).caches.invalidatedDuringFill =
      s.caches.invalidatedDuringFill ++ [q >>> LOG_LINE_BYTES] :=
  if_pos hstep

theorem shrunk_invalidated : Shrunk s.caches.dataCache (s.invalidated q).caches.dataCache :=
  (refl _).invalidatePhysicalLine q

/-- An answer to the request itself. -/
theorem downstreamDone_forward (hstep : s.caches.step = .FORWARD) :
    ∃ c, s.caches.downstreamDone r = some (match s.caches.request.accessType with
        | .STORE => storeForwarded c r
        | .ATOMIC_LS => atomicForwarded c r
        | _ => c) ∧
      c.step = .DONE ∧ c.instructionCache = s.caches.instructionCache ∧
      c.dataCache = s.caches.dataCache ∧ c.request = s.caches.request ∧
      c.context = s.caches.context ∧ c.lastHit = s.caches.lastHit ∧ c.response.mae = r.mae := by
  refine ⟨{ s.caches with
      response := { readWord0 := r.readWord0, readWord1 := r.readWord1, mae := r.mae }
      step := .DONE }, ?_, rfl, rfl, rfl, rfl, rfl, rfl, rfl⟩
  simp only [downstreamDone, hstep]
  cases s.caches.request.accessType <;> rfl

/-- What the MMU does, over the words of memory. -/
theorem serve_spec (p : PlainMemory phys) (s : SteppedCore τ) :
    access (Words.ram p.dom) s.caches.downstreamRequest
        (s.mmu, s.contents p) =
      (s.reply p, ((s.serve p).mmu, (s.serve p).contents p)) :=
  p.lift_mmuAccess _ s.mmu s.memory

/-- What the MMU leaves, by what an access does. -/
theorem serve_eq {d : VirtualMemoryRequest} {u : MmuCore} {c : Words}
    (hd : s.caches.downstreamRequest = d) (h : access (Words.ram p.dom) d (s.mmu, s.contents p) =
      (r, (u, c))) :
    s.reply p = r ∧ (s.serve p).mmu = u ∧ (s.serve p).contents p = c := by
  rw [← hd, serve_spec] at h
  cases h
  exact ⟨rfl, rfl, rfl⟩

/-- What the walks have read, step by step. -/
theorem words_serve : (s.serve p).words =
    tableWords p.dom s.mmu (s.contents p) s.words s.caches.downstreamRequest :=
  rfl

theorem words_downstreamDone {s' : SteppedCore τ} (h : s.step p .downstreamDone = some s') :
    s'.words = s.words := by
  cases stepped_of_step h with
  | downstreamDone => rfl

theorem words_begin {s' : SteppedCore τ} {r : VirtualMemoryRequest}
    (h : s.step p (.begin r) = some s') : s'.words = s.words := by
  cases stepped_of_step h with
  | begin => rfl

/-- Only a change by others is waiting for its invalidate. -/
theorem outstanding_subset {s' : SteppedCore τ} {e : Event τ} (h : s.step p e = some s')
    (he : ∀ m, e ≠ .change m) : s'.outstanding ⊆ s.outstanding := by
  cases stepped_of_step h with
  | begin => exact subset_rfl
  | serve => exact subset_rfl
  | downstreamDone => exact subset_rfl
  | change => exact absurd rfl (he _)
  | invalidatePhysicalLine => exact Set.sdiff_subset

end Steps

/-- A core that has just been started. -/
def startedCore (mmu : MmuCore) (m : MemCore × Unit) : SteppedCore (MemCore × Unit) :=
  { caches := emptyCaches
    mmu := mmu
    memory := m
    answer := none
    words := ∅
    outstanding := ∅
    storedTo := none }

end SteppedCore

end SparcV8
