import SparcV8.Cache.CacheArray
import SparcV8.Mmu.PageTable
import SparcV8.Mmu.Physical

/-!
# The first-level caches of a core

`L1CachesCore`: an instruction and a data cache between a core and its MMU. One request is served at
a time, in steps: `begin`, then `downstreamDone` with the answer to each request that is passed on.
`access` takes all the steps at once. Statistics are left out.
-/

namespace SparcV8

open CacheArray

namespace L1CachesCore

inductive Step where
  | DONE | FORWARD | FILL_FOR_READ | FILL_FOR_WRITE
  deriving DecidableEq, Repr

def isCachedAsi (asi : Word) : Bool := 0x8 ≤ asi && asi ≤ 0xB

/-- Whether the access rights of a cached line allow an access. -/
def accessAllowed (acc asi : Word) (isWrite : Bool) : Bool :=
  let supervisor := asi == asiSupervisorInstruction || asi == asiSupervisorData
  let ifetch := asi == asiSupervisorInstruction || asi == asiUserInstruction
  match acc.toNat with
  | 0 => !ifetch && !isWrite
  | 1 => !ifetch
  | 2 => !isWrite
  | 3 => true
  | 4 => ifetch
  | 5 => if supervisor then !ifetch else !(ifetch || isWrite)
  | 6 => supervisor && !isWrite
  | 7 => supervisor
  | _ => false

def isContextRegisterWrite (r : VirtualMemoryRequest) : Bool :=
  r.asi == asiMmuRegister && r.address >>> 8 &&& 0x7 == 2

end L1CachesCore

structure L1CachesCore where
  instructionCache : CacheArray
  dataCache : CacheArray
  step : L1CachesCore.Step
  request : VirtualMemoryRequest
  response : VirtualMemoryResponse
  downstreamRequest : VirtualMemoryRequest
  isInstruction : Bool
  /-- The MMU context when the request began. -/
  context : Word
  lastHit : Bool
  /-- Physical lines invalidated since the current fill began. -/
  invalidatedDuringFill : List (BitVec 64)

namespace L1CachesCore

variable (c : L1CachesCore)

def flushInstructionCache : L1CachesCore :=
  { c with instructionCache := c.instructionCache.flushAll }

def flushDataCache : L1CachesCore :=
  { c with dataCache := c.dataCache.flushAll }

/-- Another core has written the line. -/
def invalidatePhysicalLine (physicalAddress : BitVec 64) : L1CachesCore :=
  { c with
    instructionCache := c.instructionCache.invalidatePhysicalLine physicalAddress
    dataCache := c.dataCache.invalidatePhysicalLine physicalAddress
    invalidatedDuringFill :=
      if c.step = .FILL_FOR_READ ∨ c.step = .FILL_FOR_WRITE then
        c.invalidatedDuringFill ++ [physicalAddress >>> LOG_LINE_BYTES]
      else c.invalidatedDuringFill }

/-- The line of a read's answer has been invalidated while it was read. -/
def isInvalidatedDuringFill (physicalAddress : BitVec 64) : Bool :=
  c.invalidatedDuringFill.contains (physicalAddress >>> LOG_LINE_BYTES)

variable (cache : CacheArray)

/-- Put a line into a cache, in the place of any older copy of it. -/
def installLine (request : VirtualMemoryRequest) (context : Word) (r : VirtualMemoryResponse) :
    Option CacheArray :=
  (cache.invalidatePhysicalLine r.physicalAddress).fill request.address context r.acc r.line
    r.physicalAddress

/-- What a read returns from its doubleword: a fetch one word of it. -/
def serveRead (request : VirtualMemoryRequest) (dw : BitVec 64) : VirtualMemoryResponse :=
  if request.accessType = .IFETCH then
    { readWord0 := if request.address &&& 0x4 ≠ 0 then highWord dw else lowWord dw }
  else { readWord0 := lowWord dw, readWord1 := highWord dw }

/-- The line for an address, if its rights allow the access. -/
def allowedLine (request : VirtualMemoryRequest) (context : Word) (isWrite : Bool) : Option Line :=
  (cache.find request.address context).filter fun l => accessAllowed l.acc request.asi isWrite

/-- The read of a whole line that a missing read becomes. A fetch says which word of the line it
needs. -/
def lineRequest (request : VirtualMemoryRequest) : VirtualMemoryRequest :=
  { request with
    accessType := .READ_LINE
    byteMask :=
      if request.accessType = .IFETCH then (if request.address &&& 0x4 ≠ 0 then 0xF0 else 0x0F)
      else request.byteMask }

/-- The read of the line that has just been stored to. -/
def allocateRequest (request : VirtualMemoryRequest) : VirtualMemoryRequest :=
  { request with accessType := .READ_LINE, byteMask := 0 }

/-- The data of a store or an atomic, as a doubleword. -/
def storeData (request : VirtualMemoryRequest) : BitVec 64 := doubleword request.word1 request.word0

/-- The cache that serves a read. -/
def cacheOf : CacheArray :=
  if c.isInstruction then c.instructionCache else c.dataCache

def setCacheOf (cache : CacheArray) : L1CachesCore :=
  if c.isInstruction then { c with instructionCache := cache } else { c with dataCache := cache }

/-! ## The steps -/

/-- What `begin` sets for every request. -/
def start (currentContext : Word) (request : VirtualMemoryRequest) : L1CachesCore :=
  { c with
    request := request, response := {}, step := .DONE, lastHit := false,
    isInstruction := request.accessType == MemAccessType.IFETCH, context := currentContext,
    downstreamRequest := request }

def begin (currentContext : Word) (request : VirtualMemoryRequest) : L1CachesCore :=
  let c := c.start currentContext request
  let asi := request.asi
  match request.accessType with
  | .IFETCH | .LOAD =>
    if !isCachedAsi asi then { c with step := .FORWARD }
    else
      match allowedLine c.cacheOf request c.context false with
      | some line =>
        { c with
          lastHit := true
          response := serveRead request (readDoubleword line request.address) }
      | none =>
        { c with
          downstreamRequest := lineRequest request, invalidatedDuringFill := [],
          step := .FILL_FOR_READ }
  | .STORE =>
    if asiIsDcacheFlush (asi.setWidth 8) then c.flushInstructionCache.flushDataCache
    else if asiIsIcacheFlush (asi.setWidth 8) then c.flushInstructionCache
    else
      { c with
        lastHit := isCachedAsi asi && (allowedLine c.dataCache request c.context true).isSome
        step := .FORWARD }
  | .ATOMIC_LS => { c with step := .FORWARD }
  | .FLUSH => c.flushInstructionCache.flushDataCache
  | .NO_ACCESS | .READ_LINE => { c with step := .FORWARD }

def needsDownstream : Bool := c.step != .DONE

/-- What follows once a store has been passed on. -/
def storeForwarded (r : VirtualMemoryResponse) : L1CachesCore :=
  let request := c.request
  if isCachedAsi request.asi && !r.mae then
    if c.lastHit && (c.dataCache.find request.address c.context).isSome then
      { c with dataCache := c.dataCache.writeBytes request.address c.context (storeData request)
                 (request.byteMask.setWidth 8) }
    else if r.cacheable then
      { c with
        downstreamRequest := allocateRequest request, invalidatedDuringFill := [],
        step := .FILL_FOR_WRITE }
    else if r.physicalAddressValid then
      { c with dataCache := c.dataCache.invalidatePhysicalLine r.physicalAddress }
    else c
  else if request.asi = asiMmuFlushProbe ∨ request.asi = asiMmuRegister then
    let c := c.flushInstructionCache
    if !isContextRegisterWrite request then c.flushDataCache else c
  else c

/-- What follows once an atomic has been passed on. -/
def atomicForwarded (r : VirtualMemoryResponse) : L1CachesCore :=
  let request := c.request
  if isCachedAsi request.asi && !r.mae then
    if (c.dataCache.find request.address c.context).isSome then
      { c with dataCache := c.dataCache.writeBytes request.address c.context (storeData request)
                 (request.byteMask.setWidth 8) }
    else if r.physicalAddressValid then
      { c with dataCache := c.dataCache.invalidatePhysicalLine r.physicalAddress }
    else c
  else c

/-- `none` is the failure of an assertion of the cache that a line is put into. -/
def downstreamDone (r : VirtualMemoryResponse) : Option L1CachesCore :=
  let request := c.request
  match c.step with
  | .FORWARD =>
    let c := { c with
      response := { readWord0 := r.readWord0, readWord1 := r.readWord1, mae := r.mae }
      step := .DONE }
    match request.accessType with
    | .STORE => some (c.storeForwarded r)
    | .ATOMIC_LS => some (c.atomicForwarded r)
    | _ => some c
  | .FILL_FOR_READ =>
    let c := { c with step := .DONE }
    if r.mae then some { c with response := { c.response with mae := true } }
    else
      let abandoned := r.cacheable && c.isInvalidatedDuringFill r.physicalAddress
      let served := { c with
        response := serveRead request (r.line (dwordIndex request.address)) }
      if r.cacheable && !abandoned then
        (installLine c.cacheOf request c.context r).map served.setCacheOf
      else some served
  | .FILL_FOR_WRITE =>
    let c := { c with step := .DONE }
    if !r.mae && r.cacheable && (c.dataCache.find request.address c.context).isNone &&
        !c.isInvalidatedDuringFill r.physicalAddress then
      (installLine c.dataCache request c.context r).map fun cache => { c with dataCache := cache }
    else some c
  | .DONE => some c

section Access

variable {σ : Type} (downstream : VirtualMemory σ)

/-- The loop of `access`. No request is passed on twice, so two rounds do. -/
def runDownstream : Nat → L1CachesCore → σ → Option (L1CachesCore × σ)
  | 0, c, x => if c.needsDownstream then none else some (c, x)
  | rounds + 1, c, x =>
    if c.needsDownstream then do
      let (r, x) := downstream.access c.downstreamRequest x
      let c ← c.downstreamDone r
      runDownstream rounds c x
    else some (c, x)

/-- The whole access. The context is that of the state below. -/
def access (currentContext : σ → Word) (request : VirtualMemoryRequest) (x : L1CachesCore × σ) :
    Option (VirtualMemoryResponse × (L1CachesCore × σ)) := do
  let (c, y) ← runDownstream downstream 2 (x.1.begin (currentContext x.2) request) x.2
  some (c.response, (c, y))

end Access

end L1CachesCore

/-! ## One request at a time -/

/-- The two caches of a core. -/
structure Caches where
  instruction : CacheArray
  data : CacheArray

def L1CachesCore.caches (c : L1CachesCore) : Caches :=
  { instruction := c.instructionCache, data := c.dataCache }

namespace Caches

open L1CachesCore

variable {σ : Type} (downstream : VirtualMemory σ) (context : Word)

/-- The answer to a line read: what the core gets, and the cache after it. -/
def filled (request : VirtualMemoryRequest) (r : VirtualMemoryResponse) (cache : CacheArray) :
    Option (VirtualMemoryResponse × CacheArray) :=
  if r.mae then some ({ mae := true }, cache)
  else
    let response := serveRead request (r.line (dwordIndex request.address))
    if r.cacheable then (installLine cache request context r).map fun cache => (response, cache)
    else some (response, cache)

/-- A fetch or a load with a cached address space, in its cache. -/
def read (request : VirtualMemoryRequest) (cache : CacheArray) (x : σ) :
    Option ((VirtualMemoryResponse × CacheArray) × σ) :=
  match allowedLine cache request context false with
  | some line =>
    some ((serveRead request (readDoubleword line request.address), cache), x)
  | none =>
    let a := downstream.access (lineRequest request) x
    (filled context request a.1 cache).map fun y => (y, a.2)

/-- The answer to the line read that follows a store. -/
def allocated (request : VirtualMemoryRequest) (r : VirtualMemoryResponse) (cache : CacheArray) :
    Option CacheArray :=
  if !r.mae && r.cacheable && (cache.find request.address context).isNone then
    installLine cache request context r
  else some cache

/-- Data cache and state below after a store answered without an exception. -/
def stored (request : VirtualMemoryRequest) (r : VirtualMemoryResponse)
    (cache : CacheArray) (x : σ) : Option (CacheArray × σ) :=
  if (allowedLine cache request context true).isSome then
    some (cache.writeBytes request.address context (storeData request)
      (request.byteMask.setWidth 8), x)
  else if r.cacheable then
    let a := downstream.access (allocateRequest request) x
    (allocated context request a.1 cache).map fun cache => (cache, a.2)
  else if r.physicalAddressValid then some (cache.invalidatePhysicalLine r.physicalAddress, x)
  else some (cache, x)

/-- The data cache after an atomic answered without an exception. -/
def swapped (request : VirtualMemoryRequest) (r : VirtualMemoryResponse) (cache : CacheArray) :
    CacheArray :=
  if (cache.find request.address context).isSome then
    cache.writeBytes request.address context (storeData request) (request.byteMask.setWidth 8)
  else if r.physicalAddressValid then cache.invalidatePhysicalLine r.physicalAddress
  else cache

def flushInstruction (c : Caches) : Caches := { c with instruction := c.instruction.flushAll }

def flush (c : Caches) : Caches :=
  { instruction := c.instruction.flushAll, data := c.data.flushAll }

/-- What a request that is passed on returns to the core. -/
def forwardedResponse (r : VirtualMemoryResponse) : VirtualMemoryResponse :=
  { readWord0 := r.readWord0, readWord1 := r.readWord1, mae := r.mae }

def forward (request : VirtualMemoryRequest) (x : Caches × σ) :
    VirtualMemoryResponse × (Caches × σ) :=
  let a := downstream.access request x.2
  (forwardedResponse a.1, (x.1, a.2))

/-- The caches after a store to the MMU's own spaces. -/
def mmuWritten (request : VirtualMemoryRequest) (c : Caches) : Caches :=
  if request.asi = asiMmuFlushProbe ∨ request.asi = asiMmuRegister then
    if isContextRegisterWrite request then c.flushInstruction else c.flush
  else c

def store (request : VirtualMemoryRequest) (x : Caches × σ) :
    Option (VirtualMemoryResponse × (Caches × σ)) :=
  if asiIsDcacheFlush (request.asi.setWidth 8) then some ({}, (x.1.flush, x.2))
  else if asiIsIcacheFlush (request.asi.setWidth 8) then some ({}, (x.1.flushInstruction, x.2))
  else
    let a := downstream.access request x.2
    if isCachedAsi request.asi && !a.1.mae then
      (stored downstream context request a.1 x.1.data a.2).map fun y =>
        (forwardedResponse a.1, ({ x.1 with data := y.1 }, y.2))
    else some (forwardedResponse a.1, (x.1.mmuWritten request, a.2))

def atomic (request : VirtualMemoryRequest) (x : Caches × σ) :
    VirtualMemoryResponse × (Caches × σ) :=
  let a := downstream.access request x.2
  let data :=
    if isCachedAsi request.asi && !a.1.mae then swapped context request a.1 x.1.data else x.1.data
  (forwardedResponse a.1, ({ x.1 with data := data }, a.2))

/-- A whole access, as a function of the two caches and the state below. -/
def access (request : VirtualMemoryRequest) (x : Caches × σ) :
    Option (VirtualMemoryResponse × (Caches × σ)) :=
  match request.accessType with
  | .IFETCH =>
    if isCachedAsi request.asi then
      (read downstream context request x.1.instruction x.2).map fun y =>
        (y.1.1, ({ x.1 with instruction := y.1.2 }, y.2))
    else some (forward downstream request x)
  | .LOAD =>
    if isCachedAsi request.asi then
      (read downstream context request x.1.data x.2).map fun y =>
        (y.1.1, ({ x.1 with data := y.1.2 }, y.2))
    else some (forward downstream request x)
  | .STORE => store downstream context request x
  | .ATOMIC_LS => some (atomic downstream context request x)
  | .FLUSH => some ({}, (x.1.flush, x.2))
  | .NO_ACCESS | .READ_LINE => some (forward downstream request x)

end Caches

namespace L1CachesCore

variable {σ : Type} (downstream : VirtualMemory σ) {c : L1CachesCore}

/-- A result with the caches alone. -/
def toCaches {α : Type} (x : α × (L1CachesCore × σ)) : α × (Caches × σ) :=
  (x.1, (x.2.1.caches, x.2.2))

theorem runDownstream_of_done (rounds : Nat) (h : c.step = .DONE) (x : σ) :
    runDownstream downstream rounds c x = some (c, x) := by
  have hdone : c.needsDownstream = false := by rw [needsDownstream, h]; rfl
  cases rounds <;> rw [runDownstream, hdone, if_off]

theorem runDownstream_succ (rounds : Nat) (h : c.step ≠ .DONE) (x : σ) :
    runDownstream downstream (rounds + 1) c x =
      (c.downstreamDone (downstream.access c.downstreamRequest x).1).bind fun c' =>
        runDownstream downstream rounds c' (downstream.access c.downstreamRequest x).2 := by
  have hneeds : c.needsDownstream = true := bne_iff_ne.2 h
  rw [runDownstream, hneeds, if_pos rfl]
  rfl

variable (currentContext : σ → Word) {request : VirtualMemoryRequest}

/-- An access that passes nothing on. -/
theorem access_of_done {x : σ} (h : (c.begin (currentContext x) request).step = .DONE) :
    access downstream currentContext request (c, x) =
      some ((c.begin (currentContext x) request).response,
        (c.begin (currentContext x) request, x)) := by
  rw [access, runDownstream_of_done downstream 2 h]
  rfl

/-- An access that passes on one request. -/
theorem access_of_downstreamDone {x : σ} (h : (c.begin (currentContext x) request).step ≠ .DONE)
    (hdone : ∀ c', (c.begin (currentContext x) request).downstreamDone
      (downstream.access (c.begin (currentContext x) request).downstreamRequest x).1 = some c' →
        c'.step = .DONE) :
    access downstream currentContext request (c, x) =
      ((c.begin (currentContext x) request).downstreamDone
        (downstream.access (c.begin (currentContext x) request).downstreamRequest x).1).map
          fun c' =>
          (c'.response,
            (c', (downstream.access
              (c.begin (currentContext x) request).downstreamRequest x).2)) := by
  rw [access, runDownstream_succ downstream 1 h]
  generalize (c.begin (currentContext x) request).downstreamDone _ = o at hdone ⊢
  cases o with
  | none => rfl
  | some c' =>
    rw [Option.bind_some, runDownstream_of_done downstream 1 (hdone c' rfl)]
    rfl

theorem step_setCacheOf (c : L1CachesCore) (cache : CacheArray) :
    (c.setCacheOf cache).step = c.step := by
  unfold setCacheOf
  split <;> rfl

variable {r : VirtualMemoryResponse}

/-- A line read is the last request that is passed on. -/
theorem step_of_fill {c c' : L1CachesCore} (h : c.downstreamDone r = some c')
    (hstep : c.step = .FILL_FOR_READ ∨ c.step = .FILL_FOR_WRITE) : c'.step = .DONE := by
  rcases hstep with hstep | hstep
  · simp only [downstreamDone, hstep] at h
    split at h
    · cases h
      rfl
    · split at h
      · obtain ⟨cache, -, rfl⟩ := Option.map_eq_some_iff.1 h
        exact step_setCacheOf _ cache
      · cases h
        rfl
  · simp only [downstreamDone, hstep] at h
    split at h
    · obtain ⟨cache, -, rfl⟩ := Option.map_eq_some_iff.1 h
      rfl
    · cases h
      rfl

/-- A request that is only passed on. -/
theorem access_forward {x : σ} (hbegin : c.begin (currentContext x) request =
      { c.start (currentContext x) request with step := .FORWARD })
    (hstore : request.accessType ≠ .STORE) (hatomic : request.accessType ≠ .ATOMIC_LS) :
    (access downstream currentContext request (c, x)).map toCaches =
      some (Caches.forward downstream request (c.caches, x)) := by
  have hdone (r : VirtualMemoryResponse) : (c.begin (currentContext x) request).downstreamDone r =
      some { c.start (currentContext x) request with response := Caches.forwardedResponse r } := by
    rw [hbegin]
    simp only [downstreamDone, start]
    rfl
  rw [access_of_downstreamDone, hdone, hbegin]
  · rfl
  · rw [hbegin]
    simp
  · intro c' hc'
    rw [hdone] at hc'
    cases hc'
    rfl

/-- The answer to a line read, when no line has been invalidated since. -/
theorem downstreamDone_fillForRead (hstep : c.step = .FILL_FOR_READ)
    (hresp : c.response = {}) (hinvalidated : c.invalidatedDuringFill = [])
    (r : VirtualMemoryResponse) :
    ((c.downstreamDone r).map fun c' => (c'.response, c'.caches)) =
      (Caches.filled c.context c.request r c.cacheOf).map fun y =>
        (y.1, (c.setCacheOf y.2).caches) := by
  simp only [downstreamDone, hstep, Caches.filled]
  cases hm : r.mae with
  | true =>
    simp only [if_true, Option.map_some, setCacheOf, cacheOf, hresp]
    split <;> rfl
  | false =>
    cases hc : r.cacheable with
    | false =>
      simp only [if_off, Bool.false_and, Option.map_some, setCacheOf, cacheOf]
      split <;> rfl
    | true =>
      simp only [if_off, Bool.true_and, isInvalidatedDuringFill, hinvalidated,
        List.contains_nil, Bool.not_false, if_true, Option.map_map]
      congr 1
      funext cache
      simp only [Function.comp, setCacheOf]
      split <;> rfl

/-- The steps of a read amount to one function of its cache. -/
theorem access_read {x : σ} {cache : CacheArray}
    (hcache : (c.start (currentContext x) request).cacheOf = cache)
    (hbegin : c.begin (currentContext x) request =
      match allowedLine cache request (currentContext x) false with
      | some line =>
        { c.start (currentContext x) request with
          lastHit := true
          response := serveRead request (readDoubleword line request.address) }
      | none =>
        { c.start (currentContext x) request with
          downstreamRequest := lineRequest request, invalidatedDuringFill := [],
          step := .FILL_FOR_READ }) :
    (access downstream currentContext request (c, x)).map toCaches =
      (Caches.read downstream (currentContext x) request cache x).map fun y =>
        (y.1.1, (((c.start (currentContext x) request).setCacheOf y.1.2).caches, y.2)) := by
  subst hcache
  cases hline : allowedLine (c.start (currentContext x) request).cacheOf request (currentContext x)
      false with
  | some line =>
    rw [hline] at hbegin
    rw [access_of_done _ _ (by rw [hbegin]; rfl), hbegin, Caches.read, hline]
    simp only [Option.map_some, toCaches, setCacheOf, cacheOf]
    split <;> rfl
  | none =>
    rw [hline] at hbegin
    have hfill := downstreamDone_fillForRead (c := c.begin (currentContext x) request)
      (by rw [hbegin]) (by rw [hbegin]; rfl) (by rw [hbegin])
    rw [access_of_downstreamDone]
    · have hreq : (c.begin (currentContext x) request).downstreamRequest =
          lineRequest request := by
        rw [hbegin]
      have hfill' := congrArg (Option.map fun y =>
        (y.1, (y.2, (downstream.access (lineRequest request) x).2)))
          (hfill (downstream.access (lineRequest request) x).1)
      rw [Option.map_map, Option.map_map] at hfill'
      rw [hreq, Option.map_map]
      refine hfill'.trans ?_
      simp only [Caches.read, hline, Option.map_map, hbegin]
      congr 1
      funext y
      simp only [Function.comp, setCacheOf]
      split <;> rfl
    · rw [hbegin]
      simp
    · intro c' hc'
      refine step_of_fill hc' (.inl ?_)
      rw [hbegin]

theorem atomicForwarded_eq (c : L1CachesCore) (r : VirtualMemoryResponse) :
    c.atomicForwarded r =
      { c with
        dataCache :=
          if isCachedAsi c.request.asi && !r.mae then
            Caches.swapped c.context c.request r c.dataCache
          else c.dataCache } := by
  unfold atomicForwarded Caches.swapped
  dsimp only
  split
  · split
    · rfl
    · split <;> rfl
  · rfl

/-- The steps of an atomic. -/
theorem access_atomic (htype : request.accessType = .ATOMIC_LS) (c : L1CachesCore) (x : σ) :
    (access downstream currentContext request (c, x)).map toCaches =
      some (Caches.atomic downstream (currentContext x) request (c.caches, x)) := by
  have hbegin : c.begin (currentContext x) request =
      { c.start (currentContext x) request with step := .FORWARD } := by
    simp only [begin, htype]
  have hdone (r : VirtualMemoryResponse) : (c.begin (currentContext x) request).downstreamDone r =
      some ({ c.start (currentContext x) request with
        response := Caches.forwardedResponse r }.atomicForwarded r) := by
    rw [hbegin]
    simp only [downstreamDone, start, htype]
    rfl
  rw [access_of_downstreamDone, hdone, hbegin]
  · rw [atomicForwarded_eq]
    rfl
  · rw [hbegin]
    simp
  · intro c' hc'
    rw [hdone] at hc'
    cases hc'
    rw [atomicForwarded_eq]
    rfl

/-- The answer to the line read that follows a store. -/
theorem downstreamDone_fillForWrite (hstep : c.step = .FILL_FOR_WRITE)
    (hinvalidated : c.invalidatedDuringFill = []) (r : VirtualMemoryResponse) :
    c.downstreamDone r = (Caches.allocated c.context c.request r c.dataCache).map fun cache =>
      { c with step := .DONE, dataCache := cache } := by
  simp only [downstreamDone, hstep, Caches.allocated, isInvalidatedDuringFill, hinvalidated,
    List.contains_nil, Bool.not_false, Bool.and_true]
  split <;> rfl

/-- A store that was answered with an exception, or is none to memory. -/
theorem storeForwarded_of_not (h : ¬(isCachedAsi c.request.asi && !r.mae) = true) :
    c.storeForwarded r =
      { c with
        instructionCache := (c.caches.mmuWritten c.request).instruction
        dataCache := (c.caches.mmuWritten c.request).data } := by
  unfold storeForwarded Caches.mmuWritten
  rw [if_neg h]
  split
  · cases isContextRegisterWrite c.request <;> rfl
  · rfl

/-- A store of data that is followed by a read of its line. -/
theorem storeForwarded_allocate
    (h : (isCachedAsi c.request.asi && !r.mae) = true) (hhit : c.lastHit = false)
    (hcacheable : r.cacheable = true) :
    c.storeForwarded r =
      { c with
        downstreamRequest := allocateRequest c.request, invalidatedDuringFill := [],
        step := .FILL_FOR_WRITE } := by
  unfold storeForwarded
  rw [if_pos h, hhit, Bool.false_and, if_off, if_pos hcacheable]

/-- A store of data that is not. -/
theorem storeForwarded_of_cached
    (h : (isCachedAsi c.request.asi && !r.mae) = true)
    (hhit : c.lastHit = (allowedLine c.dataCache c.request c.context true).isSome)
    (hlast : c.lastHit = true ∨ r.cacheable = false) (x : σ) :
    ∃ cache, Caches.stored downstream c.context c.request r c.dataCache x = some (cache, x) ∧
      c.storeForwarded r = { c with dataCache := cache } := by
  unfold storeForwarded Caches.stored
  rw [if_pos h, ← hhit]
  cases hl : c.lastHit with
  | true =>
    have hfind : (c.dataCache.find c.request.address c.context).isSome = true := by
      rw [hl] at hhit
      obtain ⟨line, hline⟩ := Option.isSome_iff_exists.1 hhit.symm
      rw [(Option.filter_eq_some_iff.1 hline).1]
      rfl
    rw [hfind]
    exact ⟨_, rfl, rfl⟩
  | false =>
    have hcacheable : r.cacheable = false := by
      rcases hlast with hlast | hlast
      · cases hl.symm.trans hlast
      · exact hlast
    rw [hcacheable]
    simp only [Bool.false_and, if_off]
    split
    · exact ⟨_, rfl, by rw [← hl]⟩
    · exact ⟨_, rfl, by rw [← hl]⟩

/-- What follows the answer to a store. -/
theorem runDownstream_storeForwarded (hstep : c.step = .DONE)
    (hhit : c.lastHit = (isCachedAsi c.request.asi &&
      (allowedLine c.dataCache c.request c.context true).isSome))
    (r : VirtualMemoryResponse) (x : σ) :
    ((runDownstream downstream 1 (c.storeForwarded r) x).map fun y =>
        (y.1.response, (y.1.caches, y.2))) =
      if isCachedAsi c.request.asi && !r.mae then
        (Caches.stored downstream c.context c.request r c.dataCache x).map fun y =>
          (c.response, ({ c.caches with data := y.1 }, y.2))
      else some (c.response, (c.caches.mmuWritten c.request, x)) := by
  split
  · next hcached =>
    rw [(Bool.and_eq_true_iff.1 hcached).1, Bool.true_and] at hhit
    by_cases hlast : c.lastHit = true ∨ r.cacheable = false
    · obtain ⟨cache, hstored, hforwarded⟩ :=
        storeForwarded_of_cached downstream hcached hhit hlast x
      rw [hforwarded, hstored, runDownstream_of_done]
      · rfl
      · exact hstep
    · rw [not_or, Bool.not_eq_true, Bool.not_eq_false] at hlast
      rw [storeForwarded_allocate hcached hlast.1 hlast.2,
        runDownstream_succ downstream 0 (by simp), downstreamDone_fillForWrite rfl rfl,
        Caches.stored, ← hhit, if_neg (by rw [hlast.1]; exact Bool.false_ne_true), if_pos hlast.2]
      dsimp only
      cases Caches.allocated c.context c.request (downstream.access (allocateRequest c.request) x).1
          c.dataCache with
      | none => rfl
      | some cache =>
        rw [Option.map_some, Option.bind_some, runDownstream_of_done downstream 0 rfl]
        rfl
  · next hcached =>
    rw [storeForwarded_of_not hcached, runDownstream_of_done]
    · rfl
    · exact hstep

/-- The steps of a store. -/
theorem access_store (htype : request.accessType = .STORE) (c : L1CachesCore) (x : σ) :
    (access downstream currentContext request (c, x)).map toCaches =
      Caches.store downstream (currentContext x) request (c.caches, x) := by
  rw [Caches.store]
  split
  · next hd =>
    have hbegin : c.begin (currentContext x) request =
        (c.start (currentContext x) request).flushInstructionCache.flushDataCache := by
      simp [begin, htype, hd]
    rw [access_of_done _ _ (by rw [hbegin]; rfl), hbegin]
    rfl
  · next hd =>
    split
    · next hi =>
      have hbegin : c.begin (currentContext x) request =
          (c.start (currentContext x) request).flushInstructionCache := by
        simp only [begin, htype, if_neg hd, if_pos hi]
      rw [access_of_done _ _ (by rw [hbegin]; rfl), hbegin]
      rfl
    · next hi =>
      have hbegin : c.begin (currentContext x) request =
          { c.start (currentContext x) request with
            lastHit := isCachedAsi request.asi &&
              (allowedLine c.dataCache request (currentContext x) true).isSome
            step := .FORWARD } := by
        simp only [begin, htype, if_neg hd, if_neg hi]
        rfl
      have hfirst : runDownstream downstream 2 (c.begin (currentContext x) request) x =
          runDownstream downstream 1
            ({ c.start (currentContext x) request with
              lastHit := isCachedAsi request.asi &&
                (allowedLine c.dataCache request (currentContext x) true).isSome
              response := Caches.forwardedResponse (downstream.access request x).1
              }.storeForwarded (downstream.access request x).1)
                (downstream.access request x).2 := by
        rw [runDownstream_succ downstream 1 (by rw [hbegin]; simp), hbegin]
        simp only [downstreamDone, start, htype, Option.bind_some]
        rfl
      have hrest := runDownstream_storeForwarded downstream
        (c := { c.start (currentContext x) request with
          lastHit := isCachedAsi request.asi &&
            (allowedLine c.dataCache request (currentContext x) true).isSome
          response := Caches.forwardedResponse (downstream.access request x).1 })
        rfl rfl (downstream.access request x).1 (downstream.access request x).2
      rw [← hfirst] at hrest
      refine Eq.trans ?_ hrest
      unfold access
      cases runDownstream downstream 2 (c.begin (currentContext x) request) x <;> rfl

/-- The steps of an access amount to one function of the caches. -/
theorem access_caches (c : L1CachesCore) (x : σ) :
    (access downstream currentContext request (c, x)).map toCaches =
      Caches.access downstream (currentContext x) request (c.caches, x) := by
  cases htype : request.accessType with
  | IFETCH =>
    rw [Caches.access, htype]
    dsimp only
    split
    · next hasi =>
      have hstart : (c.start (currentContext x) request).cacheOf = c.instructionCache := by
        simp [cacheOf, start, htype]
      rw [access_read downstream currentContext hstart]
      · simp [setCacheOf, start, htype, caches]
      · simp only [begin, htype, hasi, hstart]
        rfl
    · next hasi =>
      rw [access_forward downstream currentContext (by simp [begin, htype, hasi])
        (by rw [htype]; decide) (by rw [htype]; decide)]
  | LOAD =>
    rw [Caches.access, htype]
    dsimp only
    split
    · next hasi =>
      have hstart : (c.start (currentContext x) request).cacheOf = c.dataCache := by
        simp [cacheOf, start, htype]
      rw [access_read downstream currentContext hstart]
      · simp [setCacheOf, start, htype, caches]
      · simp only [begin, htype, hasi, hstart]
        rfl
    · next hasi =>
      rw [access_forward downstream currentContext (by simp [begin, htype, hasi])
        (by rw [htype]; decide) (by rw [htype]; decide)]
  | STORE =>
    rw [Caches.access, htype]
    exact access_store downstream currentContext htype c x
  | ATOMIC_LS =>
    rw [Caches.access, htype]
    exact access_atomic downstream currentContext htype c x
  | FLUSH =>
    rw [access_of_done downstream currentContext (by simp only [begin, htype]; rfl)]
    simp only [begin, htype, Caches.access, Option.map_some]
    rfl
  | NO_ACCESS =>
    rw [access_forward downstream currentContext (by simp only [begin, htype])
      (by rw [htype]; decide) (by rw [htype]; decide), Caches.access, htype]
  | READ_LINE =>
    rw [access_forward downstream currentContext (by simp only [begin, htype])
      (by rw [htype]; decide) (by rw [htype]; decide), Caches.access, htype]

end L1CachesCore

end SparcV8
