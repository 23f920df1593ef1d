import SparcV8.Cache.Served
import SparcV8.Cache.Related
import SparcV8.Core.Machine.Transition

/-!
# The coherent bus

`CoherentBus`: each core reaches the system bus through a port of its own, and a write to main
memory removes the line from the caches of all other cores. `sendInvalidates` treats each core by
itself, so the model gives its effect on all at once. The counts of invalidates are left out.
-/

namespace SparcV8

open Words CacheArray Function SystemAddressMap Option Bool MmuCore Caches

structure CoherentBus (ι τ : Type) where
  coherent : Bool
  snoopFilter : Bool
  /-- Which physical addresses are main memory. -/
  layout : Layout
  bus : τ
  caches : ι → L1CachesCore
  /-- The line of the last invalidate sent to a core, until the core reads. -/
  lastInvalidate : ι → Option (BitVec 64)

variable {ι : Type}
variable {τ : Type}

namespace CoherentBus

section Model

variable [DecidableEq ι] (phys : PhysicalMemory τ)

/-- An invalidate that the snoop filter leaves out. -/
def filters (b : CoherentBus ι τ) (line : BitVec 64) (c : ι) : Bool :=
  b.snoopFilter && b.lastInvalidate c == some line

def sendInvalidates (b : CoherentBus ι τ) (writer : ι) (physicalAddress : BitVec 64) :
    CoherentBus ι τ :=
  let line := physicalAddress &&& ~~~63
  { b with
    lastInvalidate := fun c =>
      if c = writer ∨ b.filters line c = true then b.lastInvalidate c else some line
    caches := fun c =>
      if c = writer ∨ b.filters line c = true then b.caches c
      else (b.caches c).invalidatePhysicalLine line }

def access (coreId : ι) (request : PhysicalMemoryRequest) (b : CoherentBus ι τ) :
    PhysicalMemoryResponse × CoherentBus ι τ :=
  let b :=
    if request.accessType = .READ then
      { b with lastInvalidate := update b.lastInvalidate coreId none }
    else b
  let (response, bus) := phys.access request b.bus
  let b := { b with bus := bus }
  (response,
    if b.coherent && request.accessType == .WRITE &&
        decode b.layout request.physicalAddress == .MAIN_MEMORY then
      b.sendInvalidates coreId request.physicalAddress
    else b)

def port (coreId : ι) : PhysicalMemory (CoherentBus ι τ) := ⟨access phys coreId⟩

end Model

end CoherentBus

/-- The cores of a system: their MMUs, and the bus with their caches. -/
structure Cores (ι τ : Type) where
  mmus : ι → MmuCore
  bus : CoherentBus ι τ

namespace Cores

variable [DecidableEq ι] (phys : PhysicalMemory τ)

/-- A whole request of one core, and what it gets. -/
def access (s : Cores ι τ) (coreId : ι) (request : VirtualMemoryRequest) :
    Option (VirtualMemoryResponse × Cores ι τ) := do
  let (response, (caches, (mmu, bus))) ←
    cachedAccess (CoherentBus.port phys coreId) request
      (s.bus.caches coreId, (s.mmus coreId, s.bus))
  some (response,
    { mmus := update s.mmus coreId mmu
      bus := { bus with caches := update bus.caches coreId caches } })

/-- The cores take turns, a whole request at a time. -/
def machine : Machine (Cores ι τ) (ι × VirtualMemoryRequest) :=
  ⟨fun s e => (s.access phys e.1 e.2).map Prod.snd⟩

end Cores

/-! ## One physical access -/

/-- The layout says what main memory is: whole lines, and nothing outside. -/
structure Backs (dom : Nat → Bool) (l : Layout) : Prop where
  lines : HasLines dom l
  outside : ∀ a : BitVec 64, a.toNat % 8 = 0 → decode l a ≠ .MAIN_MEMORY →
    dom (a.toNat / 4) = false ∧ dom (a.toNat / 4 + 1) = false

variable {q : PhysicalMemoryRequest}

namespace Words

variable {dom : Nat → Bool} {c : Words}

theorem access_of_read (hq : q.accessType = .READ) : (access dom q c).2 = c := by
  unfold access
  rw [hq]

/-- A write changes words of its doubleword only. -/
theorem read_access_of_ne (ha : q.physicalAddress.toNat % 8 = 0) {n : Nat}
    (hn : n / 2 ≠ q.physicalAddress.toNat / 8) : (access dom q c).2.read dom n = c.read dom n := by
  unfold access
  cases q.accessType with
  | READ => rfl
  | WRITE =>
    rw [read_write, if_neg (by omega), read_write, if_neg (by omega)]

/-- A write to words that are absent changes nothing. -/
theorem access_of_absent (h0 : dom (q.physicalAddress.toNat / 4) = false)
    (h1 : dom (q.physicalAddress.toNat / 4 + 1) = false) : (access dom q c).2 = c := by
  unfold access
  cases q.accessType with
  | READ => rfl
  | WRITE => simp [write, h0, h1]

end Words

variable {phys : PhysicalMemory τ} {b : CoherentBus ι τ}

namespace CoherentBus

section Access

variable [DecidableEq ι] (p : PlainMemory phys)

/-- The bus as it is when a request is passed to the memory. -/
theorem access_response (i : ι) (q : PhysicalMemoryRequest) (b : CoherentBus ι τ) :
    (access phys i q b).1 = (phys.access q b.bus).1 ∧
      (access phys i q b).2.bus = (phys.access q b.bus).2 := by
  unfold access sendInvalidates
  dsimp only
  split <;> split <;> exact ⟨rfl, rfl⟩

/-- A port of a plain bus is a plain memory. -/
def plain (i : ι) : PlainMemory (port phys i) where
  contents b := p.contents b.bus
  dom := p.dom
  response_eq q b := by
    change (access phys i q b).1 = _
    rw [(access_response i q b).1]
    exact p.response_eq q b.bus
  contents_eq q b := by
    change p.contents (access phys i q b).2.bus = _
    rw [(access_response i q b).2]
    exact p.contents_eq q b.bus

/-- The other cores after requests of core `i`: they lose lines, hold copies of memory, and a
remembered invalidate means that the line is not held. -/
structure OthersOk (i : ι) (b₀ b : CoherentBus ι τ) : Prop where
  coherent : b.coherent = true
  snoopFilter : b.snoopFilter = b₀.snoopFilter
  layout : b.layout = b₀.layout
  instruction : ∀ j ≠ i, Shrunk (b₀.caches j).instructionCache (b.caches j).instructionCache
  data : ∀ j ≠ i, Shrunk (b₀.caches j).dataCache (b.caches j).dataCache
  copies : ∀ j ≠ i, ∀ l, (b.caches j).dataCache.Holds l →
    l.CopyOff p.dom (p.contents b.bus) ∅
  remembered : ∀ j ≠ i, ∀ line, b.lastInvalidate j = some line →
    ∀ l, (b.caches j).dataCache.Holds l → l.physicalLine ≠ line >>> LOG_LINE_BYTES
  own : b.lastInvalidate i = b₀.lastInvalidate i ∨ b.lastInvalidate i = none

variable {p} {i : ι} {b₀ : CoherentBus ι τ}

/-- The line of an address, rounded down. -/
theorem line_ushiftRight (a : BitVec 64) :
    (a &&& ~~~63) >>> LOG_LINE_BYTES = a >>> LOG_LINE_BYTES := by
  apply BitVec.eq_of_toNat_eq
  have hbase : (a &&& ~~~63).toNat = a.toNat / 64 * 64 := toNat_and_not_low a 6
  rw [toNat_physicalLine, toNat_physicalLine, hbase]
  omega

/-- A read of core `i` forgets its last invalidate. -/
theorem OthersOk.read (h : OthersOk p i b₀ b) (hq : q.accessType = .READ) :
    OthersOk p i b₀ (access phys i q b).2 := by
  have heq : (access phys i q b).2 =
      { b with
        lastInvalidate := update b.lastInvalidate i none
        bus := (phys.access q b.bus).2 } := by
    unfold access
    simp [hq]
  have hcontents : p.contents (phys.access q b.bus).2 = p.contents b.bus := by
    rw [p.contents_eq, access_of_read hq]
  rw [heq]
  refine ⟨h.coherent, h.snoopFilter, h.layout, h.instruction, h.data, fun j hj l hl => ?_,
    fun j hj line hline => ?_, .inr (update_self ..)⟩
  · rw [hcontents]
    exact h.copies j hj l hl
  · have hsame : b.lastInvalidate j = some line := (update_of_ne hj _ _).symm.trans hline
    exact h.remembered j hj line hsame

/-- A write of core `i` leaves no other core a copy of the line. -/
theorem OthersOk.write (h : OthersOk p i b₀ b) (hl : Backs p.dom b₀.layout)
    (hv : ∀ j ≠ i, (b₀.caches j).dataCache.Visited) (hq : q.accessType = .WRITE)
    (ha : q.physicalAddress.toNat % 8 = 0) : OthersOk p i b₀ (access phys i q b).2 := by
  have hwrite : access phys i q b = ((phys.access q b.bus).1,
      if decode b₀.layout q.physicalAddress = .MAIN_MEMORY then
        sendInvalidates { b with bus := (phys.access q b.bus).2 } i q.physicalAddress
      else { b with bus := (phys.access q b.bus).2 }) := by
    unfold access
    simp [hq, h.coherent, h.layout]
  rw [hwrite]
  have hcontents := p.contents_eq q b.bus
  split
  · -- a line that is still held is another one, so its words are kept
    have hcopy (l : Line) (hc : l.CopyOff p.dom (p.contents b.bus) ∅)
        (hne : l.physicalLine ≠ q.physicalAddress >>> LOG_LINE_BYTES) :
        l.CopyOff p.dom (p.contents (phys.access q b.bus).2) ∅ := by
      have hline : l.physicalLine.toNat ≠ q.physicalAddress.toNat / 64 := by
        intro heq
        exact hne (BitVec.eq_of_toNat_eq (heq.trans (toNat_physicalLine _).symm))
      refine hc.of_read_eq fun k hk hX => ⟨hX, ?_⟩
      rw [hcontents]
      exact read_access_of_ne ha (by omega)
    have hcases (j : ι) (hj : j ≠ i) :
        (b.filters (q.physicalAddress &&& ~~~63) j = true ∧
          (sendInvalidates { b with bus := (phys.access q b.bus).2 } i q.physicalAddress).caches j =
            b.caches j ∧
          (sendInvalidates { b with bus := (phys.access q b.bus).2 } i
            q.physicalAddress).lastInvalidate j = b.lastInvalidate j) ∨
        ((sendInvalidates { b with bus := (phys.access q b.bus).2 } i q.physicalAddress).caches j =
            (b.caches j).invalidatePhysicalLine (q.physicalAddress &&& ~~~63) ∧
          (sendInvalidates { b with bus := (phys.access q b.bus).2 } i
            q.physicalAddress).lastInvalidate j = some (q.physicalAddress &&& ~~~63)) := by
      cases hf : b.filters (q.physicalAddress &&& ~~~63) j with
      | true => exact .inl ⟨rfl, if_pos (.inr hf), if_pos (.inr hf)⟩
      | false =>
        have hneither : ¬(j = i ∨ b.filters (q.physicalAddress &&& ~~~63) j = true) := by
          rw [hf]
          exact fun hc => hc.elim hj false_ne_true
        exact .inr ⟨if_neg hneither, if_neg hneither⟩
    -- what core `j` holds after the write, it held before, and it is not the line
    have hheld (j : ι) (hj : j ≠ i) (l : Line)
        (hl : ((sendInvalidates { b with bus := (phys.access q b.bus).2 } i
          q.physicalAddress).caches j).dataCache.Holds l) :
        (b.caches j).dataCache.Holds l ∧
          l.physicalLine ≠ q.physicalAddress >>> LOG_LINE_BYTES := by
      rcases hcases j hj with ⟨hf, hcaches, -⟩ | ⟨hcaches, -⟩
      · rw [hcaches] at hl
        rw [filters, and_eq_true, beq_iff_eq] at hf
        refine ⟨hl, ?_⟩
        rw [← line_ushiftRight]
        exact h.remembered j hj _ hf.2 l hl
      · rw [hcaches] at hl
        have hvisited := (hv j hj).of_shrunk (h.data j hj)
        refine ⟨((Shrunk.refl _).invalidatePhysicalLine _).holds hl, ?_⟩
        rw [← line_ushiftRight]
        exact hvisited.ne_of_holds hl
    refine ⟨h.coherent, h.snoopFilter, h.layout, fun j hj => ?_, fun j hj => ?_,
      fun j hj l hl => ?_, fun j hj line hline l hl => ?_, ?_⟩
    · rcases hcases j hj with ⟨-, hcaches, -⟩ | ⟨hcaches, -⟩ <;> rw [hcaches]
      · exact h.instruction j hj
      · exact (h.instruction j hj).invalidatePhysicalLine _
    · rcases hcases j hj with ⟨-, hcaches, -⟩ | ⟨hcaches, -⟩ <;> rw [hcaches]
      · exact h.data j hj
      · exact (h.data j hj).invalidatePhysicalLine _
    · obtain ⟨hold, hne⟩ := hheld j hj l hl
      exact hcopy l (h.copies j hj l hold) hne
    · obtain ⟨hold, hne⟩ := hheld j hj l hl
      rcases hcases j hj with ⟨-, -, hlast⟩ | ⟨-, hlast⟩
      · rw [hlast] at hline
        exact h.remembered j hj line hline l hold
      · rw [hlast] at hline
        cases hline
        rw [line_ushiftRight]
        exact hne
    · rw [show (sendInvalidates { b with bus := (phys.access q b.bus).2 } i
        q.physicalAddress).lastInvalidate i = b.lastInvalidate i from if_pos (.inl rfl)]
      exact h.own
  · next hmain =>
    have hsame : p.contents (phys.access q b.bus).2 = p.contents b.bus := by
      obtain ⟨h0, h1⟩ := hl.outside _ ha hmain
      rw [hcontents, access_of_absent h0 h1]
    refine ⟨h.coherent, h.snoopFilter, h.layout, h.instruction, h.data, fun j hj l hl => ?_,
      h.remembered, h.own⟩
    rw [hsame]
    exact h.copies j hj l hl

/-- A port answers as the contents of memory do, and keeps the other cores right. -/
theorem simulates_port (hl : Backs p.dom b₀.layout)
    (hv : ∀ j ≠ i, (b₀.caches j).dataCache.Visited) :
    Simulates (port phys i) p.abstract (fun b c => p.contents b.bus = c ∧ OthersOk p i b₀ b)
      fun a => a.toNat % 8 = 0 where
  aligned a := by
    rw [toNat_alignedDword]
    omega
  read := by
    rintro q b _ hq ⟨rfl, hok⟩
    exact ⟨(plain p i).response_eq q b, (plain p i).contents_eq q b, hok.read hq⟩
  write := by
    rintro q b _ ha ⟨rfl, hok⟩
    refine ⟨(plain p i).response_eq q b, (plain p i).contents_eq q b, ?_⟩
    cases hq : q.accessType with
    | READ => exact hok.read hq
    | WRITE => exact hok.write hl hv hq ha

end Access

end CoherentBus

/-! ## Lines that come in

A line comes in by a read of memory, and with the first read of a core its last invalidate is
forgotten. -/

namespace CacheArray

/-- Every physical line of a cache was in the other before. -/
def NoNewLine (a a' : CacheArray) : Prop :=
  ∀ l', a'.Holds l' → ∃ l, a.Holds l ∧ l.physicalLine = l'.physicalLine

theorem Inherited.noNewLine {a a' : CacheArray} (h : Inherited a a') : NoNewLine a a' := by
  rintro l' ⟨set, i, hl'⟩
  obtain ⟨l, hl, heq⟩ := h.lines set i l' hl'
  exact ⟨l, hl.holds, heq⟩

end CacheArray

/-- Neither cache has a line that it did not have before. -/
structure Caches.NoNewLine (cs cs' : Caches) : Prop where
  instruction : CacheArray.NoNewLine cs.instruction cs'.instruction
  data : CacheArray.NoNewLine cs.data cs'.data

/-- The same, with the place of every line. -/
structure Caches.Inherited (cs cs' : Caches) : Prop where
  instruction : CacheArray.Inherited cs.instruction cs'.instruction
  data : CacheArray.Inherited cs.data cs'.data

theorem Caches.Inherited.refl (cs : Caches) : cs.Inherited cs := ⟨.refl _, .refl _⟩

namespace CoherentBus

open L1CachesCore

section Own

variable [DecidableEq ι] {i : ι}

theorem lastInvalidate_read (hq : q.accessType = .READ) (b : CoherentBus ι τ) :
    ((port phys i).access q b).2.lastInvalidate i = none := by
  change (access phys i q b).2.lastInvalidate i = none
  unfold access
  simp [hq]

theorem lastInvalidate_readLine (lineBase : BitVec 64) (b : CoherentBus ι τ) :
    (readLine (port phys i) lineBase b).2.2.lastInvalidate i = none := by
  have hread (k : Fin 8) (b : CoherentBus ι τ) : (readPhysicalDoubleword (port phys i)
      (lineBase + 8 * BitVec.ofNat 64 k.val) 0xFF b).2.lastInvalidate i = none :=
    lastInvalidate_read rfl b
  -- the first doubleword is read, and later reads keep what it has done
  have hfold (is : List (Fin 8)) : ∀ x : (Fin 8 → BitVec 64) × Bool × CoherentBus ι τ,
      x.2.2.lastInvalidate i = none →
      (is.foldl (readLineStep (port phys i) lineBase) x).2.2.lastInvalidate i = none := by
    induction is with
    | nil => exact fun _ hx => hx
    | cons k is ih =>
      intro x hx
      refine ih _ ?_
      unfold readLineStep
      split
      · exact hx
      · exact hread k x.2.2
  have hlist : List.finRange 8 = 0 :: [1, 2, 3, 4, 5, 6, 7] := by decide
  rw [readLine, hlist, List.foldl_cons]
  refine hfold _ _ ?_
  rw [readLineStep, if_off]
  exact hread 0 b

variable {r : VirtualMemoryRequest}

/-- A line that may be cached has been read. -/
theorem lastInvalidate_of_cacheable (hk : r.accessType = .READ_LINE) {u : MmuCore}
    (h : (MmuCore.access (port phys i) r (u, b)).1.cacheable = true) :
    (MmuCore.access (port phys i) r (u, b)).2.2.lastInvalidate i = none := by
  have hline {u : MmuCore} {t : Translation} {mask : Word} {b : CoherentBus ι τ}
      (h : (u.readLineAt (port phys i) t mask b).1.cacheable = true) :
      (u.readLineAt (port phys i) t mask b).2.lastInvalidate i = none := by
    unfold MmuCore.readLineAt at h ⊢
    dsimp only at h ⊢
    rw [if_pos h]
    exact lastInvalidate_readLine _ b
  unfold MmuCore.access MmuCore.handleReadLine at h ⊢
  rw [hk] at h ⊢
  dsimp only at h ⊢
  split at h
  · next hoff =>
    rw [if_pos hoff]
    exact hline h
  · next hoff =>
    rw [if_neg hoff]
    split at h
    · cases h
    · exact hline h

section Requests

variable {context : Word} {a : CacheArray} {x : MmuCore × CoherentBus ι τ}

theorem inherited_read {z : (VirtualMemoryResponse × CacheArray) × (MmuCore × CoherentBus ι τ)}
    (h : Caches.read (virtualMemory (port phys i)) context r a x = some z) :
    z.2.2.lastInvalidate i = none ∨ CacheArray.Inherited a z.1.2 := by
  unfold Caches.read at h
  split at h
  · cases h
    exact .inr (.refl a)
  · obtain ⟨y, hy, rfl⟩ := map_eq_some_iff.1 h
    unfold Caches.filled at hy
    split at hy
    · cases hy
      exact .inr (.refl a)
    · split at hy
      · next hc => exact .inl (lastInvalidate_of_cacheable rfl hc)
      · cases hy
        exact .inr (.refl a)

theorem inherited_stored {z : VirtualMemoryResponse} {y : CacheArray × (MmuCore × CoherentBus ι τ)}
    (h : Caches.stored (virtualMemory (port phys i)) context r z a x = some y) :
    y.2.2.lastInvalidate i = none ∨ CacheArray.Inherited a y.1 := by
  unfold Caches.stored at h
  split at h
  · next hallowed =>
    cases h
    obtain ⟨l, hl⟩ := isSome_iff_exists.1 hallowed
    exact .inr (inherited_writeBytes (filter_eq_some_iff.1 hl).1 _ _)
  · split at h
    · obtain ⟨cache, hcache, rfl⟩ := map_eq_some_iff.1 h
      unfold Caches.allocated at hcache
      split at hcache
      · next hc =>
        rw [and_eq_true, and_eq_true] at hc
        exact .inl (lastInvalidate_of_cacheable rfl hc.1.2)
      · cases hcache
        exact .inr (.refl a)
    · split at h
      · cases h
        exact .inr (inherited_invalidatePhysicalLine a _)
      · cases h
        exact .inr (.refl a)

theorem inherited_swapped (z : VirtualMemoryResponse) :
    CacheArray.Inherited a (swapped context r z a) := by
  unfold swapped
  split
  · next hfind =>
    obtain ⟨l, hl⟩ := isSome_iff_exists.1 hfind
    exact inherited_writeBytes hl _ _
  · split
    · exact inherited_invalidatePhysicalLine a _
    · exact .refl a

theorem inherited_mmuWritten (cs : Caches) : cs.Inherited (cs.mmuWritten r) := by
  unfold Caches.mmuWritten
  split
  · split
    · exact ⟨inherited_flushAll _, .refl _⟩
    · exact ⟨inherited_flushAll _, inherited_flushAll _⟩
  · exact .refl cs

variable {z : VirtualMemoryResponse × (Caches × (MmuCore × CoherentBus ι τ))}

/-- A core that takes in a line has forgotten its last invalidate. -/
theorem inherited_mmuAccess {cs : Caches} (h : mmuAccess (port phys i) r (cs, x) = some z) :
    z.2.2.2.lastInvalidate i = none ∨ cs.Inherited z.2.1 := by
  unfold mmuAccess Caches.access at h
  cases hk : r.accessType with
  | IFETCH =>
    rw [hk] at h
    dsimp only at h
    split at h
    · obtain ⟨y, hy, rfl⟩ := map_eq_some_iff.1 h
      exact (inherited_read hy).imp_right fun hn => ⟨hn, .refl _⟩
    · cases h
      exact .inr (.refl cs)
  | LOAD =>
    rw [hk] at h
    dsimp only at h
    split at h
    · obtain ⟨y, hy, rfl⟩ := map_eq_some_iff.1 h
      exact (inherited_read hy).imp_right fun hn => ⟨.refl _, hn⟩
    · cases h
      exact .inr (.refl cs)
  | STORE =>
    rw [hk] at h
    dsimp only at h
    unfold Caches.store at h
    split at h
    · cases h
      exact .inr ⟨inherited_flushAll _, inherited_flushAll _⟩
    · split at h
      · cases h
        exact .inr ⟨inherited_flushAll _, .refl _⟩
      · dsimp only at h
        split at h
        · obtain ⟨y, hy, rfl⟩ := map_eq_some_iff.1 h
          exact (inherited_stored hy).imp_right fun hn => ⟨.refl _, hn⟩
        · cases h
          exact .inr (inherited_mmuWritten cs)
  | ATOMIC_LS =>
    rw [hk] at h
    cases h
    refine .inr ⟨.refl _, ?_⟩
    unfold Caches.atomic
    dsimp only
    split
    · exact inherited_swapped _
    · exact .refl _
  | FLUSH =>
    rw [hk] at h
    cases h
    exact .inr ⟨inherited_flushAll _, inherited_flushAll _⟩
  | NO_ACCESS =>
    rw [hk] at h
    cases h
    exact .inr (.refl cs)
  | READ_LINE =>
    rw [hk] at h
    cases h
    exact .inr (.refl cs)

theorem noNewLine_mmuAccess {cs : Caches} (h : mmuAccess (port phys i) r (cs, x) = some z) :
    z.2.2.2.lastInvalidate i = none ∨ cs.NoNewLine z.2.1 :=
  (inherited_mmuAccess h).imp_right fun hs => ⟨hs.instruction.noNewLine, hs.data.noNewLine⟩

end Requests

end Own

end CoherentBus

/-! ## Cores that have just been started -/

/-- Cores that have just been started, over the flat bus. -/
def startedCores (mmu : MmuCore) (m : MemCore × Unit) : Cores (Fin 2) (MemCore × Unit) :=
  { mmus := fun _ => mmu
    bus :=
      { coherent := true
        snoopFilter := true
        layout := {}
        bus := m
        caches := fun _ => emptyCaches
        lastInvalidate := fun _ => none } }

/-- A load of the doubleword at address 0. -/
def firstLoad : VirtualMemoryRequest := wordAccess .LOAD 0 asiUserData 0

end SparcV8
