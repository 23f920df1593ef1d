import SparcV8.Cache.CachedMmu
import SparcV8.Core.Machine.Transition

/-!
# Faults below the caches

A cache learns of a fault from the exception alone. The MMU takes the class of a line read's fault
from its address space, and that of a fetch or a load from the kind of access. And when the MMU
keeps an exception to itself, the cache writes the refused data into its line.
-/

namespace SparcV8

open L1CachesCore MmuCore Words CacheArray SystemBus Option Caches VirtualMemoryRequest

/-! ## What is recorded about a read -/

variable {τ : Type}

namespace MmuCore

/-- The status word of a fault, without the overwrite bit. -/
def faultStatus (accessType : AccessType) (faultType : FaultType) (level : Level) : Word :=
  let fsr := writeBits 0 17 10 0
  let fsr := writeBits fsr 9 8 (BitVec.ofNat 32 level.val)
  let fsr := writeBits fsr 7 5 (BitVec.ofNat 32 accessType.code)
  let fsr := writeBits fsr 4 2 (BitVec.ofNat 32 faultType.code)
  writeBits fsr 1 1 1

/-- What an MMU has recorded about faults. -/
def faultRecord (u : MmuCore) : Word × Word × FaultClass :=
  (u.faultStatusRegister, u.faultAddressRegister, u.faultClass)

theorem faultRecord_commitTranslation (u : MmuCore) (va context : Word) (r : WalkResult)
    (hit : Bool) : (u.commitTranslation va context r hit).1.faultRecord = u.faultRecord := by
  unfold commitTranslation
  split <;> rfl

/-- A translation that succeeds records nothing. -/
theorem faultRecord_afterTranslation (u : MmuCore) (va : Word) (r : WalkResult)
    (hit isWrite : Bool) : (u.afterTranslation va r hit isWrite).faultRecord = u.faultRecord := by
  unfold afterTranslation
  cases computeAndStageRMUpdate r.pte isWrite with
  | none => exact faultRecord_commitTranslation u va _ r hit
  | some staged =>
    refine Eq.trans ?_ (faultRecord_commitTranslation u va u.contextRegister r hit)
    dsimp only [commitRMTlbUpdate]
    split <;> rfl

/-- Nor does what follows it. -/
theorem faultRecord_complete (phys : PhysicalMemory τ) (u : MmuCore) (r : VirtualMemoryRequest)
    (t : Translation) (m : τ) : (u.complete phys r t m).2.1.faultRecord = u.faultRecord := by
  unfold complete
  cases r.accessType <;> rfl

/-- Two classes leave the same record only over a data fault like the new one. -/
theorem faultRecord_updateFsrFar_iff (u : MmuCore) (fsrVal farVal : Word) :
    (u.updateFsrFar fsrVal farVal .IACCESS_FAULT).faultRecord =
        (u.updateFsrFar fsrVal farVal .DACCESS_FAULT).faultRecord ↔
      u.faultRecord = (writeBits fsrVal 0 0 1, farVal, .DACCESS_FAULT) := by
  unfold updateFsrFar faultRecord
  cases hclass : u.faultClass with
  | NO_FAULT => simp
  | IACCESS_FAULT => simp
  | DACCESS_FAULT => simp [hclass]

/-- The fault that the entry for a read's address gives it. -/
def readFault (dom : Nat → Bool) (u : MmuCore) (c : Words) (r : VirtualMemoryRequest) : Word :=
  let entry := u.foundEntry dom c r.address
  let fault := checkFault r.asi false false entry.pte
  faultStatus fault.1 fault.2 entry.level

/-- The class of a line read's fault is that of its address space. -/
def lineReadIsFetch (r : VirtualMemoryRequest) : Bool :=
  r.asi == asiUserInstruction || r.asi == asiSupervisorInstruction

end MmuCore

variable {dom : Nat → Bool} {u : MmuCore} {r : VirtualMemoryRequest}

open MmuCore in
/-- A read that is not refused leaves the fault registers, without an exception. -/
theorem MmuCore.access_read_of_not_faultsRequest {c : Words} (hasi : isCachedAsi r.asi = true)
    (hk : r.accessType = .IFETCH ∨ r.accessType = .LOAD ∨ r.accessType = .READ_LINE)
    (h : u.faultsRequest dom c r = false) :
    (access (ram dom) r (u, c)).1.mae = false ∧
      (access (ram dom) r (u, c)).2.1.faultRecord = u.faultRecord := by
  cases hr : u.translatesRequest r with
  | true =>
    rw [access_of_not_faultsRequest hr h]
    exact ⟨mae_complete dom _ _ r _,
      (faultRecord_complete _ _ r _ _).trans (faultRecord_afterTranslation u _ _ _ _)⟩
  | false =>
    have hstore : r.accessType ≠ .STORE := by rcases hk with h | h | h <;> rw [h] <;> decide
    refine ⟨mae_of_not_translatesRequest dom u c hr, ?_⟩
    have hstep : UntranslatedStep u r (access (ram dom) r (u, c)).2.1 :=
      untranslatedStep_access hr
    generalize (access (ram dom) r (u, c)).2.1 = u' at hstep ⊢
    cases hstep with
    | same => rfl
    | read hregister =>
      simp only [accessesRegister, asiSpace_of_isCachedAsi hasi, Bool.and_eq_true] at hregister
      cases hregister.1.2
    | write _ hk' => exact absurd hk' hstore
    | flush _ hk' => exact absurd hk' hstore

namespace MmuCore

variable {c : Words}

/-- The fault of a read, when the read is refused. -/
theorem faultsRequest_read (hasi : isCachedAsi r.asi = true)
    (hk : r.accessType = .IFETCH ∨ r.accessType = .LOAD ∨ r.accessType = .READ_LINE) :
    u.faultsRequest dom c r = u.faults dom c r.address r.asi false false := by
  have hflags : r.isWrite = false ∧ r.isAtomic = false := by
    unfold isWrite isAtomic
    rcases hk with h | h | h <;> rw [h] <;> exact ⟨rfl, rfl⟩
  rw [faultsRequest, translatesRequest_of_isCachedAsi hasi
      (by rcases hk with h | h | h <;> rw [h] <;> decide)
      (by rcases hk with h | h | h <;> rw [h] <;> decide), hflags.1, hflags.2, faults,
    ← Bool.and_assoc, Bool.and_self]

theorem access_read_of_faultsRequest
    (hk : r.accessType = .IFETCH ∨ r.accessType = .LOAD ∨ r.accessType = .READ_LINE)
    (h : u.faultsRequest dom c r = true) :
    (access (ram dom) r (u, c)).1.mae = !u.noFaultSuppressesTrap r.asi ∧
      (access (ram dom) r (u, c)).2.1 =
        u.updateFsrFar (u.readFault dom c r) r.address
          (if r.isFetch then .IACCESS_FAULT else .DACCESS_FAULT) := by
  have hflags : r.isWrite = false ∧ r.isAtomic = false := by
    unfold isWrite isAtomic
    rcases hk with h | h | h <;> rw [h] <;> exact ⟨rfl, rfl⟩
  rw [access_of_faultsRequest h]
  refine ⟨?_, ?_⟩
  · rw [refusal, afterRefusal, noFaultSuppressesTrap_recordFault]
  · rw [afterRefusal, hflags.1, hflags.2]
    rfl

/-- A read is recorded alike as it is and as a line read: its kind and its address space agree, or
it is not refused, or an unread data fault already says what this one would. -/
def recordsAlike (dom : Nat → Bool) (u : MmuCore) (c : Words) (r : VirtualMemoryRequest) : Bool :=
  (r.accessType == .IFETCH) == lineReadIsFetch r ||
    !u.faults dom c r.address r.asi false false ||
    u.faultRecord == (writeBits (u.readFault dom c r) 0 0 1, r.address, .DACCESS_FAULT)

/-- The line read that replaces a read, against the read. -/
theorem access_lineRequest_iff (dom : Nat → Bool) (u : MmuCore) (c : Words)
    (hasi : isCachedAsi r.asi = true) (hk : r.Reads) :
    let viaLine := access (ram dom) (lineRequest r) (u, c)
    let direct := access (ram dom) r (u, c)
    (viaLine.1.mae = direct.1.mae ∧ viaLine.2.1.faultRecord = direct.2.1.faultRecord) ↔
      u.recordsAlike dom c r = true := by
  intro viaLine direct
  have hk' : r.accessType = .IFETCH ∨ r.accessType = .LOAD ∨ r.accessType = .READ_LINE :=
    hk.imp_right .inl
  have hline : (lineRequest r).accessType = .IFETCH ∨ (lineRequest r).accessType = .LOAD ∨
      (lineRequest r).accessType = .READ_LINE := .inr (.inr rfl)
  have hsame : u.faultsRequest dom c (lineRequest r) = u.faultsRequest dom c r := by
    rw [faultsRequest_read hasi hk', faultsRequest_read (r := lineRequest r) hasi hline]
    rfl
  rw [recordsAlike, ← faultsRequest_read hasi hk']
  cases hf : u.faultsRequest dom c r with
  | false =>
    obtain ⟨hmae, hrecord⟩ := access_read_of_not_faultsRequest hasi hk' hf
    obtain ⟨hmae', hrecord'⟩ :=
      access_read_of_not_faultsRequest (r := lineRequest r) hasi hline (hsame.trans hf)
    simp [viaLine, direct, hmae, hmae', hrecord, hrecord']
  | true =>
    obtain ⟨hmae, hrecord⟩ := access_read_of_faultsRequest hk' hf
    obtain ⟨hmae', hrecord'⟩ :=
      access_read_of_faultsRequest hline (hsame.trans hf)
    have hfetch : (lineRequest r).isFetch = lineReadIsFetch r := rfl
    have hread : u.readFault dom c (lineRequest r) = u.readFault dom c r := rfl
    have hfetch' : r.isFetch = (r.accessType == .IFETCH) := by
      unfold isFetch
      rcases hk with h | h <;> rw [h] <;> rfl
    have hmaes : viaLine.1.mae = direct.1.mae := hmae'.trans hmae.symm
    have hiff := faultRecord_updateFsrFar_iff u (u.readFault dom c r) r.address
    rw [hfetch'] at hrecord
    rw [hfetch, hread] at hrecord'
    rw [show viaLine.2.1 = _ from hrecord', show direct.2.1 = _ from hrecord]
    rw [show (lineRequest r).address = r.address from rfl]
    cases hl : lineReadIsFetch r <;> cases ha : (r.accessType == MemAccessType.IFETCH)
    · simp [hmaes]
    · simp only [hmaes, if_off, if_true, true_and]
      rw [eq_comm, hiff]
      simp
    · simp only [hmaes, if_off, if_true, true_and]
      rw [hiff]
      simp
    · simp [hmaes]

end MmuCore

/-! ## Reads through empty caches -/

variable {context : Word}
variable {a : CacheArray} {va : Word}

theorem CacheArray.exists_fill (h : a.find va context = none) (acc : Word)
    (data : Fin 8 → BitVec 64) (pa : BitVec 64) :
    ∃ a', a.fill va context acc data pa = some a' := by
  rw [fill, h]
  exact ⟨_, rfl⟩

theorem mae_serveRead (request : VirtualMemoryRequest) (dw : BitVec 64) :
    (serveRead request dw).mae = false := by
  unfold serveRead
  split <;> rfl

variable {cache : CacheArray}

/-- An empty cache reads the line, and reports what comes back. -/
theorem Caches.read_of_empty {σ : Type} (downstream : VirtualMemory σ) (context : Word)
    (request : VirtualMemoryRequest) (h : ∀ l, ¬ cache.Holds l) (x : σ) :
    ∃ y, read downstream context request cache x = some y ∧
      y.1.1.mae = (downstream.access (lineRequest request) x).1.mae ∧
      y.2 = (downstream.access (lineRequest request) x).2 := by
  have hline : allowedLine cache request context false = none := by
    rw [allowedLine, find_of_not_holds h, filter_none]
  rw [read, hline]
  dsimp only
  unfold filled
  split
  · next hmae => exact ⟨_, rfl, hmae.symm, rfl⟩
  · next hmae =>
    rw [Bool.not_eq_true] at hmae
    split
    · have hempty (pa : BitVec 64) (l : Line) :
          ¬ (cache.invalidatePhysicalLine pa).Holds l := by
        rintro ⟨set, i, hl⟩
        exact h l (at_invalidatePhysicalLine.1 hl).1.holds
      obtain ⟨cache', hfill⟩ := exists_fill
        (find_of_not_holds (hempty _) request.address context)
        (downstream.access (lineRequest request) x).1.acc
        (downstream.access (lineRequest request) x).1.line
        (downstream.access (lineRequest request) x).1.physicalAddress
      rw [installLine, hfill]
      exact ⟨_, rfl, (mae_serveRead _ _).trans hmae.symm, rfl⟩
    · exact ⟨_, rfl, (mae_serveRead _ _).trans hmae.symm, rfl⟩

/-- A fetch or a load through empty caches is a line read to the MMU. -/
theorem cachedAccess_of_empty (phys : PhysicalMemory τ) {c : L1CachesCore}
    (hi : ∀ l, ¬ c.instructionCache.Holds l) (hd : ∀ l, ¬ c.dataCache.Holds l)
    (hk : r.Reads) (hasi : isCachedAsi r.asi = true) (x : MmuCore × τ) :
    ∃ response c', cachedAccess phys r (c, x) =
        some (response, (c', (access phys (lineRequest r) x).2)) ∧
      response.mae = (access phys (lineRequest r) x).1.mae := by
  obtain ⟨cache, hempty, hread⟩ : ∃ cache : CacheArray, (∀ l, ¬ cache.Holds l) ∧
      ∀ y, read (virtualMemory phys) x.1.contextRegister r cache x = some y →
        ∃ caches, mmuAccess phys r (c.caches, x) = some (y.1.1, (caches, y.2)) := by
    rcases hk with hk | hk
    · refine ⟨c.instructionCache, hi, fun y hy => ⟨{ c.caches with instruction := y.1.2 }, ?_⟩⟩
      rw [mmuAccess, Caches.access, hk]
      rw [if_pos hasi, show c.caches.instruction = c.instructionCache from rfl, hy, map_some]
    · refine ⟨c.dataCache, hd, fun y hy => ⟨{ c.caches with data := y.1.2 }, ?_⟩⟩
      rw [mmuAccess, Caches.access, hk]
      dsimp only
      rw [if_pos hasi, show c.caches.data = c.dataCache from rfl, hy, map_some]
  obtain ⟨y, hy, hmae, hstate⟩ :=
    Caches.read_of_empty (virtualMemory phys) x.1.contextRegister r hempty x
  obtain ⟨caches, haccess⟩ := hread y hy
  obtain ⟨c', hc', -⟩ := exists_cachedAccess haccess
  rw [hstate] at hc'
  exact ⟨y.1.1, c', hc', hmae⟩

/-- Through empty caches a fetch or a load leaves the exception and the fault registers that it
leaves at the MMU itself exactly when its kind and its address space agree, or it is not refused,
or an unread data fault already says what this one would. -/
theorem fault_record_through_caches_iff {τ : Type} {phys : PhysicalMemory τ} (p : PlainMemory phys)
    (c : L1CachesCore) (u : MmuCore) (m : τ) (r : VirtualMemoryRequest)
    (hi : ∀ l, ¬ c.instructionCache.Holds l) (hd : ∀ l, ¬ c.dataCache.Holds l)
    (hk : r.Reads) (hasi : isCachedAsi r.asi = true) :
    ∃ response c' x, cachedAccess phys r (c, (u, m)) = some (response, (c', x)) ∧
      ((response.mae = (access phys r (u, m)).1.mae ∧
          x.1.faultRecord = (access phys r (u, m)).2.1.faultRecord) ↔
        u.recordsAlike p.dom (p.contents m) r = true) := by
  obtain ⟨response, c', haccess, hmae⟩ := cachedAccess_of_empty phys hi hd hk hasi (u, m)
  refine ⟨response, c', _, haccess, ?_⟩
  have hiff := access_lineRequest_iff p.dom u (p.contents m) hasi hk
  rw [p.lift_mmuAccess, p.lift_mmuAccess] at hiff
  rw [hmae]
  exact hiff

/-- A load with the address space of user instructions. -/
def instructionSpaceLoad : VirtualMemoryRequest :=
  wordAccess .LOAD 0x1000 asiUserInstruction 0

theorem data_load_recorded_alike :
    let phys := physicalMemory {} noDevices
    let r := { instructionSpaceLoad with asi := asiUserData }
    ∃ response c' x, cachedAccess phys r (emptyCaches, (mmuOn, zeroBus)) =
        some (response, (c', x)) ∧
      response.mae = (access phys r (mmuOn, zeroBus)).1.mae ∧
      x.1.faultRecord = (access phys r (mmuOn, zeroBus)).2.1.faultRecord := by
  obtain ⟨response, c', x, haccess, hiff⟩ := fault_record_through_caches_iff plain
    emptyCaches mmuOn zeroBus { instructionSpaceLoad with asi := asiUserData }
    (not_holds_configure 2 2) (not_holds_configure 2 2) (.inr rfl)
    (by decide)
  exact ⟨response, c', x, haccess, hiff.2 (by decide)⟩

/-- The fault of such a load is recorded as an instruction fault through the caches, and as a data
fault without them. -/
theorem instruction_space_load_recorded_differently :
    let phys := physicalMemory {} noDevices
    (cachedAccess phys instructionSpaceLoad (emptyCaches, (mmuOn, zeroBus))).map
        (fun y => (y.1.mae, y.2.2.1.faultClass)) = some (true, .IACCESS_FAULT) ∧
      (access phys instructionSpaceLoad (mmuOn, zeroBus)).1.mae = true ∧
      (access phys instructionSpaceLoad (mmuOn, zeroBus)).2.1.faultClass =
        .DACCESS_FAULT := by
  decide

/-! ## Refused stores and atomics -/

/-- Every valid line of a cache stays where it is, with its data. -/
def CacheArray.KeepsData (a a' : CacheArray) : Prop :=
  ∀ set i l, a.At set i l → ∃ l', a'.At set i l' ∧ l'.data = l.data

theorem CacheArray.KeepsData.refl (a : CacheArray) : a.KeepsData a :=
  fun _ _ l hl => ⟨l, hl, rfl⟩

/-- A write keeps the data of every line exactly when it writes what is there. -/
theorem CacheArray.keepsData_writeBytes_iff {l₀ : Line} (h : a.find va context = some l₀)
    (data : BitVec 64) (byteMask : BitVec 8) :
    a.KeepsData (a.writeBytes va context data byteMask) ↔
      mergeBytes (readDoubleword l₀ va) data byteMask = readDoubleword l₀ va := by
  obtain ⟨i, hi, hat⟩ := at_writeBytes h data byteMask
  constructor
  · intro hkeep
    obtain ⟨l', hl', hdata⟩ := hkeep _ _ _ hi
    rcases (hat _ _ _).1 hl' with ⟨-, -, rfl⟩ | ⟨hne, -⟩
    · exact Function.update_eq_self_iff.1 hdata
    · exact absurd ⟨rfl, rfl⟩ hne
  · intro hsame set j l hl
    by_cases hslot : set = a.setIndex va ∧ j = i
    · obtain ⟨rfl, rfl⟩ := hslot
      obtain rfl : l = l₀ := Ways.At.unique hl hi
      refine ⟨l.write va data byteMask, (hat _ _ _).2 (.inl ⟨rfl, rfl, rfl⟩), ?_⟩
      exact Function.update_eq_self_iff.2 hsame
    · exact ⟨l, (hat _ _ _).2 (.inr ⟨hslot, hl⟩), rfl⟩

/-- The line that a store or an atomic writes to once it has been answered. For a store the cache
looks at the rights that the line was filled with. -/
def writtenLine (cache : CacheArray) (context : Word) (r : VirtualMemoryRequest) : Option Line :=
  if r.accessType = .STORE then allowedLine cache r context true else cache.find r.address context

/-- The no-fault bit keeps the exception from the cache, and the cache holds a line that the request
would change. -/
def overwritesLine (c : L1CachesCore) (u : MmuCore) (r : VirtualMemoryRequest) : Bool :=
  u.noFaultSuppressesTrap r.asi &&
    (writtenLine c.dataCache u.contextRegister r).any fun l =>
      mergeBytes (readDoubleword l r.address) (storeData r) (r.byteMask.setWidth 8) !=
        readDoubleword l r.address

theorem find_of_writtenLine {l : Line} (h : writtenLine cache context r = some l) :
    cache.find r.address context = some l := by
  unfold writtenLine at h
  split at h
  · exact (filter_eq_some_iff.1 h).1
  · exact h

/-- The data cache after a refusal. -/
def refusedData (c : L1CachesCore) (u : MmuCore) (r : VirtualMemoryRequest) : CacheArray :=
  if u.noFaultSuppressesTrap r.asi && (writtenLine c.dataCache u.contextRegister r).isSome then
    c.dataCache.writeBytes r.address u.contextRegister (storeData r) (r.byteMask.setWidth 8)
  else c.dataCache

theorem keepsData_refusedData_iff (c : L1CachesCore) (u : MmuCore) (r : VirtualMemoryRequest) :
    c.dataCache.KeepsData (refusedData c u r) ↔ overwritesLine c u r = false := by
  unfold refusedData overwritesLine
  cases u.noFaultSuppressesTrap r.asi with
  | false => simp [KeepsData.refl]
  | true =>
    cases hl : writtenLine c.dataCache u.contextRegister r with
    | none => simp [KeepsData.refl]
    | some l =>
      rw [isSome_some, Bool.and_self, if_pos rfl, keepsData_writeBytes_iff (find_of_writtenLine hl)]
      simp

/-- What the caches do with a store or an atomic that the MMU refuses. -/
theorem mmuAccess_of_recordsFault {phys : PhysicalMemory τ} (c : L1CachesCore) {m : τ}
    (hk : r.Stores) (hasi : isCachedAsi r.asi = true) (h : u.recordsFault phys r m = true) :
    ∃ response x, mmuAccess phys r (c.caches, (u, m)) =
      some (response, ({ c.caches with data := refusedData c u r }, x)) := by
  obtain ⟨u', m', haccess, hu'⟩ := access_of_recordsFault h
  have hmae : (u'.refusal r).mae = !u.noFaultSuppressesTrap r.asi := by
    have hreg : u'.withoutFault.controlRegister = u.withoutFault.controlRegister := by rw [hu']
    change u'.controlRegister = u.controlRegister at hreg
    unfold refusal noFaultSuppressesTrap
    rw [hreg]
  have hdown : (virtualMemory phys).access r (u, m) = (u'.refusal r, (u', m')) := haccess
  obtain ⟨hd, hi, hmmu, -⟩ := not_flush_of_isCachedAsi hasi
  refine ⟨Caches.forwardedResponse (u'.refusal r), (u', m'), ?_⟩
  unfold mmuAccess Caches.access
  rcases hk with hk | hk
  · have hline : writtenLine c.dataCache u.contextRegister r =
        allowedLine c.dataCache r u.contextRegister true := if_pos hk
    rw [hk]
    dsimp only
    rw [Caches.store, if_neg (by rw [hd]; decide), if_neg (by rw [hi]; decide)]
    dsimp only
    rw [hdown, hmae, hasi, Bool.true_and, Bool.not_not, refusedData, hline]
    cases hnf : u.noFaultSuppressesTrap r.asi with
    | false =>
      rw [if_neg (by decide), Bool.false_and, if_neg (by decide), Caches.mmuWritten, if_neg hmmu]
      rfl
    | true =>
      rw [if_pos rfl, Caches.stored, Bool.true_and, show c.caches.data = c.dataCache from rfl]
      cases (allowedLine c.dataCache r u.contextRegister true).isSome <;> rfl
  · have hline : writtenLine c.dataCache u.contextRegister r =
        c.dataCache.find r.address u.contextRegister := if_neg (by rw [hk]; decide)
    rw [hk]
    dsimp only
    rw [Caches.atomic]
    rw [hdown, hmae, hasi, Bool.true_and, Bool.not_not, refusedData, hline]
    cases hnf : u.noFaultSuppressesTrap r.asi with
    | false =>
      rw [if_neg (by decide), Bool.false_and, if_neg (by decide)]
      rfl
    | true =>
      rw [if_pos rfl, Caches.swapped, Bool.true_and, show c.caches.data = c.dataCache from rfl]
      cases (c.dataCache.find r.address u.contextRegister).isSome <;> rfl

/-- A store or an atomic that the MMU refuses leaves the data of every cached line exactly when the
exception is reported, or there is no line to write, or the line holds the data already. -/
theorem refused_write_keeps_lines_iff {τ : Type} (phys : PhysicalMemory τ) (c : L1CachesCore)
    (u : MmuCore) (m : τ) (r : VirtualMemoryRequest)
    (hk : r.Stores) (hasi : isCachedAsi r.asi = true) (h : u.recordsFault phys r m = true) :
    ∃ response c' x, cachedAccess phys r (c, (u, m)) = some (response, (c', x)) ∧
      ((c.instructionCache.KeepsData c'.instructionCache ∧ c.dataCache.KeepsData c'.dataCache) ↔
        overwritesLine c u r = false) := by
  obtain ⟨response, x, haccess⟩ := mmuAccess_of_recordsFault c hk hasi h
  obtain ⟨c', hc', hcaches⟩ := exists_cachedAccess haccess
  refine ⟨response, c', x, hc', ?_⟩
  have hinstruction : c'.instructionCache = c.instructionCache :=
    congrArg Caches.instruction hcaches
  have hdata : c'.dataCache = refusedData c u r := congrArg Caches.data hcaches
  rw [hinstruction, hdata, and_iff_right (KeepsData.refl _), keepsData_refusedData_iff]

/-- One core with its caches and its MMU, request by request. -/
def cachedCore {τ : Type} (phys : PhysicalMemory τ) :
    Machine (L1CachesCore × (MmuCore × τ)) VirtualMemoryRequest :=
  ⟨fun x r => (cachedAccess phys r x).map Prod.snd⟩

/-- A request of a user for the word at `0x1000`. -/
def userRequest (accessType : MemAccessType) : VirtualMemoryRequest :=
  wordAccess accessType 0x1000 asiUserData 1

/-- A memory whose first word maps every address to itself, for users to read only. -/
def readOnlyBus : MemCore × Unit := pageBus 0xA2

/-- This value of the control register switches the MMU on, and a load fills a line. -/
def lineFilled (control : Word) : Option (L1CachesCore × (MmuCore × (MemCore × Unit))) :=
  (cachedCore (physicalMemory {} noDevices)).run
    [wordAccess .STORE 0 asiMmuRegister control, userRequest .LOAD]
    (emptyCaches, (initial true true true {}, readOnlyBus))

/-- Without the no-fault bit, a refused store leaves the line as it was filled. -/
theorem reported_store_keeps_lines :
    let phys := physicalMemory {} noDevices
    ∃ x response c' y, lineFilled 1 = some x ∧ (x.1.dataCache.find 0x1000 0).isSome = true ∧
      x.2.1.recordsFault phys (userRequest .STORE) x.2.2 = true ∧
      cachedAccess phys (userRequest .STORE) x = some (response, (c', y)) ∧
      x.1.instructionCache.KeepsData c'.instructionCache ∧
      x.1.dataCache.KeepsData c'.dataCache := by
  intro phys
  have hline : (lineFilled 1).map (fun x => ((x.1.dataCache.find 0x1000 0).isSome,
      x.2.1.recordsFault phys (userRequest .STORE) x.2.2,
      overwritesLine x.1 x.2.1 (userRequest .STORE))) = some (true, true, false) := by
    decide
  obtain ⟨x, hx, hvalues⟩ := Option.map_eq_some_iff.1 hline
  obtain ⟨hfind, hfault, hkeeps⟩ : _ ∧ _ ∧ _ := by simpa using hvalues
  obtain ⟨response, c', y, haccess, hiff⟩ := refused_write_keeps_lines_iff phys x.1 x.2.1 x.2.2
    (userRequest .STORE) (.inl rfl) (by decide) hfault
  exact ⟨x, response, c', y, hx, hfind, hfault, haccess, hiff.2 hkeeps⟩

/-- With the no-fault bit, an atomic that the MMU refuses changes the cached word, and not the one
in memory. -/
theorem refused_atomic_changes_line :
    let phys := physicalMemory {} noDevices
    let cachedWord (c : L1CachesCore) :=
      (c.dataCache.find 0x1000 0).map fun l => readDoubleword l 0x1000
    ((lineFilled 3).bind fun x =>
      (cachedAccess phys (userRequest .ATOMIC_LS) x).map fun y =>
        (x.2.1.recordsFault phys (userRequest .ATOMIC_LS) x.2.2, cachedWord x.1, cachedWord y.2.1,
          y.2.2.2.1.readWord 0x1000)) =
      some (true, some 0, some 1, 0) := by
  decide

end SparcV8
