import SparcV8.Mmu.Timed
import SparcV8.Processor.StateMachine

/-!
# Addresses within a doubleword

Translation does not look at the low three bits of an address; only the recorded fault address shows
them. The timed MMU and the functional one therefore agree on an access, but for that register, when
one is sent an address and the other its doubleword.
-/

namespace SparcV8

open MmuCore BitVec Tlb Walk Bool MemAccessType VirtualMemoryRequest

/-- The addresses are of the same doubleword. -/
def SameDword (va va' : Word) : Prop := ∀ i, 3 ≤ i → va.getLsbD i = va'.getLsbD i

theorem getLsbD_dwordAddress (va : Word) (i : Nat) :
    (dwordAddress va).getLsbD i = (decide (3 ≤ i) && va.getLsbD i) :=
  getLsbD_and_not_low va 3 i

theorem getLsbD_alignedDword (a : BitVec 64) (i : Nat) :
    (alignedDword a).getLsbD i = (decide (3 ≤ i) && a.getLsbD i) :=
  getLsbD_and_not_low a 3 i

theorem sameDword_dwordAddress (va : Word) : SameDword va (dwordAddress va) := by
  intro i hi
  rw [getLsbD_dwordAddress, decide_eq_true hi, Bool.true_and]

variable {va : Word}

section Bits

variable {va' : Word} (hd : SameDword va va')

include hd

theorem readBits_of_sameDword {h l : Nat} (hh : h < 32) (hl : 3 ≤ l) :
    readBits va h l = readBits va' h l := by
  apply eq_of_getLsbD_eq
  intro i _
  rw [getLsbD_readBits _ hh, getLsbD_readBits _ hh, hd (l + i) (by omega)]

/-! ## The TLB and the tables -/

theorem vaTagForLevel_of_sameDword (level : Level) :
    Tlb.vaTagForLevel va level = Tlb.vaTagForLevel va' level := by
  fin_cases level
  · rfl
  · exact readBits_of_sameDword hd (by decide) (by decide)
  · exact readBits_of_sameDword hd (by decide) (by decide)
  · exact readBits_of_sameDword hd (by decide) (by decide)

theorem level3SetIndex_of_sameDword : level3SetIndex va = level3SetIndex va' := by
  unfold level3SetIndex
  simp only [readBits_of_sameDword hd (show 16 < 32 by decide) (show 3 ≤ 12 by decide)]

theorem hits_of_sameDword (context : Word) (level : Level) :
    hits va context level = hits va' context level := by
  funext e
  rw [hits, hits, vaTagForLevel_of_sameDword hd]

variable (t : Tlb)

theorem ways_of_sameDword (level : Level) : t.ways level va = t.ways level va' := by
  fin_cases level
  · rfl
  · rfl
  · rfl
  · exact congrArg t.level3 (level3SetIndex_of_sameDword hd)

theorem modifyWays_of_sameDword (level : Level) :
    t.modifyWays level va = t.modifyWays level va' := by
  funext f
  fin_cases level
  · rfl
  · rfl
  · rfl
  · show t.modifyWays 3 va f = t.modifyWays 3 va' f
    unfold Tlb.modifyWays
    rw [level3SetIndex_of_sameDword hd]

theorem lookup_of_sameDword (context : Word) : t.lookup va context = t.lookup va' context := by
  have hlevel (level : Level) : t.lookupLevel va context level =
      t.lookupLevel va' context level := by
    rw [Tlb.lookupLevel, Tlb.lookupLevel, ways_of_sameDword hd, hits_of_sameDword hd]
  rw [Tlb.lookup, Tlb.lookup, hlevel, hlevel, hlevel, hlevel]

theorem insert_of_sameDword (context : Word) (r : WalkResult) :
    t.insert va context r = t.insert va' context r := by
  rw [Tlb.insert, Tlb.insert, modifyWays_of_sameDword hd, vaTagForLevel_of_sameDword hd]

theorem updatePte_of_sameDword (context : Word) (level : Level) (pte : Word) :
    t.updatePte va context level pte = t.updatePte va' context level pte := by
  rw [Tlb.updatePte, Tlb.updatePte, modifyWays_of_sameDword hd, hits_of_sameDword hd]

theorem start_of_sameDword (ctp context : Word) : start ctp context va = start ctp context va' := by
  rw [start, start, readBits_of_sameDword hd (by decide) (by decide),
    readBits_of_sameDword hd (by decide) (by decide),
    readBits_of_sameDword hd (by decide) (by decide)]

end Bits

/-- The physical address of a doubleword is that of a doubleword. -/
theorem alignedDword_constructPhysicalAddr (pte va : Word) (level : Level) :
    alignedDword (constructPhysicalAddr pte level va) =
      constructPhysicalAddr pte level (dwordAddress va) := by
  have hoffset (h i : Nat) (hh : h < 32) :
      (readBits (dwordAddress va) h 0).getLsbD i =
        (decide (3 ≤ i) && (readBits va h 0).getLsbD i) := by
    rw [getLsbD_readBits _ hh, getLsbD_readBits _ hh, getLsbD_dwordAddress, Nat.zero_add,
      Bool.and_left_comm]
  have hpage (i : Nat) : (pageOffset level (dwordAddress va)).getLsbD i =
      (decide (3 ≤ i) && (pageOffset level va).getLsbD i) := by
    fin_cases level
    · exact hoffset 31 i (by decide)
    · exact hoffset 23 i (by decide)
    · exact hoffset 17 i (by decide)
    · exact hoffset 11 i (by decide)
  apply eq_of_getLsbD_eq
  intro i _
  rw [getLsbD_alignedDword, constructPhysicalAddr, constructPhysicalAddr, getLsbD_or, getLsbD_or,
    getLsbD_setWidth, getLsbD_setWidth, hpage, getLsbD_shiftLeft]
  by_cases hi : 3 ≤ i
  · rw [decide_eq_true hi, Bool.true_and, Bool.true_and]
  · rw [decide_eq_false hi, decide_eq_true (show i < 12 by omega)]
    simp

theorem alignedDword_setWidth (va : Word) :
    alignedDword (va.setWidth 64) = (dwordAddress va).setWidth 64 := by
  apply eq_of_getLsbD_eq
  intro i _
  rw [getLsbD_alignedDword, getLsbD_setWidth, getLsbD_setWidth,
    getLsbD_dwordAddress, Bool.and_left_comm]

theorem dwordAddress_dwordAddress (va : Word) :
    dwordAddress (dwordAddress va) = dwordAddress va := by
  apply eq_of_getLsbD_eq
  intro i _
  rw [getLsbD_dwordAddress, getLsbD_dwordAddress, ← Bool.and_assoc, Bool.and_self]

/-! ## Translations -/

namespace MmuCore

variable {τ : Type} (phys : PhysicalMemory τ) {va' : Word} (hd : SameDword va va') (u : MmuCore)

section

include hd

theorem tlbLookup_of_sameDword (context : Word) :
    u.tlbLookup va context = u.tlbLookup va' context := by
  rw [tlbLookup, tlbLookup, lookup_of_sameDword hd]

theorem findEntry_of_sameDword (m : τ) : u.findEntry phys va m = u.findEntry phys va' m := by
  rw [findEntry, findEntry, tlbLookup_of_sameDword hd, beginWalk, beginWalk, start_of_sameDword hd]

theorem probe_of_sameDword (m : τ) : u.probe phys va m = u.probe phys va' m := by
  rw [probe, probe, findEntry_of_sameDword phys hd, beginWalk, beginWalk,
    start_of_sameDword hd, readBits_of_sameDword hd (by decide) (by decide)]

theorem readRegister_of_sameDword : u.readRegister va = u.readRegister va' := by
  rw [readRegister, readRegister, readBits_of_sameDword hd (by decide) (by decide)]

theorem updateRM_of_sameDword (r : WalkResult) (isWrite : Bool) (m : τ) :
    u.updateRM phys va r isWrite m = u.updateRM phys va' r isWrite m := by
  simp only [updateRM, commitRMTlbUpdate, updatePte_of_sameDword hd]

theorem commitTranslation_of_sameDword (context : Word) (r : WalkResult) (hit : Bool) :
    (u.commitTranslation va context r hit).1 = (u.commitTranslation va' context r hit).1 := by
  simp only [commitTranslation, insert_of_sameDword hd]

end

/-- A data fault is recorded whatever the registers hold; only its address depends on the address.
-/
theorem exists_recordFault (accessType : AccessType) (faultType : FaultType) (level : Level) :
    ∃ fsr, ∀ va, u.recordFault accessType faultType level va false =
      { u with faultStatusRegister := fsr, faultAddressRegister := va,
               faultClass := .DACCESS_FAULT } :=
  ⟨_, fun _ => if_pos (Bool.or_true _)⟩

/-- The entry that is found for an address refuses the access. -/
def refuses (u : MmuCore) (va asi : Word) (isWrite isAtomic : Bool) (m : τ) : Bool :=
  u.translates && (checkFault asi isWrite isAtomic (u.findEntry phys va m).1.pte).2 != .NONE

/-- The entry that is found for a request refuses it. -/
def refusesRequest (u : MmuCore) (r : VirtualMemoryRequest) (m : τ) : Bool :=
  u.translatesRequest r && u.refuses phys r.address r.asi r.isWrite r.isAtomic m

/-- The MMU without the address that only the answers to stores show. -/
def withoutLast (u : MmuCore) : MmuCore := { u with lastPhysicalAddress := 0 }

end MmuCore

/-! ## The timed MMU -/

/-- The memory does not look at the lock of a request. -/
def IgnoresLock {τ : Type} (phys : PhysicalMemory τ) : Prop :=
  ∀ (r : PhysicalMemoryRequest) (lock : Bool) (m : τ),
    phys.access { r with lock := lock } m = phys.access r m

/-- The system bus does not look at the lock, if its devices do not. -/
theorem SystemBus.ignoresLock {δ : Type} (l : SystemAddressMap.Layout) {devices : PhysicalMemory δ}
    (h : IgnoresLock devices) : IgnoresLock (physicalMemory l devices) := by
  intro r lock m
  simp only [physicalMemory, access, h r lock m.2]
  rfl

namespace MmuProcedure

variable {τ : Type} {phys : PhysicalMemory τ}

/-- On the spaces an instruction can name, both orders of the tests find the same. -/
theorem asiSpace_eq {asi : Word} (h : asi.toNat < 256) : asiSpace asi = SparcV8.asiSpace asi := by
  have hall : ∀ low : BitVec 8,
      asiSpace (low.setWidth 32) = SparcV8.asiSpace (low.setWidth 32) := by decide
  have hasi : asi = (asi.setWidth 8).setWidth 32 := by
    apply eq_of_toNat_eq
    rw [toNat_setWidth, toNat_setWidth]
    omega
  rw [hasi]
  exact hall _

theorem updateRM_eq (hlock : IgnoresLock phys) (u : MmuCore) (va : Word) (r : WalkResult)
    (isWrite : Bool) (m : τ) : updateRM phys u va r isWrite m = u.updateRM phys va r isWrite m := by
  have hread (a : BitVec 64) (m : τ) :
      readCurrentPte phys a m = readPageTableEntryFromMemory phys a m := by
    let r : PhysicalMemoryRequest :=
      { accessType := .READ, lock := false, physicalAddress := alignedDword a, data := 0,
        byteMask := wordMask a }
    rw [readCurrentPte, readPageTableEntryFromMemory, readPhysicalWord, ← hlock r true m]
  unfold updateRM MmuCore.updateRM
  cases MmuCore.computeAndStageRMUpdate r.pte isWrite <;> simp only [hread]

/-- A translation by the procedure, by the entry found. -/
theorem translate_eq (hlock : IgnoresLock phys) {u : MmuCore} (hp : u.mmuIsPresent = true)
    (va asi : Word) (isInstructionAccess isWrite isAtomic : Bool) (m : τ) :
    translate phys u va asi isInstructionAccess isWrite isAtomic m =
      if u.translates then u.translate phys va asi isInstructionAccess isWrite isAtomic m
      else (some (untranslated u va asi), u, m) := by
  unfold translate MmuCore.translate translates
  simp only [hp, updateRM_eq hlock, Bool.true_and, Bool.not_true, Bool.false_or]
  cases u.mmuEnabled <;> rfl

/-- A data access by the procedure, and one to its doubleword by `MmuCore`, are both refused, or
both get to the same physical doubleword. -/
theorem translate_cases (hlock : IgnoresLock phys) {u : MmuCore} (hp : u.mmuIsPresent = true)
    (va asi : Word) (isWrite isAtomic : Bool) (m : τ) :
    (u.refuses phys va asi isWrite isAtomic m = true ∧ ∃ fsr m',
      u.translate phys (dwordAddress va) asi false isWrite isAtomic m =
        (none, { u with faultStatusRegister := fsr, faultAddressRegister := dwordAddress va,
                        faultClass := .DACCESS_FAULT }, m') ∧
      translate phys u va asi false isWrite isAtomic m =
        (none, { u with faultStatusRegister := fsr, faultAddressRegister := va,
                        faultClass := .DACCESS_FAULT }, m')) ∨
    (u.refuses phys va asi isWrite isAtomic m = false ∧ ∃ t t' u' m',
      u.translate phys (dwordAddress va) asi false isWrite isAtomic m = (some t', u', m') ∧
      translate phys u va asi false isWrite isAtomic m = (some t, u', m') ∧
      alignedDword t.physicalAddr = t'.physicalAddr ∧
      alignedDword t'.physicalAddr = t'.physicalAddr) := by
  have hd := sameDword_dwordAddress va
  rw [translate_eq hlock hp]
  cases ht : u.translates with
  | false =>
    right
    have hx : u.translate phys (dwordAddress va) asi false isWrite isAtomic m = (some _, u, m) :=
      if_pos (by rw [not_translates, ht]; rfl)
    refine ⟨by rw [refuses, ht, Bool.false_and], _, _, _, _, hx, rfl, ?_, ?_⟩
    · exact alignedDword_setWidth va
    · rw [alignedDword_setWidth, dwordAddress_dwordAddress]
  | true =>
    rw [if_pos rfl, u.translate_eq phys ht, u.translate_eq phys ht,
      ← MmuCore.findEntry_of_sameDword phys hd]
    dsimp only
    by_cases hfault : (checkFault asi isWrite isAtomic (u.findEntry phys va m).1.pte).2 = .NONE
    · right
      rw [if_pos hfault, if_pos hfault, MmuCore.updateRM_of_sameDword phys hd,
        MmuCore.commitTranslation_of_sameDword hd]
      refine ⟨by rw [refuses, hfault]; exact and_false _, _, _, _, _, rfl, rfl, ?_, ?_⟩
      · exact alignedDword_constructPhysicalAddr _ _ _
      · refine (alignedDword_constructPhysicalAddr _ _ _).trans ?_
        rw [dwordAddress_dwordAddress]
        rfl
    · left
      rw [if_neg hfault, if_neg hfault]
      obtain ⟨fsr, hfsr⟩ := u.exists_recordFault
        (checkFault asi isWrite isAtomic (u.findEntry phys va m).1.pte).1
        (checkFault asi isWrite isAtomic (u.findEntry phys va m).1.pte).2
        (u.findEntry phys va m).1.level
      refine ⟨?_, fsr, (u.findEntry phys va m).2.2, by rw [hfsr], by rw [hfsr]⟩
      rw [refuses, ht, Bool.true_and, bne_iff_ne]
      exact hfault

/-! ## Accesses -/

/-- The core cannot tell the answers apart, and memory and fault status end the same; after a
refused access the fault address is the one that was sent. -/
structure AccessAgrees (refused : Bool) (va : Word)
    (x y : VirtualMemoryResponse × (MmuCore × τ)) : Prop where
  readWord0_eq : y.1.readWord0 = x.1.readWord0
  readWord1_eq : y.1.readWord1 = x.1.readWord1
  mae_eq : y.1.mae = x.1.mae
  memory_eq : y.2.2 = x.2.2
  faultStatus_eq : y.2.1.faultStatusRegister = x.2.1.faultStatusRegister
  faultAddress_of_refused : refused = true →
    y.2.1.faultAddressRegister = va ∧ x.2.1.faultAddressRegister = dwordAddress va
  faultAddress_of_accepted : refused = false →
    y.2.1.faultAddressRegister = x.2.1.faultAddressRegister

variable {refused : Bool} {x y : VirtualMemoryResponse × (MmuCore × τ)}

/-- The MMU without the addresses of its last fault and its last store. -/
def withoutAddresses (u : MmuCore) : MmuCore :=
  { u with faultAddressRegister := 0, lastPhysicalAddress := 0 }

/-- And both MMUs end the same, but for those addresses. -/
structure Agrees (refused : Bool) (va : Word) (x y : VirtualMemoryResponse × (MmuCore × τ)) : Prop
    extends AccessAgrees refused va x y where
  mmu_eq : withoutAddresses y.2.1 = withoutAddresses x.2.1

/-- Access that is not refused. -/
theorem Agrees.of_accepted (hr : refused = false) (h0 : y.1.readWord0 = x.1.readWord0)
    (h1 : y.1.readWord1 = x.1.readWord1) (hmae : y.1.mae = x.1.mae) (hmem : y.2.2 = x.2.2)
    (hmmu : y.2.1.withoutLast = x.2.1.withoutLast) : Agrees refused va x y := by
  have hfsr := congrArg MmuCore.faultStatusRegister hmmu
  have hfar := congrArg MmuCore.faultAddressRegister hmmu
  have hsame := congrArg withoutAddresses hmmu
  exact ⟨⟨h0, h1, hmae, hmem, hfsr, fun h => absurd (hr.symm.trans h) Bool.false_ne_true,
    fun _ => hfar⟩, hsame⟩

theorem Agrees.of_eq (hr : refused = false) (h : y = x) : Agrees refused va x y := by
  subst h
  exact .of_accepted hr rfl rfl rfl rfl rfl

/-- Doubleword reads look at the doubleword of their address only. -/
theorem readData_of_aligned {a a' : BitVec 64} (h : alignedDword a = a')
    (h' : alignedDword a' = a') (mask : BitVec 8) (m : τ) :
    readData phys a true mask m = readData phys a' true mask m := by
  simp [readData, readPhysicalDoubleword, h, h']

/-- The answer to a fetch or load that has read these words. -/
def wordsResponse (x : ReadWords × MmuCore × τ) : VirtualMemoryResponse × (MmuCore × τ) :=
  ({ readWord0 := x.1.word0, readWord1 := x.1.word1, mae := x.1.mae }, x.2)

/-- The answer of `MmuCore` to a store. -/
def storeResponse (x : MmuCore.WriteOutcome × MmuCore × τ) :
    VirtualMemoryResponse × (MmuCore × τ) :=
  ({ mae := x.1.mae, cacheable := x.1.cacheable && !x.1.mae,
     physicalAddress := x.2.1.lastPhysicalAddress,
     physicalAddressValid := x.1.physicalAddressValid }, x.2)

/-- The answer of `MmuCore` to an atomic access. -/
def atomicResponse (x : (ReadWords × Bool) × MmuCore × τ) : VirtualMemoryResponse × (MmuCore × τ) :=
  ({ readWord0 := x.1.1.word0, readWord1 := x.1.1.word1, mae := x.1.1.mae,
     physicalAddress := x.2.1.lastPhysicalAddress, physicalAddressValid := x.1.2 }, x.2)

variable {r : VirtualMemoryRequest}

theorem finalRead_eq (hk : r.accessType ≠ .READ_LINE) (u : MmuCore) (t : Translation) (m : τ) :
    finalRead phys u r t m =
      let x := readData phys t.physicalAddr (r.accessType == .LOAD)
        (loadByteMask r.byteMask) m
      wordsResponse (x.1, u, x.2) := by
  rw [finalRead, if_neg hk]
  rfl

variable (hlock : IgnoresLock phys) (u : MmuCore) (m : τ)

include hlock

variable (phys r) in
/-- The procedure's answer agrees with that of `MmuCore` to the doubleword. -/
abbrev AgreesOn (u : MmuCore) (m : τ) : Prop :=
  Agrees (u.refusesRequest phys r m) r.address
    (MmuCore.access phys { r with address := dwordAddress r.address } (u, m))
    (access phys r (u, m))

omit hlock in
theorem refuses_of_absent (hp : u.mmuIsPresent = false) (va asi : Word) (isWrite isAtomic : Bool) :
    u.refuses phys va asi isWrite isAtomic m = false := by
  rw [refuses, translates, hp]
  rfl

omit hlock in
/-- A load or a store is refused in the ordinary spaces only. -/
theorem refusesRequest_eq (hk : r.accessType = .LOAD ∨ r.accessType = .STORE) :
    u.refusesRequest phys r m = (SparcV8.asiSpace r.asi == .ordinary &&
      u.refuses phys r.address r.asi r.isWrite r.isAtomic m) := by
  rw [refusesRequest, MmuCore.translatesRequest_eq (.inr hk), refuses,
    Bool.and_right_comm, ← Bool.and_assoc, Bool.and_self, Bool.and_comm]

theorem agrees_load (hk : r.accessType = .LOAD) (hasi : r.asi.toNat < 256) :
    AgreesOn phys r u m := by
  have hx : MmuCore.access phys { r with address := dwordAddress r.address } (u, m) =
      wordsResponse (u.handleReadAccess phys (dwordAddress r.address) r.asi false true
        (loadByteMask r.byteMask) m) := by
    unfold MmuCore.access
    rw [hk]
    rfl
  have hy : access phys r (u, m) = handleRead phys u r m := by
    unfold access
    rw [hk]
  have hfinal (u : MmuCore) (t : Translation) (m : τ) : finalRead phys u r t m = _ :=
    finalRead_eq (by rw [hk]; decide) u t m
  have hdata {a a' : BitVec 64} (h : alignedDword a = a') (h' : alignedDword a' = a')
      (m : τ) : readData phys a (r.accessType == .LOAD) (loadByteMask r.byteMask) m =
        readData phys a' true (loadByteMask r.byteMask) m := by
    rw [hk]
    exact readData_of_aligned h h' _ m
  have hd := sameDword_dwordAddress r.address
  have hphys := alignedDword_setWidth r.address
  have hphys' := alignedDword_setWidth (dwordAddress r.address)
  rw [dwordAddress_dwordAddress] at hphys'
  rw [AgreesOn, refusesRequest_eq u m (.inl hk), hx, hy, handleRead, handleReadAccess,
    asiSpace_eq hasi, isWrite, isAtomic, hk]
  cases hp : u.mmuIsPresent with
  | false =>
    rw [refuses_of_absent u m hp, if_pos (by decide), if_pos (by decide), hfinal]
    exact .of_eq (and_false _) (by rw [untranslated, hdata hphys hphys'])
  | true =>
    rw [if_neg (by decide), if_neg (by decide)]
    cases SparcV8.asiSpace r.asi with
    | ordinary =>
      have hflag (b : Bool) : (LOAD == .IFETCH ||
          LOAD == .READ_LINE && b) = false := rfl
      rw [beq_self_eq_true, Bool.true_and, hflag]
      rcases translate_cases hlock hp r.address r.asi false false m with
        ⟨href, fsr, m', hx, hy⟩ | ⟨href, t, t', u', m', hx, hy, ha, ha'⟩
      · rw [href, hx, hy]
        exact ⟨⟨rfl, rfl, rfl, rfl, rfl, fun _ => ⟨rfl, rfl⟩, Bool.noConfusion⟩, rfl⟩
      · rw [href, hx, hy]
        exact .of_eq rfl (by dsimp only; rw [hfinal, hdata ha ha'])
    | flushProbe =>
      refine .of_eq rfl ?_
      dsimp only
      rw [MmuCore.probe_of_sameDword phys hd]
      rfl
    | register =>
      refine .of_eq rfl ?_
      dsimp only
      rw [MmuCore.readRegister_of_sameDword hd]
      rfl
    | passThrough =>
      refine .of_eq rfl ?_
      dsimp only
      rw [hfinal, untranslated, hdata hphys hphys']
    | _ => exact .of_eq rfl rfl

theorem agrees_store (hk : r.accessType = .STORE) (hasi : r.asi.toNat < 256)
    (hal : dwordAddress r.address = r.address) : AgreesOn phys r u m := by
  have hphys := alignedDword_setWidth r.address
  have hx : MmuCore.access phys { r with address := dwordAddress r.address } (u, m) =
      storeResponse (u.handleWriteAccess phys (dwordAddress r.address) r.word0 r.word1
        r.byteMask r.asi m) := by
    unfold MmuCore.access
    rw [hk]
    dsimp only
    generalize u.handleWriteAccess phys (dwordAddress r.address) r.word0 r.word1 r.byteMask
      r.asi m = z
    rfl
  have hy : access phys r (u, m) = handleWrite phys u r m := by
    unfold access
    rw [hk]
  rw [AgreesOn, refusesRequest_eq u m (.inr hk), hx, hy, handleWrite, MmuCore.handleWriteAccess,
    asiSpace_eq hasi, isWrite, isAtomic, hk]
  cases hp : u.mmuIsPresent with
  | false =>
    rw [refuses_of_absent u m hp, if_pos (by decide), if_pos (by decide), finalWrite, untranslated,
      hphys]
    exact .of_accepted (and_false _) rfl rfl rfl rfl rfl
  | true =>
    rw [if_neg (by decide), if_neg (by decide)]
    cases SparcV8.asiSpace r.asi with
    | ordinary =>
      rw [beq_self_eq_true, Bool.true_and]
      rcases translate_cases hlock hp r.address r.asi true false m with
        ⟨href, fsr, m', hx, hy⟩ | ⟨href, t, t', u', m', hx, hy, ha, -⟩
      · rw [href, hx, hy]
        exact ⟨⟨rfl, rfl, rfl, rfl, rfl, fun _ => ⟨rfl, rfl⟩, Bool.noConfusion⟩, rfl⟩
      · rw [href, hx, hy]
        dsimp only
        rw [finalWrite, ha]
        obtain ⟨mae, m''⟩ := writePhysicalMaskedDoubleWord phys t'.physicalAddr r.word0 r.word1
          r.byteMask m'
        dsimp only [storeResponse]
        exact .of_accepted rfl rfl rfl rfl rfl rfl
    | passThrough =>
      dsimp only
      rw [finalWrite, untranslated, hphys]
      exact .of_accepted rfl rfl rfl rfl rfl rfl
    | flushProbe | register =>
      rw [hal]
      exact .of_accepted rfl rfl rfl rfl rfl rfl
    | _ => exact .of_accepted rfl rfl rfl rfl rfl rfl

theorem agrees_atomic (hk : r.accessType = .ATOMIC_LS) : AgreesOn phys r u m := by
  have hr : u.refusesRequest phys r m = u.refuses phys r.address r.asi true true m := by
    rw [refusesRequest, MmuCore.translatesRequest, isWrite, isAtomic, hk,
      Bool.and_true, refuses, ← Bool.and_assoc, Bool.and_self]
  have hphys := alignedDword_setWidth r.address
  have hx : MmuCore.access phys { r with address := dwordAddress r.address } (u, m) =
      atomicResponse (u.handleAtomicAccess phys (dwordAddress r.address) r.word0 r.word1
        r.byteMask r.asi m) := by
    unfold MmuCore.access
    rw [hk]
    dsimp only
    generalize u.handleAtomicAccess phys (dwordAddress r.address) r.word0 r.word1 r.byteMask
      r.asi m = z
    rfl
  have hy : access phys r (u, m) = handleAtomic phys u r m := by
    unfold access
    rw [hk]
  rw [AgreesOn, hr, hx, hy, handleAtomic, MmuCore.handleAtomicAccess]
  cases hp : u.mmuIsPresent with
  | false =>
    rw [refuses_of_absent u m hp, if_pos (by decide), if_pos (by decide), finalAtomic, untranslated,
      hphys]
    exact .of_accepted rfl rfl rfl rfl rfl rfl
  | true =>
    rw [if_neg (by decide), if_neg (by decide)]
    rcases translate_cases hlock hp r.address r.asi true true m with
      ⟨href, fsr, m', hx, hy⟩ | ⟨href, t, t', u', m', hx, hy, ha, -⟩
    · rw [href, hx, hy]
      exact ⟨⟨rfl, rfl, rfl, rfl, rfl, fun _ => ⟨rfl, rfl⟩, Bool.noConfusion⟩, rfl⟩
    · rw [href, hx, hy]
      dsimp only
      rw [finalAtomic, ha]
      obtain ⟨words, m''⟩ := atomicReadModifyWritePhysical phys t'.physicalAddr r.word0 r.word1
        r.byteMask m'
      dsimp only [atomicResponse]
      exact .of_accepted rfl rfl rfl rfl rfl rfl

/-- Fetches and loads are answered alike, at any address. -/
theorem access_read_eq (hk : r.Reads) (hasi : r.asi.toNat < 256) :
    access phys r (u, m) = MmuCore.access phys r (u, m) := by
  obtain ⟨fetch, second, mask, hx, hy, hfinal, hflag⟩ : ∃ fetch second mask,
      MmuCore.access phys r (u, m) =
        wordsResponse (u.handleReadAccess phys r.address r.asi fetch second mask m) ∧
      access phys r (u, m) = handleRead phys u r m ∧
      (∀ u t m, finalRead phys u r t m =
        let x := readData phys t.physicalAddr second mask m
        wordsResponse (x.1, u, x.2)) ∧
      (r.accessType == .IFETCH || r.accessType == .READ_LINE &&
        (r.asi == asiUserInstruction || r.asi == asiSupervisorInstruction)) = fetch := by
    unfold MmuCore.access access
    rcases hk with hk | hk
    · refine ⟨true, false, 0xFF, by rw [hk]; rfl, by rw [hk], fun u t m => ?_, by rw [hk]; rfl⟩
      rw [finalRead_eq (by rw [hk]; decide), hk]
      rfl
    · refine ⟨false, true, loadByteMask r.byteMask, by rw [hk]; rfl, by rw [hk],
        fun u t m => ?_, by rw [hk]; rfl⟩
      rw [finalRead_eq (by rw [hk]; decide), hk]
      rfl
  rw [hx, hy, handleRead, handleReadAccess, asiSpace_eq hasi]
  cases hp : u.mmuIsPresent with
  | false =>
    rw [if_pos (by decide), if_pos (by decide), hfinal]
    rfl
  | true =>
    rw [if_neg (by decide), if_neg (by decide)]
    cases SparcV8.asiSpace r.asi with
    | ordinary =>
      dsimp only
      rw [hflag, translate_eq hlock hp]
      cases ht : u.translates with
      | false =>
        have hx : u.translate phys r.address r.asi fetch false false m = (some _, u, m) :=
          if_pos (by rw [not_translates, ht]; rfl)
        rw [hx]
        exact hfinal _ _ _
      | true =>
        rw [if_pos rfl]
        obtain ⟨t, u', m'⟩ := u.translate phys r.address r.asi fetch false false m
        cases t with
        | none => rfl
        | some t => exact hfinal _ _ _
    | passThrough => exact hfinal _ _ _
    | _ => rfl

end MmuProcedure

end SparcV8
