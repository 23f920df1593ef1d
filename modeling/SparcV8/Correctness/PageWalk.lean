import SparcV8.Mmu.Reference

/-!
# Page walks

On a TLB miss, a translation fetches at most four table words and returns what the search of the
reference MMU finds: the physical address, or the fault of the entry it ends at. The requests are
counted at a physical memory that logs them.
-/

namespace SparcV8

open ReferenceMmu List MmuCore SystemBus

variable {τ : Type}

/-- A physical memory that also keeps the requests it was sent. -/
def PhysicalMemory.logged (phys : PhysicalMemory τ) :
    PhysicalMemory (τ × List PhysicalMemoryRequest) :=
  ⟨fun r x => ((phys.access r x.1).1, (phys.access r x.1).2, x.2 ++ [r])⟩

/-- The log is no part of the contents. -/
def PlainMemory.logged {phys : PhysicalMemory τ} (p : PlainMemory phys) :
    PlainMemory phys.logged where
  contents x := p.contents x.1
  dom := p.dom
  response_eq r x := p.response_eq r x.1
  contents_eq r x := p.contents_eq r x.1

/-- The request for the word at an address. -/
def wordRequest (a : BitVec 64) : PhysicalMemoryRequest :=
  { accessType := .READ, lock := false, physicalAddress := alignedDword a, data := 0,
    byteMask := wordMask a }

/-- The reads of a log. -/
def readsOf (log : List PhysicalMemoryRequest) : List PhysicalMemoryRequest :=
  log.filter (fun r => r.accessType == .READ)

/-- At most four table words are read, the last once more by a read-modify-write. -/
def FetchesFourWords (atomicRMUpdates : Bool) (log : List PhysicalMemoryRequest) : Prop :=
  ∃ words : List (BitVec 64), words.length ≤ 4 ∧
    (readsOf log = words.map wordRequest ∨
      atomicRMUpdates = true ∧ ∃ a ∈ words, readsOf log = words.map wordRequest ++ [wordRequest a])

section Log

variable (phys : PhysicalMemory τ)

theorem readsOf_wordRequests (words : List (BitVec 64)) :
    readsOf (words.map wordRequest) = words.map wordRequest := by
  rw [readsOf, filter_eq_self]
  intro r hr
  obtain ⟨a, -, rfl⟩ := mem_map.1 hr
  rfl

/-- A walk fetches one word per level. -/
theorem log_runWalk (stopAtLevel : Level) (steps : Nat) (w : Walk)
    (x : τ × List PhysicalMemoryRequest) :
    ∃ words : List (BitVec 64), words.length ≤ steps + 1 ∧
      (runWalk phys.logged stopAtLevel steps w x).2.2 = x.2 ++ words.map wordRequest ∧
      (runWalk phys.logged stopAtLevel steps w x).1.phyAddrOfPte ∈ words := by
  induction steps generalizing w x with
  | zero => exact ⟨[w.curPhyAddr], Nat.le_refl _, rfl, mem_singleton.2 rfl⟩
  | succ steps ih =>
    rw [runWalk]
    rcases hread : readPageTableEntryFromMemory phys.logged w.curPhyAddr x with ⟨pte, y⟩
    have hlog : y.2 = x.2 ++ [wordRequest w.curPhyAddr] := by
      rw [show y = (readPageTableEntryFromMemory phys.logged w.curPhyAddr x).2 by rw [hread]]
      rfl
    dsimp only
    cases w.recordWalkStep pte stopAtLevel with
    | none => exact ⟨[w.curPhyAddr], by simp, hlog, mem_singleton.2 rfl⟩
    | some w' =>
      obtain ⟨words, hlen, hwords, hmem⟩ := ih w' y
      refine ⟨w.curPhyAddr :: words, ?_, ?_, mem_cons_of_mem _ hmem⟩
      · rw [length_cons]
        omega
      · rw [hwords, hlog, append_assoc]
        rfl

/-- An update of an entry reads it again only if it is a read-modify-write. -/
theorem log_updateRM (u : MmuCore) (va : Word) (r : WalkResult) (isWrite : Bool)
    (x : τ × List PhysicalMemoryRequest) :
    readsOf (u.updateRM phys.logged va r isWrite x).2.2 = readsOf x.2 ∨
      u.atomicRMUpdates = true ∧
        readsOf (u.updateRM phys.logged va r isWrite x).2.2 =
          readsOf x.2 ++ [wordRequest r.phyAddrOfPte] := by
  unfold updateRM
  cases computeAndStageRMUpdate r.pte isWrite with
  | none => exact .inl rfl
  | some staged =>
    have hwrite (value : Word) (y : τ × List PhysicalMemoryRequest) :
        readsOf (writePageTableEntryToMemory phys.logged r.phyAddrOfPte value y).2 =
          readsOf y.2 := by
      change readsOf (y.2 ++ [_]) = readsOf y.2
      rw [readsOf, filter_append]
      exact append_nil _
    cases hatomic : u.atomicRMUpdates with
    | false => exact .inl (hwrite staged x)
    | true =>
      refine .inr ⟨rfl, (hwrite _ _).trans ?_⟩
      change readsOf (x.2 ++ [_]) = _
      rw [readsOf, filter_append]
      rfl

/-- The requests of a translation that misses the TLB. -/
theorem fetchesFourWords_translate (u : MmuCore) (ht : u.translates = true) (va asi : Word)
    (isFetch isWrite isAtomic : Bool) (m : τ) (hmiss : u.tlbLookup va u.contextRegister = none) :
    FetchesFourWords u.atomicRMUpdates
      (u.translate phys.logged va asi isFetch isWrite isAtomic (m, [])).2.2.2 := by
  obtain ⟨words, hlen, hlog, hmem⟩ :=
    log_runWalk phys 3 3 (u.beginWalk va u.contextRegister) (m, [])
  have hfind : u.findEntry phys.logged va (m, []) =
      let x := runWalk phys.logged 3 3 (u.beginWalk va u.contextRegister) (m, [])
      (x.1, false, x.2) := by
    rw [findEntry, hmiss]
  have hreads : readsOf (u.findEntry phys.logged va (m, [])).2.2.2 = words.map wordRequest := by
    rw [hfind]
    exact (congrArg readsOf hlog).trans (readsOf_wordRequests words)
  rw [u.translate_eq phys.logged ht]
  dsimp only
  split
  · -- the entry lets the access through, and may have to be updated
    rcases log_updateRM phys (u.commitTranslation va u.contextRegister
      (u.findEntry phys.logged va (m, [])).1 (u.findEntry phys.logged va (m, [])).2.1).1 va
      (u.findEntry phys.logged va (m, [])).1 isWrite (u.findEntry phys.logged va (m, [])).2.2
      with h | ⟨hatomic, h⟩
    · exact ⟨words, hlen, .inl (h.trans hreads)⟩
    · refine ⟨words, hlen, .inr ⟨?_, (u.findEntry phys.logged va (m, [])).1.phyAddrOfPte, ?_, ?_⟩⟩
      · rw [← hatomic, u.atomicRMUpdates_commitTranslation]
      · rw [hfind]
        exact hmem
      · rw [h, hreads]
  · exact ⟨words, hlen, .inl hreads⟩

end Log

/-- The status register describes the fault, unless an earlier one keeps it. -/
theorem fields_recordFault {u : MmuCore} {isFetch : Bool}
    (h : u.faultClass ≠ .DACCESS_FAULT ∨ isFetch = false) (accessType : AccessType)
    (faultType : FaultType) (level : Level) (va : Word) :
    let fsr := (u.recordFault accessType faultType level va isFetch).faultStatusRegister
    readBits fsr 9 8 = BitVec.ofNat 32 level.val ∧
      readBits fsr 4 2 = BitVec.ofNat 32 faultType.code := by
  have hrecorded : (u.faultClass == .NO_FAULT || u.faultClass == .IACCESS_FAULT ||
      (if isFetch then FaultClass.IACCESS_FAULT else .DACCESS_FAULT) ==
        .DACCESS_FAULT) = true := by
    rcases h with h | rfl
    · cases hc : u.faultClass with
      | DACCESS_FAULT => exact absurd hc h
      | NO_FAULT => rfl
      | IACCESS_FAULT => rfl
    · exact Bool.or_true _
  have hlevel : (BitVec.ofNat 32 level.val : Word).toNat < 2 ^ (1 + 1) := by
    fin_cases level <;> decide
  have hcode : (BitVec.ofNat 32 faultType.code : Word).toNat < 2 ^ (2 + 1) := by
    cases faultType <;> decide
  dsimp only [recordFault, updateFsrFar]
  rw [if_pos hrecorded]
  constructor
  · rw [readBits_writeBits_off (by decide), readBits_writeBits_off (by decide),
      readBits_writeBits_off (by decide), readBits_writeBits_off (by decide),
      readBits_writeBits_self (by decide)]
    exact readBits_zero_of_lt (by decide) hlevel
  · rw [readBits_writeBits_off (by decide), readBits_writeBits_off (by decide),
      readBits_writeBits_self (by decide)]
    exact readBits_zero_of_lt (by decide) hcode

/-- A translation that misses the TLB fetches at most four table words, and does what the search of
the reference MMU says: the address goes through the page entry where the search stops, or the
fault of the entry where it stops is recorded. -/
theorem translate_reference {phys : PhysicalMemory τ} (p : PlainMemory phys) (u : MmuCore) (m : τ)
    (va : Word) {asi : Word} (hasi : ordinaryAsi asi) (isFetch isWrite isAtomic : Bool)
    (ht : u.translates = true) (hmiss : u.tlbLookup va u.contextRegister = none) :
    let stop := ReferenceMmu.walk ((p.contents m).wordAt p.dom) u.contextTablePointerRegister
      u.contextRegister va
    let fault := (accessOf asi isWrite isAtomic).fault stop.entry
    let x := u.translate phys.logged va asi isFetch isWrite isAtomic (m, [])
    FetchesFourWords u.atomicRMUpdates x.2.2.2 ∧
      (fault = .NONE → ∃ t, x.1 = some t ∧
        (stop.Aligned → t.physicalAddr.toNat = stop.physicalAddress va)) ∧
      (fault ≠ .NONE → x.1 = none ∧
        (∃ accessType level, level.val = stop.level ∧
          x.2.1 = u.recordFault accessType fault level va isFetch) ∧
        (u.faultClass ≠ .DACCESS_FAULT ∨ isFetch = false →
          readBits x.2.1.faultStatusRegister 9 8 = BitVec.ofNat 32 stop.level ∧
            readBits x.2.1.faultStatusRegister 4 2 = BitVec.ofNat 32 fault.code)) := by
  intro stop fault x
  have hmatch : stop.Matches (u.walkEnd p.dom (p.contents m) va) :=
    search_matches_walk p.dom (p.contents m) _ _ va 3
  have hfound : u.foundEntry p.dom (p.contents m) va = u.walkEnd p.dom (p.contents m) va := by
    rw [foundEntry, hmiss]
    rfl
  have hfault : (checkFault asi isWrite isAtomic
      (u.foundEntry p.dom (p.contents m) va).pte).2 = fault := by
    rw [hfound, ← hmatch.2.2]
    exact checkFault_eq hasi isWrite isAtomic stop.entry
  have hlift := p.logged.lift_translate u va asi isFetch isWrite isAtomic (m, [])
  change u.translate (Words.ram p.dom) va asi isFetch isWrite isAtomic
    (p.contents m) = (x.1, x.2.1, _) at hlift
  refine ⟨fetchesFourWords_translate phys u ht va asi isFetch isWrite isAtomic m hmiss,
    fun hnone => ?_, fun hsome => ?_⟩
  · have hf : u.faults p.dom (p.contents m) va asi isWrite isAtomic = false := by
      rw [faults, hfault, hnone]
      exact Bool.and_false _
    rw [u.translate_of_not_faults p.dom (p.contents m) ht hf, hfound] at hlift
    refine ⟨_, (congrArg Prod.fst hlift).symm, fun ha => ?_⟩
    exact toNat_constructPhysicalAddr hmatch ha va
  · have hf : u.faults p.dom (p.contents m) va asi isWrite isAtomic = true := by
      rw [faults, hfault, ht, Bool.true_and, bne_iff_ne]
      exact hsome
    rw [u.translate_of_faults p.dom (p.contents m) hf, hfault, hfound] at hlift
    have hcore : x.2.1 = _ := (congrArg (fun y => y.2.1) hlift).symm
    refine ⟨(congrArg Prod.fst hlift).symm, ⟨_, _, hmatch.1.symm, hcore⟩, fun hclass => ?_⟩
    rw [hcore, hmatch.1]
    exact fields_recordFault hclass _ _ _ _

/-- One entry for all addresses: the supervisor has all rights, the user none. -/
def supervisorPage : MemCore × Unit := pageBus 0x3E

/-- The supervisor gets through that entry and the user does not. -/
theorem translate_reference_supervisorPage :
    ordinaryAsi asiSupervisorData ∧ ordinaryAsi asiUserData ∧ mmuOn.translates = true ∧
      mmuOn.tlbLookup 0x1234 mmuOn.contextRegister = none ∧
      (∃ t, (mmuOn.translate (physicalMemory {} noDevices).logged 0x1234
          asiSupervisorData false true false (supervisorPage, [])).1 = some t ∧
        t.physicalAddr.toNat = 0x1234) ∧
      (mmuOn.translate (physicalMemory {} noDevices).logged 0x1234
        asiUserData false true false (supervisorPage, [])).1 = none := by
  have hs : ordinaryAsi asiSupervisorData := .inr (.inr (.inr rfl))
  have hu : ordinaryAsi asiUserData := .inr (.inr (.inl rfl))
  refine ⟨hs, hu, by decide, by decide, ?_, ?_⟩
  · obtain ⟨-, hpage, -⟩ := translate_reference plain mmuOn supervisorPage 0x1234 hs
      false true false (by decide) (by decide)
    obtain ⟨t, ht, haddr⟩ := hpage (by decide)
    exact ⟨t, ht, haddr (by decide)⟩
  · obtain ⟨-, -, hfault⟩ := translate_reference plain mmuOn supervisorPage 0x1234 hu
      false true false (by decide) (by decide)
    exact (hfault (by decide)).1

end SparcV8
