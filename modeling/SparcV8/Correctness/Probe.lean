import SparcV8.Correctness.Transparency
import SparcV8.Mmu.Reference

/-!
# Probes

A probe for the entry of one level walks the tables. The entire probe asks the TLB first, and an
entry there can differ from memory in one bit: a store through another entry for the same table word
sets the modified bit in memory and in that other entry only.
-/

namespace SparcV8

open ReferenceMmu MmuCore Words SystemBus Pte

namespace MmuCore

/-! ## Reached states -/

variable {dom : Nat → Bool} {u : MmuCore} {c : Words}

section Runs

/-- A run that keeps the tables keeps the agreement. -/
theorem tlbAgrees_accessAll (rs : List VirtualMemoryRequest) {W : Set Nat}
    (hen : u.tlbEnabled = true) (h : TlbAgrees dom u c W) (hk : KeepsTablesAll dom rs u c W) :
    ∃ W', TlbAgrees dom (accessAll (ram dom) rs (u, c)).2.1
      (accessAll (ram dom) rs (u, c)).2.2 W' := by
  induction rs generalizing u c W with
  | nil => exact ⟨W, h⟩
  | cons r rs ih =>
    obtain ⟨hr, hrest⟩ := hk
    have hrun := ih ((tlbEnabled_access _ r u c).trans hen) (tlbAgrees_access hen h hr) hrest
    rw [accessAll]
    exact hrun

theorem tlbEnabled_accessAll {τ : Type} (phys : PhysicalMemory τ) (rs : List VirtualMemoryRequest)
    (u : MmuCore) (m : τ) : (accessAll phys rs (u, m)).2.1.tlbEnabled = u.tlbEnabled := by
  induction rs generalizing u m with
  | nil => rfl
  | cons r rs ih => exact (ih _ _).trans (tlbEnabled_access phys r u m)

end Runs

/-- A state of a run from an empty TLB that keeps the tables but for updates. -/
def ReachedKeepingTables {τ : Type} {phys : PhysicalMemory τ} (p : PlainMemory phys)
    (x : MmuCore × τ) : Prop :=
  ∃ (u : MmuCore) (tlbEnabled : Bool) (m : τ) (rs : List VirtualMemoryRequest),
    KeepsTablesAll p.dom rs (u.emptyTlb tlbEnabled) (p.contents m) ∅ ∧
      (accessAll phys rs (u.emptyTlb tlbEnabled, m)).2 = x

/-- In such a state the TLB is off or agrees with the tables. -/
theorem ReachedKeepingTables.agrees {τ : Type} {phys : PhysicalMemory τ} {p : PlainMemory phys}
    {x : MmuCore × τ} (h : ReachedKeepingTables p x) :
    x.1.tlbEnabled = false ∨ ∃ W, TlbAgrees p.dom x.1 (p.contents x.2) W := by
  obtain ⟨u, tlbEnabled, m, rs, hk, rfl⟩ := h
  cases tlbEnabled with
  | false => exact .inl (tlbEnabled_accessAll phys rs _ m)
  | true =>
    right
    have hagrees : TlbAgrees p.dom (u.emptyTlb true) (p.contents m) ∅ :=
      fun level e he => absurd he (Tlb.not_holds_empty level e)
    have hrun : ∃ W, TlbAgrees p.dom
        (accessAll p.abstract rs (u.emptyTlb true, p.contents m)).2.1
        (accessAll p.abstract rs (u.emptyTlb true, p.contents m)).2.2 W :=
      tlbAgrees_accessAll rs rfl hagrees hk
    rw [lift_accessAll phys p] at hrun
    exact hrun

/-! ## What a probe finds -/

section Probe

variable (dom : Nat → Bool) (u : MmuCore) (c : Words)

/-- The answer of the reference MMU, from the tables in memory. -/
def referenceProbe (va : Word) : Word :=
  ReferenceMmu.probe (c.wordAt dom) u.contextTablePointerRegister u.contextRegister va
    (readBits va 11 8).toNat

/-- An entire probe, and the TLB has an unmodified entry for the address whose word in memory has
been modified. -/
def probesStaleEntry (va : Word) : Bool :=
  (readBits va 11 8).toNat == 4 &&
    (u.tlbLookup va u.contextRegister).any fun r =>
      modified r.pte == 0 && modified (c.entryAt dom r.phyAddrOfPte) != 0

variable {va : Word}

/-- A probe for the entry of a level returns what the reference returns. -/
theorem probe_of_level (h : (readBits va 11 8).toNat ≤ 3) :
    (u.probe (ram dom) va c).1.getD 0 =
      u.referenceProbe dom c va := by
  generalize htype : (readBits va 11 8).toNat = type at h
  have hlevel : (Fin.ofNat 4 (3 - type)).val = 3 - type := Nat.mod_eq_of_lt (by omega)
  obtain ⟨hl, -, hentry⟩ := search_matches_walk dom c u.contextTablePointerRegister
    u.contextRegister va (Fin.ofNat 4 (3 - type))
  rw [hlevel] at hl hentry
  have hat : ((Walk.start u.contextTablePointerRegister u.contextRegister va).find
      (c.entryAt dom) (Fin.ofNat 4 (3 - type)) 3).level ≠ Fin.ofNat 4 (3 - type) ↔
      (search (c.wordAt dom) va (3 - type) 0
        (entryAddress u.contextTablePointerRegister u.contextRegister.toNat)).level ≠ 3 - type := by
    rw [hl, ne_eq, ne_eq, Fin.ext_iff, hlevel]
  unfold probe referenceProbe ReferenceMmu.probe
  simp only [htype, if_neg (show ¬type = 4 by omega), if_neg (show ¬type > 3 by omega), runWalk_eq,
    beginWalk]
  by_cases hreach : (search (c.wordAt dom) va (3 - type) 0
      (entryAddress u.contextTablePointerRegister u.contextRegister.toNat)).level ≠ 3 - type
  · rw [if_pos hreach, if_pos (hat.2 hreach)]
    rfl
  · rw [if_neg hreach, if_neg (fun hne => hreach (hat.1 hne)), hentry, kind_eq]
    generalize ((Walk.start u.contextTablePointerRegister u.contextRegister va).find
      (c.entryAt dom) (Fin.ofNat 4 (3 - type)) 3).pte = pte
    rcases entryType_cases pte with het | het | het | het
    · rw [het]
      simp [etInvalid, etReserved, etPtd]
    · rw [het]
      by_cases hzero : type = 0 <;>
        simp [etInvalid, etReserved, etPtd, hzero]
    · rw [het]
      simp [etInvalid, etReserved, etPtd, etPte]
    · rw [het]
      simp [etInvalid, etReserved, etPtd, etPte]

theorem probe_entire (h : (readBits va 11 8).toNat = 4) :
    (u.probe (ram dom) va c).1.getD 0 =
      if entryType (u.foundEntry dom c va).pte = etPte then
        (u.foundEntry dom c va).pte
      else 0 := by
  unfold probe
  dsimp only
  rw [if_pos h, findEntry_eq]
  split <;> rfl

theorem referenceProbe_entire (h : (readBits va 11 8).toNat = 4) :
    u.referenceProbe dom c va =
      if entryType (u.walkEnd dom c va).pte = etPte then (u.walkEnd dom c va).pte
      else 0 := by
  obtain ⟨-, -, hentry⟩ := search_matches_walk dom c u.contextTablePointerRegister
    u.contextRegister va 3
  have hentry' : (search (c.wordAt dom) va 3 0 (entryAddress u.contextTablePointerRegister
      u.contextRegister.toNat)).entry = (u.walkEnd dom c va).pte := hentry
  unfold referenceProbe ReferenceMmu.probe
  dsimp only
  rw [if_pos h, hentry', kind_eq]
  rcases entryType_cases (u.walkEnd dom c va).pte with het | het | het | het <;> rw [het] <;>
    rfl

end Probe

/-- A cached entry and its word differ just when the word alone has been modified. -/
theorem eq_iff_of_reflects {cached word : Word} (h : Reflects cached word) :
    cached = word ↔ ¬(modified cached = 0 ∧ modified word ≠ 0) := by
  rcases h with rfl | rfl
  · exact ⟨fun _ h => h.2 h.1, fun _ => rfl⟩
  · constructor
    · intro heq hm
      rw [← heq] at hm
      exact hm.2 hm.1
    · intro hm
      have hset : modified cached ≠ 0 := by
        intro hzero
        exact hm ⟨hzero, by rw [modified_setModified]; decide⟩
      exact (setModified_of_modified hset).symm

section Entire

/-- An entire probe returns what the reference does, unless its entry is stale. -/
theorem probe_entire_iff (h : u.tlbEnabled = false ∨ ∃ W, TlbAgrees dom u c W) {va : Word}
    (ht : (readBits va 11 8).toNat = 4) :
    (u.probe (ram dom) va c).1.getD 0 = u.referenceProbe dom c va ↔
      u.probesStaleEntry dom c va = false := by
  have hstale : u.probesStaleEntry dom c va =
      (u.tlbLookup va u.contextRegister).any fun r =>
        modified r.pte == 0 && modified (c.entryAt dom r.phyAddrOfPte) != 0 := by
    rw [probesStaleEntry, ht]
    rfl
  rw [probe_entire dom u c ht, referenceProbe_entire dom u c ht, hstale]
  cases hl : u.tlbLookup va u.contextRegister with
  | none =>
    have hfound : u.foundEntry dom c va = u.walkEnd dom c va := by
      rw [foundEntry, hl, Option.getD_none]
    rw [hfound]
    exact iff_of_true rfl rfl
  | some r =>
    have hfound : u.foundEntry dom c va = r := by rw [foundEntry, hl, Option.getD_some]
    have hagrees : ∃ W, TlbAgrees dom u c W := by
      refine h.resolve_left fun hoff => ?_
      rw [tlbLookup, hoff] at hl
      cases hl
    obtain ⟨W, hagrees⟩ := hagrees
    have hentry := foundEntry_of_agrees hagrees va
    have hword : c.entryAt dom r.phyAddrOfPte = (u.walkEnd dom c va).pte := by
      rw [← hfound, hentry.2.1]
      exact (Walk.pte_find _ _ _ _).symm
    rw [hfound] at hentry ⊢
    rw [Option.any_some, hword]
    rcases hentry.2.2 with hsame | ⟨-, hleaf, hreflects⟩
    · rw [hsame]
      exact iff_of_true rfl (Bool.and_not_self _)
    · rw [if_pos hleaf, if_pos (hreflects.entryType.trans hleaf), eq_iff_of_reflects hreflects]
      simp only [Bool.and_eq_false_iff, beq_eq_false_iff_ne, bne_eq_false_iff_eq, not_and_or, ne_eq,
        not_not]

end Entire

/-- The request is a probe of one of the defined types. -/
def isDefinedProbe (r : VirtualMemoryRequest) : Bool :=
  r.accessType == .LOAD && r.asi == asiMmuFlushProbe && (readBits r.address 11 8).toNat ≤ 4

/-- A probe is served without any change of state. -/
theorem access_probe (hp : u.mmuIsPresent = true) {r : VirtualMemoryRequest}
    (hr : isDefinedProbe r = true) :
    access (ram dom) r (u, c) =
      ({ readWord0 := (u.probe (ram dom) r.address c).1.getD 0,
         readWord1 := 0, mae := false }, u, c) := by
  simp only [isDefinedProbe, Bool.and_eq_true, beq_iff_eq, decide_eq_true_eq] at hr
  obtain ⟨⟨hload, hasi⟩, -⟩ := hr
  have hsnd := probe_snd dom u c r.address
  unfold access handleReadAccess
  simp [hload, hasi, hp, show asiSpace asiMmuFlushProbe = .flushProbe from rfl, hsnd]

end MmuCore

/-- In every state that a run reaches while only the MMU's own updates change the tables, a probe
returns what the reference MMU returns for the tables in memory, unless it is an entire probe and
the entry in the TLB has missed that its word was modified. No probe changes the state. -/
theorem probe_reference_iff {τ : Type} {phys : PhysicalMemory τ} (p : PlainMemory phys)
    {x : MmuCore × τ} (hx : ReachedKeepingTables p x) (hp : x.1.mmuIsPresent = true)
    {r : VirtualMemoryRequest} (hr : isDefinedProbe r = true) :
    ((access phys r x).1.readWord0 =
        x.1.referenceProbe p.dom (p.contents x.2) r.address ↔
      x.1.probesStaleEntry p.dom (p.contents x.2) r.address = false) ∧
    (access phys r x).2.1 = x.1 ∧
    p.contents (access phys r x).2.2 = p.contents x.2 := by
  have hlift := p.lift_mmuAccess r x.1 x.2
  have hprobe : access p.abstract r (x.1, p.contents x.2) = _ :=
    access_probe hp hr
  rw [hlift] at hprobe
  have hword : (access phys r x).1.readWord0 =
      (x.1.probe (ram p.dom) r.address (p.contents x.2)).1.getD 0 :=
    congrArg (fun y => y.1.readWord0) hprobe
  refine ⟨?_, congrArg (fun y => y.2.1) hprobe, congrArg (fun y => y.2.2) hprobe⟩
  rw [hword]
  simp only [isDefinedProbe, Bool.and_eq_true, decide_eq_true_eq] at hr
  by_cases htype : (readBits r.address 11 8).toNat = 4
  · exact probe_entire_iff hx.agrees htype
  · have hlevel : (readBits r.address 11 8).toNat ≤ 3 := by omega
    refine iff_of_true (probe_of_level _ _ _ hlevel) ?_
    rw [probesStaleEntry, beq_eq_false_iff_ne.2 htype, Bool.false_and]

/-- In every such state, the entry that an address is translated by, from the TLB or a walk, is the
one where the reference MMU stops in the tables then in memory, but for the modified bit. -/
theorem reached_entry_reference {τ : Type} {phys : PhysicalMemory τ} {p : PlainMemory phys}
    {u : MmuCore} {m : τ} (h : ReachedKeepingTables p (u, m)) (va : Word) :
    let r := (u.findEntry phys va m).1
    let stop := walk ((p.contents m).wordAt p.dom) u.contextTablePointerRegister
      u.contextRegister va
    r.level.val = stop.level ∧ r.phyAddrOfPte.toNat = stop.address ∧ Reflects r.pte stop.entry := by
  intro r stop
  have hr : r = u.foundEntry p.dom (p.contents m) va :=
    (p.simulates.findEntry u va rfl).1.trans (by rw [PlainMemory.abstract, findEntry_eq])
  obtain ⟨hlevel, haddress, hentry⟩ : stop.Matches (u.walkEnd p.dom (p.contents m) va) :=
    search_matches_walk p.dom (p.contents m) _ _ va 3
  rw [hr, hlevel, haddress, hentry]
  rcases h.agrees with hoff | ⟨W, hag⟩
  · rw [foundEntry, tlbLookup, if_neg (ne_true_of_eq_false hoff)]
    exact ⟨rfl, rfl, .inl rfl⟩
  · obtain ⟨hl, ha, hsame | ⟨-, -, hreflects⟩⟩ := foundEntry_of_agrees hag va
    · rw [hsame]
      exact ⟨rfl, rfl, .inl rfl⟩
    · exact ⟨congrArg _ hl, congrArg _ ha, hreflects⟩

/-- The MMU is switched on; the page is read, and written through another entry. -/
def sharedAccesses : List VirtualMemoryRequest :=
  [wordAccess .STORE 0 0x4 1, wordAccess .LOAD 0 0xB 0, wordAccess .STORE 0x01000000 0xB 1]

/-- The state these accesses reach. -/
def sharedState : MmuCore × (MemCore × Unit) :=
  (accessAll (physicalMemory {} noDevices) sharedAccesses
    (initial true true true {}, (sharedTable, ()))).2

theorem reached_sharedState : ReachedKeepingTables plain sharedState :=
  ⟨initial true true true {}, true, (sharedTable, ()), sharedAccesses,
    ⟨fun i hi => absurd hi (Set.notMem_empty i), fun _ _ => rfl, fun _ _ => rfl, trivial⟩, rfl⟩

/-- The TLB's entry for the first address lacks the modified bit, and no other. -/
theorem reached_entry_sharedState :
    Reflects (sharedState.1.findEntry (physicalMemory {} noDevices) 0 sharedState.2).1.pte
      0x1000006E :=
  (reached_entry_reference reached_sharedState 0).2.2

/-- The request to probe an address, the type being part of it. -/
def probeRequest (address : Word) : VirtualMemoryRequest :=
  wordAccess .LOAD address 3 0

/-- A probe of the level-2 entry sees the modified bit. -/
theorem probe_reference_segment :
    (access (physicalMemory {} noDevices) (probeRequest 0x100)
      sharedState).1.readWord0 = 0x1000006E := by
  refine ((probe_reference_iff plain reached_sharedState (by decide) (by decide)).1.2
    (by decide)).trans ?_
  decide

/-- The entire probe of the same page does not. -/
theorem probe_misses_modified :
    ReachedKeepingTables plain sharedState ∧
      (access (physicalMemory {} noDevices) (probeRequest 0x400)
        sharedState).1.readWord0 = 0x1000002E ∧
      sharedState.1.referenceProbe plain.dom (plain.contents sharedState.2)
        0x400 = 0x1000006E :=
  ⟨reached_sharedState, by decide, by decide⟩

end SparcV8
