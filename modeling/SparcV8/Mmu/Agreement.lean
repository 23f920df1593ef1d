import SparcV8.Mmu.Tables

/-!
# Cached entries and the tables they came from

For every address an entry of the TLB serves, a fresh walk ends at the entry's level and address,
and reads the cached word or that word with its modified bit set. Fills, updates, flushes, and any
change that keeps the words of such walks preserve this.
-/

namespace SparcV8

open Words Pte Tlb Option

namespace MmuCore

variable {dom : Nat → Bool}

/-! ## Updates -/

variable {pte staged : Word}
variable {isWrite : Bool}

/-- A referenced entry can only become modified. -/
theorem staged_of_referenced (hr : referenced pte ≠ 0)
    (h : computeAndStageRMUpdate pte isWrite = some staged) :
    staged = setModified pte ∧ isWrite = true ∧ modified pte = 0 := by
  have hb : (referenced pte == 0) = false := beq_eq_false_iff_ne.2 hr
  unfold computeAndStageRMUpdate at h
  simp only [hb, Bool.not_false, Bool.true_and, if_off] at h
  split at h
  · cases h
  · next hm =>
    have hset : (isWrite && modified pte == 0) = true := by
      rw [← Bool.not_eq_false]
      exact fun hf => hm (by rw [hf]; rfl)
    rw [hset, if_pos rfl] at h
    rw [Bool.and_eq_true, beq_iff_eq] at hset
    exact ⟨(some.inj h).symm, hset⟩

theorem computeAndStageRMUpdate_of_modified (hr : referenced pte ≠ 0)
    (hm : modified pte ≠ 0) (isWrite : Bool) : computeAndStageRMUpdate pte isWrite = none := by
  cases h : computeAndStageRMUpdate pte isWrite with
  | none => rfl
  | some staged => exact absurd (staged_of_referenced hr h).2.2 hm

variable {word : Word}

/-- What an update stages for a cached entry is what the word in memory becomes. -/
theorem getD_staged_of_reflects {cached : Word} (hc : Reflects cached word)
    (hr : referenced cached ≠ 0) (h : computeAndStageRMUpdate cached isWrite = some staged) :
    (computeAndStageRMUpdate word isWrite).getD word = staged := by
  rcases hc with rfl | rfl
  · rw [h, getD_some]
  · rw [computeAndStageRMUpdate_of_modified (by rwa [referenced_setModified]) (by simp), getD_none]
    exact (staged_of_referenced hr h).1.symm

variable {cached : Word}

theorem not_staged_of_reflects (hc : Reflects cached word) (hr : referenced cached ≠ 0)
    (h : computeAndStageRMUpdate cached isWrite = none) :
    computeAndStageRMUpdate word isWrite = none := by
  rcases hc with rfl | rfl
  · exact h
  · exact computeAndStageRMUpdate_of_modified (by rwa [referenced_setModified]) (by simp) _

theorem entryType_of_staged (h : computeAndStageRMUpdate pte isWrite = some staged) :
    entryType staged = entryType pte := by
  unfold computeAndStageRMUpdate at h
  dsimp only at h
  split at h
  · cases h
  · cases h
    split <;> split <;> simp

theorem entryType_getD_staged (h : entryType pte = etPte) :
    entryType ((computeAndStageRMUpdate pte isWrite).getD pte) = etPte := by
  cases hs : computeAndStageRMUpdate pte isWrite with
  | none => exact h
  | some staged => exact (entryType_of_staged hs).trans h

variable {r : WalkResult}

section Update

variable {u : MmuCore} {c : Words}

/-- The word of an entry after its update. -/
theorem entryAt_updatedMemory (hpte : r.pte = c.entryAt dom r.phyAddrOfPte)
    (het : entryType r.pte = etPte) (isWrite : Bool) :
    (u.updatedMemory dom c r isWrite).entryAt dom r.phyAddrOfPte =
      (computeAndStageRMUpdate r.pte isWrite).getD r.pte := by
  rw [updatedMemory, writtenEntry_of_current dom u isWrite hpte het]
  cases computeAndStageRMUpdate r.pte isWrite with
  | none => exact hpte.symm
  | some staged =>
    -- a word that is absent reads as an invalid entry
    have hdom : dom (r.phyAddrOfPte.toNat / 4) = true := by
      by_contra hn
      rw [entryAt, Words.read, if_neg hn] at hpte
      rw [hpte] at het
      cases het
    dsimp only [getD_some]
    rw [entryAt, Words.read_write, if_pos rfl, if_pos hdom]

/-- An update keeps every word of the tables. -/
theorem kept_updatedMemory (hpte : r.pte = c.entryAt dom r.phyAddrOfPte)
    (het : entryType r.pte = etPte) (isWrite : Bool) (i : Nat) :
    Kept (c.read dom i) ((u.updatedMemory dom c r isWrite).read dom i) := by
  by_cases hi : i = r.phyAddrOfPte.toNat / 4
  · have hnew := entryAt_updatedMemory (u := u) hpte het isWrite
    rw [entryAt, ← hi] at hnew hpte
    rw [hnew, ← hpte]
    cases hs : computeAndStageRMUpdate r.pte isWrite with
    | none => exact .inl rfl
    | some staged =>
      exact .inr ⟨het, (entryType_of_staged hs).trans het,
        fun hr => (staged_of_referenced hr hs).1⟩
  · left
    unfold updatedMemory
    split
    · rfl
    · rw [Words.read_write, if_neg hi]

/-- An update through a cached entry does what one through the tables does. -/
theorem updatedMemory_of_reflects {r' : WalkResult}
    (hpte : r.pte = c.entryAt dom r.phyAddrOfPte) (het : entryType r.pte = etPte)
    (haddr : r'.phyAddrOfPte = r.phyAddrOfPte) (hc : Reflects r'.pte r.pte)
    (hr : referenced r'.pte ≠ 0) :
    u.updatedMemory dom c r' isWrite = u.updatedMemory dom c r isWrite := by
  rw [updatedMemory, updatedMemory, writtenEntry_of_current dom u isWrite hpte het, haddr]
  unfold writtenEntry
  cases hs : computeAndStageRMUpdate r'.pte isWrite with
  | none => rw [not_staged_of_reflects hc hr hs, map_none]
  | some staged =>
    obtain ⟨hstaged, -, hm⟩ := staged_of_referenced hr hs
    have hword : staged = setModified r.pte := by
      rcases hc with h | h
      · rw [hstaged, h]
      · rw [hstaged, h, setModified_setModified]
    have hwritten : (if u.atomicRMUpdates then stageRMUpdateOnCurrentPte r'.pte staged
        (c.entryAt dom r'.phyAddrOfPte) else staged) = staged := by
      split
      · rw [haddr, ← hpte, hstaged, setModified_eq]
        exact stageRMUpdateOnCurrentPte_eq het (by rwa [Reflects, setModified_eq] at hc)
      · rfl
    rw [map_some, hwritten]
    dsimp only
    rcases hc with h | h
    · rw [h, hs]
    · have hnone : computeAndStageRMUpdate r.pte isWrite = none :=
        computeAndStageRMUpdate_of_modified (by rw [h, referenced_setModified]; exact hr)
          (by rw [h]; simp) _
      rw [hnone]
      rw [hstaged, ← h, hpte, entryAt, Words.write_read_self]

end Update

/-! ## Agreement -/

/-- For every address the entry serves, a walk ends at its level and place, through words of the
set. The cached word is good, and related to the one read there. -/
structure EntryTracks (Q : Word → Prop) (R : Word → Word → Prop) (dom : Nat → Bool)
    (ctp : Word) (c : Words) (W : Set Nat) (level : Level) (e : Entry) : Prop where
  good : Q e.pte
  level_eq : ∀ va, hits va e.context level e = true →
    (tableWalk dom ctp c e.context va).level = level
  phyAddrOfPte_eq : ∀ va, hits va e.context level e = true →
    (tableWalk dom ctp c e.context va).phyAddrOfPte = e.phyAddrOfPte
  related : ∀ va, hits va e.context level e = true →
    R e.pte (tableWalk dom ctp c e.context va).pte
  path_subset : ∀ va, hits va e.context level e = true →
    ∀ i ∈ tablePath dom ctp c e.context va, i ∈ W

/-- A referenced leaf with the word of the tables, maybe before it was modified. -/
abbrev EntryAgrees :=
  EntryTracks (fun pte => referenced pte ≠ 0 ∧ entryType pte = etPte) Reflects

/-- Every entry of the TLB agrees with the tables. -/
def TlbAgrees (dom : Nat → Bool) (u : MmuCore) (c : Words) (W : Set Nat) : Prop :=
  ∀ level e, u.tlb.Holds level e →
    EntryAgrees dom u.contextTablePointerRegister c W level e

section Agreement

variable {u : MmuCore} {c c' : Words} {W W' : Set Nat}
variable {level : Level}
variable {ctp : Word}

section Tracks

variable {Q : Word → Prop} {R : Word → Word → Prop}

/-- An entry tracks the tables while walks go the same way and its word stays related. -/
theorem EntryTracks.of_sameWay {e : Entry} (h : EntryTracks Q R dom ctp c W level e)
    (hW : W ⊆ W') (hk : ∀ i ∈ W, SameWay (c.read dom i) (c'.read dom i))
    (hR : ∀ i ∈ W, R e.pte (c.read dom i) → R e.pte (c'.read dom i)) :
    EntryTracks Q R dom ctp c' W' level e := by
  have hwalk (va : Word) (hv : hits va e.context level e = true) :
      tableWalk dom ctp c' e.context va = _ ∧ _ :=
    tableWalk_of_sameWay fun i hi => hk i (h.path_subset va hv i hi)
  refine ⟨h.good, fun va hv => ?_, fun va hv => ?_, fun va hv => ?_, fun va hv => ?_⟩
  · rw [(hwalk va hv).1]
    exact h.level_eq va hv
  · rw [(hwalk va hv).1]
    exact h.phyAddrOfPte_eq va hv
  · rw [(hwalk va hv).1]
    refine hR _ (h.path_subset va hv _ mem_tablePath) ?_
    have hold := h.related va hv
    rwa [pte_tableWalk] at hold
  · rw [(hwalk va hv).2]
    exact fun i hi => hW (h.path_subset va hv i hi)

/-- A translation through an entry for the place where the walk ends: the entry filled in or updated
has the word that is left there. -/
theorem tracks_afterTranslation {va : Word}
    (hold : ∀ level e, u.tlb.Holds level e → EntryTracks Q R dom u.contextTablePointerRegister c'
      W' level e) (hk : ∀ i, SameWay (c.read dom i) (c'.read dom i))
    (hW' : ∀ i ∈ tablePath dom u.contextTablePointerRegister c u.contextRegister va, i ∈ W')
    (hlevel : r.level = (u.walkEnd dom c va).level)
    (haddr : r.phyAddrOfPte = (u.walkEnd dom c va).phyAddrOfPte)
    (hgood : Q ((computeAndStageRMUpdate r.pte isWrite).getD r.pte))
    (hword : R ((computeAndStageRMUpdate r.pte isWrite).getD r.pte) (c'.entryAt dom r.phyAddrOfPte))
    (e : Entry)
    (he : (u.afterTranslation va r (u.tlbLookup va u.contextRegister).isSome isWrite).tlb.Holds
      level e) :
    EntryTracks Q R dom u.contextTablePointerRegister c' W' level e := by
  obtain ⟨hwalk, hpath⟩ : tableWalk dom u.contextTablePointerRegister c' u.contextRegister va =
        { u.walkEnd dom c va with
          pte := c'.entryAt dom (u.walkEnd dom c va).phyAddrOfPte } ∧ _ :=
    tableWalk_of_sameWay fun i _ => hk i
  rcases holds_afterTranslation he with
    ho | ⟨rfl, -, rfl⟩ | ⟨rfl, -, staged, e', hs, he', hhit, rfl⟩
  · exact hold level e ho
  · -- the addresses that the new entry serves have the walk of this one
    have hend : r.level = (tableWalk dom u.contextTablePointerRegister c' u.contextRegister
        va).level := by
      rw [hwalk]
      exact hlevel
    have hsame {va' : Word} {e : Entry} (hv : hits va' u.contextRegister r.level e = true)
        (htag : e.vaTag = vaTagForLevel va r.level) :=
      tableWalk_of_hits (hend ▸ hv) (htag.trans (congrArg _ hend))
    refine ⟨hgood, fun va' hv => ?_, fun va' hv => ?_, fun va' hv => ?_, fun va' hv => ?_⟩
    · rw [(hsame hv rfl).1, ← hend]
    · rw [(hsame hv rfl).1, hwalk, haddr]
    · rw [(hsame hv rfl).1, hwalk, ← haddr]
      exact hword
    · rw [(hsame hv rfl).2, hpath]
      exact hW'
  · rw [hs] at hgood hword
    have hctx := context_of_hits hhit
    have htracks := hold _ e' he'
    refine ⟨hgood, htracks.level_eq, htracks.phyAddrOfPte_eq, fun va' hv => ?_, htracks.path_subset⟩
    have hplace := htracks.phyAddrOfPte_eq va (hctx ▸ hhit)
    rw [hctx, hwalk] at hplace
    rw [pte_tableWalk, htracks.phyAddrOfPte_eq va' hv, ← hplace, ← haddr]
    exact hword

end Tracks

/-- An entry agrees with the tables for as long as their words are kept. -/
theorem EntryAgrees.of_kept {e : Entry} (h : EntryAgrees dom ctp c W level e) (hW : W ⊆ W')
    (hk : ∀ i ∈ W, Kept (c.read dom i) (c'.read dom i)) : EntryAgrees dom ctp c' W' level e :=
  h.of_sameWay hW (fun i hi => (hk i hi).sameWay)
    fun i hi hr => hr.of_kept h.good.1 (hk i hi)

variable (dom u c) in
/-- An access finds the entry its walk ends at, or one of the TLB. -/
theorem foundEntry_cases (va : Word) :
    u.foundEntry dom c va = u.walkEnd dom c va ∨
      ∃ level e, u.tlb.Holds level e ∧ hits va e.context level e = true ∧
        u.walkEnd dom c va =
          tableWalk dom u.contextTablePointerRegister c e.context va ∧
        u.foundEntry dom c va =
          { pte := e.pte, level := level, phyAddrOfPte := e.phyAddrOfPte } := by
  unfold foundEntry
  cases hl : u.tlbLookup va u.contextRegister with
  | none => exact .inl rfl
  | some r =>
    obtain ⟨e, he, hhit, hpte, haddr⟩ := exists_of_lookup (lookup_of_tlbLookup hl)
    have hctx := context_of_hits hhit
    refine .inr ⟨r.level, e, he, hctx ▸ hhit, by rw [hctx]; rfl, ?_⟩
    rw [getD_some, ← hpte, ← haddr]

/-- The entry an access finds is the one its walk ends at, or reflects it. -/
theorem foundEntry_of_agrees (h : TlbAgrees dom u c W) (va : Word) :
    (u.foundEntry dom c va).level = (u.walkEnd dom c va).level ∧
      (u.foundEntry dom c va).phyAddrOfPte = (u.walkEnd dom c va).phyAddrOfPte ∧
      (u.foundEntry dom c va = u.walkEnd dom c va ∨
        referenced (u.foundEntry dom c va).pte ≠ 0 ∧
          entryType (u.foundEntry dom c va).pte = etPte ∧
          Reflects (u.foundEntry dom c va).pte (u.walkEnd dom c va).pte) := by
  rcases foundEntry_cases dom u c va with hsame | ⟨level, e, he, hhit, hwalk, hfound⟩
  · rw [hsame]
    exact ⟨rfl, rfl, .inl rfl⟩
  · have hag := h level e he
    rw [hfound, hwalk]
    exact ⟨(hag.level_eq va hhit).symm, (hag.phyAddrOfPte_eq va hhit).symm,
      .inr ⟨hag.good.1, hag.good.2, hag.related va hhit⟩⟩

/-- Rights and address of a translation do not depend on the modified bit. -/
theorem checkFault_of_reflects (h : Reflects cached word) (asi : Word) (isWrite isAtomic : Bool) :
    checkFault asi isWrite isAtomic word = checkFault asi isWrite isAtomic cached := by
  have hfault (accessType : AccessType) :
      computeFaultType accessType word = computeFaultType accessType cached := by
    rcases h with rfl | rfl
    · rfl
    · rw [computeFaultType, entryType_setModified, acc_setModified, computeFaultType]
  unfold checkFault
  dsimp only
  rw [hfault, hfault]

theorem translationOf_of_reflects {r' : WalkResult} (hlevel : r'.level = r.level)
    (h : Reflects r'.pte r.pte) (va : Word) : translationOf va r' = translationOf va r := by
  unfold translationOf constructPhysicalAddr
  rw [hlevel]
  rcases h with h | h
  · rw [h]
  · rw [h, ppn_setModified, cacheable_setModified, acc_setModified]

/-- The memory after a translation is that after an update in the tables. -/
theorem updatedMemory_foundEntry (h : TlbAgrees dom u c W) (va : Word) (isWrite : Bool) :
    u.updatedMemory dom c (u.foundEntry dom c va) isWrite =
      u.updatedMemory dom c (u.walkEnd dom c va) isWrite := by
  obtain ⟨-, haddr, hsame | ⟨hr, hleaf, hreflects⟩⟩ := foundEntry_of_agrees h va
  · rw [hsame]
  · exact updatedMemory_of_reflects pte_tableWalk (hreflects.entryType.trans hleaf) haddr hreflects
      hr

/-! ## Translations -/

/-- An MMU with the same registers whose TLB is switched off. -/
def withoutTlb (u : MmuCore) (t : Tlb) : MmuCore := { u with tlbEnabled := false, tlb := t }

/-- A result with the TLB of the MMU switched off. -/
def dropTlb {α : Type} (t : Tlb) (x : α × MmuCore × Words) : α × MmuCore × Words :=
  (x.1, x.2.1.withoutTlb t, x.2.2)

variable (t : Tlb)

theorem recordFault_withoutTlb (accessType : AccessType) (faultType : FaultType) (level : Level)
    (va : Word) (isFetch : Bool) :
    (u.withoutTlb t).recordFault accessType faultType level va isFetch =
      (u.recordFault accessType faultType level va isFetch).withoutTlb t := by
  unfold recordFault updateFsrFar
  rw [apply_ite (fun x : MmuCore => x.withoutTlb t)]
  rfl

/-- A successful translation changes the TLB only. -/
theorem afterTranslation_withoutTlb (va : Word) (r : WalkResult) (hit isWrite : Bool) :
    (u.afterTranslation va r hit isWrite).withoutTlb t = u.withoutTlb t := by
  unfold afterTranslation commitTranslation commitRMTlbUpdate
  cases computeAndStageRMUpdate r.pte isWrite with
  | none =>
    split <;> rfl
  | some staged =>
    dsimp only
    split <;> split <;> rfl

theorem withoutTlb_afterTranslation (va : Word) (r : WalkResult) (isWrite : Bool) :
    (u.withoutTlb t).afterTranslation va r false isWrite = u.withoutTlb t := by
  unfold afterTranslation
  cases computeAndStageRMUpdate r.pte isWrite <;> rfl

variable (u c) in
/-- Without the TLB every access walks. -/
theorem foundEntry_withoutTlb (va : Word) :
    (u.withoutTlb t).foundEntry dom c va = u.walkEnd dom c va := rfl

/-- A translation without the TLB gives what one with an agreeing TLB gives. -/
theorem translate_withoutTlb (h : TlbAgrees dom u c W) (t : Tlb) (va asi : Word)
    (isFetch isWrite isAtomic : Bool) :
    (u.withoutTlb t).translate (ram dom) va asi isFetch isWrite
        isAtomic c =
      dropTlb t (u.translate (ram dom) va asi isFetch isWrite
        isAtomic c) := by
  obtain ⟨hlevel, -, hfound⟩ := foundEntry_of_agrees h va
  have hreflects : Reflects (u.foundEntry dom c va).pte (u.walkEnd dom c va).pte := by
    rcases hfound with hsame | ⟨-, -, hr⟩
    · rw [hsame]
      exact .inl rfl
    · exact hr
  have hcheck := checkFault_of_reflects hreflects asi isWrite isAtomic
  have hfaults : (u.withoutTlb t).faults dom c va asi isWrite isAtomic =
      u.faults dom c va asi isWrite isAtomic := by
    rw [faults, faults, foundEntry_withoutTlb, hcheck]
    rfl
  cases ht : u.translates with
  | false =>
    rw [translate_of_not_translates _ u c ht, translate_of_not_translates _ (u.withoutTlb t) c ht]
    rfl
  | true =>
    cases hf : u.faults dom c va asi isWrite isAtomic with
    | true =>
      rw [translate_of_faults dom u c hf,
        translate_of_faults dom (u.withoutTlb t) c (hfaults.trans hf), foundEntry_withoutTlb,
        hcheck, hlevel, recordFault_withoutTlb]
      rfl
    | false =>
      rw [translate_of_not_faults dom u c ht hf,
        translate_of_not_faults dom (u.withoutTlb t) c ht (hfaults.trans hf),
        foundEntry_withoutTlb, translationOf_of_reflects hlevel hreflects,
        updatedMemory_foundEntry h, dropTlb, afterTranslation_withoutTlb]
      exact Prod.ext rfl (Prod.ext (withoutTlb_afterTranslation t va _ isWrite) rfl)

theorem contextTablePointerRegister_updateFsrFar (fsrVal farVal : Word) (faultClass : FaultClass) :
    (u.updateFsrFar fsrVal farVal faultClass).contextTablePointerRegister =
      u.contextTablePointerRegister := by
  unfold updateFsrFar
  split <;> rfl

theorem contextTablePointerRegister_afterTranslation (va : Word) (r : WalkResult)
    (hit isWrite : Bool) :
    (u.afterTranslation va r hit isWrite).contextTablePointerRegister =
      u.contextTablePointerRegister := by
  have h := congrArg (fun x : MmuCore => x.contextTablePointerRegister)
    (afterTranslation_withoutTlb (u := u) u.tlb va r hit isWrite)
  exact h

/-- The words of the walks so far, and of the walk for one more address. -/
def withPath (dom : Nat → Bool) (u : MmuCore) (c : Words) (W : Set Nat) (va : Word) : Set Nat :=
  W ∪ {i | i ∈ tablePath dom u.contextTablePointerRegister c u.contextRegister va}

theorem tlbAgrees_afterTranslation (h : TlbAgrees dom u c W) (va : Word) (isWrite : Bool)
    (hleaf : entryType (u.foundEntry dom c va).pte = etPte) :
    TlbAgrees dom
      (u.afterTranslation va (u.foundEntry dom c va)
        (u.tlbLookup va u.contextRegister).isSome isWrite)
      (u.updatedMemory dom c (u.walkEnd dom c va) isWrite) (withPath dom u c W va) := by
  obtain ⟨hlevel, haddr, hfound⟩ := foundEntry_of_agrees h va
  have hleaf' : entryType (u.walkEnd dom c va).pte = etPte := by
    rcases hfound with hsame | ⟨-, -, hreflects⟩
    · rw [← hsame]
      exact hleaf
    · exact hreflects.entryType.trans hleaf
  -- what the update leaves at the place where the walk ended
  have hword : (u.updatedMemory dom c (u.walkEnd dom c va) isWrite).entryAt dom
      (u.walkEnd dom c va).phyAddrOfPte =
        (computeAndStageRMUpdate (u.walkEnd dom c va).pte isWrite).getD
          (u.walkEnd dom c va).pte :=
    entryAt_updatedMemory pte_tableWalk hleaf' isWrite
  have hkept (i : Nat) : Kept (c.read dom i)
      ((u.updatedMemory dom c (u.walkEnd dom c va) isWrite).read dom i) :=
    kept_updatedMemory pte_tableWalk hleaf' isWrite i
  intro level e he
  rw [contextTablePointerRegister_afterTranslation]
  refine tracks_afterTranslation
    (fun level e he => (h level e he).of_kept Set.subset_union_left fun i _ => hkept i)
    (fun i => (hkept i).sameWay) (fun i hi => .inr hi) hlevel haddr
    ⟨referenced_getD_staged _ isWrite, entryType_getD_staged hleaf⟩ ?_ e he
  rw [haddr, hword]
  rcases hfound with hsame | ⟨hr, -, hreflects⟩
  · rw [hsame]
    exact .inl rfl
  · cases hs : computeAndStageRMUpdate (u.foundEntry dom c va).pte isWrite with
    | none => rwa [not_staged_of_reflects hreflects hr hs]
    | some staged => exact .inl (getD_staged_of_reflects hreflects hr hs)

/-- A translation keeps the agreement, with the words of its walk added. -/
theorem tlbAgrees_translate (h : TlbAgrees dom u c W) (ht : u.translates = true) (va asi : Word)
    (isFetch isWrite isAtomic : Bool) :
    TlbAgrees dom
      (u.translate (ram dom) va asi isFetch isWrite isAtomic
        c).2.1
      (u.translate (ram dom) va asi isFetch isWrite isAtomic
        c).2.2
      (withPath dom u c W va) := by
  cases hf : u.faults dom c va asi isWrite isAtomic with
  | true =>
    rw [translate_of_faults dom u c hf]
    intro level e he
    dsimp only [recordFault] at he ⊢
    rw [tlb_updateFsrFar] at he
    rw [contextTablePointerRegister_updateFsrFar]
    exact (h level e he).of_kept Set.subset_union_left fun i _ => .inl rfl
  | false =>
    rw [translate_of_not_faults dom u c ht hf, updatedMemory_foundEntry h]
    exact tlbAgrees_afterTranslation h va isWrite (entryType_of_not_faults ht hf)

end Agreement

end MmuCore

end SparcV8
