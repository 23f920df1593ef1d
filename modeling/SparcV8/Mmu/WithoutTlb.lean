import SparcV8.Mmu.Agreement

/-!
# Accesses without the TLB

An access to an MMU whose TLB agrees with the tables does what it does with the TLB switched off.
The words that walks have read are collected request by request; an access that changes them by the
MMU's own updates only keeps the agreement.
-/

namespace SparcV8

open Words

namespace MmuCore

/-! ## One access -/

variable {dom : Nat → Bool} {u : MmuCore} {c : Words} {W : Set Nat}
  {r : VirtualMemoryRequest}

section Access

theorem readRegister_withoutTlb (u : MmuCore) (t : Tlb) (addr : Word) :
    (u.withoutTlb t).readRegister addr =
      ((u.readRegister addr).1, (u.readRegister addr).2.withoutTlb t) := by
  unfold readRegister
  split <;> rfl

theorem writeRegister_withoutTlb (u : MmuCore) (t : Tlb) (addr word0 word1 mask : Word) :
    (u.withoutTlb t).writeRegister addr word0 word1 mask =
      (u.writeRegister addr word0 word1 mask).withoutTlb t := by
  unfold writeRegister
  dsimp only
  split
  · rfl
  · rw [if_neg (show ¬ (u.withoutTlb t).tlbEnabled = true from Bool.false_ne_true)]
    by_cases hen : u.tlbEnabled = true
    · rw [if_pos hen]
      rfl
    · rw [if_neg hen]
      rfl
  · rfl
  · rfl

theorem flush_withoutTlb (u : MmuCore) (t : Tlb) (va : Word) :
    (u.withoutTlb t).flush va = (u.flush va).withoutTlb t := by
  unfold flush
  rw [if_neg (show ¬ (u.withoutTlb t).tlbEnabled = true from Bool.false_ne_true)]
  split <;> rfl

theorem complete_withoutTlb (t : Tlb) (a : Translation) :
    (u.withoutTlb t).complete (ram dom) r a c =
      dropTlb t (u.complete (ram dom) r a c) := by
  unfold complete
  cases r.accessType <;> rfl

/-- A probe: the read of a page table entry. -/
def isProbe (r : VirtualMemoryRequest) : Bool :=
  (r.accessType == .IFETCH || r.accessType == .LOAD) && r.asi == asiMmuFlushProbe

theorem asiSpace_of_not_probe {asi : Word} (h : asi ≠ asiMmuFlushProbe) :
    asiSpace asi ≠ .flushProbe := by
  unfold asiSpace
  dsimp only
  split
  · decide
  · split
    · decide
    · split
      · decide
      · split <;> decide

/-- An access without the TLB gives what one with an agreeing TLB gives. -/
theorem access_withoutTlb (h : TlbAgrees dom u c W) (t : Tlb) (hprobe : isProbe r = false) :
    access (ram dom) r (u.withoutTlb t, c) =
      dropTlb t (access (ram dom) r (u, c)) := by
  have hroute : u.route r ≠ .probe := by
    intro hr
    have heq := route_probe (u := u) (r := r)
    rw [hr, beq_self_eq_true, eq_comm, Bool.and_eq_true, Bool.and_eq_true, beq_iff_eq] at heq
    rw [isProbe, heq.1.2, Bool.true_and, beq_eq_false_iff_ne] at hprobe
    exact asiSpace_of_not_probe hprobe heq.2
  rw [access_eq, access_eq, show (u.withoutTlb t).route r = u.route r from rfl]
  cases hr : u.route r with
  | nowhere => rfl
  | probe => exact absurd hr hroute
  | readRegister =>
    rw [follow, readRegister_withoutTlb]
    rfl
  | writeRegister =>
    rw [follow, writeRegister_withoutTlb]
    rfl
  | flush =>
    rw [follow, flush_withoutTlb]
    rfl
  | physical =>
    rw [follow, passOn, complete_withoutTlb]
    rfl
  | translated =>
    rw [follow, follow, translateRequest, translate_withoutTlb h, translateRequest]
    generalize u.translate (ram dom) r.address r.asi _ _ _ c = x
    obtain ⟨_ | a, u', c'⟩ := x
    · rfl
    · exact complete_withoutTlb t a

/-! ## The invariant over an access -/

/-- The words that walks have read since the table pointer was written. -/
def tableWords (dom : Nat → Bool) (u : MmuCore) (c : Words) (W : Set Nat)
    (r : VirtualMemoryRequest) : Set Nat :=
  if u.writesTablePointer r then ∅
  else if u.translatesRequest r then withPath dom u c W r.address
  else W

/-- Walks that read the first word only. -/
theorem eq_zero_of_mem_tableWords (hW : ∀ n ∈ W, n = 0)
    (hpath : ∀ n ∈ tablePath dom u.contextTablePointerRegister c u.contextRegister r.address, n
      = 0) {n : Nat} (hn : n ∈ tableWords dom u c W r) : n = 0 := by
  rw [tableWords] at hn
  split at hn
  · exact hn.elim
  · split at hn
    · exact hn.elim (hW n) (hpath n)
    · exact hW n hn

/-- The memory after the MMU's own updates, before the data are accessed. -/
def translatedMemory (dom : Nat → Bool) (u : MmuCore) (c : Words)
    (r : VirtualMemoryRequest) : Words :=
  if u.translatesRequest r then
    (u.translateRequest (ram dom) r c).2.2
  else c

/-- The request changes the tables by the MMU's own updates only. -/
def KeepsTables (dom : Nat → Bool) (u : MmuCore) (c : Words) (W : Set Nat)
    (r : VirtualMemoryRequest) : Prop :=
  ∀ i ∈ tableWords dom u c W r,
    (access (ram dom) r (u, c)).2.2.read dom i =
      (translatedMemory dom u c r).read dom i

theorem TlbAgrees.of_tables {u' : MmuCore} {c' : Words} {t : Tables}
    (h : TlbAgrees dom u c W) (ht : u'.tables = t)
    (htlb : ∀ level e, t.tlb.Holds level e → u.tlb.Holds level e)
    (hctp : t.contextTablePointer = u.contextTablePointerRegister)
    (hk : ∀ i ∈ W, c'.read dom i = c.read dom i) : TlbAgrees dom u' c' W := by
  subst ht
  intro level e he
  have hctp' : u'.contextTablePointerRegister = u.contextTablePointerRegister := hctp
  rw [hctp']
  exact (h level e (htlb level e he)).of_kept (Set.Subset.refl W) fun i hi => .inl (hk i hi)

/-- An access that keeps the tables keeps the agreement. -/
theorem tlbAgrees_access (hen : u.tlbEnabled = true) (h : TlbAgrees dom u c W)
    (hk : KeepsTables dom u c W r) :
    TlbAgrees dom (access (ram dom) r (u, c)).2.1
      (access (ram dom) r (u, c)).2.2 (tableWords dom u c W r) := by
  unfold KeepsTables tableWords translatedMemory at hk
  unfold tableWords
  cases tlbStep_access (ram dom) u r c with
  | same hr hw ht =>
    simp only [hr, hw, if_off] at hk ⊢
    exact h.of_tables ht (fun _ _ he => he) rfl hk
  | clear hr hw ctp ht =>
    intro level e he
    rw [tlb_of_tables ht, hen, if_pos rfl] at he
    exact absurd he (Tlb.not_holds_clear _ level e)
  | flush hr hw flushType va context ht =>
    simp only [hr, hw, if_off] at hk ⊢
    exact h.of_tables ht (fun _ _ he => Tlb.holds_of_holds_flush he) rfl hk
  | translate hr hw ht =>
    simp only [hr, hw, if_off, if_true] at hk ⊢
    have htr : u.translates = true := by
      rw [translatesRequest, Bool.and_eq_true] at hr
      exact hr.1
    exact (tlbAgrees_translate h htr _ _ _ _ _).of_tables ht (fun _ _ he => he) rfl hk

end Access

/-! ## The switch of the TLB -/

section Switch

variable {τ : Type} (phys : PhysicalMemory τ)

theorem tlbEnabled_updateFsrFar (u : MmuCore) (fsrVal farVal : Word) (faultClass : FaultClass) :
    (u.updateFsrFar fsrVal farVal faultClass).tlbEnabled = u.tlbEnabled := by
  unfold updateFsrFar
  split <;> rfl

theorem tlbEnabled_translate (u : MmuCore) (va asi : Word)
    (isFetch isWrite isAtomic : Bool) (m : τ) :
    (u.translate phys va asi isFetch isWrite isAtomic m).2.1.tlbEnabled =
      u.tlbEnabled := by
  unfold translate checkAndRecordFault recordFault
  dsimp only
  split
  · rfl
  · split
    · simp only [if_off, commitTranslation, updateRM, commitRMTlbUpdate]
      split
      · split <;> rfl
      · split <;> split <;> rfl
    · simp [tlbEnabled_updateFsrFar]

/-- No access switches the TLB on or off. -/
theorem tlbEnabled_access (r : VirtualMemoryRequest) (u : MmuCore) (m : τ) :
    (access phys r (u, m)).2.1.tlbEnabled = u.tlbEnabled := by
  cases tlbStep_access phys u r m with
  | same _ _ ht => exact congrArg Tables.enabled ht
  | clear _ _ ctp ht => exact congrArg Tables.enabled ht
  | flush _ _ flushType va context ht => exact congrArg Tables.enabled ht
  | translate _ _ ht =>
    exact (congrArg Tables.enabled ht).trans (tlbEnabled_translate phys u _ _ _ _ _ m)

/-- A translation leaves a TLB that is switched off. -/
theorem tlb_translate_of_disabled (hd : u.tlbEnabled = false) (va asi : Word)
    (isFetch isWrite isAtomic : Bool) (m : τ) :
    (u.translate phys va asi isFetch isWrite isAtomic m).2.1.tlb = u.tlb := by
  unfold translate checkAndRecordFault recordFault
  dsimp only
  split
  · rfl
  · split
    · simp only [if_off, commitTranslation, updateRM, commitRMTlbUpdate, hd, Bool.and_false]
      split <;> rfl
    · simp [tlb_updateFsrFar]

/-- Nothing is put into a TLB that is switched off. -/
theorem not_holds_access_of_disabled (hd : u.tlbEnabled = false)
    (h : ∀ level e, ¬ u.tlb.Holds level e) (r : VirtualMemoryRequest) (m : τ) (level : Level)
    (e : Tlb.Entry) : ¬ (access phys r (u, m)).2.1.tlb.Holds level e := by
  intro he
  cases tlbStep_access phys u r m with
  | same _ _ ht =>
    rw [tlb_of_tables ht] at he
    exact h level e he
  | clear _ _ ctp ht =>
    rw [tlb_of_tables ht, hd] at he
    exact h level e he
  | flush _ _ flushType va context ht =>
    rw [tlb_of_tables ht] at he
    exact h level e (Tlb.holds_of_holds_flush he)
  | translate _ _ ht =>
    rw [tlb_of_tables ht] at he
    change (u.translate phys r.address r.asi r.isFetch r.isWrite
      r.isAtomic m).2.1.tlb.Holds level e at he
    rw [tlb_translate_of_disabled phys hd] at he
    exact h level e he

end Switch

/-! ## Whole runs -/

/-- The entries of the TLB agree with the tables. A disabled TLB has none. -/
structure TlbTracks (dom : Nat → Bool) (u : MmuCore) (c : Words) (W : Set Nat) : Prop where
  agrees : TlbAgrees dom u c W
  disabled : u.tlbEnabled = false → ∀ level e, ¬ u.tlb.Holds level e

section Tracks

variable {u' : MmuCore} {c' : Words}

theorem TlbTracks.of_tables (h : TlbTracks dom u c W) (ht : u'.tables = u.tables)
    (hk : ∀ i ∈ W, c'.read dom i = c.read dom i) : TlbTracks dom u' c' W where
  agrees := h.agrees.of_tables ht (fun _ _ he => he) rfl hk
  disabled hd := by
    rw [tlb_of_tables ht]
    exact h.disabled ((congrArg Tables.enabled ht).symm.trans hd)

theorem tlbTracks_of_empty (h : ∀ level e, ¬ u.tlb.Holds level e) : TlbTracks dom u c W :=
  ⟨fun level e he => absurd he (h level e), fun _ => h⟩

/-- An access that keeps the tables keeps track of them. -/
theorem TlbTracks.access (h : TlbTracks dom u c W) (hk : KeepsTables dom u c W r) :
    TlbTracks dom (access (ram dom) r (u, c)).2.1
      (MmuCore.access (ram dom) r (u, c)).2.2
      (tableWords dom u c W r) := by
  cases hen : u.tlbEnabled with
  | true =>
    refine ⟨tlbAgrees_access hen h.agrees hk, fun hd => ?_⟩
    rw [tlbEnabled_access, hen] at hd
    cases hd.symm
  | false => exact tlbTracks_of_empty (not_holds_access_of_disabled _ hen (h.disabled hen) r c)

end Tracks

theorem translatedMemory_withoutTlb (h : TlbAgrees dom u c W) (t : Tlb) (r : VirtualMemoryRequest) :
    translatedMemory dom (u.withoutTlb t) c r = translatedMemory dom u c r := by
  unfold translatedMemory translateRequest
  rw [translate_withoutTlb h]
  rfl

end MmuCore

end SparcV8
