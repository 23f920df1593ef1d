import SparcV8.Mmu.Mapping

/-!
# Requests that read

A request that is neither a store nor an atomic changes memory by the MMU's own updates only, and
of the MMU no more than the TLB and the fault registers.
-/

namespace SparcV8

open Words

namespace MmuCore

/-- The MMU without what a read may change. -/
def fixedPart (u : MmuCore) : MmuCore := (u.withoutTlb Tlb.empty).withoutFault

variable {dom : Nat → Bool} {u : MmuCore} {c : Words} {r : VirtualMemoryRequest}

theorem fixedPart_translate (va asi : Word) (isFetch isWrite isAtomic : Bool) :
    (u.translate (ram dom) va asi isFetch isWrite isAtomic
      c).2.1.fixedPart = u.fixedPart := by
  cases ht : u.translates with
  | false => rw [translate_of_not_translates _ u c ht]
  | true =>
    cases hf : u.faults dom c va asi isWrite isAtomic with
    | true =>
      rw [translate_of_faults dom u c hf, fixedPart, ← recordFault_withoutTlb]
      exact withoutFault_recordFault _ _ _ _ _ _
    | false =>
      rw [translate_of_not_faults dom u c ht hf, fixedPart, afterTranslation_withoutTlb]
      rfl

theorem fixedPart_readRegister (addr : Word) : (u.readRegister addr).2.fixedPart = u.fixedPart := by
  unfold readRegister
  split <;> rfl

/-- A request that is not translated. -/
theorem access_of_untranslated (hk : r.accessType ≠ .STORE) (hk' : r.accessType ≠ .ATOMIC_LS)
    (hr : u.translatesRequest r = false) :
    (access (ram dom) r (u, c)).2.2 = c ∧
      (access (ram dom) r (u, c)).2.1.fixedPart = u.fixedPart := by
  obtain ⟨-, -, hstore⟩ := accessesRegister_route (u := u) (r := r)
  rw [access_eq]
  cases hroute : u.route r with
  | nowhere => exact ⟨rfl, rfl⟩
  | probe => exact ⟨probe_snd dom u c r.address, rfl⟩
  | readRegister => exact ⟨rfl, fixedPart_readRegister r.address⟩
  | writeRegister => exact absurd (hstore (.inl hroute)) hk
  | flush => exact absurd (hstore (.inr hroute)) hk
  | physical =>
    rw [follow, passOn, complete_of_read hk hk']
    exact ⟨rfl, rfl⟩
  | translated =>
    rw [follow_of_not_translatesRequest _ hr hroute, complete_of_read hk hk']
    exact ⟨rfl, rfl⟩

/-- A request that is neither a store nor an atomic. -/
theorem access_of_read (hk : r.accessType ≠ .STORE) (hk' : r.accessType ≠ .ATOMIC_LS) :
    (access (ram dom) r (u, c)).2.2 = translatedMemory dom u c r ∧
      (access (ram dom) r (u, c)).2.1.fixedPart = u.fixedPart := by
  cases hr : u.translatesRequest r with
  | false =>
    rw [translatedMemory, hr, if_off]
    exact access_of_untranslated hk hk' hr
  | true =>
    have hfixed : (u.translateRequest (ram dom) r c).2.1.fixedPart =
        u.fixedPart := fixedPart_translate _ _ _ _ _
    rw [access_of_translatesRequest _ hr, translatedMemory, hr, if_pos rfl]
    generalize u.translateRequest (ram dom) r c = x at hfixed ⊢
    obtain ⟨t, u', c'⟩ := x
    cases t with
    | none => exact ⟨rfl, hfixed⟩
    | some t =>
      rw [complete_of_read hk hk']
      exact ⟨rfl, hfixed⟩

/-! ## Registers -/

/-- The request writes a register that the mapping depends on. -/
def writesSetup (u : MmuCore) (r : VirtualMemoryRequest) : Bool :=
  u.mmuIsPresent && r.accessType == .STORE && asiSpace r.asi == .register &&
    decide ((readBits r.address 31 8).toNat < 2)

theorem writesTablePointer_of_not_writesSetup (h : u.writesSetup r = false) :
    u.writesTablePointer r = false := by
  unfold writesSetup at h
  unfold writesTablePointer
  rw [Bool.and_eq_false_iff] at h ⊢
  refine h.imp id fun hnumber => beq_eq_false_iff_ne.2 fun hc => ?_
  rw [hc] at hnumber
  exact absurd hnumber (by decide)

variable (dom u c) in
theorem registers_translate (va asi : Word) (isFetch isWrite isAtomic : Bool) :
    (u.translate (ram dom) va asi isFetch isWrite isAtomic
        c).2.1.setup = u.setup ∧
      (u.translate (ram dom) va asi isFetch isWrite isAtomic
        c).2.1.layout = u.layout := by
  have hfixed : (u.translate (ram dom) va asi isFetch isWrite
      isAtomic c).2.1.fixedPart = u.fixedPart := fixedPart_translate _ _ _ _ _
  have hsetup := congrArg setup hfixed
  have hlayout := congrArg MmuCore.layout hfixed
  exact ⟨hsetup, hlayout⟩

variable (dom u c r) in
/-- No other request changes the mapping, and none the address map. -/
theorem registers_access :
    (u.writesSetup r = false →
      (access (ram dom) r (u, c)).2.1.setup = u.setup) ∧
      (access (ram dom) r (u, c)).2.1.layout = u.layout := by
  cases hr : u.translatesRequest r with
  | true =>
    obtain ⟨hsetup, hlayout⟩ := registers_translate dom u c r.address r.asi r.isFetch
      r.isWrite r.isAtomic
    rw [access_of_translatesRequest _ hr]
    change (u.translateRequest (ram dom) r c).2.1.setup = u.setup at hsetup
    change (u.translateRequest (ram dom) r c).2.1.layout = u.layout at hlayout
    revert hsetup hlayout
    rcases u.translateRequest (ram dom) r c with ⟨_ | t, u', c'⟩
    · exact fun hsetup hlayout => ⟨fun _ => hsetup, hlayout⟩
    · dsimp only [complete]
      cases r.accessType <;> exact fun hsetup hlayout => ⟨fun _ => hsetup, hlayout⟩
  | false =>
    have hstep : UntranslatedStep u r (access (ram dom) r (u, c)).2.1 :=
      untranslatedStep_access hr
    generalize (access (ram dom) r (u, c)).2.1 = u' at hstep ⊢
    cases hstep with
    | same => exact ⟨fun _ => rfl, rfl⟩
    | read =>
      unfold readRegister
      split <;> exact ⟨fun _ => rfl, rfl⟩
    | flush =>
      unfold MmuCore.flush
      split <;> exact ⟨fun _ => rfl, rfl⟩
    | write h hk =>
      dsimp only [writeRegister]
      refine ⟨fun hw => ?_, ?_⟩
      · have hnumber : ¬ (readBits r.address 31 8).toNat < 2 := by
          simp only [accessesRegister, Bool.and_eq_true] at h
          simpa [writesSetup, h.1.1, eq_of_beq h.1.2, hk] using hw
        split
        · omega
        · omega
        · rfl
        · rfl
      · split
        · rfl
        · split <;> rfl
        · rfl
        · rfl

end MmuCore

end SparcV8
