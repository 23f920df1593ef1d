import SparcV8.Correctness.Annulled
import SparcV8.Mmu.WithoutTlb

/-!
# The TLB is transparent

Two MMUs over plain memories of equal contents serve the same requests, one without the TLB. For as
long as the words that walks have read change by the MMU's own updates only, no response tells the
two apart.
-/

namespace SparcV8

open MmuCore Words SystemBus

namespace MmuCore

/-! ## Runs -/

section Runs

variable {τ : Type} (phys : PhysicalMemory τ)

/-- The responses to a sequence of requests, and the state after it. -/
def accessAll : List VirtualMemoryRequest → MmuCore × τ → List VirtualMemoryResponse × (MmuCore × τ)
  | [], x => ([], x)
  | r :: rs, x =>
    let (response, x) := access phys r x
    let (responses, x) := accessAll rs x
    (response :: responses, x)

/-- Every request of a sequence keeps the tables. -/
def KeepsTablesAll (dom : Nat → Bool) :
    List VirtualMemoryRequest → MmuCore → Words → Set Nat → Prop
  | [], _, _, _ => True
  | r :: rs, u, c, W =>
    KeepsTables dom u c W r ∧
      KeepsTablesAll dom rs (access (ram dom) r (u, c)).2.1
        (access (ram dom) r (u, c)).2.2 (tableWords dom u c W r)

/-- The run over a plain memory is the run over its contents. -/
theorem lift_accessAll (p : PlainMemory phys) (rs : List VirtualMemoryRequest) (u : MmuCore)
    (m : τ) : accessAll p.abstract rs (u, p.contents m) = p.lift₂ (accessAll phys rs (u, m)) := by
  induction rs generalizing u m with
  | nil => rfl
  | cons r rs ih =>
    rw [accessAll, p.lift_mmuAccess, accessAll]
    dsimp only [PlainMemory.lift₂]
    rw [ih]
    rfl

end Runs

/-- Over a run without probes, switching the TLB off changes nothing. -/
theorem accessAll_withoutTlb {dom : Nat → Bool} (t : Tlb) (rs : List VirtualMemoryRequest)
    {u : MmuCore} {c : Words} {W : Set Nat} (hen : u.tlbEnabled = true)
    (h : TlbAgrees dom u c W) (hprobe : ∀ r ∈ rs, isProbe r = false)
    (hk : KeepsTablesAll dom rs (u.withoutTlb t) c W) :
    accessAll (ram dom) rs (u.withoutTlb t, c) =
      dropTlb t (accessAll (ram dom) rs (u, c)) := by
  induction rs generalizing u c W with
  | nil => rfl
  | cons r rs ih =>
    obtain ⟨hr, hrest⟩ := hk
    have hstep := access_withoutTlb h t (hprobe r List.mem_cons_self)
    rw [hstep] at hrest
    have hkept : KeepsTables dom u c W r := by
      intro i hi
      have hi' := hr i hi
      rw [hstep, translatedMemory_withoutTlb h] at hi'
      exact hi'
    have := ih ((tlbEnabled_access _ r u c).trans hen) (tlbAgrees_access hen h hkept)
      (fun r' hr' => hprobe r' (List.mem_cons_of_mem _ hr')) hrest
    rw [accessAll, hstep, accessAll]
    dsimp only [dropTlb] at this ⊢
    rw [this]

/-- An MMU with an empty TLB, switched on or off. -/
def emptyTlb (u : MmuCore) (tlbEnabled : Bool) : MmuCore :=
  { u with tlbEnabled := tlbEnabled, tlb := Tlb.empty }

end MmuCore

/-- With and without the TLB, the MMU gives the same responses over every run in which only its
own updates change the tables; the fault registers and the memory end the same. -/
theorem tlb_transparent {τ : Type} {phys : PhysicalMemory τ} (p : PlainMemory phys) (u : MmuCore)
    (m : τ) (rs : List VirtualMemoryRequest) (hprobe : ∀ r ∈ rs, isProbe r = false)
    (hk : KeepsTablesAll p.dom rs (u.emptyTlb false) (p.contents m) ∅) :
    let on := accessAll phys rs (u.emptyTlb true, m)
    let off := accessAll phys rs (u.emptyTlb false, m)
    on.1 = off.1 ∧ on.2.1.faultStatusRegister = off.2.1.faultStatusRegister ∧
      on.2.1.faultAddressRegister = off.2.1.faultAddressRegister ∧
      p.contents on.2.2 = p.contents off.2.2 := by
  intro on off
  have hagrees : TlbAgrees p.dom (u.emptyTlb true) (p.contents m) ∅ :=
    fun level e he => absurd he (Tlb.not_holds_empty level e)
  have hrun : accessAll p.abstract rs (u.emptyTlb false, p.contents m) =
      dropTlb Tlb.empty
        (accessAll p.abstract rs (u.emptyTlb true, p.contents m)) :=
    accessAll_withoutTlb Tlb.empty rs rfl hagrees hprobe hk
  rw [lift_accessAll phys p, lift_accessAll phys p] at hrun
  have hmmu : off.2.1 = on.2.1.withoutTlb Tlb.empty := congrArg (fun x => x.2.1) hrun
  refine ⟨(congrArg Prod.fst hrun).symm, ?_, ?_, (congrArg (fun x => x.2.2) hrun).symm⟩
  · rw [hmmu]
    rfl
  · rw [hmmu]
    rfl

/-- A leaf for all addresses is stored, the MMU switched on; two loads follow. -/
def mappedLoads : List VirtualMemoryRequest :=
  [wordAccess .STORE 0 0x20 0xE, wordAccess .STORE 0 0x4 1, wordAccess .LOAD 8 0xB 0,
   wordAccess .LOAD 0 0xB 0]

theorem tlb_transparent_mapped_loads :
    (∀ r ∈ mappedLoads, isProbe r = false) ∧
      KeepsTablesAll plain.dom mappedLoads
        (initial true false true {}) (plain.contents zeroBus) ∅ ∧
      (accessAll (physicalMemory {} noDevices) mappedLoads
          (initial true true true {}, zeroBus)).1 =
        (accessAll (physicalMemory {} noDevices) mappedLoads
          (initial true false true {}, zeroBus)).1 := by
  have hprobe : ∀ r ∈ mappedLoads, isProbe r = false := by decide
  have hk : KeepsTablesAll plain.dom mappedLoads
      (initial true false true {}) (plain.contents zeroBus) ∅ :=
    ⟨fun i hi => absurd hi (Set.notMem_empty i), fun i hi => absurd hi (Set.notMem_empty i),
      fun i _ => rfl, fun i _ => rfl, trivial⟩
  exact ⟨hprobe, hk,
    (tlb_transparent plain (initial true true true {}) zeroBus mappedLoads hprobe
      hk).1⟩

end SparcV8
