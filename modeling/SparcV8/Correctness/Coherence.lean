import SparcV8.Cache.CoherentBus
import SparcV8.Cache.CoreStep

/-!
# Coherent data caches

Any number of cores on a coherent bus, a whole request at a time. Every line of every data cache is
a copy of main memory for as long as no core updates a page table entry whose line it holds in its
own data cache, and stores go to doubleword addresses.
-/

namespace SparcV8

open L1CachesCore MmuCore CacheArray SystemBus Function CoherentBus Words Set Caches Cores MemCore

namespace Cores

variable {ι τ : Type} {phys : PhysicalMemory τ} (p : PlainMemory phys)

/-! ## Runs -/

/-- Caches and TLBs are empty, there are at least four sets, and the bus keeps the caches
coherent. -/
structure Start (s : Cores ι τ) : Prop where
  coherent : s.bus.coherent = true
  /-- The layout is one for the whole system. -/
  layout : ∀ i, (s.mmus i).layout = s.bus.layout
  tlb : ∀ i level e, ¬ (s.mmus i).tlb.Holds level e
  instructionSets : ∀ i, 2 ≤ (s.bus.caches i).instructionCache.logSets
  dataSets : ∀ i, 2 ≤ (s.bus.caches i).dataCache.logSets
  instruction : ∀ i l, ¬ (s.bus.caches i).instructionCache.Holds l
  data : ∀ i l, ¬ (s.bus.caches i).dataCache.Holds l

/-- The words that the walks of each core have read, after one more request. -/
def wordsAfter [DecidableEq ι] (W : ι → Set Nat) (s : Cores ι τ) (e : ι × VirtualMemoryRequest) :
    ι → Set Nat :=
  update W e.1
    (tableWords p.dom (s.mmus e.1) (p.contents s.bus.bus) (W e.1) e.2)

/-- A request that leaves the mappings of all cores but for the MMUs' own updates, while the
no-fault bit is clear and the context below 256. -/
structure Admitted [DecidableEq ι] (W : ι → Set Nat) (s : Cores ι τ)
    (e : ι × VirtualMemoryRequest) : Prop where
  request : isCoreRequest e.2 = true
  noFault : readBits (s.mmus e.1).controlRegister 1 1 = 0
  context_lt : (s.mmus e.1).contextRegister.toNat < 256
  mapping : flushesCaches e.2 = false → ∀ j, ∀ n ∈ wordsAfter p W s e j,
    (MmuCore.access (ram p.dom) e.2
        (s.mmus e.1, p.contents s.bus.bus)).2.2.read p.dom n =
      (translatedMemory p.dom (s.mmus e.1) (p.contents s.bus.bus) e.2).read p.dom n

/-- Stores and atomics go to doubleword addresses, and a core updates no page table entry whose line
is in its own data cache. -/
structure KeepsCopies (s : Cores ι τ) (e : ι × VirtualMemoryRequest) : Prop where
  aligned : (s.mmus e.1).writesData e.2 = true → flushesCaches e.2 = false →
    e.2.address.toNat % 8 = 0
  entry : ¬ updatesHeldEntry p.dom (s.mmus e.1) (p.contents s.bus.bus)
    (s.bus.caches e.1).dataCache e.2

/-- Every request of a run is of this kind, in the state it is made in. -/
def AllSteps [DecidableEq ι] (P : (ι → Set Nat) → Cores ι τ → ι × VirtualMemoryRequest → Prop) :
    List (ι × VirtualMemoryRequest) → Cores ι τ → (ι → Set Nat) → Prop
  | [], _, _ => True
  | e :: es, s, W =>
    P W s e ∧ ∀ s', (machine phys).step s e = some s' → AllSteps P es s' (wordsAfter p W s e)

/-! ## The invariant -/

/-- Consistent caches; a remembered invalidate means that the line is not held. -/
structure CoherentState (W : ι → Set Nat) (s : Cores ι τ) : Prop where
  coherent : s.bus.coherent = true
  layout : ∀ i, (s.mmus i).layout = s.bus.layout
  core : ∀ i, CoreOk p.dom (W i) ∅ univ (s.bus.caches i).caches
    (s.mmus i, p.contents s.bus.bus)
  remembered : ∀ i line, s.bus.lastInvalidate i = some line →
    ∀ l, (s.bus.caches i).dataCache.Holds l →
      l.physicalLine ≠ line >>> LOG_LINE_BYTES

variable {p} {W : ι → Set Nat} {s : Cores ι τ} {i : ι} {r : VirtualMemoryRequest}

theorem CoherentState.of_start (h : Start s) : CoherentState p W s where
  coherent := h.coherent
  layout := h.layout
  core i := ⟨tlbTracks_of_empty (h.tlb i),
    consistent_of_empty (h.instructionSets i) (h.instruction i),
    consistent_of_empty (h.dataSets i) (h.data i)⟩
  remembered i _ _ l hl := absurd hl (h.data i l)

/-- Every line of a data cache is a copy of memory. -/
theorem CoherentState.copyOff (h : CoherentState p W s) {l : Line}
    (hl : (s.bus.caches i).dataCache.Holds l) : l.CopyOff p.dom (p.contents s.bus.bus) ∅ := by
  obtain ⟨set, k, hat⟩ := hl
  obtain ⟨va, context, hok⟩ := (h.core i).data.lines set k l hat
  exact hok.copy

theorem CoherentState.othersOk (h : CoherentState p W s) (i : ι) :
    OthersOk p i s.bus s.bus where
  coherent := h.coherent
  snoopFilter := rfl
  layout := rfl
  instruction _ _ := .refl _
  data _ _ := .refl _
  copies _ _ _ hl := h.copyOff hl
  remembered j _ := h.remembered j
  own := .inl rfl

/-- Another core, after a request that kept the words of its tables. -/
theorem CoherentState.other (h : CoherentState p W s) {j : ι} (hj : j ≠ i)
    {b : CoherentBus ι τ} (hb : OthersOk p i s.bus b)
    (hk : ∀ n ∈ W j, Pte.Kept ((p.contents s.bus.bus).read p.dom n)
      ((p.contents b.bus).read p.dom n)) :
    CoreOk p.dom (W j) ∅ univ (b.caches j).caches (s.mmus j, p.contents b.bus) := by
  have hcore := h.core j
  have hinstruction := hb.instruction j hj
  have hdata := hb.data j hj
  refine ⟨⟨fun level e he => ?_, hcore.tracks.disabled⟩, ?_, ?_⟩
  · exact (hcore.tracks.agrees level e he).of_kept (Subset.refl _) hk
  · exact (hcore.instruction.of_at hinstruction.logSets hinstruction.lines).of_kept rfl
      (Subset.refl _) hk fun _ _ _ _ _ hX => absurd (mem_univ _) hX
  · exact (hcore.data.of_at hdata.logSets hdata.lines).of_kept rfl (Subset.refl _) hk
      fun l hl _ => hb.copies j hj l hl

variable [DecidableEq ι]

/-- A request that keeps its core's copies keeps the caches coherent. -/
theorem CoherentState.step (h : CoherentState p W s) (hl : Backs p.dom s.bus.layout)
    (ha : Admitted p W s (i, r)) (hk : KeepsCopies p s (i, r)) :
    ∃ s', (machine phys).step s (i, r) = some s' ∧ CoherentState p (wordsAfter p W s (i, r)) s' ∧
      s'.bus.layout = s.bus.layout := by
  have hwords : wordsAfter p W s (i, r) i =
      tableWords p.dom (s.mmus i) (p.contents s.bus.bus) (W i) r := update_self ..
  have hother (j : ι) (hj : j ≠ i) : wordsAfter p W s (i, r) j = W j := update_of_ne hj ..
  have hsettings : Settings p.dom (s.mmus i) :=
    ⟨ha.noFault, ha.context_lt, by rw [h.layout i]; exact hl.lines⟩
  -- the requesting core, over the contents of memory
  obtain ⟨y, cs', x, hanswered⟩ : ∃ y cs' x, Answered p.dom (W i) ∅ univ
      (s.bus.caches i).caches (s.mmus i) (p.contents s.bus.bus) r y cs' x :=
    (h.core i).step hsettings ha.request hk.aligned
      (fun hf n hn => ha.mapping hf i n (hwords ▸ hn))
      (fun _ => unaffected_of_not_updatesHeldEntry hk.entry)
  -- the same over its port, with what becomes of the other cores
  have hport : Simulates (port phys i) p.abstract
      (fun b c => p.contents b.bus = c ∧ OthersOk p i s.bus b)
      fun a => a.toNat % 8 = 0 :=
    simulates_port hl fun j _ => (h.core j).data.visited
  have hrelated := hport.mmuAccess ⟨rfl, h.othersOk i⟩
    (fun hw hf a heq => heq.trans (hk.aligned hw hf)) (s.bus.caches i).caches
  rw [hanswered.access_eq] at hrelated
  obtain ⟨⟨u', b'⟩, haccess, hu, hcontents, hothers⟩ : ∃ z : MmuCore × CoherentBus ι τ,
      mmuAccess (port phys i) r ((s.bus.caches i).caches, (s.mmus i, s.bus)) =
        some (y, (cs', z)) ∧
      z.1 = x.1 ∧ p.contents z.2.bus = x.2 ∧ OthersOk p i s.bus z.2 := by
    revert hrelated
    generalize mmuAccess (port phys i) r _ = o
    intro hrelated
    cases hrelated with
    | @some z _ hz =>
      obtain ⟨y₁, cs₁, z₁⟩ := z
      obtain ⟨rfl, rfl, hu, hcontents, hothers⟩ := hz
      exact ⟨z₁, rfl, hu, hcontents, hothers⟩
  obtain ⟨c', hcached, hcaches⟩ := exists_cachedAccess haccess
  obtain ⟨u₁, c₁⟩ := x
  subst hu hcontents
  -- what the request does to the memory is what the MMU does by itself, and data of no table
  have hkept (j : ι) (hj : j ≠ i) (n : Nat) (hn : n ∈ W j) :
      Pte.Kept ((p.contents s.bus.bus).read p.dom n) ((p.contents b'.bus).read p.dom n) := by
    have hmemory := hanswered.memory_eq
    dsimp only at hmemory
    rw [hmemory]
    split
    · exact .inl rfl
    · next hf =>
      rw [Bool.not_eq_true] at hf
      have hmapping := ha.mapping hf j n (by rw [hother j hj]; exact hn)
      rw [hmapping]
      exact kept_translatedMemory (h.core i).tracks.agrees n
  refine ⟨{ mmus := update s.mmus i u'
            bus := { b' with caches := update b'.caches i c' } }, ?_,
    ⟨hothers.coherent, fun j => ?_, fun j => ?_, fun j line hline l hl => ?_⟩, hothers.layout⟩
  · change (access phys s i r).map Prod.snd = _
    rw [access, hcached]
    rfl
  · by_cases hj : j = i
    · subst hj
      dsimp only
      rw [update_self, hothers.layout]
      exact hanswered.layout.trans (h.layout j)
    · dsimp only
      rw [update_of_ne hj, hothers.layout]
      exact h.layout j
  · by_cases hj : j = i
    · subst hj
      dsimp only
      rw [update_self, update_self, hwords, hcaches]
      exact hanswered.ok
    · dsimp only
      rw [update_of_ne hj, update_of_ne hj, hother j hj]
      exact h.other hj hothers (hkept j hj)
  · by_cases hj : j = i
    · subst hj
      dsimp only at hline hl
      rw [update_self] at hl
      rcases noNewLine_mmuAccess haccess with hnone | hlines
      · rw [hnone] at hline
        cases hline
      · obtain ⟨l₀, hl₀, heq⟩ := hlines.data l (congrArg data hcaches ▸ hl)
        rw [← heq]
        rcases hothers.own with hsame | hnone
        · exact h.remembered j line (hsame.symm.trans hline) l₀ hl₀
        · rw [hnone] at hline
          cases hline
    · dsimp only at hline hl
      rw [update_of_ne hj] at hl
      exact hothers.remembered j hj line hline l hl

theorem CoherentState.run (es : List (ι × VirtualMemoryRequest)) (h : CoherentState p W s)
    (hl : Backs p.dom s.bus.layout)
    (hes : AllSteps p (fun W s e => Admitted p W s e ∧ KeepsCopies p s e) es s W) :
    ∃ s' W', (machine phys).run es s = some s' ∧ CoherentState p W' s' := by
  induction es generalizing s W with
  | nil => exact ⟨s, W, rfl, h⟩
  | cons e es ih =>
    obtain ⟨⟨ha, hk⟩, hrest⟩ := hes
    obtain ⟨s₁, hstep, h₁, hlayout⟩ := h.step hl ha hk
    obtain ⟨s', W', hrun, h'⟩ := ih h₁ (hlayout ▸ hl) (hrest s₁ hstep)
    refine ⟨s', W', ?_, h'⟩
    rw [Machine.run, hstep]
    exact hrun

/-- In every run whose requests leave the mappings, and keep the copies of their own core, every
line of every data cache is the line of main memory, after every request. -/
theorem dataLines_eq_memory (p : PlainMemory phys) (es : List (ι × VirtualMemoryRequest))
    (s : Cores ι τ) (hs : Start s) (hl : Backs p.dom s.bus.layout)
    (hes : AllSteps p (fun W s e => Admitted p W s e ∧ KeepsCopies p s e) es s fun _ => ∅) :
    ∃ s', (machine phys).run es s = some s' ∧
      ∀ i l, (s'.bus.caches i).dataCache.Holds l →
        l.data = (p.contents s'.bus.bus).lineAt p.dom l.physicalLine.toNat := by
  obtain ⟨s', W', hrun, h'⟩ := CoherentState.run es (.of_start hs) hl hes
  exact ⟨s', hrun, fun i l hl => (h'.copyOff hl).data_eq⟩

/-- What a data cache has for an address is what memory has where it is mapped. -/
def FindsMemory (p : PlainMemory phys) (s : Cores ι τ) : Prop :=
  ∀ i va context l, context.toNat < 256 → (s.bus.caches i).dataCache.find va context = some l →
    readDoubleword l va = (p.contents s.bus.bus).dwordAt p.dom
      (((s.mmus i).mappedTo p.dom (p.contents s.bus.bus) context va).physicalAddr.toNat / 8)

/-- No hit in such runs is out of date, in its data or in its mapping. -/
theorem findsMemory_of_run (p : PlainMemory phys) (es : List (ι × VirtualMemoryRequest))
    (s : Cores ι τ) (hs : Start s) (hl : Backs p.dom s.bus.layout)
    (hes : AllSteps p (fun W s e => Admitted p W s e ∧ KeepsCopies p s e) es s fun _ => ∅) :
    ∃ s', (machine phys).run es s = some s' ∧ FindsMemory p s' := by
  obtain ⟨s', W', hrun, h'⟩ := CoherentState.run es (.of_start hs) hl hes
  refine ⟨s', hrun, fun i va context l hctx hfind => ?_⟩
  obtain ⟨-, hline, -, hcopy, -⟩ := (h'.core i).data.of_find hctx hfind
  have hoffset := (s'.mmus i).offset_mappedTo p.dom (p.contents s'.bus.bus) context va
  dsimp only at hline
  rw [readDoubleword, hcopy.data_eq, hline, toNat_physicalLine, lineAt, toNat_dwordIndex]
  congr 1
  omega

end Cores

/-- Main memory of the flat layout. -/
theorem backs_flat : Backs dom {} := by
  have hsize : memSize = 4 * nwords := rfl
  have hwords : nwords = 16 * 4194304 := rfl
  refine ⟨hasLines_flat, fun a ha hmain => ?_⟩
  rw [Ne, decode_flat] at hmain
  exact ⟨decide_eq_false (by omega), decide_eq_false (by omega)⟩

theorem start_startedCores {mmu : MmuCore} (m : MemCore × Unit) (hlayout : mmu.layout = {})
    (htlb : mmu.tlb = Tlb.empty) : Start (startedCores mmu m) where
  coherent := rfl
  layout _ := hlayout
  tlb _ level e := by
    change ¬ mmu.tlb.Holds level e
    rw [htlb]
    exact Tlb.not_holds_empty level e
  instructionSets _ := Nat.le_refl 2
  dataSets _ := Nat.le_refl 2
  instruction _ := not_holds_configure 2 2
  data _ := not_holds_configure 2 2

/-- The walk reads the first word only, which stays but for the MMU's update. -/
def KeepsFirst (s : Cores (Fin 2) (MemCore × Unit)) (e : Fin 2 × VirtualMemoryRequest) : Prop :=
  isCoreRequest e.2 = true ∧ readBits (s.mmus e.1).controlRegister 1 1 = 0 ∧
    (s.mmus e.1).contextRegister.toNat < 256 ∧
    (∀ n ∈ tablePath dom (s.mmus e.1).contextTablePointerRegister (plain.contents s.bus.bus)
      (s.mmus e.1).contextRegister e.2.address, n = 0) ∧
    (MmuCore.access (ram dom) e.2 (s.mmus e.1, plain.contents s.bus.bus)).2.2.read dom 0 =
      (translatedMemory dom (s.mmus e.1) (plain.contents s.bus.bus) e.2).read dom 0

instance (s : Cores (Fin 2) (MemCore × Unit)) (e : Fin 2 × VirtualMemoryRequest) :
    Decidable (KeepsFirst s e) :=
  inferInstanceAs (Decidable (_ ∧ _ ∧ _ ∧ (∀ _ ∈ _, _) ∧ _))

variable {s : Cores (Fin 2) (MemCore × Unit)} {W : Fin 2 → Set Nat}
  {Q : Cores (Fin 2) (MemCore × Unit) → Fin 2 × VirtualMemoryRequest → Prop}
  {R : (Fin 2 → Set Nat) → Cores (Fin 2) (MemCore × Unit) → Fin 2 × VirtualMemoryRequest → Prop}

theorem allSteps_of_keepsFirst {es : List (Fin 2 × VirtualMemoryRequest)}
    (hR : ∀ {W s e}, Admitted plain W s e → Q s e → R W s e)
    (hes : (machine (physicalMemory {} noDevices)).AllSteps
      (fun s e => KeepsFirst s e ∧ Q s e) es s)
    (hW : ∀ j, ∀ n ∈ W j, n = 0) : AllSteps plain R es s W := by
  induction es generalizing s W with
  | nil => trivial
  | cons e es ih =>
    obtain ⟨⟨⟨hcore, hnf, hctx, hpath, hmemory⟩, hq⟩, hrest⟩ := hes
    have hwords : ∀ j, ∀ n ∈ wordsAfter plain W s e j, n = 0 := by
      intro j n hn
      by_cases hj : j = e.1
      · subst hj
        rw [wordsAfter, update_self] at hn
        exact eq_zero_of_mem_tableWords (hW _) hpath hn
      · rw [wordsAfter, update_of_ne hj] at hn
        exact hW j n hn
    refine ⟨hR ⟨hcore, hnf, hctx, fun _ j n hn => ?_⟩ hq, fun s' hs' => ih (hrest s' hs') hwords⟩
    rw [hwords j n hn]
    exact hmemory

/-- Core 0 loads the second line, and core 1 stores to it. -/
def loadAndStore : List (Fin 2 × VirtualMemoryRequest) :=
  [(0, secondLineRequest .LOAD), (1, secondLineRequest .STORE)]

/-- Two cores on one page, which has been modified before. -/
def coresOnPage : Cores (Fin 2) (MemCore × Unit) := startedCores mmuOn (pageBus 0xEE)

theorem allSteps_loadAndStore :
    AllSteps plain (fun W s e => Admitted plain W s e ∧ KeepsCopies plain s e)
      loadAndStore coresOnPage fun _ => ∅ := by
  have hsteps : (machine (physicalMemory {} noDevices)).AllSteps (fun s e => KeepsFirst s e ∧
      e.2.address.toNat % 8 = 0 ∧
      (computeAndStageRMUpdate ((s.mmus e.1).foundEntry dom (plain.contents s.bus.bus)
        e.2.address).pte e.2.isWrite).isSome = false) loadAndStore coresOnPage := by
    decide
  refine allSteps_of_keepsFirst (fun ha hq => ⟨ha, fun _ _ => hq.1, fun hentry => ?_⟩) hsteps
    fun _ n hn => (notMem_empty n hn).elim
  exact Bool.false_ne_true (hq.2.symm.trans hentry.2.2.1)

/-- The line is only in the cache of core 1 then, with what that stored. -/
theorem shared_line_copies_memory :
    let run := (machine (physicalMemory {} noDevices)).run loadAndStore coresOnPage
    run.map (fun s' => (List.finRange 2).map fun i =>
        ((s'.bus.caches i).dataCache.find 0x40 0).map fun l => l.data 0) = some [none, some 7] ∧
      ∃ s', run = some s' ∧ ∀ i l, (s'.bus.caches i).dataCache.Holds l →
        l.data = (plain.contents s'.bus.bus).lineAt plain.dom l.physicalLine.toNat :=
  ⟨by decide, dataLines_eq_memory plain _ _ (start_startedCores _ rfl rfl) backs_flat
    allSteps_loadAndStore⟩

theorem findsMemory_shared_line :
    ∃ s', (machine (physicalMemory {} noDevices)).run loadAndStore coresOnPage = some s' ∧
      FindsMemory plain s' :=
  findsMemory_of_run plain _ _ (start_startedCores _ rfl rfl) backs_flat allSteps_loadAndStore

/-- A core loads the line of its page table entry, and then stores to another line of the page: the
modified bit is set in memory, and not in the line. -/
theorem own_update_leaves_stale_line :
    let machine := machine (physicalMemory {} noDevices)
    let s := startedCores mmuOn identityBus
    let es := [((0 : Fin 2), firstLoad), (0, secondLineRequest .STORE)]
    Start s ∧ Backs plain.dom s.bus.layout ∧
      AllSteps plain (Admitted plain) es s (fun _ => ∅) ∧
      ∃ s', machine.run es s = some s' ∧ ∃ l, (s'.bus.caches 0).dataCache.Holds l ∧
        l.data ≠ (plain.contents s'.bus.bus).lineAt plain.dom
          l.physicalLine.toNat := by
  intro machine s es
  have hsteps : machine.AllSteps (fun s e => KeepsFirst s e ∧ True) es s := by
    decide
  refine ⟨start_startedCores identityBus rfl rfl, backs_flat,
    allSteps_of_keepsFirst (fun ha _ => ha) hsteps fun _ n hn => (notMem_empty n hn).elim, ?_⟩
  have hrun : (machine.run es s).map (fun s' => ((s'.bus.caches 0).dataCache.find 0 0).map fun l =>
      (l.data 0, (plain.contents s'.bus.bus).lineAt plain.dom
        l.physicalLine.toNat 0)) = some (some (0xAE, 0xEE)) := by
    decide
  obtain ⟨s', hs', hfound⟩ := Option.map_eq_some_iff.mp hrun
  obtain ⟨l, hl, hdata⟩ := Option.map_eq_some_iff.mp hfound
  obtain ⟨⟨i, hi⟩, -⟩ := at_of_find hl
  refine ⟨s', hs', l, hi.holds, fun heq => ?_⟩
  obtain ⟨hheld, hmemory⟩ := Prod.mk.inj hdata
  rw [heq, hmemory] at hheld
  exact absurd hheld (by decide)

end SparcV8
