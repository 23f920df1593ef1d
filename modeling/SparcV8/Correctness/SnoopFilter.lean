import SparcV8.Cache.CoherentBus

/-!
# The snoop filter cannot be seen

The bus with its snoop filter and without it. An invalidate that the filter leaves out would find
nothing: the core has been told of the line, and has read nothing since.
-/

namespace SparcV8

open L1CachesCore CacheArray Function CoherentBus

/-! ## Requests through the ports and above them -/

variable {ι τ : Type}

namespace Cores

/-- Whole requests to caches, requests of ports, and flushes. -/
inductive Event (ι : Type) where
  | access (coreId : ι) (request : VirtualMemoryRequest)
  | physical (coreId : ι) (request : PhysicalMemoryRequest)
  | flushInstructionCache (coreId : ι)
  | flushDataCache (coreId : ι)

inductive Answer where
  | access (response : VirtualMemoryResponse)
  | physical (response : PhysicalMemoryResponse)
  | flushed

/-- What can be seen after an event. -/
structure View (ι τ : Type) where
  answer : Answer
  memory : τ
  caches : ι → Caches

variable [DecidableEq ι] (phys : PhysicalMemory τ)

/-- The caches of one core are replaced. -/
def setCaches (s : Cores ι τ) (coreId : ι) (caches : L1CachesCore) : Cores ι τ :=
  { s with bus := { s.bus with caches := update s.bus.caches coreId caches } }

theorem setCaches_self (s : Cores ι τ) (i : ι) : s.setCaches i (s.bus.caches i) = s := by
  rw [setCaches, update_eq_self]

def perform (s : Cores ι τ) : Event ι → Option (Answer × Cores ι τ)
  | .access coreId request =>
    (s.access phys coreId request).map fun y => (.access y.1, y.2)
  | .physical coreId request =>
    let y := CoherentBus.access phys coreId request s.bus
    some (.physical y.1, { s with bus := y.2 })
  | .flushInstructionCache coreId =>
    some (.flushed, s.setCaches coreId (s.bus.caches coreId).flushInstructionCache)
  | .flushDataCache coreId =>
    some (.flushed, s.setCaches coreId (s.bus.caches coreId).flushDataCache)

/-- What can be seen after every event; `none` is a failed assertion. -/
def views : List (Event ι) → Cores ι τ → List (Option (View ι τ))
  | [], _ => []
  | e :: es, s =>
    match s.perform phys e with
    | none => [none]
    | some (answer, s) =>
      some { answer := answer, memory := s.bus.bus, caches := fun i => (s.bus.caches i).caches } ::
        views es s

/-- The system with its snoop filter switched on or off. -/
def withSnoopFilter (s : Cores ι τ) (snoopFilter : Bool) : Cores ι τ :=
  { s with bus := { s.bus with snoopFilter := snoopFilter } }

end Cores

/-! ## One physical access -/

/-- The line is in neither cache, where an invalidate looks for it. -/
structure Caches.Removed (cs : Caches) (line : BitVec 64) : Prop where
  instruction : cs.instruction.Removed line
  data : cs.data.Removed line

theorem Caches.Removed.of_inherited {cs cs' : Caches} {line : BitVec 64} (h : cs.Removed line)
    (hs : cs.Inherited cs') : cs'.Removed line :=
  ⟨h.instruction.of_inherited hs.instruction, h.data.of_inherited hs.data⟩

/-- The two caches without a line. -/
def Caches.invalidatePhysicalLine (cs : Caches) (line : BitVec 64) : Caches :=
  ⟨cs.instruction.invalidatePhysicalLine line, cs.data.invalidatePhysicalLine line⟩

variable {phys : PhysicalMemory τ} {b b' : CoherentBus ι τ}

namespace CoherentBus

/-- Two buses that differ in the filter only, the second one having none. -/
structure Alike (b b' : CoherentBus ι τ) : Prop where
  coherent : b.coherent = true
  coherent' : b'.coherent = true
  unfiltered : b'.snoopFilter = false
  layout : b'.layout = b.layout
  bus : b'.bus = b.bus
  caches : ∀ j, (b'.caches j).caches = (b.caches j).caches
  lastInvalidate : b'.lastInvalidate = b.lastInvalidate

/-- The buses while core `i` makes requests, since it had `b₀`. -/
structure Accessed (i : ι) (b₀ b b' : CoherentBus ι τ) : Prop where
  alike : Alike b b'
  removed : ∀ j ≠ i, ∀ line, b.lastInvalidate j = some line → (b.caches j).caches.Removed line
  ownCaches : b.caches i = b₀.caches i
  ownInvalidate : b.lastInvalidate i = b₀.lastInvalidate i ∨ b.lastInvalidate i = none

variable [DecidableEq ι] {i : ι} {b₀ : CoherentBus ι τ} {q : PhysicalMemoryRequest}

/-- The bus before the invalidates are sent. -/
def passed (phys : PhysicalMemory τ) (i : ι) (q : PhysicalMemoryRequest) (b : CoherentBus ι τ) :
    CoherentBus ι τ :=
  { b with
    bus := (phys.access q b.bus).2
    lastInvalidate :=
      if q.accessType = .READ then update b.lastInvalidate i none else b.lastInvalidate }

theorem access_eq (h : b.coherent = true) : access phys i q b =
    ((phys.access q b.bus).1,
      if q.accessType = .WRITE ∧ SystemAddressMap.decode b.layout q.physicalAddress =
        .MAIN_MEMORY then
        (passed phys i q b).sendInvalidates i q.physicalAddress
      else passed phys i q b) := by
  unfold access passed
  cases hq : q.accessType with
  | READ => simp
  | WRITE => simp [h]

theorem Accessed.passed (h : Accessed i b₀ b b') :
    Accessed i b₀ (passed phys i q b) (passed phys i q b') := by
  obtain ⟨⟨hc, hc', hf, hlayout, hbus, hcaches, hlast⟩, hremoved, hown, hinvalidate⟩ := h
  have hother (j : ι) (hj : j ≠ i) :
      (CoherentBus.passed phys i q b).lastInvalidate j = b.lastInvalidate j := by
    unfold CoherentBus.passed
    split
    · exact update_of_ne hj _ _
    · rfl
  refine ⟨⟨hc, hc', hf, hlayout, ?_, hcaches, ?_⟩, fun j hj line hline => ?_, hown, ?_⟩
  · change (phys.access q b'.bus).2 = (phys.access q b.bus).2
    rw [hbus]
  · unfold CoherentBus.passed
    rw [hlast]
  · exact hremoved j hj line ((hother j hj).symm.trans hline)
  · unfold CoherentBus.passed
    split
    · exact .inr (update_self ..)
    · exact hinvalidate

/-- An invalidate reaches core `j`, or would find nothing there. -/
theorem caches_sendInvalidates {j : ι} (hj : j ≠ i) {pa : BitVec 64}
    (h : b.lastInvalidate j = some (pa &&& ~~~63) → (b.caches j).caches.Removed (pa &&& ~~~63)) :
    ((b.sendInvalidates i pa).caches j).caches =
        (b.caches j).caches.invalidatePhysicalLine (pa &&& ~~~63) ∧
      (b.sendInvalidates i pa).lastInvalidate j = some (pa &&& ~~~63) := by
  unfold sendInvalidates
  dsimp only
  cases hf : b.filters (pa &&& ~~~63) j with
  | false =>
    have hsent : ¬(j = i ∨ false = true) := fun hc => hc.elim hj Bool.false_ne_true
    rw [if_neg hsent, if_neg hsent]
    exact ⟨rfl, rfl⟩
  | true =>
    rw [if_pos (.inr rfl), if_pos (.inr rfl)]
    rw [filters, Bool.and_eq_true, beq_iff_eq] at hf
    have hremoved := h hf.2
    refine ⟨?_, hf.2⟩
    rw [Caches.invalidatePhysicalLine, hremoved.instruction.invalidatePhysicalLine_eq,
      hremoved.data.invalidatePhysicalLine_eq]

theorem own_sendInvalidates (b : CoherentBus ι τ) (i : ι) (pa : BitVec 64) :
    (b.sendInvalidates i pa).caches i = b.caches i ∧
      (b.sendInvalidates i pa).lastInvalidate i = b.lastInvalidate i :=
  ⟨if_pos (.inl rfl), if_pos (.inl rfl)⟩

theorem Accessed.sendInvalidates (h : Accessed i b₀ b b') (pa : BitVec 64) :
    Accessed i b₀ (b.sendInvalidates i pa) (b'.sendInvalidates i pa) := by
  obtain ⟨⟨hc, hc', hf, hlayout, hbus, hcaches, hlast⟩, hremoved, hown, hinvalidate⟩ := h
  have hsent (j : ι) (hj : j ≠ i) := caches_sendInvalidates hj (hremoved j hj (pa &&& ~~~63))
  have hsent' (j : ι) (hj : j ≠ i) := caches_sendInvalidates hj fun hline => by
    rw [hcaches j]
    exact hremoved j hj (pa &&& ~~~63) (hlast ▸ hline)
  obtain ⟨hcaches₁, hlast₁⟩ := own_sendInvalidates b i pa
  obtain ⟨hcaches₂, hlast₂⟩ := own_sendInvalidates b' i pa
  refine ⟨⟨hc, hc', hf, hlayout, hbus, fun j => ?_, ?_⟩, fun j hj line hline => ?_, ?_, ?_⟩
  · by_cases hj : j = i
    · subst hj
      rw [hcaches₁, hcaches₂, hcaches]
    · rw [(hsent j hj).1, (hsent' j hj).1, hcaches]
  · funext j
    by_cases hj : j = i
    · subst hj
      rw [hlast₁, hlast₂, hlast]
    · rw [(hsent j hj).2, (hsent' j hj).2]
  · rw [(hsent j hj).2] at hline
    cases hline
    rw [(hsent j hj).1]
    exact ⟨removed_invalidatePhysicalLine _ _,
      removed_invalidatePhysicalLine _ _⟩
  · rw [hcaches₁, hown]
  · rw [hlast₁]
    exact hinvalidate

/-- A request of core `i` gets the same response on both buses. -/
theorem Accessed.access (h : Accessed i b₀ b b') :
    Related (Accessed i b₀) (access phys i q b) (access phys i q b') := by
  rw [access_eq h.alike.coherent, access_eq h.alike.coherent', h.alike.layout, h.alike.bus]
  refine ⟨rfl, ?_⟩
  split
  · exact h.passed.sendInvalidates q.physicalAddress
  · exact h.passed

theorem simulates_unfiltered (phys : PhysicalMemory τ) (i : ι) (b₀ : CoherentBus ι τ) :
    Simulates (port phys i) (port phys i) (Accessed i b₀) fun _ => True where
  aligned _ := trivial
  read _ h := h.access
  write _ h := h.access

end CoherentBus

/-! ## One event -/

namespace Cores

variable [DecidableEq ι] {s s' : Cores ι τ} {i : ι}

/-- Two systems that differ in the filter; a core's caches lack what it was told of. -/
structure Unfiltered (s s' : Cores ι τ) : Prop where
  mmus : s'.mmus = s.mmus
  alike : s.bus.Alike s'.bus
  removed : ∀ j line, s.bus.lastInvalidate j = some line → (s.bus.caches j).caches.Removed line

omit [DecidableEq ι] in
theorem Unfiltered.accessed (h : Unfiltered s s') (i : ι) : Accessed i s.bus s.bus s'.bus :=
  ⟨h.alike, fun j _ => h.removed j, rfl, .inl rfl⟩

omit [DecidableEq ι] in
theorem Unfiltered.eq_mk (h : Unfiltered s s') : s' = ⟨s.mmus, s'.bus⟩ := by rw [← h.mmus]

/-- The systems after requests of core `i`, with caches into which no line has come without a
read. -/
theorem Unfiltered.of_accessed (h : Unfiltered s s') {u : ι → MmuCore} (hb : Accessed i s.bus b b')
    {c c' : L1CachesCore} (hc : c'.caches = c.caches)
    (hlines : b.lastInvalidate i = none ∨ (s.bus.caches i).caches.Inherited c.caches) :
    Unfiltered (setCaches { mmus := u, bus := b } i c)
      (setCaches { mmus := u, bus := b' } i c') := by
  obtain ⟨⟨hcoherent, hcoherent', hf, hlayout, hbus, hcaches, hlast⟩, hremoved, -, hown⟩ := hb
  refine ⟨rfl, ⟨hcoherent, hcoherent', hf, hlayout, hbus, fun j => ?_, hlast⟩,
    fun j line hline => ?_⟩
  · by_cases hj : j = i
    · subst hj
      simp [setCaches, hc]
    · simp only [setCaches, update_of_ne hj, hcaches]
  · by_cases hj : j = i
    · subst hj
      simp only [setCaches, update_self] at hline ⊢
      rcases hlines with hnone | hinherited
      · rw [hnone] at hline
        cases hline
      · rcases hown with hsame | hnone
        · exact (h.removed j line (hsame.symm.trans hline)).of_inherited hinherited
        · rw [hnone] at hline
          cases hline
    · simp only [setCaches, update_of_ne hj] at hline ⊢
      exact hremoved j hj line hline

theorem access_eq_map (s : Cores ι τ) (i : ι) (r : VirtualMemoryRequest) :
    s.access phys i r =
      (cachedAccess (port phys i) r (s.bus.caches i, (s.mmus i, s.bus))).map fun z =>
        (z.1, setCaches ⟨update s.mmus i z.2.2.1, z.2.2.2⟩ i z.2.1) := by
  rw [Cores.access]
  cases cachedAccess (port phys i) r (s.bus.caches i, (s.mmus i, s.bus)) <;> rfl

/-- A request to the caches of core `i`. -/
theorem Unfiltered.access (h : Unfiltered s s') (i : ι) (r : VirtualMemoryRequest) :
    Option.Rel (fun y y' => y.1 = y'.1 ∧ Unfiltered y.2 y'.2) (s.access phys i r)
      (s'.access phys i r) := by
  have hrelated : RelatedCaches (fun x x' => x.1 = x'.1 ∧ Accessed i s.bus x.2 x'.2)
      (Caches.mmuAccess (port phys i) r ((s.bus.caches i).caches, (s.mmus i, s.bus)))
      (Caches.mmuAccess (port phys i) r
        ((s'.bus.caches i).caches, (s.mmus i, s'.bus))) := by
    rw [h.alike.caches i]
    exact (CoherentBus.simulates_unfiltered phys i s.bus).mmuAccess (h.accessed i)
      (fun _ _ _ _ => trivial) _
  rw [access_eq_map, access_eq_map, h.mmus]
  refine rel_map (rel_and_left (cachedAccess_related hrelated)) ?_
  rintro ⟨y, c, u, b⟩ ⟨y', c', u', b'⟩ ⟨hz, hresp, hcaches, hmmu, hb⟩
  subst hresp hmmu
  have hmmuAccess := congrArg (Option.map toCaches) hz
  rw [cachedAccess_caches, Option.map_some] at hmmuAccess
  exact ⟨rfl, h.of_accessed hb hcaches.symm (CoherentBus.inherited_mmuAccess hmmuAccess)⟩

theorem Unfiltered.perform (phys : PhysicalMemory τ) (h : Unfiltered s s') (e : Event ι) :
    Option.Rel (fun y y' => y.1 = y'.1 ∧ Unfiltered y.2 y'.2) (s.perform phys e)
      (s'.perform phys e) := by
  cases e with
  | access i r =>
    exact rel_map (h.access i r) fun y y' hy => ⟨congrArg Answer.access hy.1, hy.2⟩
  | physical i q =>
    obtain ⟨hresp, hb⟩ : Related (Accessed i s.bus)
        (CoherentBus.access phys i q s.bus) (CoherentBus.access phys i q s'.bus) :=
      (h.accessed i).access
    have hown : (s.bus.caches i).caches.Inherited
        ((CoherentBus.access phys i q s.bus).2.caches i).caches := by
      rw [hb.ownCaches]
      exact .refl _
    have hsame := h.of_accessed (u := s.mmus) hb (hb.alike.caches i) (.inr hown)
    rw [setCaches_self, setCaches_self] at hsame
    rw [Cores.perform, Cores.perform, h.mmus]
    exact .some ⟨congrArg Answer.physical hresp, hsame⟩
  | flushInstructionCache i =>
    rw [Cores.perform, Cores.perform, h.eq_mk]
    refine .some ⟨rfl, h.of_accessed (h.accessed i) ?_ (.inr ⟨inherited_flushAll _, .refl _⟩)⟩
    exact congrArg Caches.flushInstruction (h.alike.caches i)
  | flushDataCache i =>
    rw [Cores.perform, Cores.perform, h.eq_mk]
    refine .some ⟨rfl, h.of_accessed (h.accessed i) ?_ (.inr ⟨.refl _, inherited_flushAll _⟩)⟩
    exact congrArg (fun cs : Caches => { cs with data := cs.data.flushAll }) (h.alike.caches i)

/-- The views of the two systems are the same. -/
theorem Unfiltered.views (es : List (Event ι)) (h : Unfiltered s s') :
    views phys es s = views phys es s' := by
  induction es generalizing s s' with
  | nil => rfl
  | cons e es ih =>
    have hstep := h.perform phys e
    rw [Cores.views, Cores.views]
    revert hstep
    generalize s.perform phys e = o
    generalize s'.perform phys e = o'
    intro hstep
    cases hstep with
    | none => rfl
    | @some y y' hy =>
      obtain ⟨answer, s₁⟩ := y
      obtain ⟨answer', s₁'⟩ := y'
      obtain ⟨rfl, h₁⟩ := hy
      dsimp only
      rw [ih h₁, h₁.alike.bus, funext h₁.alike.caches]

/-- On a coherent bus that remembers no invalidate yet, the same requests give the same responses,
the same memory and the same caches, after every request, with the snoop filter and without. -/
theorem views_withSnoopFilter (phys : PhysicalMemory τ) (es : List (Event ι)) (s : Cores ι τ)
    (hcoherent : s.bus.coherent = true) (hlast : ∀ j, s.bus.lastInvalidate j = none) :
    views phys es (s.withSnoopFilter true) = views phys es (s.withSnoopFilter false) := by
  refine Unfiltered.views es ⟨rfl, ⟨hcoherent, hcoherent, rfl, rfl, rfl, fun _ => rfl, rfl⟩,
    fun j line hline => ?_⟩
  have hnone := (hlast j).symm.trans hline
  cases hnone

end Cores

/-- A write of the first doubleword. -/
def firstWrite : PhysicalMemoryRequest :=
  { accessType := .WRITE, lock := false, physicalAddress := 0, data := 1, byteMask := 0xFF }

/-- A core loads a line, another one writes it twice, and the filter leaves the second invalidate
out. -/
theorem views_repeated_write :
    let phys := SystemBus.physicalMemory {} SystemBus.noDevices
    let es : List (Cores.Event (Fin 2)) :=
      [.access 0 firstLoad, .physical 1 firstWrite, .physical 1 firstWrite, .access 0 firstLoad]
    let s := startedCores cachingMmu zeroBus
    Cores.views phys es (s.withSnoopFilter true) = Cores.views phys es (s.withSnoopFilter false) :=
  Cores.views_withSnoopFilter _ _ _ rfl fun _ => rfl

end SparcV8
