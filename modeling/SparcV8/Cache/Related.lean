import SparcV8.Cache.CachedMmu

/-!
# Caches over related memories

The caches over two memories that answer alike give the same responses and stay the same.
-/

namespace SparcV8

open L1CachesCore Option MmuCore Caches

/-- Results of the caches over two memories with related states below. -/
def RelatedCaches {σ σ' : Type} (Q : σ → σ' → Prop) {α β : Type} :
    Option (α × (β × σ)) → Option (α × (β × σ')) → Prop :=
  Rel fun z z' => z.1 = z'.1 ∧ z.2.1 = z'.2.1 ∧ Q z.2.2 z'.2.2

/-- One request is answered alike from related states. -/
def AnsweredAlike {σ σ' : Type} (d : VirtualMemory σ) (d' : VirtualMemory σ') (Q : σ → σ' → Prop)
    (q : VirtualMemoryRequest) (x : σ) (x' : σ') : Prop :=
  (d.access q x).1 = (d'.access q x').1 ∧ Q (d.access q x).2 (d'.access q x').2

variable {α α' β β' : Type} {o : Option α} {o' : Option α'} {f' : α' → β'}

theorem rel_map {P : α → α' → Prop} {P' : β → β' → Prop} {f : α → β} (h : Rel P o o')
    (hf : ∀ z z', P z z' → P' (f z) (f' z')) : Rel P' (o.map f) (o'.map f') := by
  cases h with
  | some hP => exact .some (hf _ _ hP)
  | none => exact .none

theorem rel_and_left {α α' : Type} {P : α → α' → Prop} {o : Option α} {o' : Option α'}
    (h : Rel P o o') : Rel (fun z z' => o = some z ∧ P z z') o o' := by
  cases h with
  | some hz => exact .some ⟨rfl, hz⟩
  | none => exact .none

theorem rel_of_map {P : β → β' → Prop} {f : α → β} (h : Rel P (o.map f) (o'.map f')) :
    Rel (fun z z' => P (f z) (f' z')) o o' := by
  cases o <;> cases o'
  · exact .none
  · cases h
  · cases h
  · cases h with
    | some hz => exact .some hz

variable {request : VirtualMemoryRequest}

namespace Caches

section Related

variable {σ σ' : Type} {d : VirtualMemory σ} {d' : VirtualMemory σ'} {Q : σ → σ' → Prop} {x : σ}
  {x' : σ'}

theorem forward_related (h : AnsweredAlike d d' Q request x x') (cs : Caches) :
    RelatedCaches Q (some (forward d request (cs, x))) (some (forward d' request (cs, x'))) :=
  .some ⟨congrArg forwardedResponse h.1, rfl, h.2⟩

theorem read_related (hline : AnsweredAlike d d' Q (lineRequest request) x x') (hQ : Q x x')
    (context : Word) (cache : CacheArray) :
    Rel (fun z z' => z.1 = z'.1 ∧ Q z.2 z'.2) (read d context request cache x)
      (read d' context request cache x') := by
  unfold read
  cases allowedLine cache request context false with
  | some line => exact .some ⟨rfl, hQ⟩
  | none =>
    dsimp only
    rw [hline.1]
    cases filled context request (d'.access (lineRequest request) x').1 cache with
    | none => exact .none
    | some y => exact .some ⟨rfl, hline.2⟩

theorem stored_related
    (hallocate : ∀ {x x'}, Q x x' → AnsweredAlike d d' Q (allocateRequest request) x x')
    (hQ : Q x x') (context : Word) (r : VirtualMemoryResponse) (cache : CacheArray) :
    Rel (fun z z' => z.1 = z'.1 ∧ Q z.2 z'.2) (stored d context request r cache x)
      (stored d' context request r cache x') := by
  unfold stored
  split
  · exact .some ⟨rfl, hQ⟩
  · split
    · dsimp only
      rw [(hallocate hQ).1]
      cases allocated context request (d'.access (allocateRequest request) x').1 cache with
      | none => exact .none
      | some y => exact .some ⟨rfl, (hallocate hQ).2⟩
    · split <;> exact .some ⟨rfl, hQ⟩

section

variable (h : flushesCaches request = false → AnsweredAlike d d' Q request x x')
include h

theorem store_related (hk : request.accessType = .STORE)
    (hallocate : ∀ {x x'}, Q x x' → AnsweredAlike d d' Q (allocateRequest request) x x')
    (hQ : Q x x') (context : Word) (cs : Caches) :
    RelatedCaches Q (store d context request (cs, x)) (store d' context request (cs, x')) := by
  unfold store
  dsimp only
  split
  · exact .some ⟨rfl, rfl, hQ⟩
  · next hd =>
    split
    · exact .some ⟨rfl, rfl, hQ⟩
    · next hi =>
      have hpassed := h (by simp [flushesCaches, isFlushAsi, hk, hd, hi])
      rw [hpassed.1]
      split
      · have hstored := stored_related hallocate hpassed.2 context (d'.access request x').1 cs.data
        refine rel_map hstored fun z z' hz => ⟨rfl, ?_, hz.2⟩
        rw [hz.1]
      · exact .some ⟨rfl, rfl, hpassed.2⟩

/-- The caches over two memories that answer alike. -/
theorem access_related (hline : AnsweredAlike d d' Q (lineRequest request) x x')
    (hallocate : ∀ {x x'}, Q x x' → AnsweredAlike d d' Q (allocateRequest request) x x')
    (hQ : Q x x') (context : Word) (cs : Caches) :
    RelatedCaches Q (access d context request (cs, x)) (access d' context request (cs, x')) := by
  have hpassed (hk : request.accessType ≠ .FLUSH) (hk' : request.accessType ≠ .STORE) :
      AnsweredAlike d d' Q request x x' := h (by simp [flushesCaches, hk, hk'])
  have hread {β : Type} (cache : CacheArray) (f : CacheArray → β) :
      RelatedCaches Q
        ((read d context request cache x).map fun y => (y.1.1, (f y.1.2, y.2)))
        ((read d' context request cache x').map fun y => (y.1.1, (f y.1.2, y.2))) := by
    refine rel_map (read_related hline hQ context cache) fun z z' hz => ⟨?_, ?_, hz.2⟩
    all_goals
      rw [hz.1]
  unfold access
  cases hk : request.accessType with
  | IFETCH =>
    dsimp only
    split
    · exact hread cs.instruction fun cache => { cs with instruction := cache }
    · exact forward_related (hpassed (by rw [hk]; decide) (by rw [hk]; decide)) cs
  | LOAD =>
    dsimp only
    split
    · exact hread cs.data fun cache => { cs with data := cache }
    · exact forward_related (hpassed (by rw [hk]; decide) (by rw [hk]; decide)) cs
  | STORE => exact store_related h hk hallocate hQ context cs
  | ATOMIC_LS =>
    have hanswered := hpassed (by rw [hk]; decide) (by rw [hk]; decide)
    refine .some ⟨congrArg forwardedResponse hanswered.1, ?_, hanswered.2⟩
    unfold atomic
    dsimp only
    rw [hanswered.1]
  | FLUSH => exact .some ⟨rfl, rfl, hQ⟩
  | NO_ACCESS => exact forward_related (hpassed (by rw [hk]; decide) (by rw [hk]; decide)) cs
  | READ_LINE => exact forward_related (hpassed (by rw [hk]; decide) (by rw [hk]; decide)) cs

end

end Related

end Caches

/-- The caches of a core over related physical memories. -/
theorem Simulates.mmuAccess {τ τ' : Type} {phys : PhysicalMemory τ} {phys' : PhysicalMemory τ'}
    {R : τ → τ' → Prop} {writable : BitVec 64 → Prop} (h : Simulates phys phys' R writable)
    {u : MmuCore} {m : τ} {m' : τ'} (hR : R m m')
    (ha : u.writesData request = true → flushesCaches request = false → ∀ a : BitVec 64, a.toNat %
      8 = request.address.toNat % 8 → writable a) (cs : Caches) :
    RelatedCaches (fun x x' => x.1 = x'.1 ∧ R x.2 x'.2) (mmuAccess phys request (cs, (u, m)))
      (mmuAccess phys' request (cs, (u, m'))) := by
  have halike (q : VirtualMemoryRequest) {x : MmuCore × τ} {x' : MmuCore × τ'}
      (hx : x.1 = x'.1 ∧ R x.2 x'.2)
      (hw : x.1.writesData q = true →
        ∀ a : BitVec 64, a.toNat % 8 = q.address.toNat % 8 → writable a) :
      AnsweredAlike (virtualMemory phys) (virtualMemory phys')
        (fun x x' => x.1 = x'.1 ∧ R x.2 x'.2) q x x' := by
    obtain ⟨u, m⟩ := x
    obtain ⟨u', m'⟩ := x'
    obtain ⟨rfl, hR⟩ := hx
    exact h.access u hw hR
  refine access_related (fun hf => halike request ⟨rfl, hR⟩ fun hw => ha hw hf) ?_ ?_
    ⟨rfl, hR⟩ u.contextRegister cs
  · exact halike _ ⟨rfl, hR⟩ fun hw => absurd hw (by simp [writesData, lineRequest])
  · exact fun hx => halike _ hx fun hw => absurd hw (by simp [writesData, allocateRequest])

/-- The steps of a request, over related memories. -/
theorem cachedAccess_related {τ τ' : Type} {phys : PhysicalMemory τ} {phys' : PhysicalMemory τ'}
    {Q : MmuCore × τ → MmuCore × τ' → Prop} {c c' : L1CachesCore} {x : MmuCore × τ}
    {x' : MmuCore × τ'} (h : RelatedCaches Q (mmuAccess phys request (c.caches, x)) (mmuAccess phys'
      request (c'.caches, x'))) :
    Rel (fun z z' => z.1 = z'.1 ∧ z.2.1.caches = z'.2.1.caches ∧ Q z.2.2 z'.2.2)
      (cachedAccess phys request (c, x)) (cachedAccess phys' request (c', x')) := by
  rw [← cachedAccess_caches, ← cachedAccess_caches] at h
  exact rel_of_map h

end SparcV8
