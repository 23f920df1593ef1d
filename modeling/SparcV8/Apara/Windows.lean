import SparcV8.Apara.EngineSystem

/-!
# The windows of engines

Which engine an address belongs to, and what an access on the bus does to the bytes of the data
memories: a write changes those that its mask names, and a read gives them.
-/

namespace SparcV8.Apara

open SystemAddressMap Function AparaCore AparaSystemCore List MemCore Option BitVec SystemBus

/-! ## The address map -/

variable {e : Nat}

section Map

variable {l : Layout} {a b : Nat}

/-- The windows of an engine are made of doublewords. -/
theorem inEngineWindows_congr (c i : Nat) (h : a / 8 = b / 8) :
    inEngineWindows c i a = inEngineWindows c i b := by
  unfold inEngineWindows aparaDmemBase aparaCcuBase aparaDmaBase
  rw [Bool.eq_iff_iff]
  simp only [Bool.or_eq_true, Bool.and_eq_true, decide_eq_true_eq]
  omega

theorem aparaEngineAt_congr (h : a / 8 = b / 8) : aparaEngineAt l a = aparaEngineAt l b := by
  unfold aparaEngineAt
  simp only [inEngineWindows_congr _ _ h]

theorem aparaEngineAt_eq_some (h : aparaEngineAt l a = some e) :
    ∃ c i, c < l.clusters ∧ i < l.enginesPerCluster ∧ e = c * l.enginesPerCluster + i ∧
      inEngineWindows c i a = true := by
  unfold aparaEngineAt at h
  split at h
  · cases h
  · obtain ⟨c, hc, h⟩ := exists_of_findSome?_eq_some h
    obtain ⟨i, hi, h⟩ := exists_of_findSome?_eq_some h
    split at h
    · next hin =>
      exact ⟨c, i, mem_range.1 hc, mem_range.1 hi, (some.inj h).symm, hin⟩
    · cases h

/-- The engine whose window has an address. -/
theorem aparaEngineAt_of_window (hl : EngineSystem.WindowsApart l) {c i : Nat} (hc : c < l.clusters)
    (hi : i < l.enginesPerCluster) (h : inEngineWindows c i a = true) :
    aparaEngineAt l a = some (c * l.enginesPerCluster + i) := by
  have hsome : (aparaEngineAt l a).isSome = true := by
    unfold aparaEngineAt
    rw [if_neg (not_not.2 hl.profile), findSome?_isSome_iff]
    refine ⟨c, mem_range.2 hc, ?_⟩
    rw [findSome?_isSome_iff]
    exact ⟨i, mem_range.2 hi, by rw [if_pos h, isSome_some]⟩
  obtain ⟨e, he⟩ := Option.isSome_iff_exists.1 hsome
  obtain ⟨c', i', hc', hi', rfl, hin⟩ := aparaEngineAt_eq_some he
  obtain ⟨rfl, rfl⟩ := hl.apart c i c' i' a hc hi hc' hi' h hin
  exact he

/-- Windows that are apart are below the limit of 32-bit addresses. -/
theorem dmemBase_lt (hl : EngineSystem.WindowsApart l) {c i : Nat} (hc : c < l.clusters)
    (hi : i < l.enginesPerCluster) : aparaDmemBase c i + DMEM_BYTES ≤ 2 ^ 32 := by
  have hin (c i : Nat) : inEngineWindows c i (aparaCcuBase c i) = true := by
    simp [inEngineWindows]
  -- the windows of the control units would meet those of the DMA units
  have hc16 : c < 16 := by
    by_contra hge
    have hdma : inEngineWindows (c - 16) i (aparaCcuBase c i) = true := by
      have heq : aparaCcuBase c i = aparaDmaBase (c - 16) i := by
        unfold aparaCcuBase aparaDmaBase
        omega
      simp [inEngineWindows, heq]
    have := (hl.apart c i (c - 16) i _ hc hi (by omega) hi (hin c i) hdma).1
    omega
  have hi64 : i < 64 := by
    by_contra hge
    have hdma : inEngineWindows c (i - 64) (aparaCcuBase c i) = true := by
      have heq : aparaCcuBase c i = aparaDmaBase c (i - 64) := by
        unfold aparaCcuBase aparaDmaBase
        omega
      simp [inEngineWindows, heq]
    have := (hl.apart c i c (i - 64) _ hc hi hc (by omega) (hin c i) hdma).2
    omega
  have hsize : DMEM_BYTES = 65536 := rfl
  unfold aparaDmemBase
  omega

end Map

/-! ## An engine and the bus -/

namespace AparaSystemCore

variable (s : AparaSystemCore) (r : PhysicalMemoryRequest)

/-- The parts of an engine in a system that no access changes. -/
structure SamePlace (s s' : AparaSystemCore) : Prop where
  dmemBase : s'.dmemBase = s.dmemBase
  ccuBase : s'.ccuBase = s.ccuBase
  dmaBase : s'.dmaBase = s.dmaBase
  config : s'.engine.config = s.engine.config

theorem SamePlace.rfl {s : AparaSystemCore} : SamePlace s s := ⟨.refl _, .refl _, .refl _, .refl _⟩

theorem SamePlace.trans {s s' s'' : AparaSystemCore} (h : SamePlace s s') (h' : SamePlace s' s'') :
    SamePlace s s'' :=
  ⟨h'.dmemBase.trans h.dmemBase, h'.ccuBase.trans h.ccuBase, h'.dmaBase.trans h.dmaBase,
    h'.config.trans h.config⟩

/-- An access to registers leaves the engine itself alone. -/
theorem accessHalf_engine (ccu read : Bool) (offset data : BitVec 64) (mask : BitVec 8)
    (half : Nat) :
    (s.accessHalf ccu read offset data mask half).2.engine = s.engine ∧
      SamePlace s (s.accessHalf ccu read offset data mask half).2 := by
  unfold accessHalf accessRegister
  dsimp only
  split
  · exact ⟨rfl, .rfl⟩
  · cases read <;> cases ccu <;> exact ⟨rfl, ⟨rfl, rfl, rfl, rfl⟩⟩

/-- Outside the window of the data memory an access leaves the engine alone. -/
theorem access_of_not_inWindow
    (h : inWindow (r.physicalAddress &&& ~~~7) s.dmemBase DMEM_BYTES = false) :
    (s.access r).2.engine = s.engine ∧ SamePlace s (s.access r).2 := by
  unfold access
  dsimp only
  rw [h, if_off]
  split
  · exact ⟨rfl, .rfl⟩
  · generalize inWindow _ s.ccuBase _ = ccu
    generalize (r.accessType == .READ) = read
    obtain ⟨hx, hsame⟩ := s.accessHalf_engine ccu read
      ((r.physicalAddress &&& ~~~7) - (if ccu then s.ccuBase else s.dmaBase)) r.data
      (if read && r.byteMask == 0 then 0xFF else r.byteMask) 0
    obtain ⟨hy, hsame'⟩ := (s.accessHalf ccu read
      ((r.physicalAddress &&& ~~~7) - (if ccu then s.ccuBase else s.dmaBase)) r.data
      (if read && r.byteMask == 0 then 0xFF else r.byteMask) 0).2.accessHalf_engine ccu read
      ((r.physicalAddress &&& ~~~7) - (if ccu then s.ccuBase else s.dmaBase)) r.data
      (if read && r.byteMask == 0 then 0xFF else r.byteMask) 1
    exact ⟨hy.trans hx, hsame.trans hsame'⟩

/-- A host's write changes the bytes that its mask names. -/
theorem dmemByte_writeDmem (index : Nat) (mask : BitVec 8) (data : BitVec 64) (o : Fin DMEM_BYTES) :
    dmemByte (s.writeDmem index mask data).engine.dmem o =
      if o.val / 8 = index % DMEM_DWORDS ∧ names mask (o.val % 8) = true then
        dwordByte (busToDmem data) (o.val % 8)
      else dmemByte s.engine.dmem o := by
  unfold writeDmem
  rw [dmemByte_writeDmemDword, dwordByte_merge]
  change (if _ then (if names mask (o.val % 8) = true then _ else _) else _) = _
  by_cases hindex : o.val / 8 = index % DMEM_DWORDS
  · rw [if_pos hindex, if_congr (and_iff_right hindex) rfl rfl]
    have hold : dwordByte (s.engine.dmemDword index) (o.val % 8) = dmemByte s.engine.dmem o := by
      have hdword : dmemIndex (o.val / 8) = dmemIndex index := by
        rw [dmemIndex, dmemIndex, Fin.mk.injEq, hindex, Nat.mod_mod]
      rw [dmemByte, hdword]
      rfl
    rw [hold]
  · rw [if_neg hindex, if_neg fun hc => hindex hc.1]

/-- An access in the window of the data memory. -/
theorem access_of_inWindow
    (h : inWindow (r.physicalAddress &&& ~~~7) s.dmemBase DMEM_BYTES = true) :
    let index := ((r.physicalAddress &&& ~~~7) - s.dmemBase).toNat / 8
    s.access r = match r.accessType with
      | .READ => ({ readData := busToDmem (s.engine.dmemDword index), mae := false }, s)
      | .WRITE => ({ readData := 0, mae := false }, s.writeDmem index r.byteMask r.data) := by
  unfold access
  dsimp only
  rw [h, if_pos rfl]
  cases r.accessType <;> rfl

theorem samePlace_access : SamePlace s (s.access r).2 := by
  cases h : inWindow (r.physicalAddress &&& ~~~7) s.dmemBase DMEM_BYTES with
  | false => exact (s.access_of_not_inWindow r h).2
  | true =>
    rw [s.access_of_inWindow r h]
    cases r.accessType <;> exact ⟨rfl, rfl, rfl, rfl⟩

end AparaSystemCore

namespace EngineSystem

variable {δ : Type} {l : Layout} {devices : PhysicalMemory δ}

/-- No access moves an engine. -/
structure SamePlaces (x y : EngineSystem δ) : Prop where
  attached : y.attached = x.attached
  engine : ∀ e, SamePlace (x.engines e) (y.engines e)

variable {x : EngineSystem δ}

namespace SamePlaces

variable {y z : EngineSystem δ}

theorem rfl : SamePlaces x x := ⟨.refl _, fun _ => .rfl⟩

theorem trans (h : SamePlaces x y) (h' : SamePlaces y z) : SamePlaces x z :=
  ⟨h'.attached.trans h.attached, fun e => (h.engine e).trans (h'.engine e)⟩

theorem placed (h : SamePlaces x y) (hx : Placed l x) : Placed l y := by
  intro e he
  rw [h.attached] at he
  obtain ⟨⟨c, i, hc, hi, heq, hdmem, hccu, hdma⟩, hconfig⟩ := hx e he
  have hsame := h.engine e
  refine ⟨⟨c, i, hc, hi, heq, hsame.dmemBase.trans hdmem, hsame.ccuBase.trans hccu,
    hsame.dmaBase.trans hdma⟩, ?_⟩
  rw [hsame.config, hsame.dmemBase]
  exact hconfig

theorem dmemAt (h : SamePlaces x y) (a : BitVec 64) : dmemAt l y a = dmemAt l x a := by
  unfold EngineSystem.dmemAt
  simp only [h.attached, (h.engine _).dmemBase]

/-- One engine is replaced by one in the same place. -/
theorem update {s : AparaSystemCore} (h : SamePlace (x.engines e) s) :
    SamePlaces x (x.setEngine e s) := by
  refine ⟨.refl _, fun e' => ?_⟩
  rw [setEngine]
  by_cases heq : e' = e
  · subst heq
    simp only [update_self]
    exact h
  · simp only [update_of_ne heq]
    exact .rfl

end SamePlaces

/-! ## The bus -/

variable {a : BitVec 64}

section Bus

variable (l devices) (r : PhysicalMemoryRequest) (x : EngineSystem δ)

/-- An access goes to an engine, or leaves all engines alone. -/
theorem access_cases :
    (∃ e, aparaEngineAt l r.physicalAddress.toNat = some e ∧ x.attached e = true ∧
      (access l devices r x).1 = ((x.engines e).access r).1 ∧
      (access l devices r x).2 = x.setEngine e ((x.engines e).access r).2) ∨
      ((∀ e, aparaEngineAt l r.physicalAddress.toNat = some e → x.attached e = false) ∧
        (access l devices r x).2.engines = x.engines ∧
        (access l devices r x).2.attached = x.attached) := by
  unfold access
  cases he : aparaEngineAt l r.physicalAddress.toNat with
  | none =>
    refine .inr ⟨fun e h => (nomatch h), ?_⟩
    split <;> exact ⟨rfl, rfl⟩
  | some e =>
    have hdecode : decode l r.physicalAddress = .APARA_ENGINE := by
      rw [decode, he, isSome_some, if_pos rfl]
    rw [hdecode]
    cases hattached : x.attached e with
    | false =>
      refine .inr ⟨?_, ?_⟩
      · intro e' he'
        cases he'
        exact hattached
      · simp [Option.filter, hattached]
    | true =>
      refine .inl ⟨e, rfl, hattached, ?_⟩
      simp [Option.filter, hattached]

theorem samePlaces_access : SamePlaces x (access l devices r x).2 := by
  obtain ⟨e, -, -, -, h⟩ | ⟨-, hengines, hattached⟩ := access_cases l devices r x
  · rw [h]
    exact .update ((x.engines e).samePlace_access r)
  · refine ⟨hattached, fun e => ?_⟩
    rw [hengines]
    exact .rfl

variable {l devices x}

theorem PlacedAt.dmemBase_mod {s : AparaSystemCore} (h : PlacedAt l e s) :
    s.dmemBase.toNat % 8 = 0 := by
  obtain ⟨c, i, -, -, -, hbase, -⟩ := h.place
  rw [hbase, toNat_ofNat]
  unfold aparaDmemBase
  omega

theorem dmemAt_eq_some {o : Fin DMEM_BYTES} :
    dmemAt l x a = some (e, o) ↔ aparaEngineAt l a.toNat = some e ∧ x.attached e = true ∧
      (x.engines e).dmemBase.toNat ≤ a.toNat ∧ a.toNat - (x.engines e).dmemBase.toNat = o.val := by
  unfold dmemAt
  rw [Option.bind_eq_some_iff]
  constructor
  · rintro ⟨e', he', h⟩
    obtain ⟨hat, hattached⟩ := filter_eq_some_iff.1 he'
    split at h
    · next hin =>
      obtain ⟨rfl, rfl⟩ := Prod.mk.injEq .. ▸ some.inj h
      exact ⟨hat, hattached, hin.1, rfl⟩
    · cases h
  · rintro ⟨hat, hattached, hle, ho⟩
    refine ⟨e, filter_eq_some_iff.2 ⟨hat, hattached⟩, ?_⟩
    have hin : (x.engines e).dmemBase.toNat ≤ a.toNat ∧
        a.toNat - (x.engines e).dmemBase.toNat < DMEM_BYTES := ⟨hle, ho ▸ o.isLt⟩
    rw [dif_pos hin]
    congr 2
    exact Fin.ext ho

/-- The doubleword of an access, in the data memory of an engine. -/
theorem inWindow_iff {s : AparaSystemCore} (hbase : s.dmemBase.toNat % 8 = 0) :
    inWindow (r.physicalAddress &&& ~~~7) s.dmemBase DMEM_BYTES = true ↔
      s.dmemBase.toNat / 8 ≤ r.physicalAddress.toNat / 8 ∧
        r.physicalAddress.toNat / 8 - s.dmemBase.toNat / 8 < DMEM_DWORDS := by
  have hround : (r.physicalAddress &&& ~~~(7 : BitVec 64)).toNat =
      r.physicalAddress.toNat / 8 * 8 := toNat_and_not_low r.physicalAddress 3
  have hsize : DMEM_BYTES = 8 * DMEM_DWORDS := rfl
  rw [inWindow, Bool.and_eq_true, decide_eq_true_eq, decide_eq_true_eq, hround, hsize]
  omega

theorem index_eq {s : AparaSystemCore} (hbase : s.dmemBase.toNat % 8 = 0)
    (h : inWindow (r.physicalAddress &&& ~~~7) s.dmemBase DMEM_BYTES = true) :
    ((r.physicalAddress &&& ~~~(7 : BitVec 64)) - s.dmemBase).toNat / 8 % DMEM_DWORDS =
      r.physicalAddress.toNat / 8 - s.dmemBase.toNat / 8 := by
  have hround : (r.physicalAddress &&& ~~~(7 : BitVec 64)).toNat =
      r.physicalAddress.toNat / 8 * 8 := toNat_and_not_low r.physicalAddress 3
  obtain ⟨hle, hlt⟩ := (inWindow_iff r hbase).1 h
  have hsub : ((r.physicalAddress &&& ~~~(7 : BitVec 64)) - s.dmemBase).toNat =
      r.physicalAddress.toNat / 8 * 8 - s.dmemBase.toNat := by
    rw [toNat_sub_of_le (by rw [le_def, hround]; omega), hround]
  rw [hsub, Nat.mod_eq_of_lt (by omega)]
  omega

/-- What an access of the host does to a byte of the data memory, and gives for it. -/
theorem engine_access_byte {s : AparaSystemCore} (hbase : s.dmemBase.toNat % 8 = 0)
    (o : Fin DMEM_BYTES) :
    let hit := o.val / 8 + s.dmemBase.toNat / 8 = r.physicalAddress.toNat / 8
    dmemByte (s.access r).2.engine.dmem o =
        (if r.accessType = .WRITE ∧ hit ∧ names r.byteMask (o.val % 8) = true then
          dwordByte (busToDmem r.data) (o.val % 8)
        else dmemByte s.engine.dmem o) ∧
      (r.accessType = .READ → hit →
        dwordByte (busToDmem (s.access r).1.readData) (o.val % 8) = dmemByte s.engine.dmem o) := by
  intro hit
  have hsize : DMEM_BYTES = 8 * DMEM_DWORDS := rfl
  have ho := o.isLt
  cases hin : inWindow (r.physicalAddress &&& ~~~7) s.dmemBase DMEM_BYTES with
  | false =>
    have hmiss : ¬ hit := by
      intro hhit
      rw [Bool.eq_false_iff, Ne, inWindow_iff r hbase] at hin
      omega
    rw [(s.access_of_not_inWindow r hin).1, if_neg fun hc => hmiss hc.2.1]
    exact ⟨rfl, fun _ hhit => absurd hhit hmiss⟩
  | true =>
    have hindex := index_eq r hbase hin
    have hbounds := (inWindow_iff r hbase).1 hin
    have hhit : hit ↔ o.val / 8 =
        ((r.physicalAddress &&& ~~~(7 : BitVec 64)) - s.dmemBase).toNat / 8 % DMEM_DWORDS := by
      rw [hindex]
      omega
    rw [s.access_of_inWindow r hin]
    cases r.accessType with
    | READ =>
      refine ⟨(if_neg fun hc => by cases hc.1).symm, fun _ h => ?_⟩
      have hdword : dmemIndex (o.val / 8) = dmemIndex
          (((r.physicalAddress &&& ~~~(7 : BitVec 64)) - s.dmemBase).toNat / 8) := by
        rw [dmemIndex, dmemIndex, Fin.mk.injEq, hhit.1 h, Nat.mod_mod]
      rw [busToDmem_busToDmem, dmemByte, hdword]
      rfl
    | WRITE =>
      refine ⟨?_, fun h => by cases h⟩
      rw [s.dmemByte_writeDmem]
      exact if_congr (by rw [hhit, eq_self, true_and]) rfl rfl

variable (devices) in
/-- What an access on the bus does to a byte of a data memory, and gives for it. -/
theorem access_byte (hx : Placed l x) {b : BitVec 8} (hb : byteAt l x a = some b) :
    byteAt l (access l devices r x).2 a =
        some (if r.accessType = .WRITE ∧ a.toNat / 8 = r.physicalAddress.toNat / 8 ∧
          names r.byteMask (a.toNat % 8) = true then dwordByte (busToDmem r.data) (a.toNat % 8)
          else b) ∧
      (r.accessType = .READ → a.toNat / 8 = r.physicalAddress.toNat / 8 →
        dwordByte (busToDmem (access l devices r x).1.readData) (a.toNat % 8) = b) := by
  obtain ⟨⟨e, o⟩, hat, rfl⟩ := map_eq_some_iff.1 hb
  obtain ⟨hengine, hattached, hle, ho⟩ := dmemAt_eq_some.1 hat
  have hbase := (hx e hattached).dmemBase_mod
  have hdiv : o.val / 8 + (x.engines e).dmemBase.toNat / 8 = a.toNat / 8 := by omega
  have hmod : o.val % 8 = a.toNat % 8 := by omega
  have hsame (h : a.toNat / 8 = r.physicalAddress.toNat / 8) :
      aparaEngineAt l r.physicalAddress.toNat = some e := by
    rw [← aparaEngineAt_congr h]
    exact hengine
  rw [byteAt, (samePlaces_access l devices r x).dmemAt, hat, map_some]
  obtain ⟨e', he', hattached', hresp, hstate⟩ | ⟨hnone, hengines, -⟩ :=
    access_cases l devices r x
  · rw [hresp, hstate, setEngine]
    by_cases heq : e' = e
    · subst heq
      simp only [update_self]
      have hbyte := engine_access_byte r hbase o
      rw [hdiv, hmod] at hbyte
      exact ⟨congrArg some hbyte.1, hbyte.2⟩
    · have hmiss : ¬ a.toNat / 8 = r.physicalAddress.toNat / 8 := fun h =>
        heq (some.inj (he'.symm.trans (hsame h)))
      simp [update_of_ne (Ne.symm heq), hmiss]
  · have hmiss : ¬ a.toNat / 8 = r.physicalAddress.toNat / 8 := fun h => by
      rw [hnone e (hsame h)] at hattached
      cases hattached
    simp [hengines, hmiss]

end Bus

/-! ## Main memory -/

section Main

theorem decode_congr {b : BitVec 64} (h : a.toNat / 8 = b.toNat / 8)
    (ha : decode l a = .MAIN_MEMORY) : decode l b = .MAIN_MEMORY ∧ b.toNat < memSize := by
  have hsize : memSize = 2 ^ 28 := rfl
  simp only [decode, aparaEngineAt_congr h] at ha ⊢
  split_ifs at ha with hnone hle
  rw [if_neg hnone, if_pos (by omega)]
  exact ⟨.refl _, by omega⟩

variable {r : PhysicalMemoryRequest} (haligned : r.physicalAddress.toNat % 8 = 0)
  (hmasked : Masked (fun a => decode l a = .MAIN_MEMORY) r.physicalAddress r.byteMask)
include haligned hmasked

/-- An access to bytes of main memory is one of the bus without engines. -/
theorem access_main (x : EngineSystem δ) :
    let a := SystemBus.access {} SystemBus.noDevices r (x.memory, ())
    access l devices r x = (a.1, { x with memory := a.2.1 }) := by
  obtain ⟨⟨k, hk, hnames⟩, hmain⟩ := hmasked
  have hsum := toNat_address_add (show r.physicalAddress.toNat % 8 + k < 8 by omega)
  obtain ⟨hdecode, hlt⟩ :=
    decode_congr (b := r.physicalAddress) (by omega) (hmain k hk hnames)
  simp only [access, hdecode, SystemBus.access_flat_of_lt _ hlt]

omit haligned in
theorem masked_dom : Masked (fun a => plain.dom (a.toNat / 4) = true)
    r.physicalAddress r.byteMask := by
  refine ⟨hmasked.1, fun k hk hnames => ?_⟩
  have hlt := (decode_congr rfl (hmasked.2 k hk hnames)).2
  have hn : memSize = 4 * nwords := rfl
  exact decide_eq_true (by omega)

end Main

/-- For every engine of the system main memory is plain. -/
def mainMemory (l : Layout) (devices : PhysicalMemory δ) (e : Nat) :
    PlainAt (attachment l devices e) (fun a => decode l a = .MAIN_MEMORY) where
  bus := ⟨access l devices⟩
  system_eq := by rfl
  byte x := wordMemoryByte SystemBus.dom ⟨x.memory.core⟩
  byte_set _ _ := by rfl
  get_access r x haligned hmasked := by
    change (access l devices r x).2.engines e = x.engines e
    rw [access_main haligned hmasked]
  byte_read r x hread haligned hmasked := by
    simp only [access_main haligned hmasked]
    exact byte_read_access plain r (x.memory, ()) hread haligned
  byte_write r x hwrite haligned hmasked := by
    simp only [access_main haligned hmasked]
    exact byte_write_access plain r (x.memory, ()) hwrite haligned (masked_dom hmasked)

/-- The bytes depend on the places of the engines and on their data memories. -/
theorem byteAt_eq {y : EngineSystem δ} (hsame : SamePlaces x y)
    (hdmem : ∀ e, (y.engines e).engine.dmem = (x.engines e).engine.dmem) (a : BitVec 64) :
    byteAt l y a = byteAt l x a := by
  rw [byteAt, byteAt, hsame.dmemAt]
  simp only [hdmem]

variable (l devices) in
/-- A read leaves the engines themselves alone. -/
theorem engine_access_read {r : PhysicalMemoryRequest} (hread : r.accessType = .READ)
    (x : EngineSystem δ) (e : Nat) :
    ((access l devices r x).2.engines e).engine = (x.engines e).engine := by
  have hengine (s : AparaSystemCore) : (s.access r).2.engine = s.engine := by
    cases h : inWindow (r.physicalAddress &&& ~~~7) s.dmemBase DMEM_BYTES with
    | false => exact (s.access_of_not_inWindow r h).1
    | true => rw [s.access_of_inWindow r h, hread]
  obtain ⟨e', -, -, -, h⟩ | ⟨-, hengines, -⟩ := access_cases l devices r x
  · rw [h, setEngine]
    by_cases heq : e = e'
    · subst heq
      simp only [update_self]
      exact hengine _
    · simp only [update_of_ne heq]
  · rw [hengines]

/-! ## An engine's own window -/

section Own

variable (hl : WindowsApart l) (hx : Placed l x) (he : x.attached e = true)
include hl hx he

/-- The window of an engine is aligned to its size, and below `2 ^ 32`. -/
theorem dmemBase_facts :
    (x.engines e).dmemBase.toNat % DMEM_BYTES = 0 ∧
      (x.engines e).dmemBase.toNat + DMEM_BYTES ≤ 2 ^ 32 := by
  obtain ⟨c, i, hc, hi, -, hbase, -⟩ := (hx e he).place
  have hlt := dmemBase_lt hl hc hi
  have hsize : DMEM_BYTES = 65536 := rfl
  have htoNat : (x.engines e).dmemBase.toNat = aparaDmemBase c i := by
    rw [hbase, toNat_ofNat]
    omega
  rw [htoNat]
  refine ⟨?_, hlt⟩
  rw [aparaDmemBase, hsize]
  omega

/-- An address is in the window of an engine just if the engine has its byte. -/
theorem dmemAt_own {o : Fin DMEM_BYTES} :
    dmemAt l x a = some (e, o) ↔ a.toNat = (x.engines e).dmemBase.toNat + o.val := by
  constructor
  · intro h
    obtain ⟨-, -, hle, ho⟩ := dmemAt_eq_some.1 h
    omega
  · intro h
    refine dmemAt_eq_some.2 ⟨?_, he, by omega, by omega⟩
    obtain ⟨c, i, hc, hi, heq, hbase, -⟩ := (hx e he).place
    have hlt := dmemBase_lt hl hc hi
    have hsize : DMEM_BYTES = 65536 := rfl
    have ho := o.isLt
    have htoNat : (x.engines e).dmemBase.toNat = aparaDmemBase c i := by
      rw [hbase, toNat_ofNat]
      omega
    rw [heq]
    refine aparaEngineAt_of_window hl hc hi ?_
    have h1 : aparaDmemBase c i ≤ a.toNat := by omega
    have h2 : a.toNat - aparaDmemBase c i < 0x10000 := by omega
    simp [inEngineWindows, h1, h2]

/-- The bytes after an engine's data memory is replaced. -/
theorem byteAt_setDmem (s : AparaSystemCore) (hs : SamePlace (x.engines e) s) {b : BitVec 8}
    (hb : byteAt l x a = some b) :
    byteAt l (x.setEngine e s) a =
      some (if h : (x.engines e).dmemBase.toNat ≤ a.toNat ∧
          a.toNat - (x.engines e).dmemBase.toNat < DMEM_BYTES then
        dmemByte s.engine.dmem ⟨a.toNat - (x.engines e).dmemBase.toNat, h.2⟩
      else b) := by
  obtain ⟨⟨e', o⟩, hat, rfl⟩ := map_eq_some_iff.1 hb
  rw [byteAt, (SamePlaces.update hs).dmemAt, hat, map_some, setEngine]
  dsimp only
  by_cases heq : e' = e
  · subst heq
    have ho := (dmemAt_own hl hx he).1 hat
    have hin : (x.engines e').dmemBase.toNat ≤ a.toNat ∧
        a.toNat - (x.engines e').dmemBase.toNat < DMEM_BYTES := by
      have := o.isLt
      omega
    have hoffset : o.val = a.toNat - (x.engines e').dmemBase.toNat := by omega
    rw [update_self, dif_pos hin]
    exact congrArg (fun o => some (dmemByte s.engine.dmem o)) (Fin.ext hoffset)
  · have hout : ¬((x.engines e).dmemBase.toNat ≤ a.toNat ∧
        a.toNat - (x.engines e).dmemBase.toNat < DMEM_BYTES) := by
      intro hin
      have hown : dmemAt l x a = some (e, ⟨_, hin.2⟩) :=
        (dmemAt_own hl hx he).2 (Nat.add_sub_cancel' hin.1).symm
      exact heq (congrArg Prod.fst (some.inj (hat.symm.trans hown)))
    rw [update_of_ne heq, dif_neg hout]

end Own

end EngineSystem

end SparcV8.Apara
