import SparcV8.Mmu.Route

/-!
# Related memories below an MMU

Two physical memories answer the MMU alike, if every access it makes gets the same response and
leaves related states. Reads may go to any address; writes go to the doubleword of a table entry, or
to the address of the data.
-/

namespace SparcV8

open Nat MmuCore VirtualMemoryRequest

variable {τ : Type}

section Related

variable {τ' : Type}

/-- Results that are equal but for the memories, which are related. -/
def Related (R : τ → τ' → Prop) {α : Type} (x : α × τ) (x' : α × τ') : Prop :=
  x.1 = x'.1 ∧ R x.2 x'.2

/-- The same for results with the memory in the third place. -/
def Related₂ (R : τ → τ' → Prop) {α β : Type} (x : α × β × τ) (x' : α × β × τ') : Prop :=
  x.1 = x'.1 ∧ x.2.1 = x'.2.1 ∧ R x.2.2 x'.2.2

/-- Related results, taken apart. -/
theorem Related.exists {R : τ → τ' → Prop} {α : Type} {x : α × τ} {x' : α × τ'}
    (h : Related R x x') : ∃ a n n', x = (a, n) ∧ x' = (a, n') ∧ R n n' := by
  obtain ⟨a, n⟩ := x
  obtain ⟨a', n'⟩ := x'
  obtain ⟨rfl, hR⟩ := h
  exact ⟨a, n, n', rfl, rfl, hR⟩

/-- The same with a second result. -/
theorem Related₂.exists {R : τ → τ' → Prop} {α β : Type} {x : α × β × τ} {x' : α × β × τ'}
    (h : Related₂ R x x') : ∃ a b n n', x = (a, b, n) ∧ x' = (a, b, n') ∧ R n n' := by
  obtain ⟨a, b, n⟩ := x
  obtain ⟨a', b', n'⟩ := x'
  obtain ⟨rfl, rfl, hR⟩ := h
  exact ⟨a, b, n, n', rfl, rfl, hR⟩

end Related

/-- Reads, and writes to `writable` addresses, are answered alike and keep `R`. -/
structure Simulates {τ τ' : Type} (phys : PhysicalMemory τ) (phys' : PhysicalMemory τ')
    (R : τ → τ' → Prop) (writable : BitVec 64 → Prop) : Prop where
  aligned : ∀ a, writable (alignedDword a)
  read : ∀ {q m m'}, q.accessType = .READ → R m m' → Related R (phys.access q m) (phys'.access q m')
  write : ∀ {q m m'}, writable q.physicalAddress → R m m' →
    Related R (phys.access q m) (phys'.access q m')

/-! ## Addresses -/

variable (pte va : Word)

/-- A leaf passes the offset within the smallest page through. -/
theorem getLsbD_constructPhysicalAddr (level : Level) {i : Nat} (hi : i < 12) :
    (constructPhysicalAddr pte level va).getLsbD i = va.getLsbD i := by
  have hoffset (h : Nat) (hh : h < 32) (hle : 11 ≤ h) :
      (readBits va h 0).getLsbD i = va.getLsbD i := by
    rw [getLsbD_readBits _ hh, zero_add, decide_eq_true (by omega), Bool.true_and]
  have hpage : (pageOffset level va).getLsbD i = va.getLsbD i := by
    fin_cases level
    · exact hoffset 31 (by decide) (by decide)
    · exact hoffset 23 (by decide) (by decide)
    · exact hoffset 17 (by decide) (by decide)
    · exact hoffset 11 (by decide) (by decide)
  rw [constructPhysicalAddr, BitVec.getLsbD_or, BitVec.getLsbD_shiftLeft, decide_eq_true hi,
    BitVec.getLsbD_setWidth, BitVec.getLsbD_setWidth, hpage, decide_eq_true (show i < 64 by omega)]
  simp

/-- That offset, as a number. -/
theorem toNat_constructPhysicalAddr_offset (level : Level) :
    (constructPhysicalAddr pte level va).toNat % 2 ^ 12 = va.toNat % 2 ^ 12 := by
  apply eq_of_testBit_eq
  intro i
  rw [testBit_mod_two_pow, testBit_mod_two_pow]
  by_cases hi : i < 12
  · rw [decide_eq_true hi, Bool.true_and, Bool.true_and]
    exact getLsbD_constructPhysicalAddr pte va level hi
  · rw [decide_eq_false hi, Bool.false_and, Bool.false_and]

variable {phys : PhysicalMemory τ}

/-- A translation keeps the offset within a doubleword. -/
theorem offset_of_translate {u : MmuCore} {va asi : Word} {isFetch isWrite isAtomic : Bool} {m : τ}
    {t : Translation} (h : (u.translate phys va asi isFetch isWrite isAtomic m).1 = some t) :
    t.physicalAddr.toNat % 8 = va.toNat % 8 := by
  unfold MmuCore.translate at h
  split at h
  · cases h
    rw [BitVec.toNat_setWidth_of_le (by decide)]
  · dsimp only at h
    split at h
    · cases h
    · cases h
      have hoffset := toNat_constructPhysicalAddr_offset (u.findEntry phys va m).1.pte va
        (u.findEntry phys va m).1.level
      dsimp only [MmuCore.commitTranslation]
      omega

/-- The access writes data to the memory. -/
def MmuCore.writesData (u : MmuCore) (r : VirtualMemoryRequest) : Bool :=
  r.accessType == .ATOMIC_LS ||
    r.accessType == .STORE &&
      (!u.mmuIsPresent || asiSpace r.asi == .passThrough || asiSpace r.asi == .ordinary)

/-- A store or an atomic that gets to the memory. -/
theorem MmuCore.writesData_of_route {u : MmuCore} {r : VirtualMemoryRequest}
    (h : u.route r = .physical ∨ u.route r = .translated) (hw : r.isWrite = true) :
    u.writesData r = true := by
  obtain ⟨accessType, address, asi, word0, word1, byteMask⟩ := r
  unfold route at h
  unfold writesData
  cases accessType with
  | STORE =>
    cases hp : u.mmuIsPresent with
    | false => rfl
    | true => cases hspace : asiSpace asi <;> simp_all [spaceRoute]
  | ATOMIC_LS => rfl
  | _ => cases hw

namespace Simulates

variable {τ' : Type} {phys' : PhysicalMemory τ'} {R : τ → τ' → Prop} {writable : BitVec 64 → Prop}
  {m : τ} {m' : τ'}
variable (h : Simulates phys phys' R writable)
include h

/-! ## Physical accesses -/

/-- The word of a table, or of data. -/
theorem readPhysicalWord (a : BitVec 64) (hR : R m m') :
    Related R (readPhysicalWord phys a m) (readPhysicalWord phys' a m') := by
  let q : PhysicalMemoryRequest :=
    { accessType := .READ, lock := false, physicalAddress := alignedDword a, data := 0,
      byteMask := wordMask a }
  obtain ⟨r, n, n', hx, hx', hR⟩ := (h.read (q := q) rfl hR).exists
  rw [SparcV8.readPhysicalWord, SparcV8.readPhysicalWord, hx, hx']
  exact ⟨rfl, hR⟩

/-- A doubleword under a mask. -/
theorem readPhysicalDoubleword (a : BitVec 64) (mask : BitVec 8) (hR : R m m') :
    Related R (readPhysicalDoubleword phys a mask m) (readPhysicalDoubleword phys' a mask m') := by
  let q : PhysicalMemoryRequest :=
    { accessType := .READ, lock := false, physicalAddress := alignedDword a, data := 0,
      byteMask := mask }
  obtain ⟨r, n, n', hx, hx', hR⟩ := (h.read (q := q) rfl hR).exists
  rw [SparcV8.readPhysicalDoubleword, SparcV8.readPhysicalDoubleword, hx, hx']
  exact ⟨rfl, hR⟩

variable {a : BitVec 64}

/-- A write to where writes may go. -/
theorem writePhysicalMaskedDoubleWord (ha : writable a) (word0 word1 mask : Word) (hR : R m m') :
    Related R (writePhysicalMaskedDoubleWord phys a word0 word1 mask m)
      (writePhysicalMaskedDoubleWord phys' a word0 word1 mask m') := by
  let q : PhysicalMemoryRequest :=
    { accessType := .WRITE, lock := false, physicalAddress := a, data := doubleword word1 word0,
      byteMask := mask.setWidth 8 }
  obtain ⟨r, n, n', hx, hx', hR⟩ := (h.write (q := q) ha hR).exists
  rw [SparcV8.writePhysicalMaskedDoubleWord, SparcV8.writePhysicalMaskedDoubleWord, hx, hx']
  exact ⟨rfl, hR⟩

/-- A locked read and the write after it. -/
theorem atomicReadModifyWritePhysical (ha : writable a) (word0 word1 mask : Word) (hR : R m m') :
    Related R (atomicReadModifyWritePhysical phys a word0 word1 mask m)
      (atomicReadModifyWritePhysical phys' a word0 word1 mask m') := by
  let q : PhysicalMemoryRequest :=
    { accessType := .READ, lock := true, physicalAddress := a, data := 0,
      byteMask := mask.setWidth 8 }
  let q' : PhysicalMemoryRequest :=
    { accessType := .WRITE, lock := false, physicalAddress := a, data := doubleword word1 word0,
      byteMask := mask.setWidth 8 }
  obtain ⟨r, n, n', hx, hx', hR⟩ := (h.read (q := q) rfl hR).exists
  obtain ⟨hw, hR⟩ := h.write (q := q') ha hR
  rw [SparcV8.atomicReadModifyWritePhysical, SparcV8.atomicReadModifyWritePhysical, hx, hx']
  exact ⟨congrArg (fun w : PhysicalMemoryResponse =>
    (⟨lowWord r.readData, highWord r.readData, r.mae || w.mae⟩ : ReadWords)) hw, hR⟩

theorem readPageTableEntryFromMemory (a : BitVec 64) (hR : R m m') :
    Related R (readPageTableEntryFromMemory phys a m)
      (readPageTableEntryFromMemory phys' a m') := by
  obtain ⟨r, n, n', hx, hx', hR⟩ := (h.readPhysicalWord a hR).exists
  rw [SparcV8.readPageTableEntryFromMemory, SparcV8.readPageTableEntryFromMemory, hx, hx']
  exact ⟨rfl, hR⟩

/-- A word of a table is written back under its mask. -/
theorem writePageTableEntryToMemory (a : BitVec 64) (value : Word) (hR : R m m') :
    R (writePageTableEntryToMemory phys a value m) (writePageTableEntryToMemory phys' a value m') :=
  (h.writePhysicalMaskedDoubleWord (h.aligned a) _ _ _ hR).2

/-- A walk, by the steps it has left. -/
theorem runWalk (stopAtLevel : Level) (steps : Nat) (w : Walk) (hR : R m m') :
    Related R (runWalk phys stopAtLevel steps w m) (runWalk phys' stopAtLevel steps w m') := by
  induction steps generalizing w m m' with
  | zero =>
    obtain ⟨pte, n, n', hx, hx', hR⟩ := (h.readPageTableEntryFromMemory w.curPhyAddr hR).exists
    rw [runWalk, runWalk, hx, hx']
    exact ⟨rfl, hR⟩
  | succ steps ih =>
    obtain ⟨pte, n, n', hx, hx', hR⟩ := (h.readPageTableEntryFromMemory w.curPhyAddr hR).exists
    rw [runWalk, runWalk, hx, hx']
    dsimp only
    cases w.recordWalkStep pte stopAtLevel with
    | none => exact ⟨rfl, hR⟩
    | some w' => exact ih w' hR

/-! ## Translation -/

/-- The TLB is not in the memory. -/
theorem findEntry (u : MmuCore) (va : Word) (hR : R m m') :
    Related₂ R (u.findEntry phys va m) (u.findEntry phys' va m') := by
  unfold MmuCore.findEntry
  cases u.tlbLookup va u.contextRegister with
  | some r => exact ⟨rfl, rfl, hR⟩
  | none =>
    obtain ⟨r, n, n', hx, hx', hR⟩ := (h.runWalk 3 3 (u.beginWalk va u.contextRegister) hR).exists
    rw [hx, hx']
    exact ⟨rfl, rfl, hR⟩

/-- The update of a leaf, with a second read or without. -/
theorem updateRM (u : MmuCore) (va : Word) (r : WalkResult) (isWrite : Bool) (hR : R m m') :
    Related R (u.updateRM phys va r isWrite m) (u.updateRM phys' va r isWrite m') := by
  unfold MmuCore.updateRM
  cases MmuCore.computeAndStageRMUpdate r.pte isWrite with
  | none => exact ⟨rfl, hR⟩
  | some staged =>
    cases u.atomicRMUpdates with
    | false =>
      simp only [if_off]
      exact ⟨rfl, h.writePageTableEntryToMemory _ _ hR⟩
    | true =>
      obtain ⟨pte, n, n', hx, hx', hR⟩ := (h.readPageTableEntryFromMemory r.phyAddrOfPte hR).exists
      dsimp only
      rw [if_pos rfl, if_pos rfl, hx, hx']
      exact ⟨rfl, h.writePageTableEntryToMemory _ _ hR⟩

/-- A translation, with its faults. -/
theorem translate (u : MmuCore) (va asi : Word) (isFetch isWrite isAtomic : Bool) (hR : R m m') :
    Related₂ R (u.translate phys va asi isFetch isWrite isAtomic m)
      (u.translate phys' va asi isFetch isWrite isAtomic m') := by
  unfold MmuCore.translate
  split
  · exact ⟨rfl, rfl, hR⟩
  · obtain ⟨r, hit, n, n', hx, hx', hR⟩ := (h.findEntry u va hR).exists
    rw [hx, hx']
    dsimp only
    split
    · exact ⟨rfl, rfl, hR⟩
    · obtain ⟨v, k, k', hy, hy', hR⟩ := (h.updateRM
        ((u.checkAndRecordFault asi isWrite isAtomic isFetch va r).2.commitTranslation va
          (u.checkAndRecordFault asi isWrite isAtomic isFetch va r).2.contextRegister
          r hit).1 va r isWrite hR).exists
      rw [hy, hy']
      exact ⟨rfl, rfl, hR⟩

/-- A probe walks to a level of its own. -/
theorem probe (u : MmuCore) (va : Word) (hR : R m m') :
    Related R (u.probe phys va m) (u.probe phys' va m') := by
  unfold MmuCore.probe
  dsimp only
  split
  · obtain ⟨r, hit, n, n', hx, hx', hR⟩ := (h.findEntry u va hR).exists
    rw [hx, hx']
    exact ⟨rfl, hR⟩
  · split
    · exact ⟨rfl, hR⟩
    · obtain ⟨r, n, n', hx, hx', hR⟩ := (h.runWalk (Fin.ofNat 4 (3 - (readBits va 11 8).toNat)) 3
        (u.beginWalk va u.contextRegister) hR).exists
      rw [hx, hx']
      exact ⟨rfl, hR⟩

/-! ## Accesses -/

theorem readData (a : BitVec 64) (readSecondWord : Bool) (mask : BitVec 8) (hR : R m m') :
    Related R (MmuCore.readData phys a readSecondWord mask m)
      (MmuCore.readData phys' a readSecondWord mask m') := by
  unfold MmuCore.readData
  split
  · exact h.readPhysicalDoubleword a mask hR
  · obtain ⟨r, n, n', hx, hx', hR⟩ := (h.readPhysicalWord a hR).exists
    rw [hx, hx']
    exact ⟨rfl, hR⟩

/-- A line is eight doublewords. -/
theorem readLine (lineBase : BitVec 64) (hR : R m m') :
    Related₂ R (readLine phys lineBase m) (readLine phys' lineBase m') := by
  -- the fold keeps the memories related, from any line read so far
  have hfold (l : List (Fin 8)) : ∀ {x : (Fin 8 → BitVec 64) × Bool × τ}
      {x' : (Fin 8 → BitVec 64) × Bool × τ'}, Related₂ R x x' →
      Related₂ R (l.foldl (readLineStep phys lineBase) x)
        (l.foldl (readLineStep phys' lineBase) x') := by
    induction l with
    | nil => exact fun hx => hx
    | cons i l ih =>
      intro x x' hx
      refine ih ?_
      obtain ⟨line, mae, n, n', rfl, rfl, hR⟩ := hx.exists
      unfold readLineStep
      split
      · exact ⟨rfl, rfl, hR⟩
      · obtain ⟨r, k, k', hy, hy', hR⟩ := (h.readPhysicalDoubleword
          (lineBase + 8 * BitVec.ofNat 64 i.val) 0xFF hR).exists
        rw [hy, hy']
        exact ⟨rfl, rfl, hR⟩
  exact hfold (List.finRange 8) ⟨rfl, rfl, hR⟩

theorem readLineAt (u : MmuCore) (t : Translation) (mask : Word) (hR : R m m') :
    Related R (u.readLineAt phys t mask m) (u.readLineAt phys' t mask m') := by
  unfold MmuCore.readLineAt
  dsimp only
  split
  · obtain ⟨line, mae, n, n', hx, hx', hR⟩ := (h.readLine (t.physicalAddr &&& ~~~63) hR).exists
    rw [hx, hx']
    exact ⟨rfl, hR⟩
  · split
    · obtain ⟨r, n, n', hx, hx', hR⟩ :=
        (h.readPhysicalDoubleword t.physicalAddr (mask.setWidth 8) hR).exists
      rw [hx, hx']
      exact ⟨rfl, hR⟩
    · exact ⟨rfl, hR⟩

/-- The access after its translation. -/
theorem complete (u : MmuCore) (r : VirtualMemoryRequest) (t : Translation)
    (ha : r.isWrite = true → writable t.physicalAddr) (hR : R m m') :
    Related₂ R (u.complete phys r t m) (u.complete phys' r t m') := by
  unfold MmuCore.complete
  unfold isWrite at ha
  cases hk : r.accessType with
  | IFETCH =>
    obtain ⟨words, n, n', hx, hx', hR⟩ := (h.readData t.physicalAddr false 0xFF hR).exists
    dsimp only
    rw [hx, hx']
    exact ⟨rfl, rfl, hR⟩
  | LOAD =>
    obtain ⟨words, n, n', hx, hx', hR⟩ :=
      (h.readData t.physicalAddr true (MmuCore.loadByteMask r.byteMask) hR).exists
    dsimp only
    rw [hx, hx']
    exact ⟨rfl, rfl, hR⟩
  | STORE =>
    obtain ⟨mae, n, n', hx, hx', hR⟩ := (h.writePhysicalMaskedDoubleWord (ha (by rw [hk])) r.word0
      r.word1 r.byteMask hR).exists
    dsimp only
    rw [hx, hx']
    exact ⟨rfl, rfl, hR⟩
  | ATOMIC_LS =>
    obtain ⟨words, n, n', hx, hx', hR⟩ := (h.atomicReadModifyWritePhysical (ha (by rw [hk])) r.word0
      r.word1 r.byteMask hR).exists
    dsimp only
    rw [hx, hx']
    exact ⟨rfl, rfl, hR⟩
  | READ_LINE =>
    obtain ⟨response, n, n', hx, hx', hR⟩ := (h.readLineAt u t r.byteMask hR).exists
    dsimp only
    rw [hx, hx']
    exact ⟨rfl, rfl, hR⟩
  | FLUSH => exact ⟨rfl, rfl, hR⟩
  | NO_ACCESS => exact ⟨rfl, rfl, hR⟩

/-- Related memories answer a request of the MMU alike. -/
theorem access (u : MmuCore) {request : VirtualMemoryRequest}
    (ha : u.writesData request = true → ∀ a : BitVec 64, a.toNat % 8 = request.address.toNat % 8 →
      writable a) (hR : R m m') :
    Related₂ R (access phys request (u, m)) (access phys' request (u, m')) := by
  rw [MmuCore.access_eq, MmuCore.access_eq]
  cases hroute : u.route request with
  | physical =>
    have hva (hw : request.isWrite = true) :
        writable (u.passedTo request).physicalAddr := by
      refine ha (writesData_of_route (.inl hroute) hw) _ ?_
      rw [MmuCore.passedTo, BitVec.toNat_setWidth_of_le (by decide)]
    obtain ⟨hresp, -, hR⟩ := h.complete u request (u.passedTo request) hva hR
    refine ⟨?_, rfl, hR⟩
    dsimp only [follow, MmuCore.passOn]
    rw [hresp]
  | translated =>
    obtain ⟨t, v, n, n', hx, hx', hR⟩ := (h.translate u request.address request.asi
      request.isFetch request.isWrite request.isAtomic hR).exists
    dsimp only [follow, MmuCore.translateRequest]
    rw [hx, hx']
    cases ht : t with
    | none => exact ⟨rfl, rfl, hR⟩
    | some t =>
      refine h.complete v request t (fun hw => ?_) hR
      exact ha (writesData_of_route (.inr hroute) hw) _ (offset_of_translate (by rw [hx, ht]))
  | probe =>
    obtain ⟨found, n, n', hx, hx', hR⟩ := (h.probe u request.address hR).exists
    dsimp only [follow]
    rw [hx, hx']
    exact ⟨rfl, rfl, hR⟩
  | _ => exact ⟨rfl, rfl, hR⟩

end Simulates

end SparcV8
