import SparcV8.Apara.AgentBytes

/-!
# The data memories of engines, as all see them

All who write and read a byte of an engine's data memory agree on its address and its value. A write
changes the bytes it names, in all windows, and a read gives the big-endian value of the bytes that
it covers.
-/

namespace SparcV8.Apara

open Instruction List SlotWork Nat SystemBus

/-! ## Loads and stores of a slot -/

/-- A load or store of one slot, at an aligned address. -/
structure SlotWork.Transfers (w : SlotWork) : Prop where
  memory : w.memory = true
  bytes : w.bytes ∈ [1, 2, 4, 8, 16, 32]
  regs : w.regs = if w.bytes ≤ 8 then 1 else w.bytes / 8
  aligned : w.address.toNat % w.bytes = 0

variable {w : SlotWork}

namespace SlotWork.Transfers

variable (h : w.Transfers)
include h

/-- The sizes there are. -/
theorem sizes : w.bytes = 1 ∧ w.regs = 1 ∨ w.bytes = 2 ∧ w.regs = 1 ∨ w.bytes = 4 ∧ w.regs = 1 ∨
    w.bytes = 8 ∧ w.regs = 1 ∨ w.bytes = 16 ∧ w.regs = 2 ∨ w.bytes = 32 ∧ w.regs = 4 := by
  have hbytes := h.bytes
  rw [h.regs]
  simp only [mem_cons, not_mem_nil, or_false] at hbytes
  rcases hbytes with hb | hb | hb | hb | hb | hb <;> simp [hb]

/-- Up to eight bytes are within one doubleword. -/
theorem narrow (hone : w.bytes ≤ 8) : w.address.toNat % 8 + w.bytes ≤ 8 := by
  have haligned := h.aligned
  rcases h.sizes with ⟨hb, -⟩ | ⟨hb, -⟩ | ⟨hb, -⟩ | ⟨hb, -⟩ | ⟨hb, -⟩ | ⟨hb, -⟩ <;>
    rw [hb] at haligned hone ⊢ <;> omega

/-- More than eight are some whole ones. -/
theorem wide (hmany : ¬ w.bytes ≤ 8) : w.address.toNat % 8 = 0 ∧ w.bytes % 8 = 0 ∧
    16 ≤ w.bytes ∧ w.address.toNat + w.bytes ≤ 2 ^ 32 := by
  have hlt := w.address.isLt
  have haligned := h.aligned
  rcases h.sizes with ⟨hb, -⟩ | ⟨hb, -⟩ | ⟨hb, -⟩ | ⟨hb, -⟩ | ⟨hb, -⟩ | ⟨hb, -⟩ <;>
    rw [hb] at haligned hmany ⊢ <;> omega

/-- Every byte of the value is in one of its doublewords. -/
theorem index_lt {a : Nat} (ha : w.address.toNat ≤ a ∧ a < w.address.toNat + w.bytes) :
    a / 8 - w.address.toNat / 8 < w.regs := by
  have hregs := h.regs
  by_cases hone : w.bytes ≤ 8
  · have hfit := h.narrow hone
    rw [if_pos hone] at hregs
    omega
  · obtain ⟨h8, hbytes8, -, -⟩ := h.wide hone
    rw [if_neg hone] at hregs
    omega

end SlotWork.Transfers

/-- A byte of what is stored, by its place in the value. -/
def SlotWork.storedByte (w : SlotWork) (j : Nat) : BitVec 8 :=
  if w.bytes ≤ 8 then bigEndianByte w.bytes (w.storeData 0).toNat j
  else dwordByte (w.storeData (j / 8)) (j % 8)

/-- The registers that a load writes, if memory holds these bytes. -/
def SlotWork.loadedFrom (w : SlotWork) (bytes : Nat → BitVec 8) : List (RegIndex × BitVec 64) :=
  if w.bytes ≤ 8 then
    let v := BitVec.ofNat 64 (readBytes bytes w.address.toNat w.bytes)
    [(w.rd, if w.signExtendLoad then signExtend v (8 * w.bytes) else v)]
  else
    (range (w.bytes / 8)).map fun k =>
      (w.rd + BitVec.ofNat 5 k, BitVec.ofNat 64 (readBytes bytes (w.address.toNat + 8 * k) 8))

variable {k : Nat}

namespace AparaCore

variable {ts : ThreadState} {i : Instruction}

/-- A load or store that is not refused is one of these. -/
theorem transfers_memoryWork {code : BitVec 5} (htype : i.type = .fromCode code)
    (hvalid : i.checkValidity = true) (hopcode : i.opcode = .LOAD ∨ i.opcode = .STORE)
    (h : (memoryWork ts i).exception = .NONE) : (memoryWork ts i).Transfers := by
  have hcheck : i.type.valid = true ∧ 8 ≤ i.type.bits := by
    unfold checkValidity at hvalid
    rcases hopcode with hop | hop
    all_goals
      simp only [hop, Bool.and_eq_true, decide_eq_true_eq] at hvalid
      exact hvalid.1
  have hbits : i.type.bits ∈ [4, 8, 16, 32, 64, 128, 256] := by
    rw [htype]
    exact DataType.bits_fromCode code (by rw [← htype]; exact hcheck.1)
  have hbytes : i.transferBytes ∈ [1, 2, 4, 8, 16, 32] ∧
      i.transferRegisters = if i.transferBytes ≤ 8 then 1 else i.transferBytes / 8 := by
    have h8 := hcheck.2
    unfold transferBytes transferRegisters
    simp only [mem_cons, not_mem_nil, or_false] at hbits
    rcases hbits with hb | hb | hb | hb | hb | hb | hb
    · omega
    all_goals
      rw [hb]
      decide
  unfold memoryWork at h ⊢
  dsimp only at h ⊢
  generalize (ts.r i.rs1).setWidth 32 + (if i.immediate then BitVec.ofInt 32 i.immValue
    else (ts.r i.rs2).setWidth 32) = address at h ⊢
  split at h
  · cases h
  · next haligned =>
    rw [if_neg haligned]
    split <;> split <;> exact ⟨rfl, hbytes.1, hbytes.2, not_not.1 haligned⟩

variable (unit : DoubleUnit)

/-- Only loads and stores access memory. -/
theorem opcode_of_memory {address next : BitVec 32}
    (h : (executeInstruction unit ts i address next).memory = true) :
    i.opcode = .LOAD ∨ i.opcode = .STORE := by
  unfold executeInstruction at h
  split at h
  all_goals first
    | exact .inl ‹_›
    | exact .inr ‹_›
    | cases h
    | (split at h <;> cases h)
    | (split at h <;> split at h <;> cases h)

variable {word : BitVec 32}

/-- A load or store that is decoded has one of the types there are. -/
theorem decode_load_store (hvalid : (decode word).valid = true)
    (hopcode : (decode word).opcode = .LOAD ∨ (decode word).opcode = .STORE) :
    (decode word).checkValidity = true ∧
      ∃ code, (decode word).type = .fromCode code := by
  unfold decode at *
  dsimp only at *
  split at hvalid
  · next hv =>
    simp only [if_pos hv] at hopcode ⊢
    refine ⟨hvalid, word.extractLsb 25 21, ?_⟩
    rw [opcode_decodeFields] at hopcode
    unfold decodeFields
    rcases hopcode with hop | hop
    · simp only [hop]
    · simp only [hop]
  · exact absurd hvalid ‹_›

/-- An instruction that accesses memory does it in one of these ways, at an address aligned to its
size. -/
theorem transfers_executeSlot {b : Bundle} {s : Nat}
    (hmemory : (executeSlot unit ts b s (.decode word)).memory = true)
    (h : (executeSlot unit ts b s (.decode word)).exception = .NONE) :
    (executeSlot unit ts b s (.decode word)).Transfers := by
  unfold executeSlot at *
  split at h
  · cases h
  · next hvalid =>
    rw [if_neg hvalid] at hmemory ⊢
    rw [Bool.or_eq_true, Bool.not_eq_true', not_or, Bool.not_eq_false] at hvalid
    have hopcode := opcode_of_memory unit hmemory
    obtain ⟨hcheck, code, htype⟩ := decode_load_store hvalid.1 hopcode
    have hwork : executeInstruction unit ts (.decode word) (b.pc + BitVec.ofNat 32 s)
        (b.pc + BitVec.ofNat 32 b.size) = memoryWork ts (.decode word) := by
      unfold executeInstruction
      rcases hopcode with hop | hop
      · rw [hop]
      · rw [hop]
    rw [hwork] at h ⊢
    exact transfers_memoryWork htype hcheck hopcode h

/-- A load of thirty-two bytes at address 64, in slot 4. -/
theorem transfers_executeSlot_wide : (executeSlot default {} {} 4 (.decode 0xCE000440)).Transfers :=
  transfers_executeSlot default (by decide) (by decide)

/-- Doubleword `k` of a load or store: what it has of the value. -/
structure Part (c : AparaCore) (w : SlotWork) (k : Nat) (t : DwordTransaction) : Prop where
  store : t.store = w.store
  offIsland : t.offIsland = c.isOffIsland t.address
  address : t.address.toNat = w.address.toNat / 8 * 8 + 8 * k
  lanes : ∀ a : Nat, a / 8 = t.address.toNat / 8 → (t.lanes.getLsbD (7 - a % 8) = true ↔
    w.address.toNat ≤ a ∧ a < w.address.toNat + w.bytes)
  data : ∀ a : Nat, a / 8 = t.address.toNat / 8 → w.address.toNat ≤ a →
    a < w.address.toNat + w.bytes →
    dwordByte t.data (a % 8) = w.storedByte (a - w.address.toNat)

section Parts

variable {c : AparaCore} (h : w.Transfers)
include h

/-- At most eight bytes are in one doubleword. -/
theorem part_narrow (hone : w.bytes ≤ 8) :
    Part c w 0
      { slot := 0, part := 0, store := w.store, offIsland := c.isOffIsland (w.address &&& ~~~7),
        address := w.address &&& ~~~7,
        lanes := ((lowMask w.bytes) <<< (laneShift w / 8)).setWidth 8,
        data := (w.storeData 0 &&& lowMask (8 * w.bytes)) <<< laneShift w } := by
  have hround : (w.address &&& ~~~(7 : BitVec 32)).toNat = w.address.toNat / 8 * 8 :=
    toNat_and_not_low w.address 3
  have hplace : laneShift w = 8 * (8 - w.bytes - w.address.toNat % 8) := rfl
  have hfit := h.narrow hone
  have hrange {a : Nat} (ha : a / 8 = w.address.toNat / 8 * 8 / 8) :
      (w.address.toNat ≤ a ∧ a < w.address.toNat + w.bytes) ↔
        w.address.toNat % 8 ≤ a % 8 ∧ a % 8 < w.address.toNat % 8 + w.bytes := by omega
  refine ⟨rfl, rfl, hround, fun a ha => ?_, fun a ha hle hbound => ?_⟩
  · rw [hround] at ha
    rw [hrange ha, BitVec.getLsbD_setWidth, BitVec.getLsbD_shiftLeft, getLsbD_lowMask, hplace,
      Nat.mul_div_cancel_left _ (by decide)]
    simp only [Bool.and_eq_true, decide_eq_true_eq, Bool.not_eq_true', decide_eq_false_iff_not]
    omega
  · rw [hround] at ha
    obtain ⟨hle', hbound'⟩ := (hrange ha).1 ⟨hle, hbound⟩
    apply BitVec.eq_of_getLsbD_eq
    intro i hi
    rw [storedByte, if_pos hone, getLsbD_dwordByte, getLsbD_bigEndianByte,
      BitVec.getLsbD_shiftLeft, BitVec.getLsbD_and, getLsbD_lowMask, hplace]
    have hindex : 8 * (7 - a % 8) + i - 8 * (8 - w.bytes - w.address.toNat % 8) =
        8 * (w.bytes - 1 - (a - w.address.toNat)) + i := by omega
    have hwidth : 8 * (7 - a % 8) + i < 64 := by omega
    have hshift : ¬ 8 * (7 - a % 8) + i < 8 * (8 - w.bytes - w.address.toNat % 8) := by omega
    have hbits : 8 * (w.bytes - 1 - (a - w.address.toNat)) + i < 8 * w.bytes := by omega
    have hmask : 8 * (w.bytes - 1 - (a - w.address.toNat)) + i < 64 := by omega
    simp [hindex, hwidth, hshift, hbits, hmask]

/-- Sixteen or thirty-two bytes are in whole doublewords. -/
theorem part_wide (hmany : ¬ w.bytes ≤ 8) (hk : k < w.bytes / 8) :
    Part c w k
      { slot := 0, part := k, store := w.store,
        offIsland := c.isOffIsland ((w.address &&& ~~~7) + BitVec.ofNat 32 (8 * k)),
        address := (w.address &&& ~~~7) + BitVec.ofNat 32 (8 * k), lanes := BitVec.allOnes 8,
        data := w.storeData k } := by
  have hround : (w.address &&& ~~~(7 : BitVec 32)).toNat = w.address.toNat / 8 * 8 :=
    toNat_and_not_low w.address 3
  obtain ⟨h8, hbytes8, -, hfit⟩ := h.wide hmany
  have hsum : ((w.address &&& ~~~7) + BitVec.ofNat 32 (8 * k)).toNat =
      w.address.toNat / 8 * 8 + 8 * k := by
    rw [BitVec.toNat_add, BitVec.toNat_ofNat, hround]
    omega
  refine ⟨rfl, rfl, hsum, fun a ha => ?_, fun a ha hle hbound => ?_⟩
  · rw [hsum] at ha
    rw [BitVec.getLsbD_allOnes]
    exact iff_of_true (decide_eq_true (by omega)) (by omega)
  · rw [hsum] at ha
    have hdiv : (a - w.address.toNat) / 8 = k := by omega
    have hmod : (a - w.address.toNat) % 8 = a % 8 := by omega
    rw [storedByte, if_neg hmany, hdiv, hmod]

/-- The doublewords of a load or store. -/
theorem slotTransactions_eq :
    ∃ f, c.slotTransactions 0 w = (range w.regs).map f ∧
      ∀ k < w.regs, Part c w k (f k) := by
  have hregs := h.regs
  unfold slotTransactions
  rw [h.memory]
  refine ⟨_, rfl, fun k hk => ?_⟩
  by_cases hone : w.bytes ≤ 8
  · rw [if_pos hone] at hregs
    obtain rfl : k = 0 := by omega
    rw [if_neg (by omega)]
    exact part_narrow h hone
  · rw [if_neg hone] at hregs
    have hmany := (h.wide hone).2.2.1
    rw [if_pos (by omega)]
    exact part_wide h hone (by omega)

end Parts

end AparaCore

namespace EngineSystem

variable {δ : Type} {l : SystemAddressMap.Layout} {devices : PhysicalMemory δ}
variable {x : EngineSystem δ} {a : BitVec 64} {b : BitVec 8} {bytes : Nat → BitVec 8}

section Slot

open AparaCore

variable {e : Nat}

theorem slotAccess_eq :
    (slotAccess l devices e w x).2 = assemble e (transferAll (some (attachment l devices e).port)
      ((x.engines e).engine.slotTransactions 0 w) ((x.engines e).engine.dmem, x)).2 := rfl

/-- Nothing changes where the engine's own memory is put back as it is. -/
theorem byteAt_assemble_self (a : BitVec 64) :
    byteAt l (assemble e ((x.engines e).engine.dmem, x)) a = byteAt l x a := by
  refine byteAt_eq (samePlaces_assemble (m := (_, x))) (fun e' => ?_) a
  rw [dmem_assemble]
  split
  · next heq => rw [heq]
  · rfl

theorem routed_slotTransactions : Routed x e ((x.engines e).engine.slotTransactions 0 w) := by
  intro t ht
  unfold slotTransactions at ht
  split at ht
  · cases ht
  · obtain ⟨k, -, rfl⟩ := mem_map.1 ht
    split <;> rfl

variable (hl : WindowsApart l) (hx : Placed l x) (he : x.attached e = true) (hw : w.Transfers)

theorem samePlaces_slotAccess : SamePlaces x (slotAccess l devices e w x).2 := by
  rw [slotAccess_eq]
  exact (samePlaces_transferAll (m := (_, x)) devices _).trans samePlaces_assemble

include hl hx he hw

/-- A load or store of an engine changes the bytes it names. -/
theorem slotAccess_byte (hb : byteAt l x a = some b) :
    byteAt l (slotAccess l devices e w x).2 a =
      some (if w.store = true ∧ w.address.toNat ≤ a.toNat ∧
        a.toNat < w.address.toNat + w.bytes then w.storedByte (a.toNat - w.address.toNat)
        else b) := by
  obtain ⟨f, hf, hpart⟩ := slotTransactions_eq hw
  have hnames : (∃ t ∈ (x.engines e).engine.slotTransactions 0 w, Names t a) ↔
      w.store = true ∧ w.address.toNat ≤ a.toNat ∧ a.toNat < w.address.toNat + w.bytes := by
    constructor
    · rintro ⟨t, ht, hstore, hdword, hlane⟩
      rw [hf, mem_map] at ht
      obtain ⟨k, hk, rfl⟩ := ht
      have hp := hpart k (mem_range.1 hk)
      exact ⟨hp.store.symm.trans hstore, (hp.lanes a.toNat hdword).1 hlane⟩
    · rintro ⟨hstore, hrange⟩
      have hk : a.toNat / 8 - w.address.toNat / 8 < w.regs := hw.index_lt hrange
      have hp := hpart _ hk
      have hdword : a.toNat / 8 = (f (a.toNat / 8 - w.address.toNat / 8)).address.toNat / 8 := by
        rw [hp.address]
        omega
      exact ⟨_, by rw [hf]; exact mem_map_of_mem (mem_range.2 hk),
        hp.store.trans hstore, hdword, (hp.lanes a.toNat hdword).2 hrange⟩
  rw [slotAccess_eq, transferAll_byte devices hl hx he routed_slotTransactions
    ((byteAt_assemble_self a).trans hb), if_congr hnames rfl rfl]
  rintro t ht ⟨-, hdword, hlane⟩
  rw [hf, mem_map] at ht
  obtain ⟨k, hk, rfl⟩ := ht
  have hp := hpart k (mem_range.1 hk)
  obtain ⟨hle, hlt⟩ := (hp.lanes a.toNat hdword).1 hlane
  exact hp.data a.toNat hdword hle hlt

omit hl hx he in
/-- The part of a doubleword that a load of at most eight bytes is for. -/
theorem loadedValue_readBytes (hone : w.bytes ≤ 8) (bytes : Nat → BitVec 8) :
    loadedValue w (BitVec.ofNat 64 (readBytes bytes (w.address.toNat / 8 * 8) 8)) =
      (let v := BitVec.ofNat 64 (readBytes bytes w.address.toNat w.bytes)
       if w.signExtendLoad then signExtend v (8 * w.bytes) else v) := by
  have hfit := hw.narrow hone
  have hvalue : (BitVec.ofNat 64 (readBytes bytes (w.address.toNat / 8 * 8) 8) >>> laneShift w) &&&
      lowMask (8 * w.bytes) = BitVec.ofNat 64 (readBytes bytes w.address.toNat w.bytes) := by
    have hread := readBytes_of_bytes (a := w.address.toNat)
      (v := readBytes bytes (w.address.toNat / 8 * 8) 8) w.bytes hfit
      fun i hi => by
        rw [bigEndianByte_readBytes bytes _ (by omega)]
        congr 1
        omega
    have hpow (k : Nat) : 256 ^ k = 2 ^ (8 * k) := (pow_mul 2 8 k).symm
    have hplace : laneShift w = 8 * (8 - w.bytes - w.address.toNat % 8) := rfl
    apply BitVec.eq_of_getLsbD_eq
    intro i hi
    rw [hread, hpow, hpow, BitVec.getLsbD_and, BitVec.getLsbD_ushiftRight, getLsbD_lowMask,
      BitVec.getLsbD_ofNat, BitVec.getLsbD_ofNat, Nat.testBit_mod_two_pow, Nat.testBit_div_two_pow,
      hplace, Nat.sub_right_comm]
    by_cases hwidth : i < 8 * w.bytes
    · have hin : 8 * (8 - w.address.toNat % 8 - w.bytes) + i < 64 := by omega
      rw [Nat.add_comm i]
      simp [hi, hwidth, hin]
    · simp only [hwidth, decide_false, Bool.false_and, Bool.and_false]
  rw [loadedValue, hvalue]

/-- A load gives the big-endian value of the bytes it covers. -/
theorem slotAccess_loads (hload : w.store = false)
    (hbytes : ∀ k < w.regs, ∀ j < 8, byteAt l x (BitVec.ofNat 64 (w.address.toNat / 8 * 8 + 8 * k +
      j)) = some (bytes (w.address.toNat / 8 * 8 + 8 * k + j))) :
    loadWrites w (slotAccess l devices e w x).1 = w.loadedFrom bytes := by
  obtain ⟨f, hf, hpart⟩ := slotTransactions_eq hw
  have hmem {t : DwordTransaction} (ht : t ∈ (x.engines e).engine.slotTransactions 0 w) :
      ∃ k < w.regs, Part (x.engines e).engine w k t := by
    rw [hf, mem_map] at ht
    obtain ⟨k, hk, rfl⟩ := ht
    exact ⟨k, mem_range.1 hk, hpart k (mem_range.1 hk)⟩
  have hround {k : Nat} {t : DwordTransaction} (hp : Part (x.engines e).engine w k t) :
      t.address.toNat / 8 * 8 = w.address.toNat / 8 * 8 + 8 * k := by
    rw [hp.address]
    omega
  have hloads : (slotAccess l devices e w x).1 = ((x.engines e).engine.slotTransactions 0 w).map
      fun t => { t with
        data := BitVec.ofNat 64 (readBytes bytes (t.address.toNat / 8 * 8) 8), done := true } := by
    refine transferAll_loads devices hl hx he routed_slotTransactions
      (fun t ht => ?_) fun t ht j hj => ?_
    · obtain ⟨k, -, hp⟩ := hmem ht
      exact hp.store.trans hload
    · obtain ⟨k, hk, hp⟩ := hmem ht
      rw [byteAt_assemble_self, hround hp]
      exact hbytes k hk j hj
  have hregs := hw.regs
  rw [hloads, hf, map_map, loadWrites, if_neg (by rw [hload]; exact Bool.false_ne_true), loadedFrom]
  by_cases hone : w.bytes ≤ 8
  · rw [if_pos hone] at hregs
    rw [if_neg (by omega), if_pos hone, hregs]
    change [(w.rd, loadedValue w
      (BitVec.ofNat 64 (readBytes bytes ((f 0).address.toNat / 8 * 8) 8)))]
      = _
    rw [hround (hpart 0 (by omega)), Nat.mul_zero, add_zero, loadedValue_readBytes hw hone]
  · rw [if_neg hone] at hregs
    obtain ⟨h8, -, hmany, -⟩ := hw.wide hone
    rw [if_pos (by omega), if_neg hone, ← hregs]
    apply ext_getElem?
    intro k
    simp only [getElem?_mapIdx, getElem?_map]
    by_cases hk : k < w.regs
    · rw [getElem?_range hk]
      simp only [Option.map_some, Function.comp_apply]
      rw [hround (hpart k hk), Nat.div_mul_cancel (Nat.dvd_of_mod_eq_zero h8)]
    · rw [getElem?_eq_none (by rw [length_range]; omega)]
      rfl

end Slot

/-! ## Runs -/

section Runs

variable (l devices)
variable (d : BitVec 64)

/-- The word of a doubleword on the bus that a byte is in. -/
def hostWord (o : Nat) : Word := if o < 4 then lowWord d else highWord d

/-- What the host finds in a doubleword on the bus: `n` bytes from `o` on. -/
def hostValue (o n : Nat) : Nat :=
  if n ≤ 4 then (hostWord d o).toNat / 256 ^ (4 - o % 4 - n) % 256 ^ n
  else (lowWord d).toNat * 256 ^ 4 + (highWord d).toNat

/-- The byte that an access writes at an address, if it names that byte. -/
def written (access : Access) (x : EngineSystem δ) (a : BitVec 64) : Option (BitVec 8) :=
  match access with
  | .host r =>
    if r.accessType = .WRITE ∧ a.toNat / 8 = r.physicalAddress.toNat / 8 ∧
        r.byteMask.getLsbD (a.toNat % 8 / 4 * 4 + (3 - a.toNat % 4)) = true then
      some (bigEndianByte 4 (hostWord r.data (a.toNat % 8)).toNat (a.toNat % 4))
    else none
  | .engine _ w =>
    if w.store = true ∧ w.address.toNat ≤ a.toNat ∧ a.toNat < w.address.toNat + w.bytes then
      some (w.storedByte (a.toNat - w.address.toNat))
    else none
  | .dma e =>
    (x.engines e).dma.nextPiece.bind fun p =>
      if pieceTarget e p x ≤ a.toNat ∧ a.toNat < pieceTarget e p x + p.bytes then
        some (pieceByte l devices e p x (a.toNat - pieceTarget e p x))
      else none

/-- An access by an engine at the bus, as its instructions make it. -/
def Access.Possible (x : EngineSystem δ) : Access → Prop
  | .host _ => True
  | .engine e w => x.attached e = true ∧ w.Transfers
  | .dma e => x.attached e = true

/-- Accesses of all, one after the other. -/
def performAll : List Access → EngineSystem δ → EngineSystem δ
  | [], x => x
  | access :: accesses, x => performAll accesses (perform l devices access x)

/-- The byte that was written last at an address, if one was. -/
def lastWritten : List Access → EngineSystem δ → BitVec 64 → Option (BitVec 8)
  | [], _, _ => none
  | access :: accesses, x, a =>
    (lastWritten accesses (perform l devices access x) a).or (written l devices access x a)

/-- The bytes after these accesses: written last, or never written. -/
def contents (accesses : List Access) (x : EngineSystem δ) (k : Nat) : BitVec 8 :=
  (lastWritten l devices accesses x (BitVec.ofNat 64 k)).getD
    ((byteAt l x (BitVec.ofNat 64 k)).getD 0)

variable {l devices}

theorem Access.Possible.samePlaces {y : EngineSystem δ} {access : Access} (h : access.Possible x)
    (hxy : SamePlaces x y) : access.Possible y := by
  cases access with
  | host _ => trivial
  | engine e w => exact ⟨by rw [hxy.attached]; exact h.1, h.2⟩
  | dma e => exact (congrFun hxy.attached e).trans h

/-- The mask of the bus, by the bytes of its two words. -/
theorem names_eq_mask (mask : BitVec 8) (hk : k < 8) :
    names mask k = mask.getLsbD (k / 4 * 4 + (3 - k % 4)) := by
  rw [names, getLsbD_busMaskToDmemLanes _ (by omega)]
  congr 1
  split <;> omega

variable (devices) (hl : WindowsApart l)
include hl

/-- One access: whoever makes it, it changes the bytes that it names. -/
theorem perform_byte (hx : Placed l x) {access : Access} (h : access.Possible x)
    (hb : byteAt l x a = some b) :
    SamePlaces x (perform l devices access x) ∧
      byteAt l (perform l devices access x) a =
        some ((written l devices access x a).getD b) := by
  cases access with
  | host r =>
    refine ⟨samePlaces_access l devices r x, (access_byte devices r hx hb).1.trans ?_⟩
    have hmod : a.toNat % 8 % 4 = a.toNat % 4 := by omega
    rw [written, dwordByte_busToDmem r.data (mod_lt a.toNat (by decide)),
      names_eq_mask r.byteMask (mod_lt a.toNat (by decide)), hmod, hostWord]
    split <;> rfl
  | engine e w =>
    refine ⟨samePlaces_slotAccess, (slotAccess_byte hl hx h.1 h.2 hb).trans ?_⟩
    rw [written]
    split <;> rfl
  | dma e => exact movePiece_byte hl hx h hb

variable {accesses : List Access}

/-- Any accesses: a byte is what was written to it last. -/
theorem performAll_byte (hx : Placed l x) (h : ∀ access ∈ accesses, access.Possible x)
    (hb : byteAt l x a = some b) :
    SamePlaces x (performAll l devices accesses x) ∧
      byteAt l (performAll l devices accesses x) a =
        some ((lastWritten l devices accesses x a).getD b) := by
  induction accesses generalizing x b with
  | nil => exact ⟨.rfl, hb⟩
  | cons access accesses ih =>
    obtain ⟨hplaces, hbyte⟩ := perform_byte devices hl hx
      (h access mem_cons_self) hb
    obtain ⟨hplaces', hbyte'⟩ := ih (hplaces.placed hx)
      (fun access' hmem => (h access' (mem_cons_of_mem access hmem)).samePlaces hplaces) hbyte
    refine ⟨hplaces.trans hplaces', hbyte'.trans ?_⟩
    rw [lastWritten]
    cases lastWritten l devices accesses (perform l devices access x) a <;> rfl

/-- The bytes around one of a data memory are in the same one. -/
theorem byteAt_near (hx : Placed l x) (hb : byteAt l x a = some b)
    (hk : k / DMEM_BYTES = a.toNat / DMEM_BYTES) :
    ∃ b', byteAt l x (BitVec.ofNat 64 k) = some b' := by
  obtain ⟨⟨e, o⟩, hat, -⟩ := Option.map_eq_some_iff.1 hb
  obtain ⟨-, he, hle, ho⟩ := dmemAt_eq_some.1 hat
  obtain ⟨hbase, hbound⟩ := dmemBase_facts hl hx he
  have hsize : DMEM_BYTES = 65536 := rfl
  have hlt : o.val < 65536 := o.isLt
  rw [hsize] at hk hbase hbound
  have hk' : k - (x.engines e).dmemBase.toNat < DMEM_BYTES := by omega
  have htoNat : (BitVec.ofNat 64 k).toNat = k := by
    rw [BitVec.toNat_ofNat]
    omega
  have hown : dmemAt l x (BitVec.ofNat 64 k) = some (e, ⟨_, hk'⟩) :=
    (dmemAt_own hl hx he).2 (by rw [htoNat]; simp only; omega)
  exact ⟨_, by rw [byteAt, hown]; rfl⟩

/-- All bytes around one of a data memory are those written last. -/
theorem byteAt_performAll (hx : Placed l x) (h : ∀ access ∈ accesses, access.Possible x)
    (hb : byteAt l x a = some b) (hk : k / DMEM_BYTES = a.toNat / DMEM_BYTES) :
    byteAt l (performAll l devices accesses x) (BitVec.ofNat 64 k) =
      some (contents l devices accesses x k) := by
  obtain ⟨b', hb'⟩ := byteAt_near hl hx hb hk
  rw [(performAll_byte devices hl hx h hb').2, contents, hb', Option.getD_some]

omit hl in
/-- The host finds the big-endian values of the bytes. -/
theorem hostValue_read (hx : Placed l x) {r : PhysicalMemoryRequest} (hread : r.accessType = .READ)
    {A n : Nat} (hn : n ∈ [1, 2, 4, 8]) (hA : A % n = 0) (hin : A / 8 = r.physicalAddress.toNat / 8)
    (hbytes : ∀ k < n, byteAt l x (BitVec.ofNat 64 (A + k)) = some (bytes (A + k))) :
    hostValue (access l devices r x).1.readData (A % 8) n = readBytes bytes A n := by
  have hlt := r.physicalAddress.isLt
  have hfit : A % 8 + n ≤ 8 ∧ (n ≤ 4 → A % 4 + n ≤ 4) ∧ (4 < n → n = 8) := by
    simp only [mem_cons, not_mem_nil, or_false] at hn
    rcases hn with rfl | rfl | rfl | rfl <;> omega
  generalize hd : (access l devices r x).1.readData = d
  have hbyte {k : Nat} (hk : k < n) :
      bytes (A + k) = bigEndianByte 4 (hostWord d ((A + k) % 8)).toNat ((A + k) % 4) := by
    have htoNat : (BitVec.ofNat 64 (A + k)).toNat = A + k := by
      rw [BitVec.toNat_ofNat]
      omega
    have hmod : (A + k) % 8 % 4 = (A + k) % 4 := by omega
    have hgot := (access_byte devices r hx (hbytes k hk)).2 hread (by omega)
    rw [htoNat, hd, dwordByte_busToDmem d (mod_lt _ (by decide)), hmod] at hgot
    exact hgot.symm
  -- bytes of one word
  have hword {s m : Nat} (hs : s + m ≤ n) (hm : (A + s) % 4 + m ≤ 4) :
      readBytes bytes (A + s) m =
        (hostWord d ((A + s) % 8)).toNat / 256 ^ (4 - (A + s) % 4 - m) % 256 ^ m := by
    refine readBytes_of_bytes m hm fun i hi => ?_
    have hsame : hostWord d ((A + s + i) % 8) = hostWord d ((A + s) % 8) := by
      exact if_congr (by omega) rfl rfl
    have hplace : (A + s + i) % 4 = (A + s) % 4 + i := by omega
    have hsum := hbyte (show s + i < n by omega)
    rw [← Nat.add_assoc, hsame, hplace] at hsum
    exact hsum
  unfold hostValue
  by_cases hsmall : n ≤ 4
  · have hmod : A % 8 % 4 = A % 4 := by omega
    have hvalue := hword (s := 0) (by omega) (hfit.2.1 hsmall)
    rw [add_zero] at hvalue
    rw [if_pos hsmall, hmod, hvalue]
  · obtain rfl : n = 8 := hfit.2.2 (by omega)
    have hlow := hword (s := 0) (m := 4) (by omega) (by omega)
    have hhigh := hword (s := 4) (m := 4) (by omega) (by omega)
    have hA4 : A % 4 = 0 ∧ (A + 4) % 4 = 0 ∧ A % 8 = 0 ∧ (A + 4) % 8 = 4 := by omega
    obtain ⟨h0, h4, h0', h4'⟩ := hA4
    have hbound (o : Nat) : (hostWord d o).toNat < 256 ^ 4 := (hostWord d o).isLt
    rw [add_zero, h0, h0', Nat.sub_zero, Nat.sub_self, pow_zero, Nat.div_one,
      Nat.mod_eq_of_lt (hbound 0)] at hlow
    rw [h4, h4', Nat.sub_zero, Nat.sub_self, pow_zero, Nat.div_one,
      Nat.mod_eq_of_lt (hbound 4)] at hhigh
    rw [if_neg hsmall, readBytes_add bytes A 4 4, hlow, hhigh]
    rfl

end Runs

/-- Whoever writes, and whoever reads then: after any accesses of the host, of engines and of their
DMA units, a byte of a data memory is the one written last, and all that read a value with it get
the big-endian value of the bytes written last. -/
theorem agents_agree (devices : PhysicalMemory δ) (hl : WindowsApart l) {x : EngineSystem δ}
    (hx : Placed l x) {accesses : List Access} (h : ∀ access ∈ accesses, access.Possible x)
    {a : BitVec 64} {b : BitVec 8} (hb : byteAt l x a = some b) :
    let y := performAll l devices accesses x
    let bytes := contents l devices accesses x
    byteAt l y a = some ((lastWritten l devices accesses x a).getD b) ∧
      (∀ (r : PhysicalMemoryRequest) (A n : Nat), r.accessType = .READ → n ∈ [1, 2, 4, 8] →
        A % n = 0 → A / 8 = r.physicalAddress.toNat / 8 → A ≤ a.toNat → a.toNat < A + n →
        hostValue (access l devices r y).1.readData (A % 8) n = readBytes bytes A n) ∧
      (∀ (e : Nat) (w : SlotWork), y.attached e = true → w.Transfers → w.store = false →
        w.address.toNat ≤ a.toNat → a.toNat < w.address.toNat + w.bytes →
        AparaCore.loadWrites w (slotAccess l devices e w y).1 = w.loadedFrom bytes) ∧
      ∀ (e : Nat) (p : Piece), y.attached e = true → (y.engines e).dma.nextPiece = some p →
        pieceSource e p y ≤ a.toNat → a.toNat < pieceSource e p y + p.bytes →
        pieceByte l devices e p y (a.toNat - pieceSource e p y) = bytes a.toNat := by
  obtain ⟨hplaces, hbyte⟩ := performAll_byte devices hl hx h hb
  have hy := hplaces.placed hx
  have hsize : DMEM_BYTES = 65536 := rfl
  have hnear {k : Nat} (hk : k / DMEM_BYTES = a.toNat / DMEM_BYTES) :=
    byteAt_performAll devices hl hx h hb hk
  refine ⟨hbyte, ?_, ?_, ?_⟩
  · intro r A n hread hn hA hin hle hlt
    refine hostValue_read devices hy hread hn hA hin fun k hk => hnear ?_
    simp only [mem_cons, not_mem_nil, or_false] at hn
    rw [hsize]
    rcases hn with rfl | rfl | rfl | rfl <;> omega
  · intro e w he hw hload hle hlt
    refine slotAccess_loads hl hy he hw hload fun k hk j hj => hnear ?_
    rw [hsize]
    have haligned := hw.aligned
    rcases hw.sizes with ⟨hn, hr⟩ | ⟨hn, hr⟩ | ⟨hn, hr⟩ | ⟨hn, hr⟩ | ⟨hn, hr⟩ | ⟨hn, hr⟩ <;>
      rw [hn] at haligned hlt <;> omega
  · intro e p he hp hle hlt
    refine pieceByte_eq hl hy he hp ?_ hle hlt
    have hself := hnear rfl
    rwa [BitVec.ofNat_toNat, BitVec.setWidth_eq] at hself

section TwoEngines

/-- A cluster of two engines. -/
def twoEngines : SystemAddressMap.Layout :=
  { profile := .AJIT_APARA, clusters := 1, enginesPerCluster := 2 }

theorem windowsApart_twoEngines : WindowsApart twoEngines := by
  refine ⟨rfl, fun c i c' i' a hc hi hc' hi' h h' => ?_⟩
  change c < 1 at hc
  change i < 2 at hi
  change c' < 1 at hc'
  change i' < 2 at hi'
  simp only [SystemAddressMap.inEngineWindows, Bool.or_eq_true, Bool.and_eq_true,
    decide_eq_true_eq] at h h'
  unfold SystemAddressMap.aparaDmemBase SystemAddressMap.aparaCcuBase SystemAddressMap.aparaDmaBase
    at h h'
  omega

/-- Two engines as they are built, with no devices. -/
def twoEnginesAtRest : EngineSystem Unit :=
  { memory := ⟨fun _ => 0⟩, devices := (), engines := AparaSystemCore.initial 0,
    attached := fun e => decide (e < 2) }

theorem placed_twoEnginesAtRest : Placed twoEngines twoEnginesAtRest := by
  intro e he
  have hlt : e < 2 := of_decide_eq_true he
  exact ⟨⟨0, e, by decide, hlt, by omega, rfl, rfl, rfl⟩, rfl⟩

/-- A store of two bytes. -/
def storeTwo : SlotWork :=
  { memory := true, store := true, address := 0x01000002, bytes := 2, regs := 1,
    storeData := fun _ => 0xABCD }

/-- A load of the eight bytes around them. -/
def loadEight : SlotWork :=
  { memory := true, address := 0x01000000, bytes := 8, regs := 1, rd := 3 }

/-- The second engine stores two bytes into what the host has written. -/
def hostThenEngine : List Access :=
  [.host { accessType := .WRITE, lock := false, physicalAddress := 0x01000000,
           data := 0x0506070801020304, byteMask := 0xFF },
    .engine 1 storeTwo]

theorem agents_agree_hostThenEngine :
    AparaCore.loadWrites loadEight (slotAccess twoEngines noDevices 0 loadEight
      (performAll twoEngines noDevices hostThenEngine twoEnginesAtRest)).1 =
        [(3, 0x0102ABCD05060708)] := by
  have hpossible : ∀ access ∈ hostThenEngine, access.Possible twoEnginesAtRest := by
    intro access hmem
    simp only [hostThenEngine, mem_cons, not_mem_nil, or_false] at hmem
    rcases hmem with rfl | rfl
    · trivial
    · exact ⟨rfl, ⟨rfl, by decide, rfl, rfl⟩⟩
  have hagree := (agents_agree noDevices windowsApart_twoEngines
    placed_twoEnginesAtRest hpossible (a := 0x01000000) rfl).2.2.1 0 loadEight rfl
      ⟨rfl, by decide, rfl, rfl⟩ rfl
    (by decide) (by decide)
  rw [hagree]
  decide

end TwoEngines

end EngineSystem

end SparcV8.Apara
