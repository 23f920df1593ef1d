import SparcV8.Correctness.Handled

/-!
# Byte order of loads and stores

A store writes the big-endian bytes of its value at its effective address, a load returns the number
at its address, and an atomic access does both.
-/

namespace SparcV8

open Opcode SparcCore MemCore Option Nat BitVec

variable {nw : Nat}

/-! ## The bytes of the flat memory -/

/-- The byte at address `a`. -/
def MemCore.bytes (m : MemCore) (a : Nat) : BitVec 8 :=
  bigEndianByte 4 (m.core (a / 4)).toNat (a % 4)

variable {a : Word}

namespace MemCore

theorem readWord_of_lt (m : MemCore) (ha : a.toNat < memSize) :
    m.readWord a = m.core (a.toNat / 4) := by
  have h : a.toNat >>> 2 < nwords := by
    simp only [nwords, memSize, shiftRight_eq_div_pow] at *
    omega
  rw [readWord, if_pos h, shiftRight_eq_div_pow]

theorem bytes_writeWord (m : MemCore) (word : Word) (ha : a.toNat < memSize) (x : Nat) :
    (m.writeWord a word).bytes x =
      if x / 4 = a.toNat / 4 then bigEndianByte 4 word.toNat (x % 4) else m.bytes x := by
  have h : a.toNat >>> 2 < nwords := by
    simp only [nwords, memSize, shiftRight_eq_div_pow] at *
    omega
  rw [writeWord, if_pos h, shiftRight_eq_div_pow]
  simp only [bytes, Function.update_apply]
  split <;> rfl

end MemCore

/-- The mask bit of byte `j` of a doubleword. -/
def laneMask (byteMask : Word) (j : Nat) : Bool :=
  if j < 4 then byteMask.getLsbD (3 - j) else byteMask.getLsbD (11 - j)

/-- Byte `j` of a doubleword given as two words. -/
def laneByte (word0 word1 : Word) (j : Nat) : BitVec 8 :=
  if j < 4 then bigEndianByte 4 word0.toNat j else bigEndianByte 4 word1.toNat (j - 4)

theorem MemCore.bytes_writeMasked (m : MemCore) {request : VirtualMemoryRequest}
    (ha : request.address.toNat < memSize) (hal : request.address.toNat % 8 = 0) (x : Nat) :
    (m.writeMasked request (m.readWord request.address) (m.readWord (request.address + 4))).bytes
        x =
      if x / 8 = request.address.toNat / 8 ∧ laneMask request.byteMask (x % 8) = true then
        laneByte request.word0 request.word1 (x % 8)
      else m.bytes x := by
  have h4 : (request.address + 4).toNat = request.address.toNat + 4 := by
    rw [toNat_add]
    simp only [memSize] at ha
    change (request.address.toNat + 4) % 2 ^ 32 = _
    omega
  have ha4 : (request.address + 4).toNat < memSize := by
    simp only [memSize] at *
    omega
  have hlow : ∀ k, k < 4 → (readBits request.byteMask 3 0).getLsbD (3 - k) =
      request.byteMask.getLsbD (3 - k) := by
    intro k hk
    rw [getLsbD_readBits _ (by decide)]
    simp
  have hhigh : ∀ k, k < 4 → (readBits request.byteMask 7 4).getLsbD (3 - k) =
      request.byteMask.getLsbD (7 - k) := by
    intro k hk
    rw [getLsbD_readBits _ (by decide), show 4 + (3 - k) = 7 - k by omega]
    simp
  have hx4 : x % 4 < 4 := mod_lt _ (by decide)
  rw [writeMasked, bytes_writeWord _ _ ha4, bytes_writeWord _ _ ha, h4,
    bigEndianByte_mergeMaskedBytes _ _ _ hx4, bigEndianByte_mergeMaskedBytes _ _ _ hx4,
    hlow _ hx4, hhigh _ hx4, readWord_of_lt m ha, readWord_of_lt m ha4, h4]
  by_cases hd : x / 8 = request.address.toNat / 8
  · by_cases hl : x % 8 < 4
    · have h1 : ¬x / 4 = (request.address.toNat + 4) / 4 := by omega
      have h2 : x / 4 = request.address.toNat / 4 := by omega
      have h3 : x % 4 = x % 8 := by omega
      rw [if_neg h1, if_pos h2, h3]
      simp [h2, h3, hd, hl, laneMask, laneByte, bytes]
    · have h1 : x / 4 = (request.address.toNat + 4) / 4 := by omega
      have h2 : x % 8 - 4 = x % 4 := by omega
      have h3 : 11 - x % 8 = 7 - x % 4 := by omega
      simp [h1, h2, h3, hd, hl, laneMask, laneByte, bytes]
  · have h1 : ¬x / 4 = (request.address.toNat + 4) / 4 := by omega
    have h2 : ¬x / 4 = request.address.toNat / 4 := by omega
    simp only [h1, h2, hd, if_false, false_and]

/-! ## Placing the data of a store -/

/-- The number of bytes a store writes. -/
def storeSize : Opcode → Nat
  | STB => 1
  | STH => 2
  | .ST | STF => 4
  | STD | STDF => 8
  | _ => 0

/-- The number a store writes, of which the low bytes count. -/
def storedValue (op : Opcode) (reg : Registers nw) : Nat :=
  match op with
  | STB | STH | .ST => (reg.rR reg.rRd).toNat
  | STD => (reg.rR (reg.rRd &&& 0x1E)).toNat * 2 ^ 32 + (reg.rR (reg.rRd ||| 1)).toNat
  | STF => (reg.f reg.rRd).toNat
  | STDF => (reg.f (reg.rRd &&& 0x1E)).toNat * 2 ^ 32 + (reg.f (reg.rRd ||| 1)).toNat
  | _ => 0

/-- The `n`-byte number `v` at offset `o` of a word, under the mask of its bytes. -/
def WordPlaced (o n v : Nat) (mask data : Word) : Prop :=
  ∀ j < 4, mask.getLsbD (3 - j) = decide (o ≤ j ∧ j < o + n) ∧
    (o ≤ j → j < o + n → bigEndianByte 4 data.toNat j = bigEndianByte n v (j - o))

/-- The `n`-byte number `v` at offset `o` of a doubleword, under the mask of its bytes. -/
def DoublePlaced (o n v : Nat) (mask word0 word1 : Word) : Prop :=
  ∀ j < 8, laneMask mask j = decide (o ≤ j ∧ j < o + n) ∧
    (o ≤ j → j < o + n → laneByte word0 word1 j = bigEndianByte n v (j - o))

variable {n o : Nat} {mask : Word}

/-- A value moved up by `i` bytes, `i + n + o = 4`, stands at offset `o`. -/
theorem wordPlaced_shift {i : Nat} (w : Word) (h : o + n + i = 4)
    (hm : ∀ j < 4, mask.getLsbD (3 - j) = decide (o ≤ j ∧ j < o + n)) :
    WordPlaced o n w.toNat mask (w <<< (8 * i)) := by
  intro j hj
  refine ⟨hm j hj, fun hoj hjn => ?_⟩
  have hshift : (w <<< (8 * i)).toNat = w.toNat * 256 ^ i % 256 ^ 4 := by
    rw [BitVec.toNat_shiftLeft, Nat.shiftLeft_eq, pow_mul]
    rfl
  rw [hshift, bigEndianByte_mod 4 _ _ hj, bigEndianByte_shift 4 _ (by omega),
    ← bigEndianByte_low 4 w.toNat (by omega : n ≤ 4) (by omega : j - o < n)]
  congr 1
  omega

variable {v : Nat} {data : Word}

theorem doublePlaced_low {word1 : Word} (h : WordPlaced o n v mask data) (hm : mask.toNat < 16)
    (hon : o + n ≤ 4) : DoublePlaced o n v mask data word1 := by
  intro j hj
  by_cases hl : j < 4
  · obtain ⟨h1, h2⟩ := h j hl
    simp only [laneMask, laneByte, hl, if_true]
    exact ⟨h1, h2⟩
  · have hbit : mask.getLsbD (11 - j) = false := getLsbD_of_toNat_lt (n := 4) hm (by omega)
    refine ⟨?_, fun _ _ => by omega⟩
    simp only [laneMask, hl, if_false, hbit]
    exact (decide_eq_false (by omega)).symm

theorem doublePlaced_high {word0 : Word} (h : WordPlaced o n v mask data) :
    DoublePlaced (o + 4) n v (mask <<< 4) word0 data := by
  intro j hj
  by_cases hl : j < 4
  · refine ⟨?_, fun _ _ => by omega⟩
    simp only [laneMask, hl, if_true, getLsbD_shiftLeft]
    have h1 : 3 - j < 4 := by omega
    have h2 : ¬o + 4 ≤ j := by omega
    simp [h1, h2]
  · obtain ⟨h1, h2⟩ := h (j - 4) (by omega)
    have hbit : (mask <<< 4).getLsbD (11 - j) = mask.getLsbD (3 - (j - 4)) := by
      rw [getLsbD_shiftLeft]
      have h3 : 11 - j < 32 := by omega
      have h4 : ¬11 - j < 4 := by omega
      have h5 : 11 - j - 4 = 3 - (j - 4) := by omega
      simp [h3, h4, h5]
    simp only [laneMask, laneByte, hl, if_false, hbit, h1]
    refine ⟨decide_eq_decide.2 (by omega), fun hoj hjn => ?_⟩
    rw [h2 (by omega) (by omega)]
    congr 1
    omega

theorem doublePlaced_double (word0 word1 : Word) :
    DoublePlaced 0 8 (word0.toNat * 2 ^ 32 + word1.toNat) 0xFF word0 word1 := by
  intro j hj
  have hpow : (2 : Nat) ^ 32 = 256 ^ 4 := by norm_num
  have hlo : word1.toNat < 256 ^ 4 := hpow ▸ word1.isLt
  constructor
  · exact (by decide : ∀ j < 8, laneMask 0xFF j = decide (0 ≤ j ∧ j < 0 + 8)) j hj
  · intro _ _
    rw [Nat.sub_zero, hpow]
    unfold laneByte
    split
    · next hl => exact (bigEndianByte_concat_high hlo hl).symm
    · next hl =>
      have := (bigEndianByte_concat_low (by omega : j - 4 < 4) : bigEndianByte (4 + 4)
        (word0.toNat * 256 ^ 4 + word1.toNat) (4 + (j - 4)) = _)
      rw [← this, show 4 + (j - 4) = j by omega]

/-- The same for a value that is not moved. -/
theorem wordPlaced_unshifted (w : Word) (h : o + n = 4)
    (hm : ∀ j < 4, mask.getLsbD (3 - j) = decide (o ≤ j ∧ j < o + n)) :
    WordPlaced o n w.toNat mask w := by
  have hp := wordPlaced_shift (i := 0) w h hm
  rwa [Nat.mul_zero, BitVec.shiftLeft_zero] at hp

variable (x : Word)

theorem toNat_readBits_low : (readBits x 1 0).toNat = x.toNat % 4 :=
  toNat_readBits_zero x (by decide)

variable {s : SparcCore nw}

theorem wordPlaced_STB (h : storeData0 STB s = some (mask, data)) :
    WordPlaced (s.address.toNat % 4) 1 (s.reg.rR s.reg.rRd).toNat mask data ∧ mask.toNat < 16 := by
  simp only [storeData0, toNat_readBits_low] at h
  obtain ho | ho | ho | ho : s.address.toNat % 4 = 0 ∨ s.address.toNat % 4 = 1 ∨
      s.address.toNat % 4 = 2 ∨ s.address.toNat % 4 = 3 := by omega
  all_goals
    rw [ho] at h ⊢
    cases h
  · exact ⟨wordPlaced_shift (i := 3) _ rfl (by decide), by decide⟩
  · exact ⟨wordPlaced_shift (i := 2) _ rfl (by decide), by decide⟩
  · exact ⟨wordPlaced_shift (i := 1) _ rfl (by decide), by decide⟩
  · exact ⟨wordPlaced_unshifted _ rfl (by decide), by decide⟩

theorem wordPlaced_STH (hal : storeMisaligned STH s.address = false)
    (h : storeData0 STH s = some (mask, data)) :
    WordPlaced (s.address.toNat % 4) 2 (s.reg.rR s.reg.rRd).toNat mask data ∧
      mask.toNat < 16 ∧ s.address.toNat % 4 + 2 ≤ 4 := by
  have hbit : readBits s.address 0 0 = 0 := by simpa [storeMisaligned] using hal
  simp only [storeData0, ← toNat_inj, toNat_readBits_low] at h
  rcases readBits_low_of_bit_zero hbit with he | he
  all_goals
    rw [toNat_readBits_low] at he
    rw [he] at h ⊢
    cases h
  · exact ⟨wordPlaced_shift (i := 2) _ rfl (by decide), by decide, by decide⟩
  · exact ⟨wordPlaced_unshifted _ rfl (by decide), by decide, by decide⟩

variable {op : Opcode}

/-- The data of a byte, halfword or word store, in the word it goes to. -/
theorem wordPlaced_storeData0 (hop : op = STB ∨ op = STH ∨ op = .ST ∨ op = STF)
    (hal : storeMisaligned op s.address = false) (h : storeData0 op s = some (mask, data)) :
    WordPlaced (s.address.toNat % 4) (storeSize op) (storedValue op s.reg) mask data ∧
      mask.toNat < 16 ∧ s.address.toNat % 4 + storeSize op ≤ 4 := by
  have hword : readBits s.address 1 0 = 0 → s.address.toNat % 4 = 0 :=
    (readBits_low_eq_zero_iff s.address).1
  rcases hop with rfl | rfl | rfl | rfl
  · obtain ⟨hp, hm⟩ := wordPlaced_STB h
    have ho : s.address.toNat % 4 < 4 := mod_lt _ (by decide)
    exact ⟨hp, hm, ho⟩
  · exact wordPlaced_STH hal h
  · cases h
    rw [hword (by simpa [storeMisaligned] using hal)]
    exact ⟨wordPlaced_unshifted _ rfl (by decide), by decide, by decide⟩
  · cases h
    rw [hword (by simpa [storeMisaligned] using hal)]
    exact ⟨wordPlaced_unshifted _ rfl (by decide), by decide, by decide⟩

/-! ## Stores -/

/-- The stores that are not to an alternate space, of the FSR or of a queue. -/
def plainStore (op : Opcode) : Prop :=
  op = STB ∨ op = STH ∨ op = .ST ∨ op = STF ∨ op = STD ∨ op = STDF

/-- The effective address of an access that is not to an alternate space. -/
def SparcCore.effectiveAddress (s : SparcCore nw) : Nat := (s.operand1 + s.operand2).toNat

theorem toNat_and_not_four_div : (x &&& ~~~4).toNat / 8 = x.toNat / 8 := by
  apply Nat.eq_of_testBit_eq
  intro i
  have h4 : (4 : Word).getLsbD (i + 3) = false :=
    getLsbD_of_toNat_lt (by decide : _ < 2 ^ 3) (by omega)
  rw [show 8 = 2 ^ 3 from rfl, Nat.testBit_div_two_pow, Nat.testBit_div_two_pow,
    testBit_toNat, testBit_toNat, BitVec.getLsbD_and, BitVec.getLsbD_not, h4]
  by_cases hi : i + 3 < 32
  · simp [hi]
  · have hx : x.getLsbD (i + 3) = false := BitVec.getLsbD_of_ge x _ (by omega)
    simp [hx]

theorem umod_eight_eq_zero_iff : x % 8 = 0 ↔ x.toNat % 8 = 0 := by
  rw [← toNat_inj, BitVec.toNat_umod]
  rfl

/-- The doubleword a store writes, its mask and its data. -/
structure Placed (s t : SparcCore nw) (n v : Nat) : Prop where
  data : DoublePlaced (s.address.toNat % 8) n v t.byteMask t.writeWord0 t.writeWord1
  doubleword : t.address.toNat / 8 = s.address.toNat / 8
  /-- The access does not leave the doubleword. -/
  fits : s.address.toNat % 8 + n ≤ 8
  trap : t.trap = s.trap

variable {t : SparcCore nw}

theorem placed_single (hop : op = STB ∨ op = STH ∨ op = .ST ∨ op = STF)
    (hal : storeMisaligned op s.address = false) (h : placeStore op s = some t) :
    Placed s t (storeSize op) (storedValue op s.reg) := by
  have hdouble : op.isDoubleStoreInstruction = false := by
    rcases hop with rfl | rfl | rfl | rfl <;> rfl
  have hround : (s.address &&& ~~~3).toNat = s.address.toNat / 4 * 4 :=
    toNat_and_not_low s.address 2
  simp only [placeStore, hdouble, bind_eq_bind, bind_eq_some_iff] at h
  obtain ⟨⟨mask, data⟩, hdata, h⟩ := h
  obtain ⟨hp, hm, hfit⟩ := wordPlaced_storeData0 hop hal hdata
  simp only [if_off, umod_eight_eq_zero_iff, hround] at h
  split at h
  · next h8 =>
    cases h
    have ho : s.address.toNat % 8 = s.address.toNat % 4 := by omega
    refine ⟨?_, ?_, by omega, rfl⟩
    · rw [ho]
      exact doublePlaced_low hp hm hfit
    · change (s.address &&& ~~~3).toNat / 8 = _
      omega
  · next h8 =>
    cases h
    have ho : s.address.toNat % 8 = s.address.toNat % 4 + 4 := by omega
    refine ⟨?_, ?_, by omega, rfl⟩
    · rw [ho]
      exact doublePlaced_high hp
    · rw [toNat_and_not_four_div]
      omega

theorem placed_double (hop : op = STD ∨ op = STDF) (h : placeStore op s = some t) :
    Placed s t (storeSize op) (storedValue op s.reg) := by
  rcases hop with rfl | rfl
  all_goals
    simp only [placeStore, storeData0, storeData1, isDoubleStoreInstruction, bind_eq_bind,
      bind_some, umod_eight_eq_zero_iff] at h
    change (if s.address.toNat % 8 = 0 then _ else _) = _ at h
    split at h
    · next h8 =>
      cases h
      refine ⟨?_, rfl, ?_, rfl⟩
      · rw [h8]
        exact doublePlaced_double _ _
      · rw [h8]
        decide
    · cases h

/-- Writing the placed bytes is writing the number at its address. -/
theorem MemCore.bytes_access_of_placed (m : MemCore) (hp : Placed s t n v)
    (ha : s.address.toNat < memSize) (accessType : MemAccessType)
    (htype : accessType = .STORE ∨ accessType = .ATOMIC_LS) :
    (access (writeRequest accessType t) m).2.bytes =
      writeBytes m.bytes s.address.toNat n v := by
  have haddr : (writeRequest accessType t).address.toNat = s.address.toNat / 8 * 8 := by
    change (dwordAddress t.address).toNat = _
    rw [toNat_dwordAddress, hp.doubleword]
  have hmem : (access (writeRequest accessType t) m).2 =
      m.writeMasked (writeRequest accessType t) (m.readWord (writeRequest accessType t).address)
        (m.readWord ((writeRequest accessType t).address + 4)) := by
    rcases htype with rfl | rfl <;> rfl
  funext x
  rw [hmem, bytes_writeMasked m (by omega) (by omega), haddr]
  have hfit := hp.fits
  obtain ⟨hmask, hdata⟩ := hp.data (x % 8) (mod_lt _ (by decide))
  change (if x / 8 = s.address.toNat / 8 * 8 / 8 ∧ laneMask t.byteMask (x % 8) = true then
    laneByte t.writeWord0 t.writeWord1 (x % 8) else _) = _
  simp only [hmask, decide_eq_true_eq, writeBytes]
  split
  · next h =>
    rw [if_pos (by omega), hdata h.2.1 h.2.2]
    congr 1
    omega
  · next h => rw [if_neg (by omega)]

/-- An aligned store is placed. -/
theorem exists_placed (hop : plainStore op) (hal : storeMisaligned op s.address = false) :
    ∃ t, placeStore op s = some t ∧ Placed s t (storeSize op) (storedValue op s.reg) := by
  have hsome : (placeStore op s).isSome := by
    apply isSome_placeStore _ _ _ hal
    all_goals rcases hop with rfl | rfl | rfl | rfl | rfl | rfl <;> rfl
  obtain ⟨t, hplace⟩ := isSome_iff_exists.1 hsome
  obtain hop | hop : (op = STB ∨ op = STH ∨ op = .ST ∨ op = STF) ∨ (op = STD ∨ op = STDF) := by
    unfold plainStore at hop
    tauto
  · exact ⟨t, hplace, placed_single hop hal hplace⟩
  · exact ⟨t, hplace, placed_double hop hplace⟩

/-- The floating-point unit accepts the store. -/
def SparcCore.storeEnabled (op : Opcode) (s : SparcCore nw) : Prop :=
  op = STF ∨ op = STDF → s.fpuOff = false ∧ (op = STDF → s.reg.rRd.getLsbD 0 = false)

/-- The low bits of a multiple of a power of two. -/
theorem readBits_of_mod {k : Nat} (hk : k < 31) (h : a.toNat % 2 ^ (k + 1) = 0) :
    readBits a k 0 = 0 := by
  apply eq_of_toNat_eq
  rw [toNat_readBits_zero a (by omega)]
  exact h

theorem storeMisaligned_of_mod (hop : plainStore op) (h : a.toNat % storeSize op = 0) :
    storeMisaligned op a = false := by
  rcases hop with rfl | rfl | rfl | rfl | rfl | rfl
  · rfl
  · simpa [storeMisaligned] using readBits_of_mod (k := 0) (by decide) h
  · simpa [storeMisaligned] using readBits_of_mod (k := 1) (by decide) h
  · simpa [storeMisaligned] using readBits_of_mod (k := 1) (by decide) h
  · simpa [storeMisaligned] using readBits_of_mod (k := 2) (by decide) h
  · simpa [storeMisaligned] using readBits_of_mod (k := 2) (by decide) h

/-- An aligned store whose unit is enabled does not trap beforehand. -/
theorem executePreStore_of_enabled (hop : plainStore op) (ht : s.trap = false)
    (hal : s.effectiveAddress % storeSize op = 0) (hfp : s.storeEnabled op) :
    executePreStore op s = placeStore op s.setDataAddress := by
  have hmis : storeMisaligned op s.setDataAddress.address = false := storeMisaligned_of_mod hop hal
  have htrap : s.setDataAddress.trap = false := ht
  have hprivilege : storePrivilege op s = s := by
    rcases hop with rfl | rfl | rfl | rfl | rfl | rfl <;>
      exact (if_neg fun h => nomatch h.2).trans (if_neg fun h => nomatch h.2)
  have hunit : (between STF op STDFQ && s.setDataAddress.fpuOff) = false ∧
      (op == STDF && s.setDataAddress.reg.rRd.getLsbD 0) = false := by
    rcases hop with rfl | rfl | rfl | rfl | rfl | rfl
    case inr.inr.inr.inl => exact ⟨(hfp (.inl rfl)).1, rfl⟩
    case inr.inr.inr.inr.inr => exact ⟨(hfp (.inr rfl)).1, (hfp (.inr rfl)).2 rfl⟩
    all_goals exact ⟨rfl, rfl⟩
  have hother : storeAddress op s = s.setDataAddress ∧ between STC op STDCQ = false ∧
      (op == STDFQ) = false ∧ (op == STDCQ) = false := by
    rcases hop with rfl | rfl | rfl | rfl | rfl | rfl <;> exact ⟨rfl, rfl, rfl, rfl⟩
  simp only [executePreStore, hprivilege, ht, hother, storeUnitTraps, hunit, storeTraps, hmis,
    storeFpQueueTrap, storeCpQueueTrap, storeRegisterTrap, htrap, Bool.false_and, if_off]

theorem executeStore_bytes (s : SparcCore nw) (m : MemCore) (hop : plainStore op)
    (ha : s.effectiveAddress < memSize) :
    ∃ s' m', executeStore virtualMemory op s m = some (s', m') ∧
      (s'.trap = false →
        m'.bytes = writeBytes m.bytes s.effectiveAddress (storeSize op) (storedValue op s.reg)) ∧
      (s.trap = false → s.effectiveAddress % storeSize op = 0 → s.storeEnabled op →
        s'.trap = false) := by
  unfold executeStore
  rcases executePreStore_cases op s with ⟨t, h, ht⟩ | ⟨h, hal, -, -⟩
  · refine ⟨t, m, ?_, fun hf => ?_, fun h0 hal hfp => ?_⟩
    · simp [h, ht, bind_eq_bind]
    · cases ht.symm.trans hf
    · obtain ⟨t', hplace, hp⟩ := exists_placed (s := s.setDataAddress) hop
        (storeMisaligned_of_mod hop hal)
      rw [executePreStore_of_enabled hop h0 hal hfp, hplace] at h
      cases h
      exact hp.trap.trans h0
  · have haddr : storeAddress op s = s.setDataAddress := by
      rcases hop with rfl | rfl | rfl | rfl | rfl | rfl <;> rfl
    rw [haddr] at h hal
    obtain ⟨t, hplace, hp⟩ := exists_placed hop hal
    simp only [h, hplace, bind_eq_bind, bind_some]
    split
    · next ht =>
      refine ⟨t, m, rfl, fun hf => ?_, fun h0 _ _ => hp.trap.trans h0⟩
      cases ht.symm.trans hf
    · exact ⟨_, _, rfl, fun _ => bytes_access_of_placed m hp ha .STORE (.inl rfl),
        fun h0 _ _ => hp.trap.trans h0⟩

/-! ## Loads -/

/-- The registers after a load of the number at `a`, sign- or zero-extended; a doubleword goes to a
pair. -/
def loadedRegisters (op : Opcode) (reg : Registers nw) (b : Nat → BitVec 8) (a : Nat) :
    Registers nw :=
  match op with
  | LDSB => reg.wR reg.rRd ((BitVec.ofNat 8 (readBytes b a 1)).signExtend 32)
  | LDUB => reg.wR reg.rRd (BitVec.ofNat 32 (readBytes b a 1))
  | LDSH => reg.wR reg.rRd ((BitVec.ofNat 16 (readBytes b a 2)).signExtend 32)
  | LDUH => reg.wR reg.rRd (BitVec.ofNat 32 (readBytes b a 2))
  | LD => reg.wR reg.rRd (BitVec.ofNat 32 (readBytes b a 4))
  | LDD =>
    (reg.wR (reg.rRd &&& 0x1E) (BitVec.ofNat 32 (readBytes b a 4))).wR (reg.rRd ||| 1)
      (BitVec.ofNat 32 (readBytes b (a + 4) 4))
  | LDF => reg.wF reg.rRd (BitVec.ofNat 32 (readBytes b a 4))
  | LDDF =>
    (reg.wF (reg.rRd &&& 0x1E) (BitVec.ofNat 32 (readBytes b a 4))).wF (reg.rRd ||| 1)
      (BitVec.ofNat 32 (readBytes b (a + 4) 4))
  | _ => reg

namespace MemCore

/-- Bytes of one word read as a part of that word. -/
theorem readBytes_bytes (m : MemCore) {a k : Nat} (h : a % 4 + k ≤ 4) :
    readBytes m.bytes a k = (m.core (a / 4)).toNat / 256 ^ (4 - a % 4 - k) % 256 ^ k := by
  apply readBytes_of_bytes k h
  intro i hi
  have h1 : (a + i) / 4 = a / 4 := by omega
  have h2 : (a + i) % 4 = a % 4 + i := by omega
  rw [bytes, h1, h2]

theorem readBytes_word (m : MemCore) {a : Nat} (h : a % 4 = 0) :
    BitVec.ofNat 32 (readBytes m.bytes a 4) = m.core (a / 4) := by
  rw [readBytes_bytes m (by omega), h]
  have hlt := (m.core (a / 4)).isLt
  apply eq_of_toNat_eq
  rw [BitVec.toNat_ofNat]
  norm_num
  omega

end MemCore

theorem toNat_dwordAddress_add_four (a : Word) (ha : a.toNat < memSize) :
    (dwordAddress a + 4).toNat = a.toNat / 8 * 8 + 4 := by
  rw [toNat_add, toNat_dwordAddress]
  simp only [memSize] at ha
  change (a.toNat / 8 * 8 + 4) % 2 ^ 32 = _
  omega

/-- The words of the doubleword that contains an address. -/
theorem MemCore.readWord_doubleword (m : MemCore) (ha : a.toNat < memSize) :
    m.readWord (dwordAddress a) = m.core (a.toNat / 8 * 2) ∧
      m.readWord (dwordAddress a + 4) = m.core (a.toNat / 8 * 2 + 1) := by
  have h0 := toNat_dwordAddress a
  have h4 := toNat_dwordAddress_add_four a ha
  have hlt : a.toNat / 8 * 8 + 4 < memSize := by
    simp only [memSize] at *
    omega
  rw [readWord_of_lt m (by omega), readWord_of_lt m (by omega), h0, h4]
  constructor <;> congr 1 <;> omega

/-- The word of the doubleword that bit 2 of an address selects. -/
theorem MemCore.selected_word (m : MemCore) (ha : a.toNat < memSize) :
    (if readBits a 2 2 = 0 then m.readWord (dwordAddress a)
      else m.readWord (dwordAddress a + 4)) = m.core (a.toNat / 4) := by
  have hbit : (readBits a 2 2).toNat = a.toNat / 4 % 2 := toNat_readBits a (by decide)
  obtain ⟨h0, h4⟩ := m.readWord_doubleword ha
  rw [h0, h4]
  split
  · next h =>
    rw [h] at hbit
    congr 1
    change 0 = _ at hbit
    omega
  · next h =>
    have hne : a.toNat / 4 % 2 ≠ 0 := fun hz => h (eq_of_toNat_eq (hbit.trans hz))
    congr 1
    omega

theorem eq_ofNat_of_toNat_eq {b : Word} (h : b.toNat = v) : b = BitVec.ofNat 32 v := by
  rw [← h, BitVec.ofNat_toNat, BitVec.setWidth_eq]

/-- A byte of memory is a lane of its word. -/
theorem MemCore.byteLane_bytes (m : MemCore) (a : Word) :
    byteLane (m.core (a.toNat / 4)) (readBits a 1 0) =
      some (BitVec.ofNat 32 (readBytes m.bytes a.toNat 1)) := by
  have hread := m.readBytes_bytes (a := a.toNat) (k := 1) (by omega)
  unfold byteLane
  rw [toNat_readBits_low]
  obtain ha | ha | ha | ha : a.toNat % 4 = 0 ∨ a.toNat % 4 = 1 ∨ a.toNat % 4 = 2 ∨
      a.toNat % 4 = 3 := by omega
  all_goals
    rw [ha] at hread ⊢
    exact congrArg some (eq_ofNat_of_toNat_eq ((toNat_readBits _ (by decide)).trans hread.symm))

theorem MemCore.halfwordLane_bytes (m : MemCore) (h : readBits a 0 0 = 0) :
    halfwordLane (m.core (a.toNat / 4)) (readBits a 1 0) =
      some (BitVec.ofNat 32 (readBytes m.bytes a.toNat 2)) := by
  have hlow := readBits_low_of_bit_zero h
  rw [toNat_readBits_low] at hlow
  have hread := m.readBytes_bytes (a := a.toNat) (k := 2) (by omega)
  unfold halfwordLane
  rw [toNat_readBits_low]
  rcases hlow with ha | ha
  all_goals
    rw [ha] at hread ⊢
    exact congrArg some (eq_ofNat_of_toNat_eq ((toNat_readBits _ (by decide)).trans hread.symm))

/-- A number of at most `k + 1` bits, extended from there. -/
theorem extend_ofNat {k : Nat} (hk : k < 31) (hv : v < 2 ^ (k + 1)) :
    signExtend (BitVec.ofNat 32 v) k = (BitVec.ofNat (k + 1) v).signExtend 32 ∧
      zeroExtend (BitVec.ofNat 32 v) k = BitVec.ofNat 32 v := by
  have h32 : (BitVec.ofNat 32 v).toNat = v :=
    Nat.mod_eq_of_lt (hv.trans_le (Nat.pow_le_pow_right (by decide) (by omega)))
  refine ⟨?_, zeroExtend_eq hk (by rwa [h32])⟩
  rw [signExtend_eq hk (by rwa [h32]), h32]

variable {m : MemCore}

/-- The step after the access of a load that is no doubleword load. -/
theorem executePostLoad_single {word : Word} (hdouble : op.isDoubleLoadInstruction = false)
    (ha : s.address.toNat < memSize) (hmae : s.MAE = false) (ht : s.trap = false)
    (hvalue : loadedValue op s.address (m.core (s.address.toNat / 4)) = some word)
    (hwrite : writeLoaded op s word = some t) :
    executePostLoad op (m.readWord (dwordAddress s.address))
        (m.readWord (dwordAddress s.address + 4)) s = some t := by
  simp only [executePostLoad, hmae, hdouble, if_off, m.selected_word ha,
    hvalue, ht, bind_eq_bind, bind_some, hwrite]

/-- The loads that are not to an alternate space and not of the FSR. -/
def plainLoad (op : Opcode) : Prop :=
  op = LDSB ∨ op = LDUB ∨ op = LDSH ∨ op = LDUH ∨ op = LD ∨ op = LDD ∨ op = LDF ∨ op = LDDF

/-- An aligned doubleword read as the numbers at its two words. -/
theorem MemCore.readWord_pair (m : MemCore) (ha : a.toNat < memSize) (hal : readBits a 2 0 = 0) :
    m.readWord (dwordAddress a) = BitVec.ofNat 32 (readBytes m.bytes a.toNat 4) ∧
      m.readWord (dwordAddress a + 4) =
        BitVec.ofNat 32 (readBytes m.bytes (a.toNat + 4) 4) := by
  have h8 : a.toNat % 8 = 0 := (umod_eight_eq_zero_iff a).1 (umod_eight_of_aligned hal)
  obtain ⟨h0, h4⟩ := m.readWord_doubleword ha
  rw [h0, h4, readBytes_word m (by omega), readBytes_word m (by omega)]
  constructor <;> congr 1 <;> omega

/-- The registers after the step behind the memory access of a load. -/
theorem executePostLoad_bytes (hop : plainLoad op) (hal : loadMisaligned op s.address = false)
    (ha : s.address.toNat < memSize) (hmae : s.MAE = false) (ht : s.trap = false) :
    executePostLoad op (m.readWord (dwordAddress s.address))
        (m.readWord (dwordAddress s.address + 4)) s =
      some { s with reg := loadedRegisters op s.reg m.bytes s.address.toNat } := by
  rcases hop with rfl | rfl | rfl | rfl | rfl | rfl | rfl | rfl
  · refine executePostLoad_single rfl ha hmae ht
      (by rw [loadedValue, m.byteLane_bytes, map_some]) ?_
    rw [signExtendByte, (extend_ofNat (by decide) (readBytes_lt _ _ 1)).1]
    rfl
  · refine executePostLoad_single rfl ha hmae ht
      (by rw [loadedValue, m.byteLane_bytes, map_some]) ?_
    rw [zeroExtendByte, (extend_ofNat (by decide) (readBytes_lt _ _ 1)).2]
    rfl
  · have hbit : readBits s.address 0 0 = 0 := by simpa [loadMisaligned] using hal
    refine executePostLoad_single rfl ha hmae ht
      (by rw [loadedValue, m.halfwordLane_bytes hbit, map_some]) ?_
    rw [signExtendHalfword, (extend_ofNat (by decide) (readBytes_lt _ _ 2)).1]
    rfl
  · have hbit : readBits s.address 0 0 = 0 := by simpa [loadMisaligned] using hal
    refine executePostLoad_single rfl ha hmae ht
      (by rw [loadedValue, m.halfwordLane_bytes hbit, map_some]) ?_
    rw [zeroExtendHalfword, (extend_ofNat (by decide) (readBytes_lt _ _ 2)).2]
    rfl
  · have h4 : s.address.toNat % 4 = 0 :=
      (readBits_low_eq_zero_iff _).1 (by simpa [loadMisaligned] using hal)
    refine executePostLoad_single rfl ha hmae ht rfl ?_
    rw [← m.readBytes_word h4]
    rfl
  · obtain ⟨h0, h4⟩ := m.readWord_pair ha (by simpa [loadMisaligned] using hal)
    simp only [executePostLoad, hmae, h0, h4]
    rfl
  · have h4 : s.address.toNat % 4 = 0 :=
      (readBits_low_eq_zero_iff _).1 (by simpa [loadMisaligned] using hal)
    refine executePostLoad_single rfl ha hmae ht rfl ?_
    rw [← m.readBytes_word h4]
    rfl
  · obtain ⟨h0, h4⟩ := m.readWord_pair ha (by simpa [loadMisaligned] using hal)
    simp only [executePostLoad, hmae, h0, h4]
    rfl

/-- The number of bytes a load reads. -/
def loadSize : Opcode → Nat
  | LDSB | LDUB => 1
  | LDSH | LDUH => 2
  | LD | LDF => 4
  | LDD | LDDF => 8
  | _ => 0

/-- The floating-point unit accepts the load. -/
def SparcCore.loadEnabled (op : Opcode) (s : SparcCore nw) : Prop :=
  op = LDF ∨ op = LDDF → s.fpuOff = false ∧ s.anFPUSequenceErrorIsDetected = false ∧
    (op = LDDF → s.reg.rRd.getLsbD 0 = false)

theorem loadMisaligned_of_mod (hop : plainLoad op) (h : a.toNat % loadSize op = 0) :
    loadMisaligned op a = false := by
  rcases hop with rfl | rfl | rfl | rfl | rfl | rfl | rfl | rfl
  · rfl
  · rfl
  · simpa [loadMisaligned] using readBits_of_mod (k := 0) (by decide) h
  · simpa [loadMisaligned] using readBits_of_mod (k := 0) (by decide) h
  · simpa [loadMisaligned] using readBits_of_mod (k := 1) (by decide) h
  · simpa [loadMisaligned] using readBits_of_mod (k := 2) (by decide) h
  · simpa [loadMisaligned] using readBits_of_mod (k := 1) (by decide) h
  · simpa [loadMisaligned] using readBits_of_mod (k := 2) (by decide) h

theorem loadAddress_of_plain (hop : plainLoad op) (s : SparcCore nw) :
    loadAddress op s = s.setDataAddress := by
  rcases hop with rfl | rfl | rfl | rfl | rfl | rfl | rfl | rfl <;> rfl

/-- An aligned load whose unit is enabled does not trap beforehand. -/
theorem executePreLoad_of_enabled (hop : plainLoad op) (ht : s.trap = false)
    (hal : s.effectiveAddress % loadSize op = 0) (hfp : s.loadEnabled op) :
    executePreLoad op s = s.setDataAddress := by
  have hmis : loadMisaligned op s.setDataAddress.address = false := loadMisaligned_of_mod hop hal
  have htrap : s.setDataAddress.trap = false := ht
  have hfp' : s.setDataAddress.loadEnabled op := hfp
  rw [executePreLoad, loadAddress_of_plain hop]
  simp only [htrap, if_off, loadTraps, hmis]
  rcases hop with rfl | rfl | rfl | rfl | rfl | rfl | rfl | rfl
  · rfl
  · rfl
  · rfl
  · rfl
  · rfl
  · rfl
  · obtain ⟨h1, h2, -⟩ := hfp' (.inl rfl)
    simp only [h1, h2, Bool.and_false, if_off]
    rfl
  · obtain ⟨h1, h2, h3⟩ := hfp' (.inr rfl)
    simp only [h1, h2, h3 rfl, Bool.and_false, if_off]
    rfl

theorem executeLoad_bytes (s : SparcCore nw) (m : MemCore) (hop : plainLoad op)
    (ha : s.effectiveAddress < memSize) :
    ∃ s', executeLoad virtualMemory op s m = some (s', m) ∧
      (s'.trap = false → s'.reg = loadedRegisters op s.reg m.bytes s.effectiveAddress) ∧
      (s.trap = false → s.effectiveAddress % loadSize op = 0 → s.loadEnabled op →
        s'.trap = false) := by
  simp only [executeLoad]
  split
  · next ht =>
    refine ⟨_, rfl, fun hf => ?_, fun h0 hal hfp => ?_⟩
    · cases ht.symm.trans hf
    · rw [executePreLoad_of_enabled hop h0 hal hfp]
      exact h0
  · next ht =>
    obtain ⟨heq, hal, -⟩ := (executePreLoad_cases op s).resolve_left ht
    rw [loadAddress_of_plain hop] at heq hal
    rw [heq] at ht ⊢
    have hpost := executePostLoad_bytes (s := { s.setDataAddress with MAE := false }) (m := m)
      hop hal ha rfl (by simpa using ht)
    have haccess : access (loadRequest op s.setDataAddress) m =
        ({ readWord0 := m.readWord (dwordAddress s.setDataAddress.address),
           readWord1 := m.readWord (dwordAddress s.setDataAddress.address + 4) }, m) := rfl
    refine ⟨{ s.setDataAddress with
      MAE := false, reg := loadedRegisters op s.reg m.bytes s.effectiveAddress },
      ?_, fun _ => rfl, fun h0 _ _ => h0⟩
    simp only [virtualMemory, haccess]
    change (do let t ← executePostLoad op _ _ _; some (t, m)) = _
    rw [hpost]
    rfl

/-! ## Atomic load-stores -/

/-- The number of bytes an atomic access exchanges. -/
def atomicSize (op : Opcode) : Nat := if op = LDSTUB then 1 else 4

/-- The number an atomic access writes. -/
def atomicStoredValue (op : Opcode) (reg : Registers nw) : Nat :=
  if op = LDSTUB then 0xFF else (reg.rR reg.rRd).toNat

/-- The registers after an atomic: the destination gets the number from `a`. -/
def atomicRegisters (op : Opcode) (reg : Registers nw) (b : Nat → BitVec 8) (a : Nat) :
    Registers nw :=
  reg.wR reg.rRd (BitVec.ofNat 32 (readBytes b a (atomicSize op)))

theorem doublePlaced_ldstub (h : ldstubMask (readBits a 2 0) = some mask) :
    DoublePlaced (a.toNat % 8) 1 0xFF mask 0xffffffff 0xffffffff := by
  have hlow : (readBits a 2 0).toNat = a.toNat % 8 := toNat_readBits_zero a (by decide)
  have hplaced : ∀ o < 8, ∀ j < 8,
      (laneMask (BitVec.ofNat 32 (if o < 4 then 8 >>> o else 0x80 >>> (o - 4))) j =
        decide (o ≤ j ∧ j < o + 1)) ∧
      laneByte 0xffffffff 0xffffffff j = bigEndianByte 1 0xFF (j - o) := by
    decide
  have ho : a.toNat % 8 < 8 := mod_lt _ (by decide)
  have hmask : mask = BitVec.ofNat 32
      (if a.toNat % 8 < 4 then 8 >>> (a.toNat % 8) else 0x80 >>> (a.toNat % 8 - 4)) := by
    unfold ldstubMask at h
    rw [hlow] at h
    split at h
    all_goals first
      | (next he => cases h; rw [he]; rfl)
      | cases h
  intro j hj
  rw [hmask]
  obtain ⟨h1, h2⟩ := hplaced _ ho j hj
  exact ⟨h1, fun _ _ => h2⟩

theorem doublePlaced_swap (word : Word) (hal : readBits a 1 0 = 0)
    (h : swapMask (readBits a 2 0) = some mask) :
    DoublePlaced (a.toNat % 8) 4 word.toNat mask word word ∧ a.toNat % 8 + 4 ≤ 8 := by
  have hlow : (readBits a 2 0).toNat = a.toNat % 8 := toNat_readBits_zero a (by decide)
  have h4 : a.toNat % 4 = 0 := (readBits_low_eq_zero_iff a).1 hal
  have hword : WordPlaced 0 4 word.toNat 0x0F word := wordPlaced_unshifted word rfl (by decide)
  unfold swapMask at h
  rw [hlow] at h
  split at h
  · next he =>
    cases h
    rw [he]
    exact ⟨doublePlaced_low hword (by decide) (by decide), by decide⟩
  · omega
  · next he =>
    cases h
    rw [he]
    have hhigh : DoublePlaced (0 + 4) 4 word.toNat ((0x0F : Word) <<< (4 : Nat)) word word :=
      doublePlaced_high hword
    rw [show (0x0F : Word) <<< (4 : Nat) = 0xF0 by decide] at hhigh
    exact ⟨hhigh, by decide⟩
  · omega
  · cases h

section

variable (hop : op = LDSTUB ∨ op = SWAP)
include hop

/-- What the step before the access of an atomic leaves for it. -/
theorem placed_placeAtomic
    (hal : ((op == SWAP || op == SWAPA) && readBits s.address 1 0 != 0) = false)
    (h : placeAtomic op s = some t) :
    Placed s t (atomicSize op) (atomicStoredValue op s.reg) ∧ t.address = s.address ∧
      ∀ v, (t.reg.wR t.reg.rRd v).G = (s.reg.wR s.reg.rRd v).G ∧
        (t.reg.wR t.reg.rRd v).R = (s.reg.wR s.reg.rRd v).R := by
  have ho : s.address.toNat % 8 < 8 := mod_lt _ (by decide)
  rcases hop with rfl | rfl
  · change (do let byteMask ← ldstubMask (readBits s.address 2 0); _) = some t at h
    simp only [bind_eq_bind, bind_eq_some_iff] at h
    obtain ⟨mask, hmask, h⟩ := h
    cases h
    exact ⟨⟨doublePlaced_ldstub hmask, rfl, ho, rfl⟩, rfl, fun v => ⟨rfl, rfl⟩⟩
  · change (do let byteMask ← swapMask (readBits s.address 2 0); _) = some t at h
    simp only [bind_eq_bind, bind_eq_some_iff] at h
    obtain ⟨mask, hmask, h⟩ := h
    cases h
    obtain ⟨hp, hfit⟩ := doublePlaced_swap (s.reg.rR s.reg.rRd) (by simpa using hal) hmask
    exact ⟨⟨hp, rfl, hfit, rfl⟩, rfl, fun v => ⟨rfl, rfl⟩⟩

theorem atomicValue_bytes (hal : ((op == SWAP || op == SWAPA) && readBits a 1 0 != 0) = false) :
    atomicValue op a (m.core (a.toNat / 4)) =
      some (BitVec.ofNat 32 (readBytes m.bytes a.toNat (atomicSize op))) := by
  rcases hop with rfl | rfl
  · change (byteLane _ _).map zeroExtendByte = _
    rw [m.byteLane_bytes, map_some, zeroExtendByte,
      (extend_ofNat (by decide) (readBytes_lt _ _ 1)).2]
    rfl
  · have h4 : a.toNat % 4 = 0 := (readBits_low_eq_zero_iff a).1 (by simpa using hal)
    change some _ = some (BitVec.ofNat 32 (readBytes m.bytes a.toNat 4))
    rw [m.readBytes_word h4]

theorem atomicAddress_of_plain (s : SparcCore nw) : atomicAddress op s = s.setDataAddress := by
  rcases hop with rfl | rfl <;> rfl

/-- The alignment check of a naturally aligned atomic access. -/
theorem atomic_aligned (hal : a.toNat % atomicSize op = 0) :
    ((op == SWAP || op == SWAPA) && readBits a 1 0 != 0) = false := by
  rcases hop with rfl | rfl
  · rfl
  · have h4 : readBits a 1 0 = 0 := (readBits_low_eq_zero_iff _).2 hal
    simp [h4]

/-- An aligned atomic access does not trap before the access. -/
theorem executePreAtomicLoadStore_of_aligned (ht : s.trap = false)
    (hal : s.setDataAddress.address.toNat % atomicSize op = 0) :
    executePreAtomicLoadStore op s = placeAtomic op s.setDataAddress := by
  have htrap : s.setDataAddress.trap = false := ht
  simp only [executePreAtomicLoadStore, atomicAddress_of_plain hop, atomicAlignment,
    atomic_aligned hop hal, if_off, htrap]

/-- The step behind the access of an atomic instruction. -/
theorem executePostAtomicLoadStore_bytes
    (hal : ((op == SWAP || op == SWAPA) && readBits s.address 1 0 != 0) = false)
    (ha : s.address.toNat < memSize) (hmae : s.MAE = false) :
    executePostAtomicLoadStore op (m.readWord (dwordAddress s.address))
        (m.readWord (dwordAddress s.address + 4)) s =
      some (SparcCore.releaseBlock { s with
        reg := atomicRegisters op s.reg m.bytes s.address.toNat }) := by
  simp only [executePostAtomicLoadStore, hmae, m.selected_word ha, atomicValue_bytes hop hal,
    atomicRegisters, if_off, bind_eq_bind, bind_some]

end

theorem executeAtomic_bytes (s : SparcCore nw) (m : MemCore) (hop : op = LDSTUB ∨ op = SWAP)
    (ha : s.effectiveAddress < memSize) :
    ∃ s' m', executeAtomic virtualMemory op s m = some (s', m') ∧
      (s'.trap = false →
        m'.bytes = writeBytes m.bytes s.effectiveAddress (atomicSize op)
          (atomicStoredValue op s.reg) ∧
        s'.reg.G = (atomicRegisters op s.reg m.bytes s.effectiveAddress).G ∧
        s'.reg.R = (atomicRegisters op s.reg m.bytes s.effectiveAddress).R) ∧
      (s.trap = false → s.effectiveAddress % atomicSize op = 0 → s'.trap = false) := by
  unfold executeAtomic
  rcases executePreAtomicLoadStore_cases op s with ⟨t, h, ht⟩ | ⟨h, hal⟩
  · refine ⟨t, m, ?_, fun hf => ?_, fun h0 hal => ?_⟩
    · simp [h, ht, bind_eq_bind]
    · cases ht.symm.trans hf
    · rw [executePreAtomicLoadStore_of_aligned hop h0 hal] at h
      have hcheck := atomic_aligned (a := s.setDataAddress.address) hop hal
      rw [(placed_placeAtomic hop hcheck h).1.trap]
      exact h0
  · rw [atomicAddress_of_plain hop] at h hal
    obtain ⟨t, hplace⟩ := isSome_iff_exists.1 (isSome_placeAtomic hal)
    obtain ⟨hp, haddr, hregs⟩ := placed_placeAtomic hop hal hplace
    simp only [h, hplace, bind_eq_bind, bind_some]
    split
    · next ht =>
      refine ⟨t, m, rfl, fun hf => ?_, fun h0 _ => ?_⟩
      · cases ht.symm.trans hf
      · rw [hp.trap]
        exact h0
    · have hmem := bytes_access_of_placed m hp ha .ATOMIC_LS (.inr rfl)
      have hpost := executePostAtomicLoadStore_bytes (s := { t with MAE := false }) (m := m) hop
        (haddr ▸ hal) (by rw [haddr]; exact ha) rfl
      have hea : t.address.toNat = s.effectiveAddress := by rw [haddr]; rfl
      refine ⟨SparcCore.releaseBlock { t with
          MAE := false, reg := atomicRegisters op t.reg m.bytes t.address.toNat },
        (access (writeRequest .ATOMIC_LS t) m).2, ?_, fun _ => ⟨hmem, ?_, ?_⟩,
        fun h0 _ => hp.trap.trans h0⟩
      · change (executePostAtomicLoadStore op (m.readWord (dwordAddress t.address))
          (m.readWord (dwordAddress t.address + 4)) { t with MAE := false }).bind _ = _
        rw [hpost]
        rfl
      · exact hea ▸ (hregs _).1
      · exact hea ▸ (hregs _).2

/-! ## Loads after stores -/

/-- A store changes exactly the bytes of its value, big-endian at its address; a following load
returns the number then in memory at its own address; and an atomic access returns the old number
and writes the new one. -/
theorem store_load_byteOrder (s t : SparcCore nw) (m : MemCore)
    (hs : s.effectiveAddress < memSize) (ht : t.effectiveAddress < memSize) :
    (∀ op, plainStore op →
      ∃ s' m', executeStore virtualMemory op s m = some (s', m') ∧
        (s'.trap = false →
          m'.bytes = writeBytes m.bytes s.effectiveAddress (storeSize op) (storedValue op s.reg)) ∧
        (s.trap = false → s.effectiveAddress % storeSize op = 0 → s.storeEnabled op →
          s'.trap = false) ∧
        ∀ op', plainLoad op' →
          ∃ t', executeLoad virtualMemory op' t m' = some (t', m') ∧
            (t'.trap = false →
              t'.reg = loadedRegisters op' t.reg m'.bytes t.effectiveAddress) ∧
            (t.trap = false → t.effectiveAddress % loadSize op' = 0 → t.loadEnabled op' →
              t'.trap = false)) ∧
    (∀ op, op = LDSTUB ∨ op = SWAP →
      ∃ s' m', executeAtomic virtualMemory op s m = some (s', m') ∧
        (s'.trap = false →
          m'.bytes = writeBytes m.bytes s.effectiveAddress (atomicSize op)
            (atomicStoredValue op s.reg) ∧
          s'.reg.G = (atomicRegisters op s.reg m.bytes s.effectiveAddress).G ∧
          s'.reg.R = (atomicRegisters op s.reg m.bytes s.effectiveAddress).R) ∧
        (s.trap = false → s.effectiveAddress % atomicSize op = 0 → s'.trap = false)) := by
  refine ⟨fun op hop => ?_, fun op hop => executeAtomic_bytes s m hop hs⟩
  obtain ⟨s', m', hstore, hbytes, hquiet⟩ := executeStore_bytes s m hop hs
  exact ⟨s', m', hstore, hbytes, hquiet, fun op' hop' => executeLoad_bytes t m' hop' ht⟩

/-- The core executes `sth %r1, [2]`, with 0x1234CAFE in the register. -/
def halfwordCore : SparcCore 8 :=
  { resetCore with reg := { resetCore.reg with instruction := 0xC2302002 }.wR 1 0x1234CAFE }

/-- The core executes `ld [0], %r2`. -/
def wordCore : SparcCore 8 :=
  { resetCore with reg := { resetCore.reg with instruction := 0xC4002000 } }

/-- A halfword is stored into a word that another core then loads. -/
theorem store_load_byteOrder_halfword :
    halfwordCore.effectiveAddress < memSize ∧ wordCore.effectiveAddress < memSize ∧
      ∃ s' m' t', executeStore virtualMemory STH halfwordCore (wordMemory 0x11223344) =
          some (s', m') ∧
        executeLoad virtualMemory LD wordCore m' = some (t', m') ∧
        t'.reg.rR 2 = 0x1122CAFE := by
  have hs : halfwordCore.effectiveAddress < memSize := by decide
  have ht : wordCore.effectiveAddress < memSize := by decide
  obtain ⟨s', m', hstore, hbytes, hquiet, hload⟩ :=
    (store_load_byteOrder halfwordCore wordCore (wordMemory 0x11223344) hs ht).1 STH
      (by simp [plainStore])
  obtain ⟨t', hl, hreg, hquiet'⟩ := hload LD (by simp [plainLoad])
  have hregs := hreg (hquiet' rfl (by decide) (by simp [loadEnabled]))
  rw [hbytes (hquiet rfl (by decide) (by simp [storeEnabled]))] at hregs
  refine ⟨hs, ht, s', m', t', hstore, hl, ?_⟩
  rw [hregs]
  decide

end SparcV8
