import SparcV8.Apara.Lanes
import SparcV8.Core.Store.Copy

/-!
# The memories of a DMA unit, byte by byte

For the DMA unit the engine's data memory and the memory of the system are plain: a read gives
bytes, and a write replaces the bytes it names.
-/

namespace SparcV8.Apara

open Attachment AparaCore Function Nat BitVec Words

/-- The byte of the data memory at an address. -/
def dmemByte (dmem : Fin DMEM_DWORDS → BitVec 64) (a : Fin DMEM_BYTES) : BitVec 8 :=
  dwordByte (dmem (dmemIndex (a.val / 8))) (a.val % 8)

theorem dmemByte_update (dmem : Fin DMEM_DWORDS → BitVec 64) (index : Nat) (value : BitVec 64)
    (a : Fin DMEM_BYTES) :
    dmemByte (update dmem (dmemIndex index) value) a =
      if a.val / 8 = index % DMEM_DWORDS then dwordByte value (a.val % 8) else dmemByte dmem a := by
  have ha : a.val / 8 < DMEM_DWORDS := (Nat.div_lt_iff_lt_mul (by decide)).2 a.isLt
  have hindex : dmemIndex (a.val / 8) = dmemIndex index ↔
      a.val / 8 = index % DMEM_DWORDS := by
    rw [dmemIndex, dmemIndex, Fin.mk.injEq, mod_eq_of_lt ha]
  unfold dmemByte
  by_cases heq : a.val / 8 = index % DMEM_DWORDS
  · rw [if_pos heq, hindex.2 heq, update_self]
  · rw [if_neg heq, update_of_ne fun hc => heq (hindex.1 hc)]

theorem dmemByte_writeDmemDword (c : AparaCore) (index : Nat) (value : BitVec 64)
    (a : Fin DMEM_BYTES) :
    dmemByte (c.writeDmemDword index value).dmem a =
      if a.val / 8 = index % DMEM_DWORDS then dwordByte value (a.val % 8)
      else dmemByte c.dmem a :=
  dmemByte_update c.dmem index value a

/-- Bytes are gathered into the doubleword of an address. -/
theorem dmemByte_gathered {address bytes : Nat} (hlt : address < DMEM_BYTES)
    (hfit : address % 8 + bytes ≤ 8) (c : AparaCore) (data : BitVec 64) (offset : Nat)
    (a : Fin DMEM_BYTES) :
    dmemByte (c.writeDmemDword (address / 8) (gatherBytes data (c.dmemDword (address / 8)) offset
        (address % 8) bytes)).dmem a =
      if address ≤ a.val ∧ a.val < address + bytes then dwordByte data (offset + (a.val - address))
      else dmemByte c.dmem a := by
  rw [dmemByte_writeDmemDword, mod_eq_of_lt ((Nat.div_lt_iff_lt_mul (by decide)).2 hlt)]
  by_cases hdword : a.val / 8 = address / 8
  · rw [if_pos hdword, dwordByte_gatherBytes _ _ hfit (by omega)]
    by_cases hin : address ≤ a.val ∧ a.val < address + bytes
    · have hplace : a.val % 8 - address % 8 = a.val - address := by omega
      rw [if_pos (by omega), if_pos hin, hplace]
    · rw [if_neg (by omega), if_neg hin, dmemByte, hdword]
      rfl
  · rw [if_neg hdword, if_neg (by omega)]

/-- A byte of one of the two memories. -/
inductive Location where
  | dmem (a : Fin DMEM_BYTES)
  | system (a : BitVec 64)
deriving DecidableEq

theorem mod_dmemBytes_lt (a : Nat) : a % DMEM_BYTES < DMEM_BYTES := mod_lt a (by decide)

/-- An address on the side of the data memory is taken modulo its size. -/
def dmemLocation (a : Nat) : Location := .dmem ⟨a % DMEM_BYTES, mod_dmemBytes_lt a⟩

/-- A bus mask names bytes at an address, and all of them are of this kind. -/
def Masked (P : BitVec 64 → Prop) (address : BitVec 64) (mask : BitVec 8) : Prop :=
  (∃ k < 8, names mask k = true) ∧ ∀ k < 8, names mask k = true → P (address + BitVec.ofNat 64 k)

/-- Where `P` holds, the memory on the system's side is plain. -/
structure PlainAt {W : Type} (A : Attachment W) (P : BitVec 64 → Prop) where
  bus : PhysicalMemory W
  system_eq : A.system = some bus
  byte : W → BitVec 64 → BitVec 8
  /-- What the engine itself does leaves that memory alone. -/
  byte_set : ∀ s w, byte (A.set s w) = byte w
  /-- An access to plain memory leaves the engine alone. -/
  get_access : ∀ r w, r.physicalAddress.toNat % 8 = 0 → Masked P r.physicalAddress r.byteMask →
    A.get (bus.access r w).2 = A.get w
  byte_read : ∀ r w, r.accessType = .READ → r.physicalAddress.toNat % 8 = 0 →
    Masked P r.physicalAddress r.byteMask →
      byte (bus.access r w).2 = byte w ∧ ∀ k < 8, names r.byteMask k = true →
        dwordByte (busToDmem (bus.access r w).1.readData) k =
          byte w (r.physicalAddress + BitVec.ofNat 64 k)
  byte_write : ∀ r w, r.accessType = .WRITE → r.physicalAddress.toNat % 8 = 0 →
    Masked P r.physicalAddress r.byteMask → ∀ a, byte (bus.access r w).2 a =
      if a.toNat / 8 = r.physicalAddress.toNat / 8 ∧ names r.byteMask (a.toNat % 8) = true then
        dwordByte (busToDmem r.data) (a.toNat % 8)
      else byte w a

/-! ## One piece -/

/-- The bytes of a piece on both sides. -/
def Piece.systemLocation (p : Piece) (k : Nat) : Location :=
  .system (p.systemAddress + BitVec.ofNat 64 k)

def Piece.dmemLocation (p : Piece) (k : Nat) : Location := Apara.dmemLocation
    (p.dmemAddress.toNat + k)

def Piece.source (p : Piece) (k : Nat) : Location :=
  if p.toDmem then p.systemLocation k else p.dmemLocation k

def Piece.destination (p : Piece) (k : Nat) : Location :=
  if p.toDmem then p.dmemLocation k else p.systemLocation k

/-- A piece is not empty, and within one doubleword on both sides. -/
structure Piece.Within (p : Piece) : Prop where
  pos : 0 < p.bytes
  system : p.systemAddress.toNat % 8 + p.bytes ≤ 8
  dmem : p.dmemAddress.toNat % 8 + p.bytes ≤ 8
  dmem_lt : p.dmemAddress.toNat < DMEM_BYTES

/-- The pieces of the DMA unit are within doublewords, whatever its registers are. -/
theorem AparaDmaCore.fits_pieceOf (d : AparaDmaCore) (c : Fin 4) :
    (d.pieceOf c).systemAddress.toNat % 8 + (d.pieceOf c).bytes ≤ 8 ∧
      (d.pieceOf c).dmemAddress.toNat % 8 + (d.pieceOf c).bytes ≤ 8 ∧
      (d.pieceOf c).dmemAddress.toNat < DMEM_BYTES := by
  have hmod (n : Nat) : (BitVec.ofNat 32 (n % DMEM_BYTES)).toNat = n % DMEM_BYTES := by
    rw [toNat_ofNat]
    exact mod_eq_of_lt (lt_trans (mod_lt n (by decide)) (by decide))
  have hmod8 (n : Nat) : n % DMEM_BYTES % 8 = n % 8 := Nat.mod_mod_of_dvd n (by decide)
  unfold pieceOf
  rw [hmod, hmod8]
  refine ⟨?_, ?_, mod_lt _ (by decide)⟩
  all_goals cases d.op c == LOAD <;>
    simp only [if_true, if_false, Bool.false_eq_true] <;> omega

/-- The mask of a piece names its bytes in the doubleword of its address. -/
theorem names_piece {p : Piece} (h : p.systemAddress.toNat % 8 + p.bytes ≤ 8) (a : Nat) :
    a / 8 = (p.systemAddress &&& ~~~(7 : BitVec 64)).toNat / 8 ∧
        names (pieceMask (p.systemAddress.toNat % 8) p.bytes) (a % 8) = true ↔
      p.systemAddress.toNat ≤ a ∧ a < p.systemAddress.toNat + p.bytes := by
  have hround : (p.systemAddress &&& ~~~(7 : BitVec 64)).toNat = p.systemAddress.toNat / 8 * 8 :=
    toNat_and_not_low p.systemAddress 3
  rw [names_pieceMask h (mod_lt _ (by decide)), decide_eq_true_eq, hround]
  omega

variable {k : Nat}

theorem toNat_address_add {a : BitVec 64} (h : a.toNat % 8 + k < 8) :
    (a + BitVec.ofNat 64 k).toNat = a.toNat + k := by
  have hlt := a.isLt
  rw [BitVec.toNat_add, toNat_ofNat]
  omega

namespace PlainAt

variable {W : Type} {A : Attachment W} {P : BitVec 64 → Prop} (R : PlainAt A P)

/-- Both memories. -/
def memory (w : W) : Location → BitVec 8
  | .dmem a => dmemByte (A.get w).engine.dmem a
  | .system a => R.byte w a

variable {R}

/-- What a piece leaves alone: all but the bytes of memory. -/
def KeepsUnits (A : Attachment W) (w w' : W) : Prop :=
  ∃ dmem, A.get w' = { A.get w with engine := { (A.get w).engine with dmem := dmem } }

variable {p : Piece} (hp : p.Within)
include hp

theorem masked_piece (hP : ∀ k < p.bytes, P (p.systemAddress + BitVec.ofNat 64 k)) :
    Masked P (p.systemAddress &&& ~~~(7 : BitVec 64))
      (pieceMask (p.systemAddress.toNat % 8) p.bytes) := by
  have hpos := hp.pos
  have hs := hp.system
  refine ⟨⟨p.systemAddress.toNat % 8, by omega, ?_⟩, fun k hk hnames => ?_⟩
  · rw [names_pieceMask hs (by omega), decide_eq_true_eq]
    omega
  rw [names_pieceMask hs hk, decide_eq_true_eq] at hnames
  have heq : (p.systemAddress &&& ~~~(7 : BitVec 64)) + BitVec.ofNat 64 k =
      p.systemAddress + BitVec.ofNat 64 (k - p.systemAddress.toNat % 8) := by
    apply eq_of_toNat_eq
    have hbase : (p.systemAddress &&& ~~~(7 : BitVec 64)).toNat = p.systemAddress.toNat / 8 * 8 :=
      toNat_and_not_low p.systemAddress 3
    rw [toNat_address_add
      (show (p.systemAddress &&& ~~~(7 : BitVec 64)).toNat % 8 + k < 8 by omega),
      toNat_address_add (by omega), hbase]
    omega
  rw [heq]
  exact hP _ (by omega)

theorem dmemLocation_piece (hk : k < p.bytes) (a : Fin DMEM_BYTES) :
    p.dmemLocation k = .dmem a ↔ a.val = p.dmemAddress.toNat + k := by
  have hd := hp.dmem
  have hlt := hp.dmem_lt
  have hsize : DMEM_BYTES = 65536 := rfl
  rw [Piece.dmemLocation, Apara.dmemLocation, Location.dmem.injEq, Fin.ext_iff]
  change (p.dmemAddress.toNat + k) % DMEM_BYTES = a.val ↔ _
  rw [mod_eq_of_lt (by omega)]
  exact eq_comm

theorem systemLocation_piece (hk : k < p.bytes) (a : BitVec 64) :
    p.systemLocation k = .system a ↔ a.toNat = p.systemAddress.toNat + k := by
  have hs := hp.system
  rw [Piece.systemLocation, Location.system.injEq, ← BitVec.toNat_inj, toNat_address_add (by omega)]
  exact eq_comm

variable (w : W) (hP : ∀ k < p.bytes, P (p.systemAddress + BitVec.ofNat 64 k))
include hP

/-- A piece to the data memory. -/
theorem copied_move_load (hload : p.toDmem = true) :
    Copied p.dmemLocation p.systemLocation (fun k => k < p.bytes) (R.memory w)
        (R.memory (A.move p w)) ∧ KeepsUnits A w (A.move p w) := by
  have hd := hp.dmem
  have hs := hp.system
  have hbase : (p.systemAddress &&& ~~~(7 : BitVec 64)).toNat = p.systemAddress.toNat / 8 * 8 :=
    toNat_and_not_low p.systemAddress 3
  have haligned : (p.systemAddress &&& ~~~(7 : BitVec 64)).toNat % 8 = 0 := by omega
  obtain ⟨hbyte, hread⟩ := R.byte_read
    { accessType := .READ, lock := false, physicalAddress := p.systemAddress &&& ~~~7, data := 0,
      byteMask := pieceMask (p.systemAddress.toNat % 8) p.bytes } w rfl haligned
    (masked_piece hp hP)
  have hget := R.get_access
    { accessType := .READ, lock := false, physicalAddress := p.systemAddress &&& ~~~7, data := 0,
      byteMask := pieceMask (p.systemAddress.toNat % 8) p.bytes } w haligned
    (masked_piece hp hP)
  simp only [move, hload, if_true, Attachment.systemRead, R.system_eq]
  generalize R.bus.access _ w = x at hbyte hread hget ⊢
  dsimp only at hread
  have hdmem (a : Fin DMEM_BYTES) :
      dmemByte ((A.get x.2).engine.writeDmemDword (p.dmemAddress.toNat / 8)
        (Attachment.gatherBytes (busToDmem x.1.readData)
          ((A.get w).engine.dmemDword (p.dmemAddress.toNat / 8)) (p.systemAddress.toNat % 8)
          (p.dmemAddress.toNat % 8) p.bytes)).dmem a =
        if p.dmemAddress.toNat ≤ a.val ∧ a.val < p.dmemAddress.toNat + p.bytes then
          R.byte w (p.systemAddress + BitVec.ofNat 64 (a.val - p.dmemAddress.toNat))
        else dmemByte (A.get w).engine.dmem a := by
    rw [hget, dmemByte_gathered hp.dmem_lt hd]
    split
    · next hin =>
      have hnames : names (pieceMask (p.systemAddress.toNat % 8) p.bytes)
          (p.systemAddress.toNat % 8 + (a.val - p.dmemAddress.toNat)) = true := by
        rw [names_pieceMask hs (by omega), decide_eq_true_eq]
        omega
      rw [hread _ (by omega) hnames]
      congr 1
      apply eq_of_toNat_eq
      rw [toNat_address_add (by omega), toNat_address_add (by omega), hbase]
      omega
    · rfl
  refine ⟨⟨fun k hk => ?_, fun l hl => ?_⟩, ?_⟩
  · have hsize : DMEM_BYTES = 65536 := rfl
    have hlt := hp.dmem_lt
    have hloc : p.dmemLocation k = .dmem ⟨p.dmemAddress.toNat + k, by omega⟩ :=
      (dmemLocation_piece hp hk _).2 rfl
    rw [hloc, memory, Attachment.modify, A.get_set, hdmem, if_pos (by simp only; omega)]
    simp only [Nat.add_sub_cancel_left]
    rfl
  · cases l with
    | dmem a =>
      rw [memory, Attachment.modify, A.get_set, hdmem, if_neg]
      · rfl
      · intro hin
        refine hl (a.val - p.dmemAddress.toNat) (by omega) ?_
        rw [dmemLocation_piece hp (by omega)]
        omega
    | system a =>
      rw [memory, Attachment.modify, R.byte_set, hbyte]
      rfl
  · rw [KeepsUnits, Attachment.modify, A.get_set, hget]
    exact ⟨_, rfl⟩

/-- A piece to the memory of the system. -/
theorem copied_move_store (hstore : p.toDmem = false) :
    Copied p.systemLocation p.dmemLocation (fun k => k < p.bytes) (R.memory w)
        (R.memory (A.move p w)) ∧ KeepsUnits A w (A.move p w) := by
  have hd := hp.dmem
  have hs := hp.system
  have hlt := hp.dmem_lt
  have hsize : DMEM_BYTES = 65536 := rfl
  have hbase : (p.systemAddress &&& ~~~(7 : BitVec 64)).toNat = p.systemAddress.toNat / 8 * 8 :=
    toNat_and_not_low p.systemAddress 3
  have haligned : (p.systemAddress &&& ~~~(7 : BitVec 64)).toNat % 8 = 0 := by omega
  simp only [move, hstore, if_off, Attachment.systemWrite, R.system_eq]
  set r : PhysicalMemoryRequest :=
    { accessType := .WRITE, lock := false, physicalAddress := p.systemAddress &&& ~~~7,
      data := busToDmem (Attachment.scatterBytes
        ((A.get w).engine.dmemDword (p.dmemAddress.toNat / 8)) (p.systemAddress.toNat % 8)
        (p.dmemAddress.toNat % 8) p.bytes),
      byteMask := pieceMask (p.systemAddress.toNat % 8) p.bytes } with hr
  have hget := R.get_access r w haligned (masked_piece hp hP)
  have hbyte (a : BitVec 64) : R.byte (R.bus.access r w).2 a =
      if p.systemAddress.toNat ≤ a.toNat ∧ a.toNat < p.systemAddress.toNat + p.bytes then
        dwordByte ((A.get w).engine.dmemDword (p.dmemAddress.toNat / 8))
          (p.dmemAddress.toNat % 8 + (a.toNat - p.systemAddress.toNat))
      else R.byte w a := by
    rw [R.byte_write r w rfl haligned (masked_piece hp hP)]
    rw [if_congr (names_piece hs a.toNat) rfl rfl]
    split
    · next hin =>
      rw [hr, busToDmem_busToDmem, dwordByte_scatterBytes _ hs (mod_lt _ (by decide)),
        if_pos (by omega)]
      congr 1
      omega
    · rfl
  refine ⟨⟨fun k hk => ?_, fun l hl => ?_⟩, ⟨(A.get w).engine.dmem, hget⟩⟩
  · have hloc : p.dmemLocation k = .dmem ⟨p.dmemAddress.toNat + k, by omega⟩ :=
      (dmemLocation_piece hp hk _).2 rfl
    have hsum := toNat_address_add (show p.systemAddress.toNat % 8 + k < 8 by omega)
    rw [Piece.systemLocation, memory, hbyte, hsum, if_pos (by omega), hloc, memory, dmemByte]
    have hdiv : (p.dmemAddress.toNat + k) / 8 = p.dmemAddress.toNat / 8 := by omega
    have hrest : p.dmemAddress.toNat % 8 + (p.systemAddress.toNat + k - p.systemAddress.toNat) =
        (p.dmemAddress.toNat + k) % 8 := by omega
    simp only [hdiv, hrest]
    rfl
  · cases l with
    | dmem a =>
      rw [memory, hget]
      rfl
    | system a =>
      rw [memory, hbyte, if_neg]
      · rfl
      · intro hin
        refine hl (a.toNat - p.systemAddress.toNat) (by omega) ?_
        rw [systemLocation_piece hp (by omega)]
        omega

/-- The bytes of a piece arrive, and no others change. -/
theorem copied_move :
    Copied p.destination p.source (fun k => k < p.bytes) (R.memory w) (R.memory (A.move p w)) ∧
      KeepsUnits A w (A.move p w) := by
  cases hload : p.toDmem with
  | false =>
    have hdst : p.destination = p.systemLocation :=
      funext fun k => by simp [Piece.destination, hload]
    have hsrc : p.source = p.dmemLocation := funext fun k => by simp [Piece.source, hload]
    rw [hdst, hsrc]
    exact copied_move_store hp w hP hload
  | true =>
    have hdst : p.destination = p.dmemLocation := funext fun k => by simp [Piece.destination, hload]
    have hsrc : p.source = p.systemLocation := funext fun k => by simp [Piece.source, hload]
    rw [hdst, hsrc]
    exact copied_move_load hp w hP hload

end PlainAt

/-! ## The memory of the processor's side -/

section Alone

variable {τ : Type} (phys : PhysicalMemory τ)

/-- The byte at an address of a memory of words. -/
def wordMemoryByte (dom : Nat → Bool) (c : Words) (a : BitVec 64) : BitVec 8 :=
  bigEndianByte 4 (c.read dom (a.toNat / 4)).toNat (a.toNat % 4)

/-- The bytes of a doubleword of the bus are those of its words, low one first. -/
theorem dwordByte_busToDmem (d : BitVec 64) (hk : k < 8) :
    dwordByte (busToDmem d) k =
      bigEndianByte 4 (if k < 4 then lowWord d else highWord d).toNat (k % 4) := by
  apply BitVec.eq_of_getLsbD_eq
  intro i hi
  rw [getLsbD_dwordByte, getLsbD_busToDmem _ (by omega), getLsbD_bigEndianByte]
  by_cases hlow : k < 4
  · have hplace : 8 * (7 - k) + i - 32 = 8 * (4 - 1 - k % 4) + i := by omega
    have hlt : 8 * (4 - 1 - k % 4) + i < 32 := by omega
    rw [if_neg (by omega), if_pos hlow, hplace, lowWord, getLsbD_setWidth,
      decide_eq_true hlt, Bool.true_and]
  · have hplace : 8 * (7 - k) + i + 32 = 32 + (8 * (4 - 1 - k % 4) + i) := by omega
    have hlt : 8 * (4 - 1 - k % 4) + i < 32 := by omega
    rw [if_pos (by omega), if_neg hlow, hplace, highWord, getLsbD_setWidth,
      BitVec.getLsbD_ushiftRight, decide_eq_true hlt, Bool.true_and]

/-- The bit of a mask for a byte, among those of its word. -/
theorem names_eq_getLsbD (mask : BitVec 8) (hk : k < 8) :
    names mask k =
      (readBits (mask.setWidth 32) (if k < 4 then 3 else 7) (if k < 4 then 0 else 4)).getLsbD
        (3 - k % 4) := by
  rw [names, getLsbD_busMaskToDmemLanes _ (by omega), getLsbD_readBits _ (by split <;> omega),
    getLsbD_setWidth]
  by_cases hlow : k < 4
  · have hplace : 7 - k - 4 = 0 + (3 - k % 4) := by omega
    have hle : 0 + (3 - k % 4) ≤ 3 := by omega
    have hlt : 0 + (3 - k % 4) < 32 := by omega
    rw [if_pos hlow, if_pos hlow, if_neg (by omega), hplace, decide_eq_true hle,
      decide_eq_true hlt, Bool.true_and, Bool.true_and]
  · have hplace : 7 - k + 4 = 4 + (3 - k % 4) := by omega
    have hle : 4 + (3 - k % 4) ≤ 7 := by omega
    have hlt : 4 + (3 - k % 4) < 32 := by omega
    rw [if_neg hlow, if_neg hlow, if_pos (by omega), hplace, decide_eq_true hle,
      decide_eq_true hlt, Bool.true_and, Bool.true_and]

section Plain

variable {phys : PhysicalMemory τ} (M : PlainMemory phys)
variable (r : PhysicalMemoryRequest)

/-- A read of plain memory, byte by byte. -/
theorem byte_read_access (m : τ) (hread : r.accessType = .READ)
    (haligned : r.physicalAddress.toNat % 8 = 0) :
    wordMemoryByte M.dom (M.contents (phys.access r m).2) =
        wordMemoryByte M.dom (M.contents m) ∧
      ∀ k < 8, names r.byteMask k = true →
        dwordByte (busToDmem (phys.access r m).1.readData) k =
          wordMemoryByte M.dom (M.contents m) (r.physicalAddress + BitVec.ofNat 64 k) := by
  refine ⟨?_, fun k hk _ => ?_⟩
  · rw [M.contents_eq, access, hread]
  · have hsum := toNat_address_add (show r.physicalAddress.toNat % 8 + k < 8 by omega)
    rw [M.response_eq, access, hread, dwordByte_busToDmem _ hk, lowWord_doubleword,
      highWord_doubleword, wordMemoryByte, hsum]
    by_cases hlow : k < 4
    · have hdiv : (r.physicalAddress.toNat + k) / 4 = r.physicalAddress.toNat / 4 := by omega
      have hmod : (r.physicalAddress.toNat + k) % 4 = k % 4 := by omega
      rw [if_pos hlow, hdiv, hmod]
    · have hdiv : (r.physicalAddress.toNat + k) / 4 = r.physicalAddress.toNat / 4 + 1 := by omega
      have hmod : (r.physicalAddress.toNat + k) % 4 = k % 4 := by omega
      rw [if_neg hlow, hdiv, hmod]

/-- A write to plain memory, byte by byte. -/
theorem byte_write_access (m : τ) (hwrite : r.accessType = .WRITE)
    (haligned : r.physicalAddress.toNat % 8 = 0)
    (hP : Masked (fun a => M.dom (a.toNat / 4) = true) r.physicalAddress r.byteMask)
    (a : BitVec 64) :
    wordMemoryByte M.dom (M.contents (phys.access r m).2) a =
      if a.toNat / 8 = r.physicalAddress.toNat / 8 ∧ names r.byteMask (a.toNat % 8) = true then
        dwordByte (busToDmem r.data) (a.toNat % 8)
      else wordMemoryByte M.dom (M.contents m) a := by
  rw [M.contents_eq, access, hwrite]
  unfold wordMemoryByte
  have hmod : a.toNat % 8 < 8 := mod_lt _ (by decide)
  have hmod4 : a.toNat % 8 % 4 = a.toNat % 4 := by omega
  have hlt : a.toNat % 4 < 4 := mod_lt _ (by decide)
  rw [read_write, read_write]
  by_cases hdword : a.toNat / 8 = r.physicalAddress.toNat / 8
  · -- the word of this byte is there if the mask names the byte
    have haddress : r.physicalAddress + BitVec.ofNat 64 (a.toNat % 8) = a := by
      apply eq_of_toNat_eq
      rw [toNat_address_add (by omega)]
      omega
    have hdom (hnames : names r.byteMask (a.toNat % 8) = true) :
        M.dom (a.toNat / 4) = true := by
      have := hP.2 _ hmod hnames
      rwa [haddress] at this
    have hbyte := dwordByte_busToDmem r.data hmod
    have hbit := names_eq_getLsbD r.byteMask hmod
    rw [hmod4] at hbyte hbit
    -- a word under its mask, or an absent one
    have hword (data old mask : Word) (hold : M.dom (a.toNat / 4) = false → old = 0)
        (hmask : mask.getLsbD (3 - a.toNat % 4) = names r.byteMask (a.toNat % 8)) :
        bigEndianByte 4 (if M.dom (a.toNat / 4) then mergeMaskedBytes old data mask
          else 0).toNat (a.toNat % 4) =
          if names r.byteMask (a.toNat % 8) then bigEndianByte 4 data.toNat (a.toNat % 4)
          else bigEndianByte 4 old.toNat (a.toNat % 4) := by
      rw [← hmask]
      split
      · exact bigEndianByte_mergeMaskedBytes _ _ _ hlt
      · next habsent =>
        have hfalse : mask.getLsbD (3 - a.toNat % 4) = false := by
          rw [hmask, ← Bool.not_eq_true]
          exact fun hnames => habsent (hdom hnames)
        rw [hfalse, if_off, hold (Bool.not_eq_true _ ▸ habsent)]
    have hold : M.dom (a.toNat / 4) = false →
        (M.contents m).read M.dom (a.toNat / 4) = 0 := by
      intro habsent
      rw [Words.read, habsent, if_off]
    rw [if_congr (and_iff_right hdword) rfl rfl, hbyte]
    by_cases hlow : a.toNat % 8 < 4
    · have hi : r.physicalAddress.toNat / 4 = a.toNat / 4 := by omega
      rw [if_pos hlow, if_pos hlow] at hbit
      rw [hi, if_neg (by omega), if_pos rfl, if_pos hlow]
      exact hword _ _ _ hold hbit.symm
    · have hi : r.physicalAddress.toNat / 4 + 1 = a.toNat / 4 := by omega
      rw [if_neg hlow, if_neg hlow] at hbit
      rw [hi, if_pos rfl, if_neg hlow]
      exact hword _ _ _ hold hbit.symm
  · rw [if_neg (by omega), if_neg (by omega), if_neg fun hc => hdword hc.1]

end Plain

end Alone

end SparcV8.Apara
