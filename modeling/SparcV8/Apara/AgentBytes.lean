import SparcV8.Apara.Windows

/-!
# Bytes that DMA units and engines transfer

A piece of a DMA unit, and a doubleword of a load or store of an engine, reads and writes the bytes
of all data memories at their addresses on the bus.
-/

namespace SparcV8.Apara

open Attachment AparaCore Option List BitVec

namespace EngineSystem

variable {δ : Type} {l : SystemAddressMap.Layout} {devices : PhysicalMemory δ}

/-! ## DMA -/

variable {a : BitVec 64} {b : BitVec 8} {o : Fin DMEM_BYTES}

section Dma

variable (l devices) (e : Nat) (p : Piece) (x : EngineSystem δ)

/-- Where the bytes of a piece come from, as an address on the bus. -/
def pieceSource : Nat :=
  if p.toDmem then p.systemAddress.toNat
  else (x.engines e).dmemBase.toNat + p.dmemAddress.toNat

/-- Where they go. -/
def pieceTarget : Nat :=
  if p.toDmem then (x.engines e).dmemBase.toNat + p.dmemAddress.toNat
  else p.systemAddress.toNat

/-- A byte that the DMA unit reads. -/
def pieceByte (k : Nat) : BitVec 8 :=
  if p.toDmem then
    dwordByte (busToDmem ((attachment l devices e).systemRead (p.systemAddress &&& ~~~7)
      (pieceMask (p.systemAddress.toNat % 8) p.bytes) x).1)
      (p.systemAddress.toNat % 8 + k)
  else
    dwordByte ((x.engines e).engine.dmemDword (p.dmemAddress.toNat / 8))
      (p.dmemAddress.toNat % 8 + k)

variable {l devices e p x}

theorem fits_nextPiece {d : AparaDmaCore} (h : d.nextPiece = some p) :
    p.systemAddress.toNat % 8 + p.bytes ≤ 8 ∧ p.dmemAddress.toNat % 8 + p.bytes ≤ 8 ∧
      p.dmemAddress.toNat < DMEM_BYTES := by
  obtain ⟨c, -, rfl⟩ := map_eq_some_iff.1 h
  exact d.fits_pieceOf c

section Piece

variable (hl : WindowsApart l) (hx : Placed l x) (he : x.attached e = true)
include hl hx he

/-- A byte of the engine's own data memory, at its address on the bus. -/
theorem byteAt_own (hb : byteAt l x a = some b)
    (ho : a.toNat = (x.engines e).dmemBase.toNat + o.val) :
    b = dmemByte (x.engines e).engine.dmem o := by
  rw [byteAt, (dmemAt_own hl hx he).2 ho] at hb
  exact (some.inj hb).symm

variable (hp : (x.engines e).dma.nextPiece = some p)
include hp

/-- The DMA unit reads the bytes as they are. -/
theorem pieceByte_eq (hb : byteAt l x a = some b) (hle : pieceSource e p x ≤ a.toNat)
    (hlt : a.toNat < pieceSource e p x + p.bytes) :
    pieceByte l devices e p x (a.toNat - pieceSource e p x) = b := by
  obtain ⟨hs, hd, hbound⟩ := fits_nextPiece hp
  have hsize : DMEM_BYTES = 65536 := rfl
  unfold pieceByte pieceSource at *
  cases hload : p.toDmem with
  | true =>
    simp only [hload, if_true] at hle hlt ⊢
    have hround : (p.systemAddress &&& ~~~(7 : BitVec 64)).toNat =
        p.systemAddress.toNat / 8 * 8 := toNat_and_not_low p.systemAddress 3
    have hread := (access_byte devices
      { accessType := .READ, lock := false, physicalAddress := p.systemAddress &&& ~~~7,
        data := 0, byteMask := pieceMask (p.systemAddress.toNat % 8) p.bytes }
      hx hb).2 rfl (by dsimp only; omega)
    have hplace : p.systemAddress.toNat % 8 + (a.toNat - p.systemAddress.toNat) = a.toNat % 8 := by
      omega
    rw [hplace]
    exact hread
  | false =>
    simp only [hload, if_off] at hle hlt ⊢
    have hbase := (dmemBase_facts hl hx he).1
    have ho : a.toNat - (x.engines e).dmemBase.toNat < DMEM_BYTES := by omega
    have hown := byteAt_own hl hx he hb
      (show a.toNat = (x.engines e).dmemBase.toNat + (⟨_, ho⟩ : Fin DMEM_BYTES).val by
        simp only
        omega)
    have hdiv : (a.toNat - (x.engines e).dmemBase.toNat) / 8 = p.dmemAddress.toNat / 8 := by omega
    have hmod : p.dmemAddress.toNat % 8 +
        (a.toNat - ((x.engines e).dmemBase.toNat + p.dmemAddress.toNat)) =
        (a.toNat - (x.engines e).dmemBase.toNat) % 8 := by omega
    rw [hown, dmemByte]
    simp only [hdiv, hmod]
    rfl

/-- A piece to the data memory changes its bytes. -/
theorem move_load_byte (hload : p.toDmem = true) (hb : byteAt l x a = some b) :
    byteAt l ((attachment l devices e).move p x) a =
      some (if pieceTarget e p x ≤ a.toNat ∧ a.toNat < pieceTarget e p x + p.bytes then
        pieceByte l devices e p x (a.toNat - pieceTarget e p x) else b) := by
  obtain ⟨hs, hd, hbound⟩ := fits_nextPiece hp
  set r : PhysicalMemoryRequest :=
    { accessType := .READ, lock := false, physicalAddress := p.systemAddress &&& ~~~7,
      data := 0, byteMask := pieceMask (p.systemAddress.toNat % 8) p.bytes } with hr
  have hsame := samePlaces_access l devices r x
  have hengine := engine_access_read l devices (r := r) rfl x e
  have hb' : byteAt l (access l devices r x).2 a = some b := by
    rw [(access_byte devices r hx hb).1, if_neg fun hc => by cases hc.1]
  have he' : (access l devices r x).2.attached e = true := by
    rw [hsame.attached]
    exact he
  have hmove := byteAt_setDmem hl (hsame.placed hx) he'
    { (access l devices r x).2.engines e with
      engine := ((access l devices r x).2.engines e).engine.writeDmemDword
        (p.dmemAddress.toNat / 8)
        (gatherBytes (busToDmem (access l devices r x).1.readData)
          ((x.engines e).engine.dmemDword (p.dmemAddress.toNat / 8))
          (p.systemAddress.toNat % 8) (p.dmemAddress.toNat % 8) p.bytes) } ⟨rfl, rfl, rfl, rfl⟩ hb'
  unfold move
  rw [if_pos hload]
  refine hmove.trans (congrArg some ?_)
  have hsize : DMEM_BYTES = 65536 := rfl
  have htarget : pieceTarget e p x = (x.engines e).dmemBase.toNat + p.dmemAddress.toNat := by
    rw [pieceTarget, if_pos hload]
  rw [(hsame.engine e).dmemBase, htarget]
  split
  · next hin =>
    have hown := byteAt_own hl hx he hb
      (show a.toNat = (x.engines e).dmemBase.toNat + (⟨_, hin.2⟩ : Fin DMEM_BYTES).val by
        simp only
        omega)
    rw [hengine, dmemByte_gathered hbound hd, hown, pieceByte, if_pos hload, ← Nat.sub_sub]
    exact if_congr (by dsimp only; omega) rfl rfl
  · next hout => rw [if_neg (by omega)]

omit hl he in
/-- A piece to the system changes its bytes that are in the window of a data memory. -/
theorem move_store_byte (hstore : p.toDmem = false) (hb : byteAt l x a = some b) :
    byteAt l ((attachment l devices e).move p x) a =
      some (if pieceTarget e p x ≤ a.toNat ∧ a.toNat < pieceTarget e p x + p.bytes then
        pieceByte l devices e p x (a.toNat - pieceTarget e p x) else b) := by
  obtain ⟨hs, hd, hbound⟩ := fits_nextPiece hp
  have hmod : a.toNat % 8 < 8 := Nat.mod_lt _ (by decide)
  have hbyte := (access_byte devices
    { accessType := .WRITE, lock := false, physicalAddress := p.systemAddress &&& ~~~7,
      data := busToDmem (scatterBytes
        ((x.engines e).engine.dmemDword (p.dmemAddress.toNat / 8)) (p.systemAddress.toNat % 8)
        (p.dmemAddress.toNat % 8) p.bytes),
      byteMask := pieceMask (p.systemAddress.toNat % 8) p.bytes } hx hb).1
  unfold move
  rw [if_neg (by rw [hstore]; exact Bool.false_ne_true)]
  refine hbyte.trans (congrArg some ?_)
  have htarget : pieceTarget e p x = p.systemAddress.toNat := by
    rw [pieceTarget, hstore, if_off]
  simp only [true_and, names_piece hs, htarget, busToDmem_busToDmem]
  split
  · next hin =>
    have hplace : a.toNat % 8 - p.systemAddress.toNat % 8 = a.toNat - p.systemAddress.toNat := by
      omega
    rw [dwordByte_scatterBytes _ hs hmod, if_pos (by omega), hplace, pieceByte, hstore, if_off]
  · rfl

omit hl hx he hp in
theorem samePlaces_move : SamePlaces x ((attachment l devices e).move p x) := by
  unfold move
  split
  · exact (samePlaces_access l devices _ x).trans (.update ⟨rfl, rfl, rfl, rfl⟩)
  · exact samePlaces_access l devices _ x

end Piece

/-- The DMA unit of an engine moves a piece. -/
theorem movePiece_byte (hl : WindowsApart l) (hx : Placed l x) (he : x.attached e = true)
    (hb : byteAt l x a = some b) :
    SamePlaces x ((attachment l devices e).movePiece x) ∧
      byteAt l ((attachment l devices e).movePiece x) a =
        some (((x.engines e).dma.nextPiece.bind fun p =>
          if pieceTarget e p x ≤ a.toNat ∧ a.toNat < pieceTarget e p x + p.bytes then
            some (pieceByte l devices e p x (a.toNat - pieceTarget e p x)) else none).getD b) := by
  have hget : (attachment l devices e).get x = x.engines e := rfl
  cases hp : (x.engines e).dma.nextPiece with
  | none =>
    rw [movePiece, hget, hp]
    exact ⟨.rfl, hb⟩
  | some p =>
    rw [movePiece, hget, hp]
    have hmoved : byteAt l ((attachment l devices e).move p x) a =
        some (if pieceTarget e p x ≤ a.toNat ∧ a.toNat < pieceTarget e p x + p.bytes then
          pieceByte l devices e p x (a.toNat - pieceTarget e p x) else b) := by
      cases hload : p.toDmem with
      | true => exact move_load_byte hl hx he hp hload hb
      | false => exact move_store_byte hx hp hload hb
    have hunits : SamePlaces ((attachment l devices e).move p x)
        ((attachment l devices e).modify
          (fun s => { s with dma := s.dma.pieceDone p s.cycle })
            ((attachment l devices e).move p x)) :=
      .update ⟨rfl, rfl, rfl, rfl⟩
    refine ⟨samePlaces_move.trans hunits, ?_⟩
    rw [byteAt_eq hunits]
    · rw [hmoved, bind_some]
      split <;> rfl
    · intro e'
      change ((setEngine _ e _).engines e').engine.dmem = _
      rw [engines_setEngine]
      split
      · next heq =>
        subst heq
        rfl
      · rfl

end Dma

/-! ## The engine's own loads and stores -/

section Engine

/-- A doubleword that is stored changes the byte at this address. -/
def Names (t : DwordTransaction) (a : BitVec 64) : Prop :=
  t.store = true ∧ a.toNat / 8 = t.address.toNat / 8 ∧
    t.lanes.getLsbD (7 - a.toNat % 8) = true

instance (t : DwordTransaction) (a : BitVec 64) : Decidable (Names t a) :=
  inferInstanceAs (Decidable (_ ∧ _ ∧ _))

/-- The system, with the data memory of an engine put back into its place. -/
def assemble (e : Nat) (m : DataMemory (EngineSystem δ)) : EngineSystem δ :=
  m.2.setEngine e { m.2.engines e with engine := { (m.2.engines e).engine with dmem := m.1 } }

variable {e : Nat} {m : DataMemory (EngineSystem δ)}

theorem samePlaces_assemble : SamePlaces m.2 (assemble e m) := .update ⟨rfl, rfl, rfl, rfl⟩

theorem dmem_assemble (e' : Nat) :
    ((assemble e m).engines e').engine.dmem =
      if e' = e then m.1 else (m.2.engines e').engine.dmem := by
  rw [assemble, engines_setEngine]
  split <;> rfl

/-- The byte of the engine's own window, or of another one. -/
theorem byteAt_assemble (hb : byteAt l (assemble e m) a = some b) :
    (∃ o, dmemAt l m.2 a = some (e, o) ∧ b = dmemByte m.1 o) ∨
      ((∀ o, dmemAt l m.2 a ≠ some (e, o)) ∧ byteAt l m.2 a = some b) := by
  obtain ⟨⟨e', o⟩, hat, hbyte⟩ := map_eq_some_iff.1 hb
  rw [samePlaces_assemble.dmemAt] at hat
  rw [dmem_assemble] at hbyte
  by_cases heq : e' = e
  · subst heq
    rw [if_pos rfl] at hbyte
    exact .inl ⟨o, hat, hbyte.symm⟩
  · rw [if_neg heq] at hbyte
    refine .inr ⟨fun o' hc => heq ?_, ?_⟩
    · rw [hat] at hc
      exact congrArg Prod.fst (some.inj hc)
    · rw [byteAt, hat, ← hbyte]
      rfl

variable {y : EngineSystem δ}
variable (dmem : Fin DMEM_DWORDS → BitVec 64)

/-- An assembled system, by its own window and the others. -/
theorem byteAt_assemble_own (hat : dmemAt l y a = some (e, o)) :
    byteAt l (assemble e (dmem, y)) a = some (dmemByte dmem o) := by
  rw [byteAt, samePlaces_assemble.dmemAt, hat, map_some, dmem_assemble, if_pos rfl]

theorem byteAt_assemble_other (hat : ∀ o, dmemAt l y a ≠ some (e, o)) :
    byteAt l (assemble e (dmem, y)) a = byteAt l y a := by
  rw [byteAt, byteAt, samePlaces_assemble.dmemAt]
  cases hd : dmemAt l y a with
  | none => rfl
  | some p =>
    have hne : p.1 ≠ e := fun hc => hat p.2 (by rw [hd, ← hc])
    rw [map_some, map_some, dmem_assemble, if_neg hne]

variable (devices)

/-- A transfer leaves the windows where they are. -/
theorem samePlaces_transfer (t : DwordTransaction) :
    SamePlaces m.2 (transfer (some (attachment l devices e).port) t m).2.2 := by
  unfold transfer
  split
  · split
    · exact .rfl
    · exact .rfl
  · dsimp only
    split
    · exact samePlaces_access l devices _ m.2
    · exact samePlaces_access l devices _ m.2

theorem samePlaces_transferAll (ts : List DwordTransaction) :
    SamePlaces m.2 (transferAll (some (attachment l devices e).port) ts m).2.2 := by
  induction ts generalizing m with
  | nil => exact .rfl
  | cons t ts ih => exact (samePlaces_transfer devices t).trans ih

/-- Doublewords know whether they leave the engine. -/
def Routed (x : EngineSystem δ) (e : Nat) (ts : List DwordTransaction) : Prop :=
  ∀ t ∈ ts, t.offIsland = (x.engines e).engine.isOffIsland t.address

variable {ts : List DwordTransaction}

theorem Routed.samePlaces {x : EngineSystem δ} (h : Routed x e ts) (hxy : SamePlaces x y) :
    Routed y e ts := by
  intro t ht
  rw [h t ht, isOffIsland, isOffIsland, (hxy.engine e).config]

/-- The address is in the window of the data memory. -/
def InOwnWindow (x : EngineSystem δ) (e : Nat) (address : BitVec 32) : Prop :=
  (x.engines e).dmemBase.toNat ≤ address.toNat ∧
    address.toNat - (x.engines e).dmemBase.toNat < DMEM_BYTES

variable (hl : WindowsApart l) (hm : Placed l m.2) (he : m.2.attached e = true)
include hl hm he

/-- What an engine takes for its own window is that. -/
theorem isOffIsland_iff (c : AparaCore) (hc : c.config = (m.2.engines e).engine.config)
    (address : BitVec 32) : c.isOffIsland address = false ↔ InOwnWindow m.2 e address := by
  have hlt := (dmemBase_facts hl hm he).2
  have hbase : ((m.2.engines e).dmemBase.setWidth 32).toNat = (m.2.engines e).dmemBase.toNat := by
    have hsize : DMEM_BYTES = 65536 := rfl
    rw [toNat_setWidth]
    omega
  have hconfig := (hm e he).config
  unfold isOffIsland InOwnWindow
  rw [hc, hconfig]
  rw [decide_eq_false_iff_not, BitVec.toNat_sub, hbase]
  have haddress := address.isLt
  have hsize : DMEM_BYTES = 65536 := rfl
  omega

variable {address : BitVec 32}

/-- A doubleword in the engine's own window, and a byte. -/
theorem own_dword (hat : dmemAt l m.2 a = some (e, o)) (hin : InOwnWindow m.2 e address) :
    (o.val / 8 = address.toNat / 8 % DMEM_DWORDS ↔ a.toNat / 8 = address.toNat / 8) ∧
      o.val % 8 = a.toNat % 8 := by
  have ho := (dmemAt_own hl hm he).1 hat
  have hbase := (dmemBase_facts hl hm he).1
  have hsize : DMEM_BYTES = 65536 := rfl
  have hdwords : DMEM_DWORDS = 8192 := rfl
  have hlt : o.val < 65536 := o.isLt
  rw [InOwnWindow, hsize] at hin
  rw [hsize] at hbase
  rw [hdwords]
  omega

/-- A byte of another window is not in a doubleword of the engine's own. -/
theorem other_dword (hat : ∀ o, dmemAt l m.2 a ≠ some (e, o)) (hin : InOwnWindow m.2 e address) :
    ¬ a.toNat / 8 = address.toNat / 8 := by
  intro hdword
  have hbase := (dmemBase_facts hl hm he).1
  have hsize : DMEM_BYTES = 65536 := rfl
  rw [InOwnWindow, hsize] at hin
  rw [hsize] at hbase
  have hlt : a.toNat - (m.2.engines e).dmemBase.toNat < DMEM_BYTES := by omega
  exact hat ⟨_, hlt⟩ ((dmemAt_own hl hm he).2 (by simp only; omega))

section Transfer

variable (l e m a b) in
/-- A doubleword that an engine transfers: the byte is named, or read, at its address. -/
def MovesByte (t : DwordTransaction) : Prop :=
  let z := transfer (some (attachment l devices e).port) t m
  byteAt l (assemble e z.2) a =
      some (if Names t a then dwordByte t.data (a.toNat % 8) else b) ∧
    (t.store = false → a.toNat / 8 = t.address.toNat / 8 →
      dwordByte z.1.data (a.toNat % 8) = b)

variable {t : DwordTransaction}
  (hisland : t.offIsland = (m.2.engines e).engine.isOffIsland t.address)
  (hb : byteAt l (assemble e m) a = some b)
include hisland hb

/-- One doubleword that an engine transfers in its own window. -/
theorem transfer_byte_local (hoff : t.offIsland = false) : MovesByte l devices a b e m t := by
  rw [hoff] at hisland
  simp only [MovesByte, Names]
  have hin := (isOffIsland_iff hl hm he _ rfl t.address).1 hisland.symm
  obtain ⟨o, hat, rfl⟩ | ⟨hat, hb'⟩ := byteAt_assemble hb
  · obtain ⟨hdword, hmod⟩ := own_dword hl hm he hat hin
    have hload (h : a.toNat / 8 = t.address.toNat / 8) :
        dwordByte (m.1 (dmemIndex (t.address.toNat / 8))) (a.toNat % 8) =
          dmemByte m.1 o := by
      have hindex : dmemIndex (o.val / 8) =
          dmemIndex (t.address.toNat / 8) := by
        rw [dmemIndex, dmemIndex, Fin.mk.injEq, hdword.2 h, Nat.mod_mod]
      rw [dmemByte, hindex, hmod]
    rcases (Bool.eq_false_or_eq_true t.store).symm with hstore | hstore
    · simp only [transfer, hoff, hstore, Bool.not_false, if_true, if_off, forall_const]
      exact ⟨byteAt_assemble_own m.1 hat, hload⟩
    · simp only [transfer, hoff, hstore, Bool.not_false, if_true, true_and, Bool.true_eq_false,
        false_implies, and_true]
      rw [byteAt_assemble_own _ hat, dmemByte_update, dwordByte_merge, hmod]
      by_cases hsame : a.toNat / 8 = t.address.toNat / 8
      · rw [if_pos (hdword.2 hsame), if_congr (and_iff_right hsame) rfl rfl, hload hsame]
      · rw [if_neg fun hc => hsame (hdword.1 hc), if_neg fun hc => hsame hc.1]
  · have hother := other_dword hl hm he hat hin
    simp only [hother, false_and, and_false, if_false, false_implies, implies_true, and_true]
    cases hstore : t.store
    · simp only [transfer, hoff, hstore, Bool.not_false, if_true, if_off]
      exact hb
    · simp only [transfer, hoff, hstore, Bool.not_false, if_true]
      rw [byteAt_assemble_other _ hat]
      exact hb'

/-- One doubleword that an engine transfers outside its window. -/
theorem transfer_byte_offIsland (hoff : t.offIsland = true) : MovesByte l devices a b e m t := by
  rw [hoff] at hisland
  simp only [MovesByte, Names]
  have hout : ¬ InOwnWindow m.2 e t.address := by
    rw [← isOffIsland_iff hl hm he _ rfl t.address, ← hisland]
    exact fun h => by cases h
  have haddress : (t.address.setWidth 64).toNat = t.address.toNat :=
    toNat_setWidth_of_le (by decide)
  have hnames (k : Nat) :
      names (busMaskToDmemLanes t.lanes) k = t.lanes.getLsbD (7 - k) := by
    rw [names, busMaskToDmemLanes_busMaskToDmemLanes]
  obtain ⟨o, hat, rfl⟩ | ⟨hat, hb'⟩ := byteAt_assemble hb
  · -- a byte of the engine's own window is not meant
    have hother : ¬ a.toNat / 8 = t.address.toNat / 8 := by
      intro hdword
      have ho := (dmemAt_own hl hm he).1 hat
      have hbase := (dmemBase_facts hl hm he).1
      have hsize : DMEM_BYTES = 65536 := rfl
      have hlt : o.val < 65536 := o.isLt
      rw [InOwnWindow, hsize] at hout
      rw [hsize] at hbase
      omega
    simp only [hother, false_and, and_false, if_false, false_implies, implies_true, and_true]
    cases hstore : t.store
    · simp only [transfer, hoff, hstore, Bool.not_true, if_off]
      refine byteAt_assemble_own m.1 ?_
      rw [← hat]
      exact (samePlaces_access l devices _ m.2).dmemAt a
    · simp only [transfer, hoff, hstore, Bool.not_true, if_off, if_true]
      refine byteAt_assemble_own m.1 ?_
      rw [← hat]
      exact (samePlaces_access l devices _ m.2).dmemAt a
  · have hread := (access_byte devices
      { accessType := .READ, lock := false, physicalAddress := t.address.setWidth 64, data := 0,
        byteMask := busMaskToDmemLanes t.lanes } hm hb')
    have hwrite := (access_byte devices
      { accessType := .WRITE, lock := false, physicalAddress := t.address.setWidth 64,
        data := busToDmem t.data, byteMask := busMaskToDmemLanes t.lanes } hm hb').1
    simp only [reduceCtorEq, false_and, if_false, forall_const, true_and, haddress, hnames,
      busToDmem_busToDmem] at hread hwrite
    have hkeep (r : PhysicalMemoryRequest) (o : Fin DMEM_BYTES) :
        dmemAt l (access l devices r m.2).2 a ≠ some (e, o) := by
      rw [(samePlaces_access l devices r m.2).dmemAt]
      exact hat o
    rcases (Bool.eq_false_or_eq_true t.store).symm with hstore | hstore
    · simp only [transfer, hoff, hstore, Bool.not_true, if_off, forall_const]
      exact ⟨(byteAt_assemble_other m.1 (hkeep _)).trans hread.1, hread.2⟩
    · simp only [transfer, hoff, hstore, Bool.not_true, if_off, if_true,
        true_and, Bool.true_eq_false, false_implies, and_true]
      exact (byteAt_assemble_other m.1 (hkeep _)).trans hwrite

theorem transfer_byte : MovesByte l devices a b e m t := by
  cases hoff : t.offIsland with
  | false => exact transfer_byte_local devices hl hm he hisland hb hoff
  | true => exact transfer_byte_offIsland devices hl hm he hisland hb hoff

end Transfer

/-- Doublewords stored one after the other, where all that change a byte agree on it. -/
theorem transferAll_byte (hts : Routed m.2 e ts) {v : BitVec 8}
    (hb : byteAt l (assemble e m) a = some b)
    (hv : ∀ t ∈ ts, Names t a → dwordByte t.data (a.toNat % 8) = v) :
    byteAt l (assemble e (transferAll (some (attachment l devices e).port) ts m).2) a =
      some (if ∃ t ∈ ts, Names t a then v else b) := by
  induction ts generalizing m b with
  | nil =>
    rw [if_neg (by simp)]
    exact hb
  | cons t ts ih =>
    have hplaces := samePlaces_transfer (l := l) (e := e) (m := m) devices t
    have hfirst := (transfer_byte devices hl hm he (hts t mem_cons_self) hb).1
    have hrest := ih (hplaces.placed hm) (by rw [hplaces.attached, he])
      (Routed.samePlaces (fun t' ht' => hts t' (mem_cons_of_mem t ht')) hplaces) hfirst
      fun t' ht' => hv t' (mem_cons_of_mem t ht')
    refine hrest.trans (congrArg some ?_)
    by_cases hnext : ∃ t' ∈ ts, Names t' a
    · rw [if_pos hnext, if_pos (exists_mem_cons_of_exists hnext)]
    · rw [if_neg hnext]
      by_cases hnames : Names t a
      · rw [if_pos hnames, if_pos ⟨t, mem_cons_self, hnames⟩, hv t mem_cons_self hnames]
      · rw [if_neg hnames, if_neg]
        rintro ⟨t', ht', h'⟩
        rcases mem_cons.1 ht' with rfl | hmem
        · exact hnames h'
        · exact hnext ⟨t', hmem, h'⟩

variable {bytes : Nat → BitVec 8}

omit hl hm he in
/-- A doubleword is what its bytes are. -/
theorem eq_readBytes {d : BitVec 64} {a : Nat} (h : ∀ k < 8, dwordByte d k = bytes (a + k)) :
    d = BitVec.ofNat 64 (readBytes bytes a 8) := by
  have hvalue := readBytes_of_bytes (b := bytes) (n := 8) 8 le_rfl
    fun k hk => by rw [← h k hk, Nat.zero_add, dwordByte]
  apply BitVec.eq_of_toNat_eq
  have hlt := d.isLt
  rw [hvalue, toNat_ofNat, Nat.sub_zero, Nat.sub_self, pow_zero, Nat.div_one]
  omega

/-- Doublewords that are loaded hold the bytes at their addresses. -/
theorem transferAll_loads (hts : Routed m.2 e ts) (hload : ∀ t ∈ ts, t.store = false)
    (hbytes : ∀ t ∈ ts, ∀ k < 8, byteAt l (assemble e m) (BitVec.ofNat 64 (t.address.toNat / 8 * 8
      + k)) = some (bytes (t.address.toNat / 8 * 8 + k))) :
    (transferAll (some (attachment l devices e).port) ts m).1 =
      ts.map fun t => { t with
        data := BitVec.ofNat 64 (readBytes bytes (t.address.toNat / 8 * 8) 8), done := true } := by
  induction ts generalizing m with
  | nil => rfl
  | cons t ts ih =>
    have hplaces := samePlaces_transfer (l := l) (e := e) (m := m) devices t
    have hstore := hload t mem_cons_self
    have hroute := hts t mem_cons_self
    have hdata : (transfer (some (attachment l devices e).port) t m).1 = { t with
        data := BitVec.ofNat 64 (readBytes bytes (t.address.toNat / 8 * 8) 8), done := true } := by
      obtain ⟨d, hd⟩ : ∃ d, (transfer (some (attachment l devices e).port) t m).1 =
          { t with data := d, done := true } := by
        unfold transfer
        rw [hstore]
        split
        · exact ⟨_, rfl⟩
        · exact ⟨_, rfl⟩
      have hd8 (k : Nat) (hk : k < 8) : dwordByte d k = bytes (t.address.toNat / 8 * 8 + k) := by
        have hlt := t.address.isLt
        have hbyte := (transfer_byte devices hl hm he hroute (hbytes t mem_cons_self k hk)).2
          hstore
        rw [toNat_ofNat, Nat.mod_eq_of_lt (by omega), hd] at hbyte
        have hmod : (t.address.toNat / 8 * 8 + k) % 8 = k := by omega
        rw [hmod] at hbyte
        exact hbyte (by omega)
      rw [hd, eq_readBytes hd8]
    rw [transferAll, map_cons, hdata, ih (hplaces.placed hm) (by rw [hplaces.attached, he])
      (Routed.samePlaces (fun t' ht' => hts t' (mem_cons_of_mem t ht')) hplaces)
      fun t' ht' => hload t' (mem_cons_of_mem t ht')]
    intro t' ht' k hk
    rw [(transfer_byte devices hl hm he hroute (hbytes t' (mem_cons_of_mem t ht') k hk)).1,
      if_neg fun h => Bool.false_ne_true (hstore.symm.trans h.1)]

end Engine

end EngineSystem

end SparcV8.Apara
