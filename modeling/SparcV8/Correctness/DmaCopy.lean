import SparcV8.Apara.Windows
import Mathlib.Algebra.BigOperators.Fin
import Mathlib.Algebra.Order.BigOperators.Group.Finset

/-!
# The copies of the DMA unit

The started channels move their bursts in pieces, in turn. Every piece is within one doubleword on
both sides, and after finitely many of them each byte has been copied, and nothing else has changed.
-/

namespace SparcV8.Apara

open SystemBus Function List BitVec EngineSystem

/-- A byte of a copy: its channel, its burst and its place in the burst. -/
abbrev CopyIndex := ChannelIndex × Nat × Nat

variable {c : ChannelIndex}

namespace AparaDmaCore

/-! ## What the registers describe -/

section Described

variable (d : AparaDmaCore)

def load (c : ChannelIndex) : Bool := d.op c == LOAD

def bursts (c : ChannelIndex) : Nat := (d.reg c 4).toNat

def gap (c : ChannelIndex) : Nat := (d.reg c 5).toNat

def bytesPerBurst (c : ChannelIndex) : Nat := (d.reg c 6).toNat

variable (x : CopyIndex)

/-- The bursts of a load are apart in the source. -/
def sourceAddress : BitVec 64 :=
  d.sourceBase x.1 +
    BitVec.ofNat 64 (x.2.1 * (if d.load x.1 then d.gap x.1 else d.bytesPerBurst x.1) + x.2.2)

/-- The bursts of a store are apart in the destination. -/
def destinationAddress : BitVec 64 :=
  d.destinationBase x.1 +
    BitVec.ofNat 64 (x.2.1 * (if d.load x.1 then d.bytesPerBurst x.1 else d.gap x.1) + x.2.2)

def source : Location :=
  if d.load x.1 then .system (d.sourceAddress x) else dmemLocation (d.sourceAddress x).toNat

def destination : Location :=
  if d.load x.1 then dmemLocation (d.destinationAddress x).toNat
  else .system (d.destinationAddress x)

/-- The bytes that the active channels are to copy. -/
def Described : Prop :=
  (d.progress x.1).active = true ∧ x.2.1 < d.bursts x.1 ∧ x.2.2 < d.bytesPerBurst x.1

/-- A channel that has been started, and has something to do. -/
structure Started (c : ChannelIndex) : Prop where
  op : d.op c = LOAD ∨ d.op c = STORE
  burst : (d.progress c).burst = 0
  offset : (d.progress c).offset = 0
  bursts_pos : 0 < d.bursts c
  bytes_pos : 0 < d.bytesPerBurst c

/-- The flags of a channel are beside its operation. -/
theorem op_start (r0 : BitVec 32) :
    ((r0 &&& ~~~((1 : BitVec 32) <<< FLAG_SCHEDULED)) |||
      ((1 : BitVec 32) <<< FLAG_STARTED)).extractLsb 31 24 = r0.extractLsb 31 24 := by
  rw [BitVec.extractLsb_or, BitVec.extractLsb_and]
  exact BitVec.or_zero.trans BitVec.and_allOnes

/-- A channel whose registers describe a copy is started with it. -/
theorem started_start (now : BitVec 64) (hop : d.op c = LOAD ∨ d.op c = STORE)
    (hbursts : 0 < d.bursts c) (hbytes : 0 < d.bytesPerBurst c) :
    ((d.start c now).progress c).active = true ∧ (d.start c now).Started c := by
  set e := (d.setReg c 0 ((d.reg c 0 &&& ~~~((1 : BitVec 32) <<< FLAG_SCHEDULED)) |||
    ((1 : BitVec 32) <<< FLAG_STARTED))).setReg c 7 (now.setWidth 32) with he
  have hop' : e.op c = d.op c := by
    simp only [he, op, setReg, update_self]
    exact op_start (d.reg c 0)
  have hreg (i : Fin 8) (hi : i ≠ 0) (hi' : i ≠ 7) : e.reg c i = d.reg c i := by
    simp [he, setReg, update_of_ne hi, update_of_ne hi']
  rw [bursts, ← hreg 4 (by decide) (by decide)] at hbursts
  rw [bytesPerBurst, ← hreg 6 (by decide) (by decide)] at hbytes
  have hstart : d.start c now = e.setProgress c { active := true, burst := 0, offset := 0 } := by
    have hbytes' : e.reg c 6 ≠ 0 := fun hc => by simp [hc] at hbytes
    have hbursts' : e.reg c 4 ≠ 0 := fun hc => by simp [hc] at hbursts
    exact (if_neg (by rw [hop']; tauto)).trans (if_neg hbursts')
  rw [hstart]
  exact ⟨by simp [setProgress], hop'.symm ▸ hop, by simp [setProgress], by simp [setProgress],
    hbursts, hbytes⟩

end Described

/-! ## The next piece -/

variable {d : AparaDmaCore}

section Piece

/-- One address of a piece, and the byte at a place of the burst. -/
theorem address_eq (base : BitVec 64) (burst offset step : BitVec 32) (k : Nat) :
    base + BitVec.ofNat 64 (burst.toNat * step.toNat + (offset.toNat + k)) =
      base + burst.setWidth 64 * step.setWidth 64 + offset.setWidth 64 + BitVec.ofNat 64 k := by
  rw [ofNat_add, BitVec.ofNat_mul, ofNat_add, ofNat_toNat, ofNat_toNat, ofNat_toNat]
  simp only [add_assoc]

theorem sourceAddress_eq (k : Nat) :
    d.sourceAddress (c, (d.progress c).burst.toNat, (d.progress c).offset.toNat + k) =
      d.sourceAddress (c, (d.progress c).burst.toNat, (d.progress c).offset.toNat) +
        BitVec.ofNat 64 k := by
  simp only [sourceAddress, ofNat_add, add_assoc]

theorem destinationAddress_eq (k : Nat) :
    d.destinationAddress (c, (d.progress c).burst.toNat, (d.progress c).offset.toNat + k) =
      d.destinationAddress (c, (d.progress c).burst.toNat, (d.progress c).offset.toNat) +
        BitVec.ofNat 64 k := by
  simp only [destinationAddress, ofNat_add, add_assoc]

/-- The next piece of a channel, in terms of the bytes that it moves. -/
theorem pieceOf_eq (hoffset : (d.progress c).offset.toNat ≤ d.bytesPerBurst c) :
    d.pieceOf c =
      let x : CopyIndex := (c, (d.progress c).burst.toNat, (d.progress c).offset.toNat)
      let src := d.sourceAddress x
      let dst := d.destinationAddress x
      { channel := c
        toDmem := d.load c
        systemAddress := if d.load c then src else dst
        dmemAddress := BitVec.ofNat 32 ((if d.load c then dst else src).toNat % DMEM_BYTES)
        bytes := min (d.bytesPerBurst c - x.2.2)
          (min (8 - src.toNat % 8) (8 - dst.toNat % 8)) } := by
  have hleft : ((d.reg c 6).setWidth 64 - (d.progress c).offset.setWidth 64).toNat =
      d.bytesPerBurst c - (d.progress c).offset.toNat := by
    have hb := (d.reg c 6).isLt
    have ho := (d.progress c).offset.isLt
    rw [BitVec.toNat_sub, toNat_setWidth, toNat_setWidth]
    unfold bytesPerBurst at hoffset ⊢
    omega
  have hstep (base : BitVec 64) (step : BitVec 32) :
      base + BitVec.ofNat 64 ((d.progress c).burst.toNat * step.toNat +
        (d.progress c).offset.toNat) =
        base + (d.progress c).burst.setWidth 64 * step.setWidth 64 +
          (d.progress c).offset.setWidth 64 := by
    have h := address_eq base (d.progress c).burst (d.progress c).offset step 0
    simpa using h
  unfold pieceOf
  dsimp only
  rw [hleft]
  unfold sourceAddress destinationAddress bytesPerBurst gap load
  cases d.op c == LOAD <;> simp [hstep]

variable (hoffset : (d.progress c).offset.toNat < d.bytesPerBurst c)
include hoffset

/-- A piece is within one doubleword on both sides. -/
theorem within_pieceOf : (d.pieceOf c).Within := by
  obtain ⟨hs, hd, hlt⟩ := d.fits_pieceOf c
  refine ⟨?_, hs, hd, hlt⟩
  rw [pieceOf_eq hoffset.le]
  dsimp only
  omega

theorem bytes_pieceOf_le : (d.progress c).offset.toNat + (d.pieceOf c).bytes ≤
    d.bytesPerBurst c := by
  rw [pieceOf_eq hoffset.le]
  dsimp only
  omega

/-- The bytes of a piece are those that come next in its burst. -/
theorem locations_pieceOf {k : Nat} (hk : k < (d.pieceOf c).bytes) :
    let x : CopyIndex := (c, (d.progress c).burst.toNat, (d.progress c).offset.toNat + k)
    (d.pieceOf c).source k = d.source x ∧ (d.pieceOf c).destination k = d.destination x := by
  have hdmem (a : BitVec 64) (ha : a.toNat % 8 + k < 8) :
      dmemLocation ((BitVec.ofNat 32 (a.toNat % DMEM_BYTES)).toNat + k) =
        dmemLocation (a + BitVec.ofNat 64 k).toNat := by
    have hlt : a.toNat % DMEM_BYTES < 2 ^ 32 := lt_trans (Nat.mod_lt _ (by decide)) (by decide)
    rw [toNat_address_add ha, toNat_ofNat, Nat.mod_eq_of_lt hlt, dmemLocation, dmemLocation,
      Location.dmem.injEq, Fin.mk.injEq]
    exact Nat.mod_add_mod _ _ _
  rw [pieceOf_eq hoffset.le] at hk ⊢
  unfold Piece.source Piece.destination Piece.systemLocation Piece.dmemLocation source destination
  dsimp only at hk ⊢
  rw [sourceAddress_eq, destinationAddress_eq]
  cases d.load c with
  | false =>
    simp only [if_false, Bool.false_eq_true]
    exact ⟨hdmem _ (by omega), trivial⟩
  | true =>
    simp only [if_true]
    exact ⟨trivial, hdmem _ (by omega)⟩

end Piece

/-! ## Progress -/

/-- Started channels are at a place of their copy, or have completed it. -/
structure Running (d₀ d : AparaDmaCore) : Prop where
  active : ∀ c, (d.progress c).active = true → (d₀.progress c).active = true
  reg : ∀ c, (d.progress c).active = true → d.reg c = d₀.reg c
  burst_lt : ∀ c, (d.progress c).active = true → (d.progress c).burst.toNat < d₀.bursts c
  offset_lt : ∀ c, (d.progress c).active = true → (d.progress c).offset.toNat < d₀.bytesPerBurst c
  completed : ∀ c, (d₀.progress c).active = true → (d.progress c).active = false →
    (d.reg c 0).getLsbD FLAG_COMPLETED = true ∧ (d.reg c 0).getLsbD FLAG_STARTED = false

/-- The bytes that have been copied. -/
def Done (d₀ d : AparaDmaCore) (x : CopyIndex) : Prop :=
  d₀.Described x ∧ ((d.progress x.1).active = true → x.2.1 < (d.progress x.1).burst.toNat ∨
    x.2.1 = (d.progress x.1).burst.toNat ∧ x.2.2 < (d.progress x.1).offset.toNat)

/-- The bytes that a channel has still to copy. -/
def remaining (d₀ d : AparaDmaCore) (c : ChannelIndex) : Nat :=
  if (d.progress c).active then
    (d₀.bursts c - (d.progress c).burst.toNat) * d₀.bytesPerBurst c - (d.progress c).offset.toNat
  else 0

variable {p : Piece}

/-- What a finished piece does to its channel. -/
theorem pieceDone_channel (now : BitVec 64) (hactive : (d.progress p.channel).active = true)
    (hburst : (d.progress p.channel).burst.toNat < d.bursts p.channel)
    (hle : (d.progress p.channel).offset.toNat + p.bytes ≤ d.bytesPerBurst p.channel) :
    let g := d.progress p.channel
    let g' := (d.pieceDone p now).progress p.channel
    let r' := (d.pieceDone p now).reg p.channel
    (g.offset.toNat + p.bytes < d.bytesPerBurst p.channel ∧ r' = d.reg p.channel ∧
        g'.active = true ∧ g'.burst.toNat = g.burst.toNat ∧
          g'.offset.toNat = g.offset.toNat + p.bytes) ∨
      g.offset.toNat + p.bytes = d.bytesPerBurst p.channel ∧
        (g.burst.toNat + 1 < d.bursts p.channel ∧ r' = d.reg p.channel ∧ g'.active = true ∧
            g'.burst.toNat = g.burst.toNat + 1 ∧ g'.offset.toNat = 0 ∨
          g.burst.toNat + 1 = d.bursts p.channel ∧ g'.active = false ∧
            (r' 0).getLsbD FLAG_COMPLETED = true ∧ (r' 0).getLsbD FLAG_STARTED = false) := by
  have hr6 := (d.reg p.channel 6).isLt
  have hr4 := (d.reg p.channel 4).isLt
  have hoffset : ((d.progress p.channel).offset + BitVec.ofNat 32 p.bytes).toNat =
      (d.progress p.channel).offset.toNat + p.bytes := by
    unfold bytesPerBurst at hle
    rw [toNat_add, toNat_ofNat]
    omega
  have hnext : ((d.progress p.channel).burst + 1).toNat =
      (d.progress p.channel).burst.toNat + 1 := by
    unfold bursts at hburst
    rw [toNat_add, show (1 : BitVec 32).toNat = 1 from rfl]
    omega
  unfold bytesPerBurst bursts at *
  unfold pieceDone
  simp only [hactive, Bool.not_true, if_off, hoffset]
  by_cases hend : (d.reg p.channel 6).toNat ≤ (d.progress p.channel).offset.toNat + p.bytes
  · refine .inr ⟨Nat.le_antisymm hle hend, ?_⟩
    rw [if_pos hend]
    by_cases hlast : (d.reg p.channel 4).toNat ≤ (d.progress p.channel).burst.toNat + 1
    · refine .inr ⟨by omega, ?_⟩
      simp only [setProgress, hnext, hlast, if_true, finish, setReg, update_self, true_and,
        FLAG_COMPLETED, FLAG_STARTED, if_off]
      simp [update_of_ne]
    · refine .inl ⟨by omega, ?_⟩
      simp only [setProgress, hnext, hlast, if_false, update_self, true_and]
      rfl
  · refine .inl ⟨by omega, ?_⟩
    rw [if_neg hend]
    simp [setProgress, hoffset]

/-- A finished piece leaves the other channels alone. -/
theorem pieceDone_other (now : BitVec 64) (hc : c ≠ p.channel) :
    (d.pieceDone p now).progress c = d.progress c ∧ (d.pieceDone p now).reg c = d.reg c := by
  unfold pieceDone
  dsimp only
  split
  · exact ⟨rfl, rfl⟩
  · split
    · split <;> simp [finish, setProgress, setReg, update_of_ne hc]
    · simp [setProgress, update_of_ne hc]

theorem nextPiece_eq_some (h : d.nextPiece = some p) :
    ∃ c, (d.progress c).active = true ∧ p = d.pieceOf c := by
  obtain ⟨c, hc, rfl⟩ := Option.map_eq_some_iff.1 h
  have hactive := find?_some hc
  exact ⟨c, hactive, rfl⟩

theorem busy_iff : d.busy = true ↔ ∃ c, (d.progress c).active = true := by
  rw [busy, any_eq_true]
  exact ⟨fun ⟨c, _, hc⟩ => ⟨c, hc⟩, fun ⟨c, hc⟩ => ⟨c, mem_finRange c, hc⟩⟩

/-- As long as a channel is active there is a piece to move. -/
theorem exists_nextPiece (h : d.busy = true) : ∃ p, d.nextPiece = some p := by
  obtain ⟨c, hc⟩ := busy_iff.1 h
  have hmem : c ∈ (finRange 4).map fun i => d.nextChannel + i :=
    mem_map.2 ⟨c - d.nextChannel, mem_finRange _, add_sub_cancel _ _⟩
  have hsome : (((finRange 4).map fun i => d.nextChannel + i).find? fun c =>
      (d.progress c).active).isSome = true :=
    find?_isSome.2 ⟨c, hmem, hc⟩
  obtain ⟨c', hc'⟩ := Option.isSome_iff_exists.1 hsome
  exact ⟨d.pieceOf c', Option.map_eq_some_iff.2 ⟨c', hc', rfl⟩⟩

section Step

variable {d₀ : AparaDmaCore} (h : Running d₀ d)
include h

/-- The bytes of a channel on its way are those of its start. -/
theorem Running.described (hc : (d.progress c).active = true) :
    d.bursts c = d₀.bursts c ∧ d.bytesPerBurst c = d₀.bytesPerBurst c ∧
      ∀ i j, d.source (c, i, j) = d₀.source (c, i, j) ∧
        d.destination (c, i, j) = d₀.destination (c, i, j) := by
  have hreg := h.reg c hc
  unfold bursts bytesPerBurst source destination sourceAddress destinationAddress gap load op
    sourceBase destinationBase bytesPerBurst
  simp [hreg]

variable (hc : (d.progress c).active = true) (now : BitVec 64)
include hc

/-- The next piece moves the bytes that come next. -/
theorem Running.piece :
    (d.pieceOf c).Within ∧ (d.progress c).offset.toNat + (d.pieceOf c).bytes ≤ d₀.bytesPerBurst c ∧
      ∀ k < (d.pieceOf c).bytes,
        let x : CopyIndex := (c, (d.progress c).burst.toNat, (d.progress c).offset.toNat + k)
        (d.pieceOf c).source k = d₀.source x ∧ (d.pieceOf c).destination k = d₀.destination x := by
  obtain ⟨-, hbytes, hlocation⟩ := h.described hc
  have hoffset := h.offset_lt c hc
  rw [← hbytes] at hoffset ⊢
  refine ⟨within_pieceOf hoffset, bytes_pieceOf_le hoffset, fun k hk => ?_⟩
  obtain ⟨hsrc, hdst⟩ := locations_pieceOf hoffset hk
  obtain ⟨hsrc', hdst'⟩ := hlocation (d.progress c).burst.toNat ((d.progress c).offset.toNat + k)
  exact ⟨hsrc.trans hsrc', hdst.trans hdst'⟩

/-- What a finished piece does to its channel, in terms of the start. -/
theorem Running.channel :
    let g := d.progress c
    let n := (d.pieceOf c).bytes
    let g' := (d.pieceDone (d.pieceOf c) now).progress c
    let r' := (d.pieceDone (d.pieceOf c) now).reg c
    (g.offset.toNat + n < d₀.bytesPerBurst c ∧ r' = d.reg c ∧ g'.active = true ∧
        g'.burst.toNat = g.burst.toNat ∧ g'.offset.toNat = g.offset.toNat + n) ∨
      g.offset.toNat + n = d₀.bytesPerBurst c ∧
        (g.burst.toNat + 1 < d₀.bursts c ∧ r' = d.reg c ∧ g'.active = true ∧
            g'.burst.toNat = g.burst.toNat + 1 ∧ g'.offset.toNat = 0 ∨
          g.burst.toNat + 1 = d₀.bursts c ∧ g'.active = false ∧
            (r' 0).getLsbD FLAG_COMPLETED = true ∧ (r' 0).getLsbD FLAG_STARTED = false) := by
  obtain ⟨hbursts, hbytes, -⟩ := h.described hc
  obtain ⟨-, hle, -⟩ := h.piece hc
  have hburst := h.burst_lt c hc
  rw [← hbytes] at hle ⊢
  rw [← hbursts] at hburst ⊢
  exact pieceDone_channel (p := d.pieceOf c) now hc hburst hle

/-- A finished piece leaves the channels on their way. -/
theorem Running.pieceDone : Running d₀ (d.pieceDone (d.pieceOf c) now) := by
  have hother {c' : ChannelIndex} (hne : c' ≠ c) :=
    pieceDone_other (d := d) (p := d.pieceOf c) now hne
  have hchannel := h.channel hc now
  refine ⟨fun c' hc' => ?_, fun c' hc' => ?_, fun c' hc' => ?_, fun c' hc' => ?_,
    fun c' hc₀ hc' => ?_⟩
  all_goals by_cases heq : c' = c
  · exact heq ▸ h.active c hc
  · rw [(hother heq).1] at hc'
    exact h.active c' hc'
  · subst heq
    rw [← h.reg c' hc]
    obtain ⟨-, hr, -⟩ | ⟨-, ⟨-, hr, -⟩ | ⟨-, hno, -⟩⟩ := hchannel
    · exact hr
    · exact hr
    · rw [hno] at hc'
      cases hc'
  · rw [(hother heq).1] at hc'
    rw [(hother heq).2]
    exact h.reg c' hc'
  · subst heq
    have hburst := h.burst_lt c' hc
    obtain ⟨-, -, -, hb, -⟩ | ⟨-, ⟨hlt, -, -, hb, -⟩ | ⟨-, hno, -⟩⟩ := hchannel
    · omega
    · omega
    · rw [hno] at hc'
      cases hc'
  · rw [(hother heq).1] at hc' ⊢
    exact h.burst_lt c' hc'
  · subst heq
    have hoffset := h.offset_lt c' hc
    obtain ⟨hlt, -, -, -, ho⟩ | ⟨-, ⟨-, -, -, -, ho⟩ | ⟨-, hno, -⟩⟩ := hchannel
    · omega
    · omega
    · rw [hno] at hc'
      cases hc'
  · rw [(hother heq).1] at hc' ⊢
    exact h.offset_lt c' hc'
  · subst heq
    obtain ⟨-, -, hyes, -⟩ | ⟨-, ⟨-, -, hyes, -⟩ | ⟨-, -, hflags⟩⟩ := hchannel
    · rw [hyes] at hc'
      cases hc'
    · rw [hyes] at hc'
      cases hc'
    · exact hflags
  · rw [(hother heq).1] at hc'
    rw [(hother heq).2]
    exact h.completed c' hc₀ hc'

/-- The bytes of a finished piece are done. -/
theorem Running.done_pieceDone (x : CopyIndex) :
    Done d₀ (d.pieceDone (d.pieceOf c) now) x ↔ Done d₀ d x ∨ ∃ k, k < (d.pieceOf c).bytes ∧
      (c, (d.progress c).burst.toNat, (d.progress c).offset.toNat + k) = x := by
  obtain ⟨c', i, j⟩ := x
  by_cases heq : c' = c
  · subst heq
    obtain ⟨-, hle, -⟩ := h.piece hc
    have hburst := h.burst_lt c' hc
    have hpiece : (∃ k, k < (d.pieceOf c').bytes ∧
        (c', (d.progress c').burst.toNat, (d.progress c').offset.toNat + k) = (c', i, j)) ↔
        i = (d.progress c').burst.toNat ∧ (d.progress c').offset.toNat ≤ j ∧
          j < (d.progress c').offset.toNat + (d.pieceOf c').bytes := by
      constructor
      · rintro ⟨k, hk, hx⟩
        simp only [Prod.mk.injEq, true_and] at hx
        omega
      · rintro ⟨rfl, hlo, hhi⟩
        exact ⟨j - (d.progress c').offset.toNat, by omega, by rw [Nat.add_sub_cancel' hlo]⟩
    rw [hpiece]
    unfold Done Described
    simp only [h.active c' hc, hc, true_and, forall_const]
    obtain ⟨-, -, hyes, hb, ho⟩ | ⟨hend, ⟨-, -, hyes, hb, ho⟩ | ⟨hlast, hno, -⟩⟩ := h.channel hc now
    · rw [hyes, hb, ho]
      simp only [forall_const]
      omega
    · rw [hyes, hb, ho]
      simp only [forall_const]
      omega
    · rw [hno]
      simp only [Bool.false_eq_true, false_implies, and_true]
      omega
  · have hother := pieceDone_other (d := d) (p := d.pieceOf c) now heq
    have hno : ¬ ∃ k, k < (d.pieceOf c).bytes ∧
        (c, (d.progress c).burst.toNat, (d.progress c).offset.toNat + k) = (c', i, j) := by
      rintro ⟨k, -, hx⟩
      exact heq (congrArg Prod.fst hx).symm
    unfold Done
    rw [hother.1, or_iff_left hno]

/-- Every piece leaves fewer bytes. -/
theorem Running.remaining_pieceDone :
    ∑ c', remaining d₀ (d.pieceDone (d.pieceOf c) now) c' < ∑ c', remaining d₀ d c' := by
  have hlt : remaining d₀ (d.pieceDone (d.pieceOf c) now) c < remaining d₀ d c := by
    obtain ⟨hwithin, hle, -⟩ := h.piece hc
    have hpos := hwithin.pos
    have hburst := h.burst_lt c hc
    have hrest : (d₀.bursts c - (d.progress c).burst.toNat) * d₀.bytesPerBurst c =
        (d₀.bursts c - ((d.progress c).burst.toNat + 1)) * d₀.bytesPerBurst c +
          d₀.bytesPerBurst c := by
      rw [← Nat.succ_mul]
      congr 1
      omega
    unfold remaining
    rw [if_pos hc, hrest]
    obtain ⟨hbefore, -, hyes, hb, ho⟩ | ⟨hend, ⟨-, -, hyes, hb, ho⟩ | ⟨-, hno, -⟩⟩ :=
      h.channel hc now
    · rw [if_pos hyes, hb, ho, hrest]
      omega
    · rw [if_pos hyes, hb, ho]
      omega
    · rw [hno, if_off]
      omega
  refine Finset.sum_lt_sum (fun c' _ => ?_) ⟨c, Finset.mem_univ c, hlt⟩
  by_cases heq : c' = c
  · exact heq ▸ hlt.le
  · unfold remaining
    rw [(pieceDone_other now heq).1]

end Step

end AparaDmaCore

/-! ## Runs -/

namespace PlainAt

open AparaDmaCore

variable {W : Type} {A : Attachment W} {P : BitVec 64 → Prop} {R : PlainAt A P}
variable (A) in
/-- Pieces are moved one after the other, each at some time. -/
def pieces (now : Nat → BitVec 64) (w : W) : Nat → W
  | 0 => w
  | n + 1 => A.movePiece (A.modify (fun s => { s with cycle := now n }) (pieces now w n))

/-- All that a copy touches on the system's side is plain memory. -/
def Touches (P : BitVec 64 → Prop) (d : AparaDmaCore) : Prop :=
  ∀ x, d.Described x → ∀ a, d.source x = .system a ∨ d.destination x = .system a → P a

/-- What has been done of the copies that were started in the state `w`. -/
structure Underway (R : PlainAt A P) (w w' : W) : Prop where
  running : Running (A.get w).dma (A.get w').dma
  copied : Copied (A.get w).dma.destination (A.get w).dma.source
    (Done (A.get w).dma (A.get w').dma) (R.memory w) (R.memory w')

theorem memory_set (s : AparaSystemCore) (w : W) (h : s.engine.dmem = (A.get w).engine.dmem) :
    R.memory (A.set s w) = R.memory w := by
  funext l
  cases l with
  | dmem a => rw [memory, memory, A.get_set, h]
  | system a => rw [memory, memory, R.byte_set]

theorem underway_start {w : W} (h : ∀ c, ((A.get w).dma.progress c).active = true →
    (A.get w).dma.Started c) : Underway R w w := by
  refine ⟨⟨fun _ hc => hc, fun _ _ => rfl, fun c hc => ?_, fun c hc => ?_, fun c hc hno => ?_⟩,
    .nothing (fun x hx => ?_) _⟩
  · rw [(h c hc).burst]
    exact (h c hc).bursts_pos
  · rw [(h c hc).offset]
    exact (h c hc).bytes_pos
  · rw [hc] at hno
    cases hno
  · obtain ⟨⟨hactive, -⟩, hbefore⟩ := hx
    have hplace := hbefore hactive
    rw [(h _ hactive).burst, (h _ hactive).offset] at hplace
    change x.2.1 < 0 ∨ x.2.1 = 0 ∧ x.2.2 < 0 at hplace
    omega

section Underway

variable {w w' : W} (h : Underway R w w')
  (hapart : CopySeparate (A.get w).dma.destination (A.get w).dma.source (A.get w).dma.Described)
  (hplain : Touches P (A.get w).dma)
include h

/-- Time passes. -/
theorem Underway.setCycle (now : BitVec 64) :
    Underway R w (A.modify (fun s => { s with cycle := now }) w') := by
  constructor
  · rw [Attachment.modify, A.get_set]
    exact h.running
  · rw [Attachment.modify, A.get_set, memory_set]
    · exact h.copied
    · rfl

include hplain

/-- The next piece of an active channel copies the bytes that come next. -/
theorem Underway.piece (hc : ((A.get w').dma.progress c).active = true) :
    let p := (A.get w').dma.pieceOf c
    let next (x : CopyIndex) := ∃ k, k < p.bytes ∧ (c, ((A.get w').dma.progress c).burst.toNat,
      ((A.get w').dma.progress c).offset.toNat + k) = x
    (∀ x, next x → (A.get w).dma.Described x) ∧
      Copied (A.get w).dma.destination (A.get w).dma.source next (R.memory w')
        (R.memory (A.move p w')) ∧
      KeepsUnits A w' (A.move p w') := by
  intro p next
  obtain ⟨hwithin, hle, hlocation⟩ := h.running.piece hc
  have hactive := h.running.active c hc
  have hburst := h.running.burst_lt c hc
  have hdescribed (x : CopyIndex) (hx : next x) : (A.get w).dma.Described x := by
    obtain ⟨k, hk, rfl⟩ := hx
    exact ⟨hactive, hburst, lt_of_lt_of_le (Nat.add_lt_add_left hk _) hle⟩
  have hP (k : Nat) (hk : k < p.bytes) : P (p.systemAddress + BitVec.ofNat 64 k) := by
    obtain ⟨hsrc, hdst⟩ := hlocation k hk
    refine hplain _ (hdescribed _ ⟨k, hk, rfl⟩) _ ?_
    rw [← hsrc, ← hdst]
    unfold Piece.source Piece.destination Piece.systemLocation
    split
    · exact .inl rfl
    · exact .inr rfl
  obtain ⟨hcopied, hunits⟩ := copied_move hwithin w' hP
  refine ⟨hdescribed, Copied.image ⟨fun k hk => ?_, fun l hl => ?_⟩, hunits⟩
  · rw [comp_apply, comp_apply, ← (hlocation k hk).1, ← (hlocation k hk).2]
    exact hcopied.copied k hk
  · refine hcopied.others l fun k hk => ?_
    rw [(hlocation k hk).2]
    exact hl k hk

/-- The channels after a piece. -/
theorem Underway.dma_movePiece (hc : ((A.get w').dma.progress c).active = true)
    (hp : (A.get w').dma.nextPiece = some ((A.get w').dma.pieceOf c)) :
    (A.get (A.movePiece w')).dma =
      (A.get w').dma.pieceDone ((A.get w').dma.pieceOf c) (A.get w').cycle := by
  obtain ⟨-, -, dmem, hunits⟩ := h.piece hplain hc
  rw [Attachment.movePiece, hp]
  dsimp only
  rw [Attachment.modify, A.get_set, hunits]

/-- Pieces are left to move, and fewer bytes after each. -/
theorem Underway.remaining_lt (hbusy : (A.get w').dma.busy = true) :
    (∃ p, (A.get w').dma.nextPiece = some p ∧ p.Within) ∧
      ∑ c, remaining (A.get w).dma (A.get (A.movePiece w')).dma c <
        ∑ c, remaining (A.get w).dma (A.get w').dma c := by
  obtain ⟨p, hp⟩ := exists_nextPiece hbusy
  obtain ⟨c, hc, rfl⟩ := nextPiece_eq_some hp
  refine ⟨⟨_, hp, (h.running.piece hc).1⟩, ?_⟩
  rw [h.dma_movePiece hplain hc hp]
  exact h.running.remaining_pieceDone hc _

include hapart

/-- A piece of the copies is moved. -/
theorem Underway.movePiece : Underway R w (A.movePiece w') := by
  cases hp : (A.get w').dma.nextPiece with
  | none =>
    rw [Attachment.movePiece, hp]
    exact h
  | some p =>
    obtain ⟨c, hc, rfl⟩ := nextPiece_eq_some hp
    obtain ⟨hdescribed, hcopied, -⟩ := h.piece hplain hc
    have hdma := h.dma_movePiece hplain hc hp
    constructor
    · rw [hdma]
      exact h.running.pieceDone hc _
    · have hmemory : R.memory (A.movePiece w') =
          R.memory (A.move ((A.get w').dma.pieceOf c) w') := by
        rw [Attachment.movePiece, hp]
        exact memory_set _ _ rfl
      rw [hdma, hmemory]
      exact (h.copied.trans hcopied hapart (fun x hx => hx.1) hdescribed).congr
        fun x => (h.running.done_pieceDone hc _ x).symm

omit h in
/-- Every number of pieces leaves the copies on their way. -/
theorem underway_pieces (now : Nat → BitVec 64) (h : Underway R w w) (n : Nat) :
    Underway R w (pieces A now w n) := by
  induction n with
  | zero => exact h
  | succ n ih => exact (ih.setCycle (now n)).movePiece hapart hplain

end Underway

/-- The copies that have been started end after finitely many pieces. Every piece is within one
doubleword on both sides, in the end every byte has been copied, and no other byte is changed. -/
theorem dma_copies (R : PlainAt A P) (w : W) (now : Nat → BitVec 64)
    (hstarted : ∀ c, ((A.get w).dma.progress c).active = true → (A.get w).dma.Started c)
    (hapart : CopySeparate (A.get w).dma.destination (A.get w).dma.source (A.get w).dma.Described)
    (hplain : Touches P (A.get w).dma) :
    ∃ N, (∀ n < N, ∃ p, (A.get (pieces A now w n)).dma.nextPiece = some p ∧ p.Within) ∧
      (A.get (pieces A now w N)).dma.busy = false ∧
      (∀ c, ((A.get w).dma.progress c).active = true →
        ((A.get (pieces A now w N)).dma.reg c 0).getLsbD FLAG_COMPLETED = true ∧
        ((A.get (pieces A now w N)).dma.reg c 0).getLsbD FLAG_STARTED = false) ∧
      (∀ x, (A.get w).dma.Described x → R.memory (pieces A now w N) ((A.get w).dma.destination x) =
        R.memory w ((A.get w).dma.source x)) ∧
      (∀ l, (∀ x, (A.get w).dma.Described x → (A.get w).dma.destination x ≠ l) →
        R.memory (pieces A now w N) l = R.memory w l) := by
  have hunderway := underway_pieces hapart hplain now (underway_start (R := R) hstarted)
  -- the bytes that remain bound the number of pieces
  have hends : ∃ n, (A.get (pieces A now w n)).dma.busy = false := by
    by_contra hnever
    push Not at hnever
    have hfall (n : Nat) : n + ∑ c, remaining (A.get w).dma (A.get (pieces A now w n)).dma c ≤
        ∑ c, remaining (A.get w).dma (A.get w).dma c := by
      induction n with
      | zero => rw [Nat.zero_add, pieces]
      | succ n ih =>
        have hcycle := (hunderway n).setCycle (now n)
        have hlt := (hcycle.remaining_lt hplain (by
          rw [Attachment.modify, A.get_set]
          exact Bool.eq_true_of_not_eq_false (hnever n))).2
        rw [Attachment.modify, A.get_set] at hlt
        change _ < ∑ c, remaining (A.get w).dma (A.get (pieces A now w n)).dma c at hlt
        rw [pieces, Attachment.modify]
        omega
    have := hfall (∑ c, remaining (A.get w).dma (A.get w).dma c + 1)
    omega
  classical
  refine ⟨Nat.find hends, fun n hn => ?_, Nat.find_spec hends, ?_⟩
  · exact ((hunderway n).remaining_lt hplain
      (Bool.eq_true_of_not_eq_false (Nat.find_min hends hn))).1
  · have hend := Nat.find_spec hends
    have hlast := hunderway (Nat.find hends)
    generalize pieces A now w (Nat.find hends) = w' at hend hlast ⊢
    have hidle (c : ChannelIndex) : ((A.get w').dma.progress c).active = false := by
      rw [← Bool.not_eq_true]
      intro hc
      rw [busy_iff.2 ⟨c, hc⟩] at hend
      cases hend
    have hdone (x : CopyIndex) : Done (A.get w).dma (A.get w').dma x ↔
        (A.get w).dma.Described x := by
      refine ⟨fun hx => hx.1, fun hx => ⟨hx, fun hc => ?_⟩⟩
      rw [hidle] at hc
      cases hc
    have hcopied := hlast.copied.congr hdone
    exact ⟨fun c hc => hlast.running.completed c hc (hidle c), hcopied.copied, hcopied.others⟩

/-- An engine whose first channel gathers two bursts of three bytes. -/
def gatheringEngine : AparaSystemCore :=
  { AparaSystemCore.initial 0 0 with
    dma :=
      { reg := fun _ i => match i with
          | 0 => 0x01000002
          | 1 => 0x1003
          | 2 => 6
          | 4 => 2
          | 5 => 16
          | 6 => 3
          | _ => 0
        progress := fun c => { active := c = 0 } } }

/-- The bytes that it copies. -/
def gatheredBytes : List CopyIndex :=
  [(0, 0, 0), (0, 0, 1), (0, 0, 2), (0, 1, 0), (0, 1, 1), (0, 1, 2)]

/-- The engine at a bus, whose words of main memory are all different. -/
def gatheringSystem : EngineSystem Unit :=
  { memory := ⟨fun i => BitVec.ofNat 32 (0x01020304 * i)⟩, devices := (),
    engines := fun _ => gatheringEngine, attached := fun e => e = 0 }

/-- Main memory, as the engine sees it. -/
abbrev besideEngine :=
  mainMemory { profile := .AJIT_APARA } noDevices 0

theorem dma_copies_gathering :
    let A := attachment { profile := .AJIT_APARA } noDevices 0
    let w := gatheringSystem
    let d := gatheringEngine.dma
    let w' := fun N => pieces A (fun _ => 0) w N
    ∃ N, (∀ n < N, ∃ p, (A.get (w' n)).dma.nextPiece = some p ∧ p.Within) ∧
      (A.get (w' N)).dma.busy = false ∧
      (∀ c, (d.progress c).active = true →
        ((A.get (w' N)).dma.reg c 0).getLsbD FLAG_COMPLETED = true ∧
        ((A.get (w' N)).dma.reg c 0).getLsbD FLAG_STARTED = false) ∧
      (∀ x, d.Described x →
        besideEngine.memory (w' N) (d.destination x) = besideEngine.memory w (d.source x)) ∧
      (∀ l, (∀ x, d.Described x → d.destination x ≠ l) →
        besideEngine.memory (w' N) l = besideEngine.memory w l) := by
  have hmem (x : CopyIndex) (hx : gatheringEngine.dma.Described x) : x ∈ gatheredBytes := by
    obtain ⟨c, i, j⟩ := x
    obtain ⟨hc, hi, hj⟩ := hx
    obtain rfl : c = 0 := decide_eq_true_iff.1 hc
    change i < 2 at hi
    change j < 3 at hj
    obtain rfl | rfl : i = 0 ∨ i = 1 := by omega
    all_goals
      obtain rfl | rfl | rfl : j = 0 ∨ j = 1 ∨ j = 2 := by omega
      all_goals decide
  have hload (x : CopyIndex) : gatheringEngine.dma.load x.1 = true := by
    change ((0x01000002 : BitVec 32).extractLsb 31 24 == LOAD) = true
    decide
  refine dma_copies besideEngine gatheringSystem (fun _ => 0) ?_ ⟨?_, ?_⟩ ?_
  · intro c hc
    obtain rfl : c = 0 := decide_eq_true_iff.1 hc
    exact ⟨.inl (by decide), rfl, rfl, by decide, by decide⟩
  · have hinjective : ∀ x ∈ gatheredBytes, ∀ y ∈ gatheredBytes,
        gatheringEngine.dma.destination x = gatheringEngine.dma.destination y → x = y := by
      decide
    exact fun x y hx hy => hinjective x (hmem x hx) y (hmem y hy)
  · intro x y _ _ heq
    change gatheringEngine.dma.source x = gatheringEngine.dma.destination y at heq
    rw [source, destination, hload, hload, if_pos rfl, if_pos rfl] at heq
    cases heq
  · intro x hx a ha
    have hmain : ∀ x ∈ gatheredBytes, SystemAddressMap.decode { profile := .AJIT_APARA }
        (gatheringEngine.dma.sourceAddress x) = .MAIN_MEMORY := by
      decide
    change gatheringEngine.dma.source x = .system a ∨ gatheringEngine.dma.destination x = .system a
      at ha
    rw [source, destination, hload, if_pos rfl, if_pos rfl] at ha
    obtain ha | ha := ha
    · rw [← Location.system.inj ha]
      exact hmain x (hmem x hx)
    · cases ha

end PlainAt

end SparcV8.Apara
