import SparcV8.Apara.SystemCore

/-!
# The bytes of doublewords

Memory is one of bytes for all who access it, though they move doublewords, in two orders of their
words and with masks in two orders. What each conversion, merge and shift does is said here byte by
byte.
-/

namespace SparcV8.Apara

open AparaCore BitVec List Bool Attachment

/-- Byte `k` of a doubleword in big-endian order. -/
def dwordByte (d : BitVec 64) (k : Nat) : BitVec 8 := bigEndianByte 8 d.toNat k

theorem getLsbD_dwordByte (d : BitVec 64) (k i : Nat) :
    (dwordByte d k).getLsbD i = (decide (i < 8) && d.getLsbD (8 * (7 - k) + i)) :=
  getLsbD_bigEndianByte d k i

/-- The bits of a low mask. -/
theorem getLsbD_lowMask (n i : Nat) :
    (lowMask n).getLsbD i = (decide (i < n) && decide (i < 64)) := by
  unfold lowMask
  split
  · rw [BitVec.getLsbD_allOnes]
    grind
  · next hn =>
    have hlt : 2 ^ n < 2 ^ 64 := Nat.pow_lt_pow_right (by decide) (by omega)
    have hvalue : ((1 : BitVec 64) <<< n - 1).toNat = 2 ^ n - 1 := by
      have hpos := Nat.two_pow_pos n
      have hshift : ((1 : BitVec 64) <<< n).toNat = 2 ^ n := by
        rw [BitVec.toNat_shiftLeft, Nat.shiftLeft_eq]
        change 1 * 2 ^ n % 2 ^ 64 = _
        rw [one_mul, Nat.mod_eq_of_lt hlt]
      rw [BitVec.toNat_sub, hshift]
      change (2 ^ 64 - 1 + 2 ^ n) % 2 ^ 64 = _
      omega
    rw [← BitVec.testBit_toNat, hvalue, Nat.testBit_two_pow_sub_one]
    grind

/-- Two bytes are equal if the bits of the doublewords are. -/
theorem dwordByte_congr {d e : BitVec 64} {k l : Nat}
    (h : ∀ i < 8, d.getLsbD (8 * (7 - k) + i) = e.getLsbD (8 * (7 - l) + i)) :
    dwordByte d k = dwordByte e l := by
  apply eq_of_getLsbD_eq
  intro i hi
  rw [getLsbD_dwordByte, getLsbD_dwordByte, h i hi]

theorem dwordByte_zero (k : Nat) : dwordByte 0 k = 0 := by
  change BitVec.ofNat 8 (0 / _) = BitVec.ofNat 8 0
  rw [Nat.zero_div]

/-! ## Masks -/

theorem getLsbD_ff (i : Nat) : (0xFF : BitVec 64).getLsbD i = decide (i < 8) := by
  by_cases hi : i < 8
  · rw [decide_eq_true hi]
    revert i
    decide
  · rw [decide_eq_false hi]
    exact getLsbD_of_toNat_lt (by decide : _ < 2 ^ 8) (Nat.not_lt.1 hi)

variable {j : Nat}

/-- The bits of one byte of a doubleword. -/
theorem getLsbD_ff_shiftLeft (l : Nat) (hj : j < 64) :
    ((0xFF : BitVec 64) <<< (8 * l)).getLsbD j = decide (j / 8 = l) := by
  rw [getLsbD_shiftLeft, getLsbD_ff, decide_eq_true hj, Bool.true_and, ← decide_not, ← decide_and]
  exact decide_eq_decide.2 (by omega)

variable (lanes : BitVec 8)

/-- The bits that the first lanes of a mask name. -/
theorem getLsbD_laneBits_loop (n : Nat) (hj : j < 64) :
    ((range n).foldl
      (fun mask i => if lanes.getLsbD i then mask ||| ((0xFF : BitVec 64) <<< (8 * i)) else mask)
      0).getLsbD j = (decide (j / 8 < n) && lanes.getLsbD (j / 8)) := by
  induction n with
  | zero => simp
  | succ n ih =>
    rw [range_succ, foldl_append, foldl_cons, foldl_nil]
    by_cases hn : j / 8 = n
    · have hlt : j / 8 < n + 1 := by omega
      cases hlane : lanes.getLsbD n with
      | false =>
        rw [if_off, ih, hn, hlane, Bool.and_false, Bool.and_false]
      | true =>
        rw [if_pos rfl, getLsbD_or, getLsbD_ff_shiftLeft n hj, decide_eq_true hn,
          Bool.or_true, decide_eq_true hlt, hn, hlane, Bool.and_true]
    · have hiff : j / 8 < n + 1 ↔ j / 8 < n := by omega
      rw [decide_eq_decide.2 hiff, ← ih]
      split
      · rw [getLsbD_or, getLsbD_ff_shiftLeft n hj, decide_eq_false hn, Bool.or_false]
      · rfl

theorem getLsbD_laneBits (hj : j < 64) : (laneBits lanes).getLsbD j = lanes.getLsbD (j / 8) := by
  have hlt : j / 8 < 8 := by omega
  rw [laneBits, getLsbD_laneBits_loop lanes 8 hj, decide_eq_true hlt, Bool.true_and]

/-- A merge under a mask takes the bytes that the mask names. -/
theorem dwordByte_merge (d x : BitVec 64) (lanes : BitVec 8) (k : Nat) :
    dwordByte ((d &&& ~~~laneBits lanes) ||| (x &&& laneBits lanes)) k =
      if lanes.getLsbD (7 - k) then dwordByte x k else dwordByte d k := by
  have hbits (i : Nat) (hi : i < 8) :
      ((d &&& ~~~laneBits lanes) ||| (x &&& laneBits lanes)).getLsbD (8 * (7 - k) + i) =
        if lanes.getLsbD (7 - k) then x.getLsbD (8 * (7 - k) + i)
        else d.getLsbD (8 * (7 - k) + i) := by
    have hlt : 8 * (7 - k) + i < 64 := by omega
    have hdiv : (8 * (7 - k) + i) / 8 = 7 - k := by omega
    rw [getLsbD_or, getLsbD_and, getLsbD_and, getLsbD_not,
      getLsbD_laneBits lanes hlt, hdiv, decide_eq_true hlt]
    cases lanes.getLsbD (7 - k) <;> simp
  split
  · next hbit => exact dwordByte_congr fun i hi => by rw [hbits i hi, if_pos hbit]
  · next hbit => exact dwordByte_congr fun i hi => by rw [hbits i hi, if_neg hbit]

/-! ## The two orders -/

theorem getLsbD_busToDmem (d : BitVec 64) (hj : j < 64) :
    (busToDmem d).getLsbD j = d.getLsbD (if j < 32 then j + 32 else j - 32) := by
  rw [busToDmem, getLsbD_or, getLsbD_shiftLeft, getLsbD_ushiftRight]
  by_cases hlow : j < 32
  · simp [hlow, Nat.add_comm]
  · have hbeyond : d.getLsbD (32 + j) = false := getLsbD_of_ge _ _ (by omega)
    simp [hlow, hj, hbeyond]

@[simp] theorem busToDmem_busToDmem (d : BitVec 64) : busToDmem (busToDmem d) = d := by
  apply eq_of_getLsbD_eq
  intro j hj
  rw [getLsbD_busToDmem _ hj, getLsbD_busToDmem _ (by split <;> omega)]
  congr 1
  split <;> split <;> omega

variable (m : BitVec 8)

theorem getLsbD_busMaskToDmemLanes (hj : j < 8) :
    (busMaskToDmemLanes m).getLsbD j = m.getLsbD (if j < 4 then j + 4 else j - 4) := by
  rw [busMaskToDmemLanes, getLsbD_or, getLsbD_shiftLeft, getLsbD_ushiftRight]
  by_cases hlow : j < 4
  · simp [hlow, Nat.add_comm]
  · have hbeyond : m.getLsbD (4 + j) = false := getLsbD_of_ge _ _ (by omega)
    simp [hlow, hj, hbeyond]

@[simp] theorem busMaskToDmemLanes_busMaskToDmemLanes :
    busMaskToDmemLanes (busMaskToDmemLanes m) = m := by
  apply eq_of_getLsbD_eq
  intro j hj
  rw [getLsbD_busMaskToDmemLanes _ hj, getLsbD_busMaskToDmemLanes _ (by split <;> omega)]
  congr 1
  split <;> split <;> omega

/-- The bus mask names byte `k` of its doubleword. -/
def names (busMask : BitVec 8) (k : Nat) : Bool := (busMaskToDmemLanes busMask).getLsbD (7 - k)

/-- The mask of a piece names its bytes. -/
theorem names_pieceMask {offset bytes k : Nat} (hbytes : offset + bytes ≤ 8) (hk : k < 8) :
    names (pieceMask offset bytes) k = decide (offset ≤ k ∧ k < offset + bytes) := by
  have hor (m m' : BitVec 8) : names (m ||| m') k = (names m k || names m' k) := by
    simp only [names, getLsbD_busMaskToDmemLanes _ (show 7 - k < 8 by omega), getLsbD_or]
  have hbit : ∀ i < 8, ∀ k < 8, names (busBit i) k = decide (i = k) := by decide
  have hzero : ∀ k < 8, names 0 k = false := by decide
  unfold pieceMask
  induction bytes with
  | zero =>
    rw [range_zero, foldl_nil, hzero k hk]
    exact (decide_eq_false (by omega)).symm
  | succ bytes ih =>
    rw [range_succ, foldl_append, foldl_cons, foldl_nil, hor,
      ih (by omega), hbit _ (by omega) k hk, ← Bool.decide_or]
    exact decide_eq_decide.2 (by omega)

/-! ## The bytes of a piece -/

section Piece

variable (d e : BitVec 64) {k l i : Nat}

/-- The bits of a byte that is taken out of one doubleword and put into another. -/
theorem getLsbD_byteAt_shiftLeft (hl : l < 8) (hj : j < 64) :
    (byteAt d k <<< (56 - 8 * l)).getLsbD j =
      (decide (j / 8 = 7 - l) && (dwordByte d k).getLsbD (j % 8)) := by
  have hsplit : (decide (j < 64) && !decide (j < 56 - 8 * l) &&
      decide (j - (56 - 8 * l) < 8)) = decide (j / 8 = 7 - l) := by
    rw [← decide_not, ← decide_and, ← decide_and]
    exact decide_eq_decide.2 (by omega)
  rw [getLsbD_shiftLeft, byteAt, getLsbD_and, getLsbD_ushiftRight,
    getLsbD_ff, getLsbD_dwordByte, ← hsplit, decide_eq_true (show j % 8 < 8 by omega)]
  by_cases hlane : j / 8 = 7 - l
  · have hplace : 56 - 8 * k + (j - (56 - 8 * l)) = 8 * (7 - k) + j % 8 := by omega
    rw [hplace, Bool.true_and, Bool.and_comm (d.getLsbD _)]
    simp only [Bool.and_assoc]
  · rw [decide_eq_false hlane] at hsplit
    rw [hsplit, Bool.and_comm (d.getLsbD _), ← Bool.and_assoc, hsplit, Bool.false_and,
      Bool.false_and]

/-- One more byte is replaced. -/
theorem dwordByte_replace (hl : l < 8) (hk : k < 8) (i : Nat) :
    dwordByte ((e &&& ~~~((0xFF : BitVec 64) <<< (56 - 8 * l))) |||
        (byteAt d i <<< (56 - 8 * l))) k =
      if k = l then dwordByte d i else dwordByte e k := by
  apply eq_of_getLsbD_eq
  intro j hj
  have hlt : 8 * (7 - k) + j < 64 := by omega
  have hshift : 56 - 8 * l = 8 * (7 - l) := by omega
  have hdiv : (8 * (7 - k) + j) / 8 = 7 - k := by omega
  have hmod : (8 * (7 - k) + j) % 8 = j := by omega
  have hlane : decide (7 - k = 7 - l) = decide (k = l) := decide_eq_decide.2 (by omega)
  rw [getLsbD_dwordByte, getLsbD_or, getLsbD_and, getLsbD_not,
    getLsbD_byteAt_shiftLeft d hl hlt, hshift, getLsbD_ff_shiftLeft _ hlt, hdiv, hmod, hlane]
  by_cases hkl : k = l
  · rw [if_pos hkl, decide_eq_true hkl]
    simp [hj]
  · rw [if_neg hkl, decide_eq_false hkl, decide_eq_true hlt, getLsbD_dwordByte e]
    simp

variable {sysOffset dmemOffset bytes : Nat}

/-- Bytes of one doubleword are put into another. -/
theorem dwordByte_gatherBytes (hbytes : dmemOffset + bytes ≤ 8) (hk : k < 8) :
    dwordByte (gatherBytes d e sysOffset dmemOffset bytes) k =
      if dmemOffset ≤ k ∧ k < dmemOffset + bytes then dwordByte d (sysOffset + (k - dmemOffset))
      else dwordByte e k := by
  unfold gatherBytes
  induction bytes with
  | zero => rw [range_zero, foldl_nil, if_neg (by omega)]
  | succ bytes ih =>
    rw [range_succ, foldl_append, foldl_cons, foldl_nil,
      dwordByte_replace d _ (by omega) hk, ih (by omega)]
    by_cases heq : k = dmemOffset + bytes
    · have hindex : sysOffset + (k - dmemOffset) = sysOffset + bytes := by omega
      rw [if_pos heq, if_pos (by omega), hindex]
    · rw [if_neg heq]
      exact if_congr (by omega) rfl rfl

/-- Bytes of a doubleword are put into their places on the other side. -/
theorem dwordByte_scatterBytes (hbytes : sysOffset + bytes ≤ 8) (hk : k < 8) :
    dwordByte (scatterBytes d sysOffset dmemOffset bytes) k =
      if sysOffset ≤ k ∧ k < sysOffset + bytes then dwordByte d (dmemOffset + (k - sysOffset))
      else 0 := by
  unfold scatterBytes
  induction bytes with
  | zero =>
    rw [range_zero, foldl_nil, if_neg (by omega)]
    exact dwordByte_zero k
  | succ bytes ih =>
    rw [range_succ, foldl_append, foldl_cons, foldl_nil]
    apply eq_of_getLsbD_eq
    intro j hj
    have hlt : 8 * (7 - k) + j < 64 := by omega
    have hdiv : (8 * (7 - k) + j) / 8 = 7 - k := by omega
    have hmod : (8 * (7 - k) + j) % 8 = j := by omega
    have hbefore := congrArg (fun b => b.getLsbD j) (ih (by omega))
    simp only [getLsbD_dwordByte, hj, decide_true, Bool.true_and] at hbefore
    rw [getLsbD_dwordByte, getLsbD_or, hbefore, decide_eq_true hj, Bool.true_and,
      getLsbD_byteAt_shiftLeft d (by omega) hlt, hdiv, hmod]
    by_cases heq : k = sysOffset + bytes
    · have hindex : dmemOffset + (k - sysOffset) = dmemOffset + bytes := by omega
      rw [if_neg (show ¬(sysOffset ≤ k ∧ k < sysOffset + bytes) by omega),
        if_pos (show sysOffset ≤ k ∧ k < sysOffset + (bytes + 1) by omega), hindex, ← heq]
      simp
    · rw [decide_eq_false (show ¬ 7 - k = 7 - (sysOffset + bytes) by omega), Bool.false_and,
        Bool.or_false]
      have hiff : (sysOffset ≤ k ∧ k < sysOffset + bytes) ↔
          (sysOffset ≤ k ∧ k < sysOffset + (bytes + 1)) := by omega
      rw [if_congr hiff rfl rfl]

end Piece

end SparcV8.Apara
