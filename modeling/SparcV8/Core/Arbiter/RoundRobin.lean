import Mathlib.Algebra.Group.Fin.Basic
import Mathlib.Data.Fintype.Card
import Mathlib.Data.List.Basic

/-!
# Round-robin search

Among `n + 1` ports the search starts after the port granted last and ends with that port. The
distance from the granted port to a waiting one falls with every grant, so a port waits for each of
the others at most once. A grant may hold the arbiter for one further grant to the same port, its
partner.
-/

namespace SparcV8

open List Option

namespace RoundRobin

variable {n : Nat}

/-- The first port after `granted` that is waiting. -/
def next (waiting : Fin (n + 1) → Bool) (granted : Fin (n + 1)) : Option (Fin (n + 1)) :=
  ((range (n + 1)).find? fun k => waiting (granted + Fin.ofNat (n + 1) (k + 1))).map fun k =>
    granted + Fin.ofNat (n + 1) (k + 1)

/-- How far a port is behind the granted one, in the order of the search. -/
def distance (granted port : Fin (n + 1)) : Nat := (port - granted).val

theorem distance_lt (granted port : Fin (n + 1)) : distance granted port < n + 1 :=
  (port - granted).isLt

theorem distance_eq_zero {granted port : Fin (n + 1)} :
    distance granted port = 0 ↔ granted = port := by
  rw [distance, Fin.val_eq_zero_iff, sub_eq_zero, eq_comm]

variable {waiting : Fin (n + 1) → Bool} {granted port i : Fin (n + 1)}

theorem waiting_of_next (h : next waiting granted = some port) : waiting port = true := by
  obtain ⟨k, hk, rfl⟩ := map_eq_some_iff.1 h
  exact (find?_range_eq_some.1 hk).1

/-- Every port is met by the search: another one at its distance, the granted one last. -/
theorem exists_step (granted i : Fin (n + 1)) :
    ∃ k < n + 1, granted + Fin.ofNat (n + 1) (k + 1) = i ∧
      (granted ≠ i → k + 1 = distance granted i) := by
  by_cases h : granted = i
  · refine ⟨n, by omega, ?_, fun hne => absurd h hne⟩
    rw [h, Fin.ofNat_self, add_zero]
  · have hpos : 0 < distance granted i := Nat.pos_of_ne_zero fun hc => h (distance_eq_zero.1 hc)
    have hlt := distance_lt granted i
    refine ⟨distance granted i - 1, by omega, ?_, fun _ => by omega⟩
    rw [Nat.sub_add_cancel hpos, distance, Fin.ofNat_val_eq_self, add_sub_cancel]

theorem exists_next (hi : waiting i = true) : ∃ port, next waiting granted = some port := by
  obtain ⟨k, hk, heq, -⟩ := exists_step granted i
  have hfind : ((range (n + 1)).find? fun k =>
      waiting (granted + Fin.ofNat (n + 1) (k + 1))).isSome = true :=
    find?_isSome.2 ⟨k, mem_range.2 hk, by rw [heq, hi]⟩
  obtain ⟨k', hk'⟩ := isSome_iff_exists.1 hfind
  exact ⟨_, map_eq_some_iff.2 ⟨k', hk', rfl⟩⟩

/-- A grant comes nearer to every port that is waiting. -/
theorem distance_next (h : next waiting granted = some port) (hi : waiting i = true)
    (hne : granted ≠ i) : distance port i < distance granted i := by
  obtain ⟨k, hk, rfl⟩ := map_eq_some_iff.1 h
  obtain ⟨-, -, hfirst⟩ := find?_range_eq_some.1 hk
  obtain ⟨k₀, hk₀, heq, hdistance⟩ := exists_step granted i
  have hle : k ≤ k₀ := by
    by_contra hlt
    have hpassed := hfirst k₀ (by omega)
    rw [heq, hi] at hpassed
    cases hpassed
  have hd := hdistance hne
  have hlt := distance_lt granted i
  have hval : (Fin.ofNat (n + 1) (k + 1)).val = k + 1 := Nat.mod_eq_of_lt (by omega)
  have hshort : Fin.ofNat (n + 1) (k + 1) ≤ i - granted := by
    rw [Fin.le_def, hval]
    exact (Nat.succ_le_succ hle).trans_eq hd
  have hport : distance (granted + Fin.ofNat (n + 1) (k + 1)) i = distance granted i - (k + 1) := by
    rw [distance, ← sub_sub, Fin.sub_val_of_le hshort, hval, distance]
  omega

/-! ## Grants to others -/

/-- The grants made while port `i` waits, each with whether it was a partner. -/
structure Overtaken (i granted : Fin (n + 1)) (held : Bool) (grants : List (Fin (n + 1) × Bool)) :
    Prop where
  behind : ∀ e ∈ grants, 0 < distance granted i ∧ distance granted i ≤ distance e.1 i
  nearer : grants.Pairwise fun e e' => e.2 = e'.2 → distance e'.1 i < distance e.1 i
  partner : held = true → ∀ e ∈ grants, e.2 = true → distance granted i < distance e.1 i

theorem Overtaken.nil (i granted : Fin (n + 1)) (held : Bool) : Overtaken i granted held [] :=
  ⟨fun _ he => absurd he not_mem_nil, .nil, fun _ _ he => absurd he not_mem_nil⟩

variable {held : Bool} {grants : List (Fin (n + 1) × Bool)}

/-- Another port is granted, and may hold the arbiter. -/
theorem Overtaken.next (h : Overtaken i granted false grants)
    (hnext : next waiting granted = some port) (hi : waiting i = true) (hne : port ≠ i)
    (held : Bool) : Overtaken i port held (grants ++ [(port, false)]) := by
  have hpos : 0 < distance port i := Nat.pos_of_ne_zero fun hc => hne (distance_eq_zero.1 hc)
  have hlt (e : Fin (n + 1) × Bool) (he : e ∈ grants) : distance port i < distance e.1 i := by
    obtain ⟨hbefore, hle⟩ := h.behind e he
    have hgranted : granted ≠ i := fun hc => by
      rw [distance_eq_zero.2 hc] at hbefore
      exact absurd hbefore (lt_irrefl 0)
    exact lt_of_lt_of_le (distance_next hnext hi hgranted) hle
  refine ⟨fun e he => ⟨hpos, ?_⟩, pairwise_append.2 ⟨h.nearer, pairwise_singleton _ _, ?_⟩,
    fun _ e he hpartner => ?_⟩
  · rcases mem_append.1 he with he | he
    · exact (hlt e he).le
    · rw [mem_singleton.1 he]
  · intro e he e' he' _
    rw [mem_singleton.1 he']
    exact hlt e he
  · rcases mem_append.1 he with he | he
    · exact hlt e he
    · rw [mem_singleton.1 he] at hpartner
      cases hpartner

/-- The port that holds the arbiter is granted again, and releases it. -/
theorem Overtaken.release (h : Overtaken i granted true grants) (hne : granted ≠ i) :
    Overtaken i granted false (grants ++ [(granted, true)]) := by
  have hpos : 0 < distance granted i := Nat.pos_of_ne_zero fun hc => hne (distance_eq_zero.1 hc)
  refine ⟨fun e he => ⟨hpos, ?_⟩, pairwise_append.2 ⟨h.nearer, pairwise_singleton _ _, ?_⟩,
    fun hheld => absurd hheld Bool.false_ne_true⟩
  · rcases mem_append.1 he with he | he
    · exact (h.behind e he).2
    · rw [mem_singleton.1 he]
  · intro e he e' he' heq
    rw [mem_singleton.1 he'] at heq ⊢
    exact h.partner rfl e he heq

section

variable (h : Overtaken i granted held grants)
include h

theorem Overtaken.ne {e : Fin (n + 1) × Bool} (he : e ∈ grants) : e.1 ≠ i := by
  obtain ⟨hpos, hle⟩ := h.behind e he
  intro hc
  rw [distance_eq_zero.2 hc] at hle
  omega

/-- No port is granted twice, partners apart, and none has two partners. -/
theorem Overtaken.nodup (partner : Bool) :
    ((grants.filter fun e => e.2 == partner).map Prod.fst).Nodup := by
  refine pairwise_map.2 ?_
  refine (Pairwise.filter _ h.nearer).imp_of_mem fun {e e'} he he' hlt heq => ?_
  have hp : e.2 = partner := beq_iff_eq.1 (mem_filter.1 he).2
  have hp' : e'.2 = partner := beq_iff_eq.1 (mem_filter.1 he').2
  have hdistance := hlt (hp.trans hp'.symm)
  rw [heq] at hdistance
  exact lt_irrefl _ hdistance

/-- At most all other ports are granted before, and one partner of each. -/
theorem Overtaken.length_le (partner : Bool) :
    (grants.filter fun e => e.2 == partner).length ≤ n := by
  have hnotMem : i ∉ (grants.filter fun e => e.2 == partner).map Prod.fst := by
    intro hc
    obtain ⟨e, he, heq⟩ := mem_map.1 hc
    exact h.ne (mem_filter.1 he).1 heq
  have hcard := (nodup_cons.2 ⟨hnotMem, h.nodup partner⟩).length_le_card
  rw [length_cons, length_map, Fintype.card_fin] at hcard
  omega

end

end RoundRobin

end SparcV8
