import Mathlib.Data.List.Rotate
import Mathlib.Data.Nat.ModEq
import Mathlib.Data.List.Nodup

/-!
# Schedulers

A round gives every running core one turn. The round-robin order starts one core further every
round; the random one is a shuffle with the outputs of a generator, which are arbitrary here.
-/

namespace SparcV8

open List Nat

structure Turn where
  core : Nat
  instructions : Nat

/-- Every running core has one turn within the limit, and no other core has any. -/
def OneTurnEach (running : List Bool) (limit : Nat) (turns : List Turn) : Prop :=
  (∀ core, (turns.map Turn.core).count core = if running.getD core false then 1 else 0) ∧
    ∀ t ∈ turns, 1 ≤ t.instructions ∧ t.instructions ≤ limit

theorem oneTurnEach_of_perm {running : List Bool} {limit : Nat} {turns : List Turn}
    (hcores : (turns.map Turn.core).Perm
      ((range running.length).filter (running.getD · false)))
    (hlimit : ∀ t ∈ turns, 1 ≤ t.instructions ∧ t.instructions ≤ limit) :
    OneTurnEach running limit turns := by
  refine ⟨fun core => ?_, hlimit⟩
  rw [hcores.count_eq, (nodup_range.filter _).count]
  refine if_congr (mem_filter.trans (and_iff_right_of_imp fun h => ?_)) rfl rfl
  rw [mem_range]
  by_contra hlt
  simp [getD, getElem?_eq_none (by omega : running.length ≤ core)] at h

/-! ## Round robin -/

structure RoundRobinScheduler where
  k : Nat
  rotate : Bool
  first : Nat := 0

namespace RoundRobinScheduler

variable (s : RoundRobinScheduler)

/-- The cores are numbered in 32 bits. -/
def nextRound (running : List Bool) : List Turn × RoundRobinScheduler :=
  let n := running.length % 2 ^ 32
  let cores := (range n).map fun i => (s.first + i) % 2 ^ 32 % n
  ((cores.filter (running.getD · false)).map fun core => ⟨core, s.k⟩,
    { s with first := if s.rotate && 0 < n then (s.first + 1) % 2 ^ 32 % n else s.first })

/-- The scheduler after some rounds. -/
def rounds (past : List (List Bool)) : RoundRobinScheduler :=
  past.foldl (fun s running => (s.nextRound running).2) s

theorem rounds_append (past later : List (List Bool)) :
    s.rounds (past ++ later) = (s.rounds past).rounds later :=
  foldl_append

variable {s} {running : List Bool} {n : Nat}

/-- Without overflow the order of a round is the order of the cores, rotated. -/
theorem cores_nextRound (hn : s.first + running.length ≤ 2 ^ 32) (hlt : running.length < 2 ^ 32) :
    (s.nextRound running).1.map Turn.core =
      ((range running.length).rotate s.first).filter (running.getD · false) := by
  simp only [nextRound, mod_eq_of_lt hlt, map_map]
  rw [show Turn.core ∘ (fun core => (⟨core, s.k⟩ : Turn)) = id from rfl, map_id]
  refine congrArg _ (ext_getElem (by simp) fun i hi _ => ?_)
  simp only [length_map, length_range] at hi
  simp only [getElem_map, getElem_rotate, getElem_range, length_range,
    mod_eq_of_lt (by omega : s.first + i < 2 ^ 32), add_comm i]

theorem oneTurnEach_nextRound (hk : 0 < s.k) (hn : s.first + running.length ≤ 2 ^ 32)
    (hlt : running.length < 2 ^ 32) : OneTurnEach running s.k (s.nextRound running).1 := by
  refine oneTurnEach_of_perm ?_ fun t ht => ?_
  · rw [cores_nextRound hn hlt]
    exact (rotate_perm _ _).filter _
  · obtain ⟨core, -, rfl⟩ := mem_map.1 ht
    exact ⟨hk, le_rfl⟩

/-- Rounds of `n` cores keep the limit, and leave the first core among the `n`. -/
theorem rounds_spec {past : List (List Bool)} (hpast : ∀ running ∈ past, running.length = n)
    (h : s.first ≤ n - 1) :
    (s.rounds past).k = s.k ∧ (s.rounds past).rotate = s.rotate ∧
      (s.rounds past).first ≤ n - 1 := by
  induction past generalizing s with
  | nil => exact ⟨rfl, rfl, h⟩
  | cons running past ih =>
    refine ih (fun r hr => hpast r (mem_cons_of_mem _ hr)) ?_
    have hlen := hpast running mem_cons_self
    simp only [nextRound, hlen]
    split_ifs with hc
    · simp only [Bool.and_eq_true, decide_eq_true_eq] at hc
      have := mod_lt ((s.first + 1) % 2 ^ 32) hc.2
      omega
    · exact h

/-- With rotation, `r` rounds move the first core on by `r`. -/
theorem first_rounds_replicate (hrotate : s.rotate = true) (hlen : running.length = n)
    (hlt : n < 2 ^ 32) (hfirst : s.first < n) (r : Nat) :
    (s.rounds (replicate r running)).first = (s.first + r) % n := by
  induction r generalizing s with
  | zero => exact (mod_eq_of_lt hfirst).symm
  | succ r ih =>
    have hnext : (s.nextRound running).2.first = (s.first + 1) % n := by
      have hpos : 0 < n := by omega
      simp only [nextRound, hrotate, hlen, mod_eq_of_lt hlt, hpos, decide_true, Bool.and_self,
        if_true, mod_eq_of_lt (by omega : s.first + 1 < 2 ^ 32)]
    have hrest := ih (s := (s.nextRound running).2) hrotate (hnext ▸ mod_lt _ (by omega))
    rw [hnext, Nat.mod_add_mod, Nat.add_assoc, add_comm 1] at hrest
    exact hrest

theorem core_nextRound (hrotate : s.rotate = true) (hn : n ≤ 2 ^ 31) (hfirst : s.first < n)
    (r : Nat) {p : Nat} (hp : p < n) :
    let all := replicate n true
    (((s.rounds (replicate r all)).nextRound all).1.map Turn.core)[p]? =
      some ((s.first + p + r) % n) := by
  intro all
  have hlen : all.length = n := length_replicate
  have hround := first_rounds_replicate hrotate hlen (by omega) hfirst r
  have hlt := mod_lt (s.first + r) (by omega : 0 < n)
  rw [cores_nextRound (by omega) (by omega), hlen, hround, filter_eq_self.2]
  · rw [getElem?_rotate (by simpa using hp), length_range, Nat.add_mod_mod,
      getElem?_range (mod_lt _ (by omega)), ← Nat.add_assoc, add_comm p]
  · intro core hcore
    simp only [mem_rotate, mem_range] at hcore
    simp [all, hcore]

/-- When `first + i` overflows in a round, core 0 has the turns of two places. -/
theorem not_oneTurnEach_of_overflow (hfirst : s.first < n) (hlt : n < 2 ^ 32)
    (h : 2 ^ 32 < s.first + n) (limit : Nat) :
    ¬ OneTurnEach (replicate n true) limit (s.nextRound (replicate n true)).1 := by
  rintro ⟨hcount, -⟩
  have hnodup := nodup_iff_count_le_one.2 fun core =>
    (hcount core).trans_le (by split_ifs <;> decide)
  simp only [nextRound, length_replicate, mod_eq_of_lt hlt, map_map] at hnodup
  rw [filter_eq_self.2] at hnodup
  · have hsame := inj_on_of_nodup_map (Nodup.of_map _ hnodup)
      (mem_range.2 (by omega : n - s.first < n))
      (mem_range.2 (by omega : 2 ^ 32 - s.first < n))
    rw [Nat.add_sub_cancel' hfirst.le, Nat.add_sub_cancel' (by omega), mod_eq_of_lt hlt,
      Nat.mod_self, Nat.mod_self, Nat.zero_mod] at hsame
    exact absurd (hsame rfl) (by omega)
  · intro core hcore
    obtain ⟨i, -, rfl⟩ := mem_map.1 hcore
    have := mod_lt ((s.first + i) % 2 ^ 32) (by omega : 0 < n)
    simp only [getD, getElem?_replicate, this, if_true, Option.getD_some]

end RoundRobinScheduler

/-! ## Random order -/

/-- The outputs of the generator, and how many have been used. -/
structure RandomScheduler where
  rng : Nat → BitVec 32
  drawn : Nat := 0
  maxTurn : Nat

namespace RandomScheduler

variable (s : RandomScheduler)

def draw : Nat × RandomScheduler := ((s.rng s.drawn).toNat, { s with drawn := s.drawn + 1 })

/-- The shuffle from the end: `i` places are left. -/
def shuffle : Nat → Array Turn → RandomScheduler → Array Turn × RandomScheduler
  | i + 2, turns, s =>
    let (x, s) := s.draw
    shuffle (i + 1) (turns.swapIfInBounds (i + 1) (x % (i + 2))) s
  | _, turns, s => (turns, s)

def setInstructions : List Turn → RandomScheduler → List Turn × RandomScheduler
  | [], s => ([], s)
  | t :: turns, s =>
    let (x, s) := s.draw
    let (turns, s') := setInstructions turns s
    ({ t with instructions := 1 + x % s.maxTurn } :: turns, s')

def nextRound (running : List Bool) : List Turn × RandomScheduler :=
  let cores := (range running.length).filter (running.getD · false)
  let turns := (cores.map fun core => (⟨core, 0⟩ : Turn)).toArray
  let (turns, s) := shuffle turns.size turns s
  setInstructions turns.toList s

theorem perm_shuffle (i : Nat) (turns : Array Turn) :
    (shuffle i turns s).1.Perm turns ∧ (shuffle i turns s).2.maxTurn = s.maxTurn := by
  fun_induction shuffle i turns s with
  | case1 i turns s x t ht ih =>
    obtain ⟨hp, hm⟩ := ih
    cases ht
    refine ⟨hp.trans ?_, hm⟩
    rw [Array.swapIfInBounds_def]
    split_ifs with h₁ h₂
    · exact Array.swap_perm h₁ h₂
    · exact .refl _
    · exact .refl _
  | case2 => exact ⟨.refl _, rfl⟩

theorem setInstructions_spec (h : 0 < s.maxTurn) (turns : List Turn) :
    (setInstructions turns s).1.map Turn.core = turns.map Turn.core ∧
      ∀ t ∈ (setInstructions turns s).1, 1 ≤ t.instructions ∧ t.instructions ≤ s.maxTurn := by
  induction turns generalizing s with
  | nil => exact ⟨rfl, nofun⟩
  | cons t turns ih =>
    obtain ⟨hcores, hlimit⟩ := ih s.draw.2 h
    refine ⟨congrArg (t.core :: ·) hcores, fun u hu => ?_⟩
    obtain rfl | hu := mem_cons.1 hu
    · have := mod_lt s.draw.1 h
      exact ⟨Nat.le_add_right 1 _, by show 1 + s.draw.1 % s.maxTurn ≤ _; omega⟩
    · exact hlimit u hu

theorem oneTurnEach_nextRound (h : 0 < s.maxTurn) (running : List Bool) :
    OneTurnEach running s.maxTurn (s.nextRound running).1 := by
  simp only [nextRound]
  generalize hturns : map _ _ = turns
  obtain ⟨hperm, hmax⟩ := perm_shuffle s turns.toArray.size turns.toArray
  obtain ⟨hcores, hlimit⟩ := setInstructions_spec _ (hmax ▸ h)
    (shuffle turns.toArray.size turns.toArray s).1.toList
  refine oneTurnEach_of_perm ?_ (hmax ▸ hlimit)
  rw [hcores]
  refine (hperm.toList.map _).trans (.of_eq ?_)
  rw [← hturns, map_map]
  exact map_id _

end RandomScheduler

/-! ## Fairness -/

/-- The positions of a core in consecutive rounds: one round for each position. -/
theorem existsUnique_round {n c : Nat} (hc : c < n) (a : Nat) : ∃! r, r < n ∧ (a + r) % n = c := by
  have ha := mod_lt a (by omega : 0 < n)
  have hround : (a + (c + n - a % n) % n) % n = c := by
    have hsum : a + (c + n - a % n) = c + n * (a / n + 1) := by
      have := Nat.div_add_mod a n
      rw [Nat.mul_add]
      omega
    rw [Nat.add_mod_mod, hsum, Nat.add_mul_mod_self_left, mod_eq_of_lt hc]
  have hlt := mod_lt (c + n - a % n) (by omega : 0 < n)
  refine ⟨_, ⟨hlt, hround⟩, fun r ⟨hr, hrc⟩ => ?_⟩
  exact Nat.ModEq.eq_of_lt_of_lt (Nat.ModEq.add_left_cancel' a (hrc.trans hround.symm)) hr hlt

/-- Up to `2 ^ 31` cores, a round of either scheduler gives every running core one turn within the
limit, and with rotation every core takes every position once in any `n` rounds. -/
theorem schedulers_fair (n : Nat) (hn : n ≤ 2 ^ 31) :
    (∀ (k : Nat) (rotate : Bool) (past : List (List Bool)) (running : List Bool), 0 < k →
      (∀ running ∈ past, running.length = n) → running.length = n →
      let s : RoundRobinScheduler := { k := k, rotate := rotate }
      OneTurnEach running k ((s.rounds past).nextRound running).1) ∧
    (∀ (s : RandomScheduler) (running : List Bool), 0 < s.maxTurn → running.length = n →
      OneTurnEach running s.maxTurn (s.nextRound running).1) ∧
    ∀ (k : Nat) (past : List (List Bool)), (∀ running ∈ past, running.length = n) →
      let s : RoundRobinScheduler := { k := k, rotate := true }
      let all := replicate n true
      ∀ core < n, ∀ position < n, ∃! r, r < n ∧
        (((s.rounds (past ++ replicate r all)).nextRound all).1.map Turn.core)[position]? =
          some core := by
  refine ⟨fun k rotate past running hk hpast hlen => ?_,
    fun s running h _ => s.oneTurnEach_nextRound h running, fun k past hpast core hc p hp => ?_⟩
  · obtain ⟨hk', -, hfirst⟩ := RoundRobinScheduler.rounds_spec
      (s := { k := k, rotate := rotate }) hpast (Nat.zero_le _)
    simp only
    generalize RoundRobinScheduler.rounds _ past = s at hk' hfirst ⊢
    subst hk'
    exact RoundRobinScheduler.oneTurnEach_nextRound hk (by omega) (by omega)
  · obtain ⟨-, hrotate, hfirst⟩ := RoundRobinScheduler.rounds_spec
      (s := { k := k, rotate := true }) hpast (Nat.zero_le _)
    have hat (r : Nat) := RoundRobinScheduler.core_nextRound hrotate hn (by omega) r hp
    simp only [RoundRobinScheduler.rounds_append, hat, Option.some_inj]
    exact existsUnique_round hc _

theorem schedulers_fair_two : OneTurnEach [true, false] 1
    ((({ k := 1, rotate := true } : RoundRobinScheduler).rounds []).nextRound [true, false]).1 :=
  (schedulers_fair 2 (by decide)).1 1 true [] [true, false] (by decide) nofun rfl

/-- With `2 ^ 31 + 1` running cores `first + i` overflows: after `2 ^ 31` rounds core 0 has the
turns of the places 1 and `2 ^ 31`. -/
theorem rotation_overflows :
    let s : RoundRobinScheduler := { k := 1, rotate := true }
    let all := replicate (2 ^ 31 + 1) true
    ¬ OneTurnEach all 1 ((s.rounds (replicate (2 ^ 31) all)).nextRound all).1 := by
  intro s all hturns
  have hlen : all.length = 2 ^ 31 + 1 := length_replicate
  have hfirst : (s.rounds (replicate (2 ^ 31) all)).first = 2 ^ 31 :=
    (RoundRobinScheduler.first_rounds_replicate rfl hlen (by decide) (by decide) _).trans
      (by decide)
  exact RoundRobinScheduler.not_oneTurnEach_of_overflow (by rw [hfirst]; decide) (by decide)
    (by rw [hfirst]; decide) 1 hturns

end SparcV8
