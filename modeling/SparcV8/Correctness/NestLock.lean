import SparcV8.Core.Machine.Transition
import SparcV8.Processor.BitManipulation
import Mathlib.Data.Fintype.Basic

/-!
# Nested locks

A nested lock is a word set with `SWAP`, the number of the thread that has it, and how often that
thread has set it. Every word is read and written in a step of its own. Beside the lock stand the
sets and successful tests that each thread has completed and not undone.
-/

namespace SparcV8.NestLock

open List Function Machine Option

/-- The routines: `omp_set_nest_lock`, `omp_unset_nest_lock` and `omp_test_nest_lock`. -/
inductive Call where
  | set | unset | test
  deriving DecidableEq

/-- Where a thread is; `test` tells `omp_test_nest_lock` from `omp_set_nest_lock`. -/
inductive Pc where
  | idle | readOwner (test : Bool) | swap (test : Bool) | spin | writeOwner (test : Bool)
  | readDepth (test : Bool) | writeDepth (test : Bool) (depth : Word)
  | unset | lower (depth : Word) | clearOwner | release
  deriving DecidableEq

/-- Where a call begins. -/
def Call.first : Call → Pc
  | .set => .readOwner false
  | .test => .readOwner true
  | .unset => .unset

/-- Where a thread can be that does not have the word. -/
def Pc.outside : Pc → Bool
  | .idle | .readOwner _ | .swap _ | .spin => true
  | _ => false

/-- The depths are words, but `omp_test_nest_lock` returns an `int`. -/
def limit (test : Bool) : Nat := if test then 2 ^ 31 else 2 ^ 32

/-- The owner, and the thread `me` that has the word and is nested `k` deep. -/
def Pc.Inside (me owner : Word) (k : Nat) : Pc → Prop
  | .idle | .unset => owner = me ∧ 0 < k
  | .readOwner t => owner = me ∧ 0 < k ∧ k + 1 < limit t
  | .swap _ | .spin => False
  | .writeOwner _ | .release => owner = 0 ∧ k = 0
  | .readDepth t => owner = me ∧ k + 1 < limit t
  | .writeDepth t depth => owner = me ∧ k + 1 < limit t ∧ depth = BitVec.ofNat 32 (k + 1)
  | .lower depth => owner = me ∧ 0 < k ∧ depth = BitVec.ofNat 32 (k - 1)
  | .clearOwner => owner = me ∧ k = 0

structure State (n : Nat) where
  word : Word
  owner : Word
  depth : Word
  pc : Fin n → Pc
  /-- What the thread's last `omp_test_nest_lock` returned. -/
  result : Fin n → Int
  /-- The sets and successful tests of the thread that are not undone. -/
  nesting : Fin n → Nat
  /-- The thread whose swap has taken the word. -/
  holder : Option (Fin n)

variable {n : Nat}

def start : State n := ⟨0, 0, 0, fun _ => .idle, fun _ => 0, fun _ => 0, none⟩

/-- `omp_nest_owner_id` -/
def nestOwnerId (i : Fin n) : Word := BitVec.ofNat 32 i + 1

/-- The next memory access of thread `i`, or its next call. -/
def step (s : State n) (i : Fin n) (call : Call) : State n :=
  let goto (pc : Pc) := update s.pc i pc
  match s.pc i with
  | .idle => { s with pc := goto call.first }
  | .readOwner t =>
    { s with pc := goto (if s.owner = nestOwnerId i then .readDepth t else .swap t) }
  | .spin => { s with pc := goto (if s.word = 0 then .swap false else .spin) }
  | .swap t =>
    if s.word = 0 then { s with word := 1, pc := goto (.writeOwner t), holder := some i }
    else if t then
      { s with word := 1, pc := goto .idle, result := update s.result i 0 }
    else { s with word := 1, pc := goto .spin }
  | .writeOwner t => { s with owner := nestOwnerId i, pc := goto (.readDepth t) }
  | .readDepth t => { s with pc := goto (.writeDepth t (s.depth + 1)) }
  | .writeDepth t depth =>
    { s with
      depth := depth, pc := goto .idle
      result := if t then update s.result i depth.toInt else s.result
      nesting := update s.nesting i (s.nesting i + 1) }
  | .unset => { s with pc := goto (.lower (s.depth - 1)) }
  | .lower depth =>
    { s with
      depth := depth, pc := goto (if depth = 0 then .clearOwner else .idle)
      nesting := update s.nesting i (s.nesting i - 1) }
  | .clearOwner => { s with owner := 0, pc := goto .release }
  | .release => { s with word := 0, pc := goto .idle, holder := none }

/-- A thread unsets only as often as it has set. -/
def machine (n : Nat) : Machine (State n) (Fin n × Call) :=
  ⟨fun s e =>
    if s.pc e.1 = .idle ∧ e.2 = .unset ∧ s.nesting e.1 = 0 then none else some (step s e.1 e.2)⟩

/-- A thread that is to set or test the lock can count one more set or test. -/
def Shallow (s : State n) (e : Fin n × Call) : Prop :=
  s.pc e.1 = .idle → ∀ t, e.2.first = .readOwner t → s.nesting e.1 + 1 < limit t

instance (s : State n) (e : Fin n × Call) : Decidable (Shallow s e) :=
  inferInstanceAs (Decidable (_ → ∀ _ : Bool, _))

/-- What every state of a run satisfies. -/
structure Inv (s : State n) : Prop where
  free : s.holder = none → s.word = 0 ∧ s.owner = 0 ∧ s.depth = 0
  outside : ∀ i, s.holder ≠ some i → s.nesting i = 0 ∧ (s.pc i).outside = true
  inside : ∀ i, s.holder = some i → s.word ≠ 0 ∧ s.depth = BitVec.ofNat 32 (s.nesting i) ∧
    s.nesting i < 2 ^ 32 ∧ (s.pc i).Inside (nestOwnerId i) s.owner (s.nesting i)

theorem toNat_nestOwnerId (hn : n < 2 ^ 32) (i : Fin n) : (nestOwnerId i).toNat = i + 1 := by
  rw [nestOwnerId, BitVec.toNat_add, BitVec.toNat_ofNat]
  change ((i : Nat) % 2 ^ 32 + 1) % 2 ^ 32 = i + 1
  omega

theorem nestOwnerId_ne_zero (hn : n < 2 ^ 32) (i : Fin n) : nestOwnerId i ≠ 0 := by
  intro h
  have := congrArg BitVec.toNat h
  rw [toNat_nestOwnerId hn] at this
  cases this

theorem nestOwnerId_inj (hn : n < 2 ^ 32) (i j : Fin n) (h : nestOwnerId i = nestOwnerId j) :
    i = j := by
  have := congrArg BitVec.toNat h
  rw [toNat_nestOwnerId hn, toNat_nestOwnerId hn] at this
  exact Fin.ext (Nat.succ.inj this)

variable {s : State n}

/-- A thread with the word has written its own number, or none is written. -/
theorem Pc.Inside.owner_eq {pc : Pc} {me owner : Word} {k : Nat} (h : pc.Inside me owner k) :
    owner = me ∨ owner = 0 := by
  cases pc with
  | swap | spin => exact h.elim
  | writeOwner | release => exact .inr h.1
  | _ => exact .inl h.1

variable {i : Fin n}

/-- Only the thread that has the word finds itself the owner. -/
theorem Inv.holder_of_owner (h : Inv s) (hn : n < 2 ^ 32) (hi : s.owner = nestOwnerId i) :
    s.holder = some i := by
  have hzero := nestOwnerId_ne_zero hn i
  cases hholder : s.holder with
  | none => exact absurd (hi.symm.trans (h.free hholder).2.1) hzero
  | some j =>
    rcases (h.inside j hholder).2.2.2.owner_eq with hj | h0
    · rw [nestOwnerId_inj hn j i (hj.symm.trans hi)]
    · exact absurd (hi.symm.trans h0) hzero

theorem Inv.word_eq_zero_iff (h : Inv s) : s.word = 0 ↔ s.holder = none := by
  refine ⟨fun h0 => ?_, fun hnone => (h.free hnone).1⟩
  cases hholder : s.holder with
  | none => rfl
  | some j => exact absurd h0 (h.inside j hholder).1

theorem ofNat_sub_one {k : Nat} (hk : 0 < k) : BitVec.ofNat 32 k - 1 = BitVec.ofNat 32 (k - 1) := by
  obtain ⟨j, rfl⟩ := Nat.exists_eq_succ_of_ne_zero hk.ne'
  rw [Nat.succ_sub_one, Nat.succ_eq_add_one, BitVec.ofNat_add]
  exact BitVec.add_sub_cancel _ _

/-- A step of a thread that neither takes nor frees the word. -/
theorem Inv.of_thread (h : Inv s) {s' : State n} {pc : Pc} {k : Nat}
    (hholder : s'.holder = s.holder) (hword : s'.word = 0 ↔ s.word = 0)
    (hpc : s'.pc = update s.pc i pc) (hnesting : s'.nesting = update s.nesting i k)
    (hout : s.holder ≠ some i → s'.owner = s.owner ∧ s'.depth = s.depth ∧ k = s.nesting i ∧
      pc.outside = true)
    (hin : s.holder = some i → s'.depth = BitVec.ofNat 32 k ∧ k < 2 ^ 32 ∧ pc.Inside (nestOwnerId
      i) s'.owner k) : Inv s' := by
  refine ⟨fun hnone => ?_, fun j hj => ?_, fun j hj => ?_⟩
  · rw [hholder] at hnone
    obtain ⟨hw, howner, hdepth⟩ := h.free hnone
    obtain ⟨howner', hdepth', -⟩ := hout (by rw [hnone]; nofun)
    exact ⟨hword.2 hw, howner'.trans howner, hdepth'.trans hdepth⟩
  · rw [hholder] at hj
    rw [hpc, hnesting]
    by_cases hji : j = i
    · subst hji
      obtain ⟨-, -, hk, hpc⟩ := hout hj
      rw [update_self, update_self]
      exact ⟨hk.trans (h.outside j hj).1, hpc⟩
    · rw [update_of_ne hji, update_of_ne hji]
      exact h.outside j hj
  · rw [hholder] at hj
    rw [hpc, hnesting]
    obtain ⟨hw, hdepth, hlt, hinside⟩ := h.inside j hj
    by_cases hji : j = i
    · subst hji
      rw [update_self, update_self]
      exact ⟨mt hword.1 hw, hin hj⟩
    · obtain ⟨howner', hdepth', -⟩ := hout fun hi => hji (some.inj (hj.symm.trans hi))
      rw [update_of_ne hji, update_of_ne hji, howner', hdepth']
      exact ⟨mt hword.1 hw, hdepth, hlt, hinside⟩

/-- A step that only takes thread `i` somewhere else. -/
theorem Inv.goto (h : Inv s) {pc : Pc} (hout : s.holder ≠ some i → pc.outside = true)
    (hin : s.holder = some i → pc.Inside (nestOwnerId i) s.owner (s.nesting i)) :
    Inv { s with pc := update s.pc i pc } := by
  refine h.of_thread rfl .rfl rfl (update_eq_self ..).symm (fun hi => ?_) fun hi => ?_
  · exact ⟨rfl, rfl, rfl, hout hi⟩
  · obtain ⟨-, hdepth, hlt, -⟩ := h.inside i hi
    exact ⟨hdepth, hlt, hin hi⟩

/-- A thread that is not outside has the word. -/
theorem Inv.holder_of_pc (h : Inv s) (hpc : (s.pc i).outside = false) : s.holder = some i := by
  by_contra hne
  rw [(h.outside i hne).2] at hpc
  cases hpc

/-- A thread swaps a free word. -/
theorem Inv.take (h : Inv s) (hword : s.word = 0) (t : Bool) :
    Inv { s with word := 1, pc := update s.pc i (.writeOwner t), holder := some i } := by
  have hnone := h.word_eq_zero_iff.1 hword
  obtain ⟨-, howner, hdepth⟩ := h.free hnone
  have hout (j : Fin n) := h.outside j (by rw [hnone]; nofun)
  refine ⟨nofun, fun j hj => ?_, fun j hj => ?_⟩
  · dsimp only
    rw [update_of_ne fun hji => hj (by rw [hji])]
    exact hout j
  · cases hj
    dsimp only
    rw [(hout i).1, update_self, hdepth]
    exact ⟨by decide, rfl, by decide, howner, rfl⟩

/-- The last step of the last unset. -/
theorem Inv.free_word (h : Inv s) (hpc : s.pc i = .release) :
    Inv { s with word := 0, pc := update s.pc i .idle, holder := none } := by
  have hi := h.holder_of_pc (by rw [hpc]; rfl)
  obtain ⟨-, hdepth, -, hin⟩ := h.inside i hi
  rw [hpc] at hin
  obtain ⟨howner, hnesting⟩ := hin
  rw [hnesting] at hdepth
  refine ⟨fun _ => ⟨rfl, howner, hdepth⟩, fun j _ => ?_, nofun⟩
  dsimp only
  by_cases hji : j = i
  · rw [hji, update_self]
    exact ⟨hnesting, rfl⟩
  · rw [update_of_ne hji]
    exact h.outside j fun hj => hji (some.inj (hj.symm.trans hi))

theorem limit_le (t : Bool) : limit t ≤ 2 ^ 32 := by cases t <;> decide

/-- Every step keeps the invariant. -/
theorem Inv.step (h : Inv s) (hn : n < 2 ^ 32) {call : Call}
    (hcall : s.pc i = .idle → call = .unset → 0 < s.nesting i) (hshallow : Shallow s (i, call)) :
    Inv (step s i call) := by
  have hin (hi : s.holder = some i) := (h.inside i hi).2.2.2
  have hone (t : Bool) : 0 + 1 < limit t := by cases t <;> decide
  unfold NestLock.step
  cases hpc : s.pc i with
  | idle =>
    rw [hpc] at hin
    refine h.goto (fun hi => ?_) fun hi => ?_
    · cases call with
      | unset => exact absurd (h.outside i hi).1 (hcall hpc rfl).ne'
      | _ => rfl
    · cases call with
      | unset => exact hin hi
      | set => exact ⟨(hin hi).1, (hin hi).2, hshallow hpc false rfl⟩
      | test => exact ⟨(hin hi).1, (hin hi).2, hshallow hpc true rfl⟩
  | readOwner t =>
    rw [hpc] at hin
    dsimp only
    split
    · next howner =>
      have hi := h.holder_of_owner hn howner
      exact h.goto (fun hne => absurd hi hne) fun _ => ⟨howner, (hin hi).2.2⟩
    · next howner => exact h.goto (fun _ => rfl) fun hi => absurd (hin hi).1 howner
  | swap t =>
    rw [hpc] at hin
    dsimp only
    split
    · next hword => exact h.take hword t
    · next hword =>
      have hone : (1 : Word) = 0 ↔ s.word = 0 := iff_of_false (by decide) hword
      split
      all_goals
        exact h.of_thread rfl hone rfl (update_eq_self i _).symm (fun _ => ⟨rfl, rfl, rfl, rfl⟩)
          fun hi => (hin hi).elim
  | spin =>
    rw [hpc] at hin
    refine h.goto (fun _ => ?_) fun hi => (hin hi).elim
    split <;> rfl
  | writeOwner t =>
    have hi := h.holder_of_pc (i := i) (by rw [hpc]; rfl)
    obtain ⟨-, hdepth, hlt, -⟩ := h.inside i hi
    rw [hpc] at hin
    refine h.of_thread rfl .rfl rfl (update_eq_self i _).symm (fun hne => absurd hi hne)
      fun _ => ⟨hdepth, hlt, rfl, ?_⟩
    rw [(hin hi).2]
    exact hone t
  | readDepth t =>
    have hi := h.holder_of_pc (i := i) (by rw [hpc]; rfl)
    obtain ⟨-, hdepth, -⟩ := h.inside i hi
    rw [hpc] at hin
    refine h.goto (fun hne => absurd hi hne) fun _ => ⟨(hin hi).1, (hin hi).2, ?_⟩
    rw [hdepth]
    exact (BitVec.ofNat_add _ 1).symm
  | writeDepth t depth =>
    have hi := h.holder_of_pc (i := i) (by rw [hpc]; rfl)
    rw [hpc] at hin
    obtain ⟨howner, hlt, hdepth⟩ := hin hi
    exact h.of_thread rfl .rfl rfl rfl (fun hne => absurd hi hne) fun _ =>
      ⟨hdepth, hlt.trans_le (limit_le t), howner, Nat.succ_pos _⟩
  | unset =>
    have hi := h.holder_of_pc (i := i) (by rw [hpc]; rfl)
    obtain ⟨-, hdepth, -⟩ := h.inside i hi
    rw [hpc] at hin
    refine h.goto (fun hne => absurd hi hne) fun _ => ⟨(hin hi).1, (hin hi).2, ?_⟩
    rw [hdepth]
    exact ofNat_sub_one (hin hi).2
  | lower depth =>
    have hi := h.holder_of_pc (i := i) (by rw [hpc]; rfl)
    obtain ⟨-, -, hlt, -⟩ := h.inside i hi
    rw [hpc] at hin
    obtain ⟨howner, hpos, hdepth⟩ := hin hi
    have hlast : depth = 0 ↔ s.nesting i - 1 = 0 := by
      rw [hdepth, ← BitVec.toNat_inj, BitVec.toNat_ofNat, Nat.mod_eq_of_lt (by omega)]
      rfl
    have hnext : Pc.Inside (nestOwnerId i) s.owner (s.nesting i - 1)
        (if depth = 0 then .clearOwner else .idle) := by
      split
      · next h0 => exact ⟨howner, hlast.1 h0⟩
      · next h0 => exact ⟨howner, Nat.pos_of_ne_zero (mt hlast.2 h0)⟩
    exact h.of_thread rfl .rfl rfl rfl (fun hne => absurd hi hne) fun _ =>
      ⟨hdepth, by omega, hnext⟩
  | clearOwner =>
    have hi := h.holder_of_pc (i := i) (by rw [hpc]; rfl)
    obtain ⟨-, hdepth, hlt, -⟩ := h.inside i hi
    rw [hpc] at hin
    exact h.of_thread rfl .rfl rfl (update_eq_self i _).symm (fun hne => absurd hi hne) fun _ =>
      ⟨hdepth, hlt, rfl, (hin hi).2⟩
  | release => exact h.free_word hpc

theorem inv_start : Inv (start : State n) := by
  constructor <;> simp [start, Pc.outside]

/-- In a run of shallow nesting, a thread with a set to its name has the word; the swap of a test
fails just when another thread has it, and a test that succeeds returns the new depth; the word
is free when no thread has it; and a thread that is in no call has it until its last unset. -/
theorem nested_locks_exclusive (hn : n < 2 ^ 32) {es : List (Fin n × Call)}
    (hes : (machine n).AllSteps Shallow es start) (h : (machine n).run es start = some s) :
    (∀ i, 0 < s.nesting i → s.holder = some i) ∧
      (∀ i call, s.pc i = .swap true →
        ((∃ j ≠ i, s.holder = some j) ↔
          (step s i call).pc i = .idle ∧ (step s i call).result i = 0)) ∧
      (∀ i call depth, s.pc i = .writeDepth true depth →
        (step s i call).nesting i = s.nesting i + 1 ∧
          (step s i call).result i = (step s i call).nesting i) ∧
      (s.word = 0 ↔ s.holder = none) ∧
      ∀ i, s.pc i = .idle → (s.holder = some i ↔ 0 < s.nesting i) := by
  have hinv : Inv s := by
    refine invariant_allSteps (fun {s e s'} hs hP h => ?_) hes inv_start h
    simp only [machine] at h
    split at h
    · cases h
    next hcall =>
      cases h
      exact hs.step hn (fun hpc hunset => Nat.pos_of_ne_zero fun h0 => hcall ⟨hpc, hunset, h0⟩) hP
  have hholder (i : Fin n) (hi : 0 < s.nesting i) : s.holder = some i := by
    by_contra hne
    have := (hinv.outside i hne).1
    omega
  refine ⟨hholder, fun i call hpc => ?_, fun i call depth hpc => ?_, hinv.word_eq_zero_iff,
    fun i hpc => ⟨fun hi => ?_, hholder i⟩⟩
  · simp only [step, hpc, if_true]
    cases hs : s.holder with
    | none => simp [hinv.word_eq_zero_iff.mpr hs]
    | some j =>
      have hin := hinv.inside j hs
      have hne : j ≠ i := by
        rintro rfl
        simpa [hpc, Pc.Inside] using hin.2.2.2
      rw [if_neg hin.1]
      simp [hne]
  · have hin := (hinv.inside i (hinv.holder_of_pc (by rw [hpc]; rfl))).2.2.2
    rw [hpc] at hin
    obtain ⟨-, hlt, rfl⟩ := hin
    have hint : s.nesting i + 1 < 2 ^ 31 := hlt
    have hnat : (BitVec.ofNat 32 (s.nesting i + 1)).toNat = s.nesting i + 1 :=
      Nat.mod_eq_of_lt (by omega)
    simp only [step, hpc, if_true, update_self, true_and]
    rw [BitVec.toInt_eq_toNat_of_lt (by omega), hnat]
  · have hin := (hinv.inside i hi).2.2.2
    rw [hpc] at hin
    exact hin.2

/-- Thread 0 has set the lock, and the test of thread 1 fails. -/
theorem second_thread_refused : ∃ s, (machine 2).run
    (replicate 6 (0, .set) ++ replicate 2 (1, .test)) start = some s ∧
    (step s 1 .test).pc 1 = .idle ∧ (step s 1 .test).result 1 = 0 := by
  have hes : (machine 2).AllSteps Shallow
      (replicate 6 (0, .set) ++ replicate 2 (1, .test)) start := by
    decide
  exact ⟨_, rfl, ((nested_locks_exclusive (by decide) hes rfl).2.1 1 .test rfl).mp
    ⟨0, by decide, rfl⟩⟩

/-- The only thread that has the lock is nested as deep as it likes. -/
theorem nested (k : Nat) : ∃ es s, (machine 1).run es start = some s ∧ s.pc 0 = .idle ∧
    s.nesting 0 = k + 1 ∧ s.owner = nestOwnerId (0 : Fin 1) ∧
    s.depth = BitVec.ofNat 32 (k + 1) := by
  induction k with
  | zero => exact ⟨replicate 6 (0, .set), _, rfl, rfl, rfl, rfl, rfl⟩
  | succ k ih =>
    obtain ⟨es, s, hrun, hpc, hnesting, howner, hdepth⟩ := ih
    have hset : (machine 1).run (replicate 4 (0, .set)) s = some { s with
        depth := s.depth + 1, pc := update s.pc 0 .idle
        nesting := update s.nesting 0 (s.nesting 0 + 1) } := by
      simp [replicate, run, machine, step, hpc, howner, Call.first]
    refine ⟨_, _, (run_append_of_eq_some hrun).trans hset, ?_⟩
    refine ⟨by simp, by simp [hnesting], howner, ?_⟩
    rw [hdepth]
    exact (BitVec.ofNat_add (k + 1) 1).symm

/-- A test of a thread nested `2 ^ 31 - 1` deep returns a negative number. -/
theorem deep_test_returns_negative : ∃ es s, (machine 1).run es start = some s ∧
    s.pc 0 = .writeDepth true 0x80000000 ∧ (step s 0 .test).nesting 0 = 2 ^ 31 ∧
    (step s 0 .test).result 0 = -2 ^ 31 := by
  obtain ⟨es, s, hrun, hpc, hnesting, howner, hdepth⟩ := nested (2 ^ 31 - 2)
  have htest : (machine 1).run (replicate 3 (0, .test)) s = some { s with
      pc := update s.pc 0 (.writeDepth true (s.depth + 1)) } := by
    simp [replicate, run, machine, step, hpc, howner, Call.first]
  refine ⟨_, _, (run_append_of_eq_some hrun).trans htest, ?_⟩
  simp [step, hnesting, hdepth]

end SparcV8.NestLock
