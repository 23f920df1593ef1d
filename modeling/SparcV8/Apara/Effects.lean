import SparcV8.Apara.AparaCore

/-!
# What a bundle does

The slots of a bundle work on the registers from before it; their memory accesses happen slot by
slot, and then all their writes, the later slot last. The step of the engine lists the doublewords
of all slots first, and does just that.
-/

namespace SparcV8.Apara

open AparaCore List Function SlotWork

/-- The data memory of an engine and the memory outside it. -/
abbrev DataMemory (σ : Type) := (Fin DMEM_DWORDS → BitVec 64) × σ

/-- An engine but for the scratch record of the step of thread `t`, which nothing can see and the
next step begins anew. -/
def AparaCore.withoutPending (t : ThreadIndex) (c : AparaCore) : AparaCore := c.setPending t {}

@[simp] theorem AparaCore.withoutPending_setPending (t : ThreadIndex) (c : AparaCore)
    (p : PendingStep) : (c.setPending t p).withoutPending t = c.withoutPending t := by
  unfold withoutPending setPending
  rw [update_idem]

section Memory

variable {σ : Type} (port : Option (OffIslandPort σ))

/-- One doubleword is transferred. -/
def transfer (x : DwordTransaction) (m : DataMemory σ) : DwordTransaction × DataMemory σ :=
  if !x.offIsland then
    let i := dmemIndex (x.address.toNat / 8)
    if x.store then
      let mask := laneBits x.lanes
      ({ x with done := true },
        (update m.1 i ((m.1 i &&& ~~~mask) ||| (x.data &&& mask)), m.2))
    else ({ x with data := m.1 i, done := true }, m)
  else
    match port with
    | none => ({ x with data := if x.store then x.data else 0, done := true }, m)
    | some port =>
      if x.store then
        ({ x with done := true }, (m.1, port.writeDword x.address x.lanes x.data m.2))
      else
        let a := port.readDword x.address x.lanes m.2
        ({ x with data := a.1, done := true }, (m.1, a.2))

/-- Doublewords are transferred one after the other. -/
def transferAll : List DwordTransaction → DataMemory σ → List DwordTransaction × DataMemory σ
  | [], m => ([], m)
  | x :: xs, m =>
    let a := transfer port x m
    let b := transferAll xs a.2
    (a.1 :: b.1, b.2)

theorem transferAll_append (xs ys : List DwordTransaction) (m : DataMemory σ) :
    transferAll port (xs ++ ys) m =
      ((transferAll port xs m).1 ++ (transferAll port ys (transferAll port xs m).2).1,
        (transferAll port ys (transferAll port xs m).2).2) := by
  induction xs generalizing m with
  | nil => rfl
  | cons x xs ih => simp [transferAll, ih]

theorem length_transferAll (xs : List DwordTransaction) (m : DataMemory σ) :
    (transferAll port xs m).1.length = xs.length := by
  induction xs generalizing m with
  | nil => rfl
  | cons x xs ih => simp [transferAll, ih]

variable (c : AparaCore)

/-- One slot accesses memory: the registers it writes, and the memory after it. -/
def slotEffect (s : Nat) (w : SlotWork) (m : DataMemory σ) :
    List (RegIndex × BitVec 64) × DataMemory σ :=
  if !w.memory then (w.write, m)
  else
    let a := transferAll port (c.slotTransactions s w) m
    (w.write ++ loadWrites w a.1 ++ (if w.incrementBase then [(w.rs2, w.nextRs2)] else []), a.2)

/-- The slots from number `s` on access memory, one after the other. -/
def slotEffects (s : Nat) :
    List SlotWork → DataMemory σ → List (List (RegIndex × BitVec 64)) × DataMemory σ
  | [], m => ([], m)
  | w :: work, m =>
    let a := slotEffect port c s w m
    let b := slotEffects (s + 1) work a.2
    (a.1 :: b.1, b.2)

theorem length_slotTransactions {s : Nat} {w : SlotWork} (h : w.memory = true) :
    (c.slotTransactions s w).length = w.regs := by
  simp [slotTransactions, h, length_map, length_range]

/-- The doublewords of all slots, transferred in order and handed out again, are those of the slots
in turn. -/
theorem withLoads_transferAll (s : Nat) (work : List SlotWork) (m : DataMemory σ) :
    (withLoads work (transferAll port (c.transactions s work) m).1).map write =
        (slotEffects port c s work m).1 ∧
      (transferAll port (c.transactions s work) m).2 = (slotEffects port c s work m).2 := by
  induction work generalizing s m with
  | nil => exact ⟨rfl, rfl⟩
  | cons w work ih =>
    simp only [transactions, transferAll_append, slotEffects, slotEffect, withLoads]
    cases hmemory : w.memory with
    | false =>
      have hnone : c.slotTransactions s w = [] := by
        rw [slotTransactions, hmemory]
        rfl
      obtain ⟨hwrites, hm⟩ := ih (s + 1) m
      simp [hnone, transferAll, hwrites, hm]
    | true =>
      obtain ⟨hwrites, hm⟩ := ih (s + 1) (transferAll port (c.slotTransactions s w) m).2
      have hlength : (transferAll port (c.slotTransactions s w) m).1.length = w.regs := by
        rw [length_transferAll, length_slotTransactions c hmemory]
      simp only [Bool.not_true, if_off, map_cons, ← hlength,
        take_left, drop_left, hwrites, hm, and_self]

end Memory

/-! ## Commit -/

section Commit

variable (r : RegIndex → BitVec 64)

theorem commitWrites_append (xs ys : List (RegIndex × BitVec 64)) :
    commitWrites r (xs ++ ys) = commitWrites (commitWrites r xs) ys :=
  foldl_append

/-- Register 0 is never written. -/
theorem commitWrites_zero (xs : List (RegIndex × BitVec 64)) : commitWrites r xs 0 = r 0 := by
  induction xs generalizing r with
  | nil => rfl
  | cons x xs ih =>
    rw [commitWrites, foldl_cons]
    refine (ih _).trans ?_
    split
    · next hne => exact update_of_ne (Ne.symm hne) _ _
    · rfl

/-- What loads add to the work of a slot is registers to write. -/
theorem foldl_withLoads {α : Type} (f : α → SlotWork → α)
    (hf : ∀ a w writes, f a { w with write := writes } = f a w) (work : List SlotWork)
    (xs : List DwordTransaction) (a : α) : (withLoads work xs).foldl f a = work.foldl f a := by
  induction work generalizing xs a with
  | nil => rfl
  | cons w work ih =>
    rw [withLoads]
    split
    · rw [foldl_cons, foldl_cons, ih]
    · rw [foldl_cons, foldl_cons, hf, ih]

/-- Program counter and return addresses after all slots have been committed. -/
def controlAfter (x : BitVec 32 × List (BitVec 32)) (w : SlotWork) : BitVec 32 × List (BitVec 32) :=
  (if w.setsPc then w.nextPc else x.1,
    match w.rasOp with
    | .none => x.2
    | .push => w.rasPush :: x.2
    | .pop => x.2.tail)

variable (work : List SlotWork)

/-- The thread after all slots have been committed. -/
theorem foldl_commitSlot (ts : ThreadState) :
    work.foldl commitSlot ts =
      { ts with
        pc := (work.foldl controlAfter (ts.pc, ts.ras)).1
        r := commitWrites ts.r (work.map write).flatten
        ras := (work.foldl controlAfter (ts.pc, ts.ras)).2 } := by
  induction work generalizing ts with
  | nil => rfl
  | cons w work ih =>
    rw [foldl_cons, ih, foldl_cons, map_cons, flatten_cons, commitWrites_append]
    rfl

theorem any_halt_withLoads (xs : List DwordTransaction) :
    (withLoads work xs).any halt = work.any halt := by
  induction work generalizing xs with
  | nil => rfl
  | cons w work ih =>
    rw [withLoads]
    split <;> rw [any_cons, any_cons, ih]

end Commit

/-! ## A step -/

/-- The thread after a bundle whose slots do this work and write these registers. -/
def threadAfter (ts : ThreadState) (b : Bundle) (work : List SlotWork)
    (writes : List (List (RegIndex × BitVec 64))) : ThreadState :=
  let control := work.foldl controlAfter (b.pc + BitVec.ofNat 32 b.size, ts.ras)
  let halt := work.any halt
  { pc := control.1
    r := commitWrites ts.r writes.flatten
    ras := control.2
    active := ts.active
    halted := ts.halted || halt
    error := if halt then ts.error ||| ERROR_HALT else ts.error }

namespace AparaCore

variable {σ : Type} (port : Option (OffIslandPort σ))

theorem performTransaction_eq (t : ThreadIndex) (c : AparaCore) (y : σ)
    (done rest : List DwordTransaction) (x : DwordTransaction)
    (h : (c.pending t).transaction = done ++ x :: rest) :
    performTransaction port t done.length x (c, y) =
      ({ c with
          dmem := (transfer port x (c.dmem, y)).2.1
          pending := update c.pending t
            { c.pending t with transaction := done ++ (transfer port x (c.dmem, y)).1 :: rest } },
        (transfer port x (c.dmem, y)).2.2) := by
  have hset (x' : DwordTransaction) :
      (c.pending t).transaction.set done.length x' = done ++ x' :: rest := by
    rw [h, set_append_right _ _ (Nat.le_refl _), Nat.sub_self, set_cons_zero]
  unfold performTransaction transfer performLocal completeTransaction setTransaction setPending
    writeLocal writeDmemDword readLocal dmemDword
  cases x.offIsland <;> cases x.store <;> cases port <;>
    simp [hset]

theorem performTransactions_eq (t : ThreadIndex) (rest : List DwordTransaction) (c : AparaCore)
    (y : σ) (done : List DwordTransaction) (h : (c.pending t).transaction = done ++ rest) :
    performTransactions port t done.length rest (c, y) =
      ({ c with
          dmem := (transferAll port rest (c.dmem, y)).2.1
          pending := update c.pending t
            { c.pending t with
              transaction := done ++ (transferAll port rest (c.dmem, y)).1 } },
        (transferAll port rest (c.dmem, y)).2.2) := by
  induction rest generalizing c y done with
  | nil =>
    rw [performTransactions, transferAll, ← h]
    simp only [update_eq_self]
  | cons x rest ih =>
    rw [performTransactions, performTransaction_eq port t c y done rest x h]
    have hlength : done.length + 1 = (done ++ [(transfer port x (c.dmem, y)).1]).length := by
      rw [length_append, length_singleton]
    rw [hlength, ih]
    · simp [transferAll, update_idem, append_assoc]
    · simp only [update_self, append_assoc, singleton_append]

/-- The commit of a bundle. -/
theorem withoutPending_commitStep (t : ThreadIndex) (c : AparaCore) :
    (c.commitStep t).2.withoutPending t =
      (c.setThread t (threadAfter (c.threads t) (c.pending t).bundle (c.pending t).work
        ((withLoads (c.pending t).work (c.pending t).transaction).map
          write))).withoutPending t := by
  unfold commitStep withoutPending setThread setPending threadAfter
  dsimp only
  rw [any_halt_withLoads, foldl_commitSlot, foldl_withLoads controlAfter (fun _ _ _ => rfl)]
  cases (c.pending t).work.any halt with
  | false => simp [update_idem]
  | true => simp only [if_true, Bool.or_true, update_idem]

end AparaCore

end SparcV8.Apara
