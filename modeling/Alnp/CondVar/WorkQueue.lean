import Alnp.Lib.Access
import Alnp.Lib.Fifo

/-!
# The work queue

`struct workqueue` with `push_item` and `pop_item`, the same code in `Chapter08/cond_var.c` and
`Chapter10/cond_var_rts.c`: a ring of `MAX_ITEMS` integers from `idx` on, of which `cnt` are in
use.  `push_item` wraps its position eagerly, `pop_item` lets `idx` rest at `MAX_ITEMS` until the
next pop.

The functions here are what happens between locking and unlocking the mutex.  `pushTurn` is one
turn of the loop of `push_item` and `popTake` the branch of `pop_item` that takes an item; both
stand alone because the threads of `Alnp.CondVar.Threads` perform them one at a time.
-/

namespace Alnp.CondVar

def maxItems : Nat := 64

/-- `struct workqueue` -/
structure WorkQueue where
  item : Vector Int maxItems
  idx : Int
  cnt : Int

/-- `calloc(1, sizeof(struct workqueue))` -/
def calloc : WorkQueue := ⟨Vector.replicate maxItems 0, 0, 0⟩

/-- The position at which `push_item` starts. -/
def pushStart (wq : WorkQueue) : Int :=
  (wq.idx + wq.cnt).tmod maxItems

/-- Store one character and advance: a turn of the loop of `push_item` on a queue that is not
full. -/
def pushTurn (c : Int8) (j : Int) (wq : WorkQueue) : Access (Int × WorkQueue) := do
  let j := if j = maxItems then 0 else j
  let item ← Access.write wq.item j c.toInt
  pure (j + 1, { wq with item := item, cnt := wq.cnt + 1 })

/-- The loop of `push_item` on what is left of the buffer. -/
def pushLoop (i j : Int) : List Int8 → WorkQueue → Access (Int × WorkQueue)
  | [], wq => pure (i, wq)
  | c :: rest, wq =>
      if wq.cnt = maxItems then pure (i, wq)
      else do
        let turn ← pushTurn c j wq
        pushLoop (i + 1) turn.1 rest turn.2

/-- `push_item`: the number of items stored. -/
def pushItem (item : List Int8) (wq : WorkQueue) : Access (Int × WorkQueue) :=
  pushLoop 0 (pushStart wq) item wq

/-- Take the oldest item: the branch of `pop_item` for a queue that is not empty. -/
def popTake (wq : WorkQueue) : Access (Int × WorkQueue) := do
  let idx := if wq.idx = maxItems then 0 else wq.idx
  let item ← Access.read wq.item idx
  pure (item, { wq with idx := idx + 1, cnt := wq.cnt - 1 })

/-- One critical section of `pop_item`: an item, or nothing and the thread waits. -/
def popItem (wq : WorkQueue) : Access (Option (Int × WorkQueue)) :=
  if wq.cnt > 0 then do
    let taken ← popTake wq
    pure (some taken)
  else pure none

/-! ## The queue as a list -/

/-- The items in the queue, oldest first. -/
def WorkQueue.content (wq : WorkQueue) : List Int :=
  Fifo.window wq.item wq.idx.toNat wq.cnt.toNat

/-- The counters of a queue between two critical sections. -/
structure Bounded (wq : WorkQueue) : Prop where
  idx : 0 ≤ wq.idx ∧ wq.idx ≤ maxItems
  cnt : 0 ≤ wq.cnt ∧ wq.cnt ≤ maxItems

theorem bounded_calloc : Bounded calloc :=
  ⟨by decide, by decide⟩

theorem Bounded.length_content {wq : WorkQueue} (ok : Bounded wq) :
    (wq.content.length : Int) = wq.cnt := by
  have := ok.cnt
  simp only [WorkQueue.content, Fifo.length_window]
  omega

/-! ## Pushing -/

/-- `j` is the position behind the last item, with `MAX_ITEMS` standing for 0. -/
def AtEnd (wq : WorkQueue) (j : Int) : Prop :=
  0 ≤ j ∧ j ≤ maxItems ∧ (if j = maxItems then 0 else j) = (wq.idx + wq.cnt) % maxItems

theorem atEnd_pushStart {wq : WorkQueue} (ok : Bounded wq) : AtEnd wq (pushStart wq) := by
  obtain ⟨⟨idx, -⟩, cnt, -⟩ := ok
  unfold AtEnd pushStart
  rw [Int.tmod_eq_emod_of_nonneg (by omega)]
  simp only [maxItems]
  refine ⟨by omega, by omega, if_neg (by omega)⟩

/-- Behind the end comes the next position, whether or not the sum was reduced. -/
theorem atEnd_succ {item : Vector Int maxItems} {start len : Nat}
    (inside : (start + len) % maxItems < maxItems) :
    AtEnd ⟨item, start, len + 1⟩ (((start + len) % maxItems : Nat) + 1) := by
  simp only [maxItems] at inside
  refine ⟨by omega, by simp only [maxItems]; omega, ?_⟩
  by_cases last : (((start + len) % maxItems : Nat) : Int) + 1 = (maxItems : Nat)
  · rw [if_pos last]
    simp only [maxItems] at last ⊢
    omega
  · rw [if_neg last]
    simp only [maxItems] at last ⊢
    omega

/-- What one turn of the loop does to a queue that has room. -/
theorem pushTurn_spec {wq : WorkQueue} {j : Int} (c : Int8) (ok : Bounded wq) (atEnd : AtEnd wq j)
    (room : wq.cnt ≠ maxItems) :
    (pushTurn c j wq).Within maxItems ∧
      Bounded (pushTurn c j wq).value.2 ∧
      AtEnd (pushTurn c j wq).value.2 (pushTurn c j wq).value.1 ∧
      (pushTurn c j wq).value.2.cnt = wq.cnt + 1 ∧
      (pushTurn c j wq).value.2.content = wq.content ++ [c.toInt] := by
  obtain ⟨item, idx, cnt⟩ := wq
  obtain ⟨⟨idxNonneg, idxLe⟩, cntNonneg, cntLe⟩ := ok
  obtain ⟨jNonneg, jLe, position⟩ := atEnd
  simp only at idxNonneg idxLe cntNonneg cntLe position room
  obtain ⟨start, rfl⟩ := Int.eq_ofNat_of_zero_le idxNonneg
  obtain ⟨len, rfl⟩ := Int.eq_ofNat_of_zero_le cntNonneg
  have slot : (if j = (maxItems : Int) then 0 else j) = ((start + len) % maxItems : Nat) := by
    rw [position, Int.natCast_mod, Int.natCast_add]
  have inside : (start + len) % maxItems < maxItems := Nat.mod_lt _ (by decide)
  have less : len < maxItems := by omega
  unfold pushTurn
  dsimp only
  rw [slot]
  refine ⟨?_, ⟨⟨idxNonneg, idxLe⟩, ?_⟩, ?_, rfl, ?_⟩
  · exact Access.within_bind.mpr
      ⟨(Access.within_write _ _ _).mpr (by omega), Access.within_pure _⟩
  · simp only [Access.value_bind, Access.value_pure]
    omega
  · exact atEnd_succ inside
  · simp only [WorkQueue.content, Access.value_bind, Access.value_write_nat, Access.value_pure,
      Int.toNat_natCast]
    rw [show ((len : Int) + 1).toNat = len + 1 by omega]
    exact Fifo.window_store item c.toInt less

/-- The loop appends what fits of the rest of the buffer. -/
theorem pushLoop_spec (rest : List Int8) : ∀ {wq : WorkQueue} (i j : Int), Bounded wq →
    AtEnd wq j →
      (pushLoop i j rest wq).Within maxItems ∧
        Bounded (pushLoop i j rest wq).value.2 ∧
        (pushLoop i j rest wq).value.2.content =
          wq.content ++ Fifo.fitting maxItems wq.content (rest.map Int8.toInt) ∧
        (pushLoop i j rest wq).value.1 =
          i + (Fifo.fitting maxItems wq.content (rest.map Int8.toInt)).length := by
  induction rest with
  | nil =>
      intro wq i j ok _
      exact ⟨Access.within_pure _, ok, by simp [pushLoop, Fifo.fitting],
        by simp [pushLoop, Fifo.fitting]⟩
  | cons c rest ih =>
      intro wq i j ok atEnd
      have length := ok.length_content
      by_cases full : wq.cnt = maxItems
      · have none : maxItems - wq.content.length = 0 := by omega
        simp only [pushLoop, full, ↓reduceIte]
        exact ⟨Access.within_pure _, ok, by simp [Fifo.fitting, none],
          by simp [Fifo.fitting, none]⟩
      · obtain ⟨within, ok', atEnd', count, content⟩ := pushTurn_spec c ok atEnd full
        obtain ⟨restWithin, restOk, restContent, restCount⟩ :=
          ih (i + 1) (pushTurn c j wq).value.1 ok' atEnd'
        have split : Fifo.fitting maxItems wq.content ((c :: rest).map Int8.toInt) =
            c.toInt :: Fifo.fitting maxItems (pushTurn c j wq).value.2.content
              (rest.map Int8.toInt) := by
          have some : maxItems - wq.content.length =
              maxItems - (wq.content.length + 1) + 1 := by
            have := ok.cnt
            omega
          rw [content]
          simp only [Fifo.fitting, List.map_cons, List.length_append, List.length_singleton]
          rw [some, List.take_succ_cons]
        simp only [pushLoop, full, ↓reduceIte]
        refine ⟨Access.within_bind.mpr ⟨within, restWithin⟩, restOk, ?_, ?_⟩
        · rw [Access.value_bind, restContent, content, split, content]
          simp
        · rw [Access.value_bind, restCount, split, List.length_cons]
          omega

/-- `push_item` appends the longest prefix of the buffer that fits and returns its length. -/
theorem pushItem_spec {wq : WorkQueue} (ok : Bounded wq) (item : List Int8) :
    (pushItem item wq).Within maxItems ∧
      Bounded (pushItem item wq).value.2 ∧
      (pushItem item wq).value.2.content =
        wq.content ++ Fifo.fitting maxItems wq.content (item.map Int8.toInt) ∧
      (pushItem item wq).value.1 =
        (Fifo.fitting maxItems wq.content (item.map Int8.toInt)).length := by
  have looped := pushLoop_spec item 0 (pushStart wq) ok (atEnd_pushStart ok)
  rw [Int.zero_add] at looped
  exact looped

/-! ## Popping -/

/-- Taking an item from a queue that has one takes the oldest. -/
theorem popTake_spec {wq : WorkQueue} (ok : Bounded wq) (some : wq.cnt > 0) :
    (popTake wq).Within maxItems ∧
      Bounded (popTake wq).value.2 ∧
      (popTake wq).value.2.cnt = wq.cnt - 1 ∧
      wq.content = (popTake wq).value.1 :: (popTake wq).value.2.content := by
  obtain ⟨item, idx, cnt⟩ := wq
  obtain ⟨⟨idxNonneg, idxLe⟩, cntNonneg, cntLe⟩ := ok
  simp only at idxNonneg idxLe cntNonneg cntLe some
  obtain ⟨start, rfl⟩ := Int.eq_ofNat_of_zero_le idxNonneg
  obtain ⟨len, rfl⟩ : ∃ len : Nat, cnt = (len : Int) + 1 := ⟨(cnt - 1).toNat, by omega⟩
  have slot : (if (start : Int) = (maxItems : Int) then 0 else (start : Int)) =
      (start % maxItems : Nat) := by
    by_cases rests : (start : Int) = (maxItems : Int)
    · rw [if_pos rests]
      simp only [maxItems] at rests ⊢
      omega
    · rw [if_neg rests]
      simp only [maxItems] at rests idxLe ⊢
      omega
  have inside : start % maxItems < maxItems := Nat.mod_lt _ (by decide)
  unfold popTake
  dsimp only
  rw [slot]
  refine ⟨?_, ⟨?_, ?_⟩, rfl, ?_⟩
  · exact Access.within_bind.mpr
      ⟨(Access.within_read _ _).mpr (by omega), Access.within_pure _⟩
  · simp only [Access.value_bind, Access.value_pure]
    omega
  · simp only [Access.value_bind, Access.value_pure]
    omega
  · simp only [WorkQueue.content, Access.value_bind, Access.value_read_nat, Access.value_pure,
      Int.toNat_natCast]
    rw [show ((len : Int) + 1).toNat = len + 1 by omega,
      show ((len : Int) + 1 - 1).toNat = len by omega,
      show ((start % maxItems : Nat) + 1 : Int).toNat = start % maxItems + 1 by omega,
      Fifo.window_succ, ← Fifo.window_mod item (start + 1),
      ← Fifo.window_mod item (start % maxItems + 1), Nat.mod_add_mod]

/-- An empty list of items is what `pop_item` waits for to end. -/
theorem content_eq_nil_iff {wq : WorkQueue} (ok : Bounded wq) :
    wq.content = [] ↔ ¬ wq.cnt > 0 := by
  have length := ok.length_content
  have := ok.cnt
  rw [← List.length_eq_zero_iff]
  omega

theorem popItem_within {wq : WorkQueue} (ok : Bounded wq) : (popItem wq).Within maxItems := by
  unfold popItem
  split
  · rename_i some
    exact Access.within_bind.mpr ⟨(popTake_spec ok some).1, Access.within_pure _⟩
  · exact Access.within_pure _

end Alnp.CondVar
