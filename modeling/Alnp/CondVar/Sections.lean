import Alnp.CondVar.WorkQueue

/-!
# The work queue is a bounded queue

`push_item` and `pop_item` touch the queue only with the mutex held, so a run of the program is, for
the queue, a sequence of critical sections.  `sections` takes them in any order, with any buffers
and any number of consumers, and keeps what they returned and which array indices they used.

`refines_fifo` simulates it by the bounded queue of `Alnp.Lib.Fifo`, and `workQueue_of_reachable`
collects what follows for every reachable state.
-/

namespace Alnp.CondVar

/-- The queue with the history of the critical sections so far. -/
structure Sections where
  wq : WorkQueue
  /-- What the critical sections returned. -/
  rets : List (Fifo.Ret Int)
  /-- The bytes that the return values of `push_item` report as stored. -/
  accepted : List Int
  /-- The items that `pop_item` delivered, over all threads. -/
  popped : List Int
  /-- The indices with which the sections accessed `wq->item`. -/
  indices : List Int

/-- After `push_item(wq, item, cnt)`. -/
def Sections.push (s : Sections) (item : List Int8) : Sections :=
  let called := pushItem item s.wq
  { wq := called.value.2
    rets := s.rets ++ [.pushed called.value.1]
    accepted := s.accepted ++ (item.take called.value.1.toNat).map Int8.toInt
    popped := s.popped
    indices := s.indices ++ called.indices }

/-- After a critical section of `pop_item` in thread `tid`, which ends by returning an item or by
waiting. -/
def Sections.pop (s : Sections) (tid : Nat) : Sections :=
  let called := popItem s.wq
  match called.value with
  | some taken =>
      { s with
        wq := taken.2
        rets := s.rets ++ [.popped tid taken.1]
        popped := s.popped ++ [taken.1]
        indices := s.indices ++ called.indices }
  | none =>
      { s with
        rets := s.rets ++ [.empty tid]
        indices := s.indices ++ called.indices }

inductive SectionStep : Sections → Sections → Prop
  | push (s : Sections) (item : List Int8) : SectionStep s (s.push item)
  | pop (s : Sections) (tid : Nat) : SectionStep s (s.pop tid)

/-- All orders of critical sections on the queue that `calloc` returned. -/
def sections : Machine Sections where
  init s := s = ⟨calloc, [], [], [], []⟩
  step := SectionStep

/-! ## The simulation -/

/-- The ring represents the state of the bounded queue. -/
structure Represents (s : Sections) (t : Fifo.State Int) : Prop where
  bounded : Bounded s.wq
  queue : s.wq.content = t.queue
  rets : s.rets = t.rets
  accepted : s.accepted = t.accepted
  popped : s.popped = t.popped
  indices : ∀ i ∈ s.indices, 0 ≤ i ∧ i < maxItems

/-- The return value of `push_item` counts the bytes that fit. -/
theorem map_take_pushItem {wq : WorkQueue} (ok : Bounded wq) (item : List Int8) :
    (item.take (pushItem item wq).value.1.toNat).map Int8.toInt =
      Fifo.fitting maxItems wq.content (item.map Int8.toInt) := by
  obtain ⟨-, -, -, count⟩ := pushItem_spec ok item
  rw [count, Int.toNat_natCast, List.map_take]
  simp only [Fifo.fitting, List.length_take]
  exact List.take_eq_take_min.symm

theorem Represents.push {s : Sections} {t : Fifo.State Int} (rel : Represents s t)
    (item : List Int8) :
    ∃ t', Fifo.Step maxItems t t' ∧ Represents (s.push item) t' := by
  obtain ⟨within, bounded, content, count⟩ := pushItem_spec rel.bounded item
  refine ⟨_, .push t (item.map Int8.toInt), ⟨bounded, ?_, ?_, ?_, rel.popped, ?_⟩⟩
  · exact content.trans (by rw [rel.queue])
  · simp only [Sections.push]
    rw [rel.rets, count, rel.queue]
  · simp only [Sections.push]
    rw [map_take_pushItem rel.bounded, rel.accepted, rel.queue]
  · exact List.forall_mem_append.mpr ⟨rel.indices, within⟩

theorem Represents.pop {s : Sections} {t : Fifo.State Int} (rel : Represents s t) (tid : Nat) :
    ∃ t', Fifo.Step maxItems t t' ∧ Represents (s.pop tid) t' := by
  have within := popItem_within rel.bounded
  have indices : ∀ i ∈ s.indices ++ (popItem s.wq).indices, 0 ≤ i ∧ i < maxItems :=
    List.forall_mem_append.mpr ⟨rel.indices, within⟩
  by_cases some : s.wq.cnt > 0
  · obtain ⟨-, bounded, -, content⟩ := popTake_spec rel.bounded some
    have taken : (popItem s.wq).value = .some (popTake s.wq).value := by
      simp [popItem, some]
    refine ⟨_, .pop t tid _ _ (rel.queue.symm.trans content), ?_⟩
    simp only [Sections.pop, taken]
    exact ⟨bounded, rfl, by rw [rel.rets], rel.accepted, by rw [rel.popped], indices⟩
  · have waits : (popItem s.wq).value = none := by
      simp [popItem, some]
    have empty : t.queue = [] := rel.queue.symm.trans ((content_eq_nil_iff rel.bounded).mpr some)
    refine ⟨_, .empty t tid empty, ?_⟩
    simp only [Sections.pop, waits]
    exact ⟨rel.bounded, rel.queue, by rw [rel.rets], rel.accepted, rel.popped, indices⟩

/-- The ring buffer refines the bounded queue of capacity `MAX_ITEMS`. -/
theorem refines_fifo : sections.Simulation (Fifo.machine Int maxItems) Represents := by
  refine ⟨?_, ?_⟩
  · intro s start
    subst start
    exact ⟨_, rfl, ⟨bounded_calloc, rfl, rfl, rfl, rfl, by simp⟩⟩
  · intro s s' t _ rel step
    cases step with
    | push item => exact .inr (rel.push item)
    | pop tid => exact .inr (rel.pop tid)

/-! ## What holds in every reachable state -/

/-- In every order of critical sections the counters and the indices stay in bounds, `push_item`
appends the longest prefix that fits and returns its length, `pop_item` delivers the oldest item if
there is one, and the items delivered so far followed by the content of the queue are the items
accepted so far. -/
theorem workQueue_of_reachable {s : Sections} (reached : sections.Reachable s) :
    (0 ≤ s.wq.idx ∧ s.wq.idx ≤ maxItems) ∧
      (0 ≤ s.wq.cnt ∧ s.wq.cnt ≤ maxItems) ∧
      (s.wq.content.length : Int) = s.wq.cnt ∧
      (∀ i ∈ s.indices, 0 ≤ i ∧ i < maxItems) ∧
      (∀ item : List Int8,
        (pushItem item s.wq).value.2.content =
          s.wq.content ++ (item.map Int8.toInt).take (maxItems - s.wq.content.length) ∧
        (pushItem item s.wq).value.1 =
          ((item.map Int8.toInt).take (maxItems - s.wq.content.length)).length) ∧
      (∀ taken, (popItem s.wq).value = some taken →
        s.wq.content = taken.1 :: taken.2.content) ∧
      ((popItem s.wq).value = none ↔ s.wq.content = []) ∧
      s.popped ++ s.wq.content = s.accepted ∧
      ∃ t, (Fifo.machine Int maxItems).Reachable t ∧
        t.queue = s.wq.content ∧ t.rets = s.rets ∧ t.accepted = s.accepted ∧
          t.popped = s.popped := by
  obtain ⟨t, reachedFifo, rel⟩ := refines_fifo.reachable reached
  have conserved := (Fifo.popped_append_queue reachedFifo).1
  have delivers : ∀ taken, (popItem s.wq).value = some taken →
      s.wq.content = taken.1 :: taken.2.content := by
    intro taken returned
    by_cases some : s.wq.cnt > 0
    · have oldest := (popTake_spec rel.bounded some).2.2.2
      simp only [popItem, some, ↓reduceIte, Access.value_bind, Access.value_pure,
        Option.some.injEq] at returned
      rw [← returned]
      exact oldest
    · simp [popItem, some] at returned
  have waits : (popItem s.wq).value = none ↔ s.wq.content = [] := by
    rw [content_eq_nil_iff rel.bounded]
    by_cases some : s.wq.cnt > 0 <;> simp [popItem, some]
  refine ⟨rel.bounded.idx, rel.bounded.cnt, rel.bounded.length_content, rel.indices, ?_, delivers,
    waits, ?_, t, reachedFifo, rel.queue.symm, rel.rets.symm, rel.accepted.symm, rel.popped.symm⟩
  · intro item
    obtain ⟨-, -, content, count⟩ := pushItem_spec rel.bounded item
    exact ⟨content, count⟩
  · rw [rel.popped, rel.queue, rel.accepted]
    exact conserved

/-- Two bytes pushed and one item taken by thread 1. -/
def pushPop : Sections :=
  ((⟨calloc, [], [], [], []⟩ : Sections).push [72, 105]).pop 1

theorem workQueue_pushPop :
    sections.Reachable pushPop ∧ pushPop.popped ++ pushPop.wq.content = pushPop.accepted ∧
      pushPop.popped = [72] := by
  have reached : sections.Reachable pushPop :=
    ((Machine.Reachable.of_init rfl).tail (SectionStep.push _ [72, 105])).tail
      (SectionStep.pop _ 1)
  exact ⟨reached, (workQueue_of_reachable reached).2.2.2.2.2.2.2.1, by decide +kernel⟩

end Alnp.CondVar
