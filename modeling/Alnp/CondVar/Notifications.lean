import Mathlib.Algebra.BigOperators.Group.Finset.Piecewise
import Mathlib.Data.Fintype.Basic
import Alnp.CondVar.Delivery

/-!
# The notifications of `cond_var_rts.c`

`Chapter10/cond_var_rts.c` is `cond_var.c` with one more thread: behind every job `tfunc_b` sends
`SIGRTMIN` with its own `thread_arg` to the process, and `start_sigthread` takes these signals one
after the other.

`RtsStep` takes over the steps of `Alnp.CondVar.Threads` and lists those that the account is about:
an item is stored, an item is taken, a job is done, a signal is received.  `accounted_of_reachable`
says that every item accepted is in exactly one of the four places between `push_item` and
`start_sigthread`, and that each thread has sent as many signals as it has done jobs.
-/

namespace Alnp.CondVar

variable {ι : Type}

/-- The item that `tfunc_b` has popped and not yet notified anybody of. -/
def TfuncB.item : TfuncB → Option Int
  | .unlock item => some item
  | .job item => some item
  | _ => none

structure Rts (ι : Type) where
  threads : Threads ι
  /-- What `push_item` has stored. -/
  accepted : List Int
  /-- The thread that popped each of the items popped. -/
  takers : List ι
  /-- The queued `SIGRTMIN`, each with the thread whose `thread_arg` is in `si_value`. -/
  queued : List ι
  /-- Those that `sigwaitinfo` has returned. -/
  received : List ι

inductive RtsStep [DecidableEq ι] : Rts ι → Rts ι → Prop
  | store (s : Rts ι) (i j : Int) (c : Int8) (rest : List Int8) :
      s.threads.tfuncA = .store i j (c :: rest) → s.threads.wq.cnt ≠ maxItems →
      RtsStep s
        { s with
          threads :=
            { s.threads with
              wq := (pushTurn c j s.threads.wq).value.2
              tfuncA := .store (i + 1) (pushTurn c j s.threads.wq).value.1 rest }
          accepted := s.accepted ++ [c.toInt] }
  | take (s : Rts ι) (i : ι) :
      s.threads.tfuncB i = .take →
      RtsStep s
        { s with
          threads :=
            { s.threads.setB i (.unlock (popTake s.threads.wq).value.1) with
              wq := (popTake s.threads.wq).value.2
              popped := s.threads.popped ++ [(popTake s.threads.wq).value.1] }
          takers := s.takers ++ [i] }
  /-- `process_job` and then `sigqueue`. -/
  | job (s : Rts ι) (i : ι) (item : Int) :
      s.threads.tfuncB i = .job item →
      RtsStep s { s with threads := s.threads.setB i .lock, queued := s.queued ++ [i] }
  /-- `sigwaitinfo` in `start_sigthread` returns the oldest signal. -/
  | receive (s : Rts ι) (i : ι) (rest : List ι) :
      s.queued = i :: rest →
      RtsStep s { s with queued := rest, received := s.received ++ [i] }
  /-- Every other step of the threads, which neither touches the queue nor what they hold. -/
  | other (s : Rts ι) (t : Threads ι) :
      ThreadStep s.threads t → t.wq = s.threads.wq →
      (∀ i, (t.tfuncB i).item = (s.threads.tfuncB i).item) →
      RtsStep s { s with threads := t }

/-- The program from the moment the threads run. -/
def rts (ι : Type) [DecidableEq ι] : Machine (Rts ι) where
  init s := (threads ι).init s.threads ∧ s.accepted = [] ∧ s.takers = [] ∧ s.queued = [] ∧
    s.received = []
  step := RtsStep

variable [DecidableEq ι] {s t : Rts ι}

/-- The threads do what they do in `cond_var.c`. -/
theorem rts_simulation : (rts ι).Simulation (threads ι) fun s t => s.threads = t := by
  refine ⟨fun s start => ⟨s.threads, start.1, rfl⟩, ?_⟩
  intro s s' t _ same step
  subst same
  cases step with
  | store i j c rest storing room => exact .inr ⟨_, .store _ i j c rest storing room, rfl⟩
  | take i taking => exact .inr ⟨_, .take _ i taking, rfl⟩
  | job i item working => exact .inr ⟨_, .job _ i item working, rfl⟩
  | receive i rest front => exact .inl rfl
  | other t step _ _ => exact .inr ⟨t, step, rfl⟩

theorem threads_of_reachable (reached : (rts ι).Reachable s) :
    (threads ι).Reachable s.threads := by
  obtain ⟨t, reached', same⟩ := rts_simulation.reachable reached
  exact same ▸ reached'

/-- Moving a thread to a place with the same item leaves the items of all threads as they are. -/
theorem item_update {b : ι → TfuncB} {i : ι} {pc : TfuncB} (same : pc.item = (b i).item) (k : ι) :
    (Function.update b i pc k).item = (b k).item := by
  rcases eq_or_ne k i with rfl | other
  · rw [Function.update_self, same]
  · rw [Function.update_of_ne other]

/-- `RtsStep` leaves out no step of the threads. -/
theorem threads_simulation : (threads ι).Simulation (rts ι) fun u s => s.threads = u := by
  refine ⟨fun u start => ⟨⟨u, [], [], [], []⟩, ⟨start, rfl, rfl, rfl, rfl⟩, rfl⟩, ?_⟩
  intro u v s _ same step
  subst same
  right
  -- Moves of `tfunc_a` touch no thread that holds an item.
  have ofA {v : Threads ι} (step : ThreadStep s.threads v) (wq : v.wq = s.threads.wq)
      (tfuncB : v.tfuncB = s.threads.tfuncB) : ∃ t, RtsStep s t ∧ t.threads = v :=
    ⟨_, .other s v step wq fun i => by rw [tfuncB], rfl⟩
  have ofB {v : Threads ι} (step : ThreadStep s.threads v) (wq : v.wq = s.threads.wq) {i : ι}
      {pc : TfuncB} (tfuncB : v.tfuncB = Function.update s.threads.tfuncB i pc)
      (same : pc.item = (s.threads.tfuncB i).item) : ∃ t, RtsStep s t ∧ t.threads = v :=
    ⟨_, .other s v step wq fun k => by rw [tfuncB, item_update same], rfl⟩
  cases step with
  | read buf reading some le => exact ofA (.read _ buf reading some le) rfl rfl
  | lockA buf locking free => exact ofA (.lockA _ buf locking free) rfl rfl
  | store i j c rest storing room => exact ⟨_, .store s i j c rest storing room, rfl⟩
  | full i j c rest storing full => exact ofA (.full _ i j c rest storing full) rfl rfl
  | stored i j storing => exact ofA (.stored _ i j storing) rfl rfl
  | unlockA i unlocking => exact ofA (.unlockA _ i unlocking) rfl rfl
  | broadcast broadcasting => exact ofA (.broadcast _ broadcasting) rfl rfl
  | lockB i locking free => exact ofB (.lockB _ i locking free) rfl rfl (by rw [locking]; rfl)
  | test i testing =>
      refine ofB (.test _ i testing) rfl rfl ?_
      rw [testing]
      split <;> rfl
  | take i taking => exact ⟨_, .take s i taking, rfl⟩
  | wait i waiting => exact ofB (.wait _ i waiting) rfl rfl (by rw [waiting]; rfl)
  | wake i => exact ofA (.wake _ i) rfl rfl
  | woken i waiting awake free =>
      exact ofB (.woken _ i waiting awake free) rfl rfl (by rw [waiting]; rfl)
  | unlockB i item unlocking =>
      exact ofB (.unlockB _ i item unlocking) rfl rfl (by rw [unlocking]; rfl)
  | job i item working => exact ⟨_, .job s i item working, rfl⟩

/-- The threads come to the same states as in `cond_var.c`. -/
theorem threads_reachable_iff {u : Threads ι} :
    (threads ι).Reachable u ↔ ∃ s, (rts ι).Reachable s ∧ s.threads = u := by
  constructor
  · exact fun reached => threads_simulation.reachable reached
  · rintro ⟨s, reached, rfl⟩
    exact threads_of_reachable reached

/-- Only taking an item adds to the items popped. -/
theorem popped_of_held {t u : Threads ι} (step : ThreadStep t u)
    (held : ∀ i, (u.tfuncB i).item = (t.tfuncB i).item) : u.popped = t.popped := by
  cases step with
  | take i taking =>
      have same := held i
      simp [Threads.setB, taking, TfuncB.item] at same
  | _ => rfl

/-! ## The account -/

/-- How many popped items a thread has not notified anybody of. -/
def TfuncB.busy : TfuncB → Nat
  | .unlock _ => 1
  | .job _ => 1
  | _ => 0

theorem TfuncB.busy_eq (pc : TfuncB) : pc.busy = pc.item.toList.length := by
  cases pc <;> rfl

/-- Where the items accepted are and whose signals have been sent. -/
structure Accounted (s : Rts ι) : Prop where
  items : s.accepted = s.threads.popped ++ s.threads.wq.content
  takers : s.takers.length = s.threads.popped.length
  signals : ∀ i, s.takers.count i =
    (s.threads.tfuncB i).busy + s.queued.count i + s.received.count i

/-- What a step of thread `i` does to the account of thread `k`. -/
theorem busy_update {b : ι → TfuncB} {i : ι} {pc : TfuncB} {n m : Nat} (before : (b i).busy = n)
    (now : pc.busy = m) (k : ι) :
    (Function.update b i pc k).busy + [i].count k * n = (b k).busy + [i].count k * m := by
  rcases eq_or_ne k i with rfl | other
  · simp [before, now, Nat.add_comm]
  · simp [other, other.symm]

theorem Accounted.step (account : Accounted s) (inv : Coordinated s.threads)
    (queue : Queued s.threads) (step : RtsStep s t) : Accounted t := by
  obtain ⟨items, takers, signals⟩ := account
  cases step with
  | store i j c rest storing room =>
      obtain ⟨-, -, -, -, content⟩ :=
        pushTurn_spec c queue.bounded (queue.atEnd i j _ storing) room
      refine ⟨?_, takers, signals⟩
      simp only [content, items, List.append_assoc]
  | take i taking =>
      have some : (TfuncB.take).tested s.threads.wq.cnt := taking ▸ inv.tested i
      have content := (popTake_spec queue.bounded some).2.2.2
      refine ⟨?_, by simp [takers], fun k => ?_⟩
      · simp only [items, content, List.append_assoc, List.singleton_append]
      · have before := signals k
        have idle : (s.threads.tfuncB i).busy = 0 := by rw [taking]; rfl
        have busy : (TfuncB.unlock (popTake s.threads.wq).value.1).busy = 1 := rfl
        have moved := busy_update idle busy k
        simp only [Threads.setB, List.count_append]
        omega
  | job i item working =>
      refine ⟨items, takers, fun k => ?_⟩
      have before := signals k
      have busy : (s.threads.tfuncB i).busy = 1 := by rw [working]; rfl
      have idle : TfuncB.busy .lock = 0 := rfl
      have moved := busy_update busy idle k
      simp only [Threads.setB, List.count_append]
      omega
  | receive i rest front =>
      refine ⟨items, takers, fun k => ?_⟩
      have before := signals k
      rw [front, List.count_cons] at before
      simp only [List.count_append, List.count_singleton]
      omega
  | other t step wq held =>
      have same : t.popped = s.threads.popped := popped_of_held step held
      refine ⟨?_, ?_, fun k => ?_⟩
      · rw [same, wq]
        exact items
      · rw [same]
        exact takers
      · rw [TfuncB.busy_eq, held k, ← TfuncB.busy_eq]
        exact signals k

theorem accounted_of_reachable (reached : (rts ι).Reachable s) : Accounted s := by
  apply reached.invariant (P := Accounted)
  · intro s start
    obtain ⟨threads, accepted, takers, queued, received⟩ := start
    have init : s.threads = ⟨calloc, .idle, .read, fun _ => .lock, [], []⟩ := threads
    refine ⟨?_, ?_, fun i => ?_⟩
    · rw [accepted, init]
      rfl
    · rw [takers, init]
      rfl
    · rw [takers, queued, received, init]
      rfl
  · intro s t before account step
    have reached := threads_of_reachable before
    exact account.step (coordinated_of_reachable reached) (queued_of_reachable reached) step

/-! ## The conservation law -/

/-- How many jobs thread `i` has completed: one for every item it has popped, except for the one it
is still busy with. -/
def Rts.completed (s : Rts ι) (i : ι) : Nat :=
  s.takers.count i - (s.threads.tfuncB i).busy

/-- How many popped items wait for their `sigqueue`. -/
def Rts.unnotified [Fintype ι] (s : Rts ι) : Nat :=
  (Finset.univ.filter fun i => (s.threads.tfuncB i).item.isSome).card

omit [DecidableEq ι] in
theorem unnotified_eq_sum [Fintype ι] (s : Rts ι) :
    s.unnotified = ∑ i, (s.threads.tfuncB i).busy := by
  rw [Rts.unnotified, Finset.card_filter]
  refine Finset.sum_congr rfl fun i _ => ?_
  cases s.threads.tfuncB i <;> rfl

/-- The items accepted are in the queue, with a thread that has not called `sigqueue` for them yet,
among the queued signals or among those received; and each thread has sent one signal for every job
that it has completed. -/
theorem notifications_of_reachable [Fintype ι] (reached : (rts ι).Reachable s) :
    (s.accepted.length : Int) =
        s.threads.wq.cnt + s.unnotified + s.queued.length + s.received.length ∧
      ∀ i, s.queued.count i + s.received.count i = s.completed i := by
  have account := accounted_of_reachable reached
  have content := (queued_of_reachable (threads_of_reachable reached)).bounded.length_content
  have every : ∀ l : List ι, ∑ i, l.count i = l.length := by
    intro l
    have counted := Multiset.sum_count_eq_card (m := (l : Multiset ι)) fun i _ => Finset.mem_univ i
    simpa only [Multiset.coe_count, Multiset.coe_card] using counted
  constructor
  · have total : s.takers.length = s.unnotified + s.queued.length + s.received.length := by
      rw [← every, ← every, ← every, unnotified_eq_sum, ← Finset.sum_add_distrib,
        ← Finset.sum_add_distrib]
      exact Finset.sum_congr rfl fun i _ => account.signals i
    have stored := congrArg List.length account.items
    have takers := account.takers
    rw [List.length_append] at stored
    omega
  · intro i
    have signals := account.signals i
    unfold Rts.completed
    omega

/-- A byte is stored, popped by the only consumer and notified, and the signal is received. -/
theorem notifications_received :
    ∃ s : Rts Unit, (rts Unit).Reachable s ∧ s.received = [()] ∧
      (s.accepted.length : Int) =
        s.threads.wq.cnt + s.unnotified + s.queued.length + s.received.length := by
  have start : (rts Unit).Reachable ⟨_, [], [], [], []⟩ := .of_init ⟨rfl, rfl, rfl, rfl, rfl⟩
  have read := start.tail (.other _ _ (.read _ [65] rfl nofun (by decide)) rfl fun _ => rfl)
  have locked := read.tail (.other _ _ (.lockA _ [65] rfl rfl) rfl fun _ => rfl)
  have stored := locked.tail (.store _ 0 0 65 [] rfl (by decide))
  have ended := stored.tail (.other _ _ (.stored _ 1 1 rfl) rfl fun _ => rfl)
  have unlocked := ended.tail (.other _ _ (.unlockA _ 1 rfl) rfl fun _ => rfl)
  have lockedB := unlocked.tail (.other _ _ (.lockB _ () rfl rfl) rfl fun _ => rfl)
  have tested := lockedB.tail (.other _ _ (.test _ () rfl) rfl fun _ => rfl)
  have taken := tested.tail (.take _ () rfl)
  have unlockedB := taken.tail (.other _ _ (.unlockB _ () 65 rfl) rfl fun _ => rfl)
  have notified := unlockedB.tail (.job _ () 65 rfl)
  have received := notified.tail (.receive _ () [] rfl)
  exact ⟨_, received, rfl, (notifications_of_reachable received).1⟩

end Alnp.CondVar
