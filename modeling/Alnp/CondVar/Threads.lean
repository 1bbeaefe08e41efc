import Alnp.CondVar.WorkQueue
import Alnp.Lib.Monitor

/-!
# The threads of `cond_var.c`

One thread runs `tfunc_a`, which reads chunks from a FIFO, pushes them and wakes the sleepers; any
number of threads run `tfunc_b`, which pops items for ever.  A program counter says where each of
them is, and a step moves one of them over one action: a mutex operation, one turn of the loop of
`push_item`, the test of `pop_item`, taking an item, going to sleep, waking up.

The broadcast comes after the mutex has been left, so items may be in the queue while threads
sleep; `no_lost_wakeup` says that this lasts only until the broadcast of the push under way.
-/

namespace Alnp.CondVar

/-- The thread that runs `tfunc_a` and those that run `tfunc_b`. -/
inductive Tid (ι : Type)
  | a
  | b (i : ι)
  deriving DecidableEq

/-- Where `tfunc_a` is. -/
inductive TfuncA
  /-- at `read` -/
  | read
  /-- at the start of `push_item` -/
  | lock (buf : List Int8)
  /-- at the top of the loop of `push_item`, with the rest of the buffer -/
  | store (i j : Int) (rest : List Int8)
  /-- behind the loop of `push_item`, which is about to return `i` -/
  | unlock (i : Int)
  /-- at `pthread_cond_broadcast` -/
  | broadcast

/-- Where `tfunc_b` is. -/
inductive TfuncB
  /-- at the start of `pop_item` -/
  | lock
  /-- at the test `wq->cnt > 0` -/
  | test
  /-- at the start of the branch that takes an item -/
  | take
  /-- at `pthread_cond_wait` -/
  | wait
  /-- inside `pthread_cond_wait`, asleep or woken -/
  | waiting
  /-- behind the loop of `pop_item`, with the item taken -/
  | unlock (item : Int)
  /-- at `process_job` -/
  | job (item : Int)

structure Threads (ι : Type) where
  wq : WorkQueue
  monitor : Monitor (Tid ι)
  tfuncA : TfuncA
  tfuncB : ι → TfuncB
  /-- The bytes read from the FIFO. -/
  input : List Int8
  /-- The items taken from the queue, over all threads. -/
  popped : List Int

variable {ι : Type}

/-- Thread `i` has moved to `pc`. -/
def Threads.setB [DecidableEq ι] (s : Threads ι) (i : ι) (pc : TfuncB) : Threads ι :=
  { s with tfuncB := Function.update s.tfuncB i pc }

inductive ThreadStep [DecidableEq ι] : Threads ι → Threads ι → Prop
  /-- `read` returns at most `sizeof(buf)` bytes; a return value of 0 or -1 ends the program. -/
  | read (s : Threads ι) (buf : List Int8) :
      s.tfuncA = .read → buf ≠ [] → buf.length ≤ maxItems / 2 →
      ThreadStep s { s with tfuncA := .lock buf, input := s.input ++ buf }
  | lockA (s : Threads ι) (buf : List Int8) :
      s.tfuncA = .lock buf → s.monitor.owner = none →
      ThreadStep s
        { s with tfuncA := .store 0 (pushStart s.wq) buf, monitor := s.monitor.acquire .a }
  | store (s : Threads ι) (i j : Int) (c : Int8) (rest : List Int8) :
      s.tfuncA = .store i j (c :: rest) → s.wq.cnt ≠ maxItems →
      ThreadStep s
        { s with
          wq := (pushTurn c j s.wq).value.2
          tfuncA := .store (i + 1) (pushTurn c j s.wq).value.1 rest }
  | full (s : Threads ι) (i j : Int) (c : Int8) (rest : List Int8) :
      s.tfuncA = .store i j (c :: rest) → s.wq.cnt = maxItems →
      ThreadStep s { s with tfuncA := .unlock i }
  | stored (s : Threads ι) (i j : Int) :
      s.tfuncA = .store i j [] → ThreadStep s { s with tfuncA := .unlock i }
  | unlockA (s : Threads ι) (i : Int) :
      s.tfuncA = .unlock i →
      ThreadStep s { s with tfuncA := .broadcast, monitor := s.monitor.release }
  | broadcast (s : Threads ι) :
      s.tfuncA = .broadcast →
      ThreadStep s { s with tfuncA := .read, monitor := s.monitor.broadcast }
  | lockB (s : Threads ι) (i : ι) :
      s.tfuncB i = .lock → s.monitor.owner = none →
      ThreadStep s { s.setB i .test with monitor := s.monitor.acquire (.b i) }
  | test (s : Threads ι) (i : ι) :
      s.tfuncB i = .test →
      ThreadStep s (s.setB i (if s.wq.cnt > 0 then .take else .wait))
  | take (s : Threads ι) (i : ι) :
      s.tfuncB i = .take →
      ThreadStep s
        { s.setB i (.unlock (popTake s.wq).value.1) with
          wq := (popTake s.wq).value.2
          popped := s.popped ++ [(popTake s.wq).value.1] }
  | wait (s : Threads ι) (i : ι) :
      s.tfuncB i = .wait →
      ThreadStep s { s.setB i .waiting with monitor := s.monitor.sleep (.b i) }
  /-- A spurious wake-up. -/
  | wake (s : Threads ι) (i : ι) :
      ThreadStep s { s with monitor := s.monitor.wake (.b i) }
  /-- A woken thread takes the mutex, `pthread_cond_wait` returns and the loop of `pop_item` starts
  over. -/
  | woken (s : Threads ι) (i : ι) :
      s.tfuncB i = .waiting → .b i ∉ s.monitor.asleep → s.monitor.owner = none →
      ThreadStep s { s.setB i .test with monitor := s.monitor.acquire (.b i) }
  | unlockB (s : Threads ι) (i : ι) (item : Int) :
      s.tfuncB i = .unlock item →
      ThreadStep s { s.setB i (.job item) with monitor := s.monitor.release }
  | job (s : Threads ι) (i : ι) (item : Int) :
      s.tfuncB i = .job item → ThreadStep s (s.setB i .lock)

/-- The program from the moment the threads run. -/
def threads (ι : Type) [DecidableEq ι] : Machine (Threads ι) where
  init s := s = ⟨calloc, .idle, .read, fun _ => .lock, [], []⟩
  step := ThreadStep

/-! ## The invariant -/

/-- `tfunc_a` is between locking and unlocking the mutex. -/
def TfuncA.holds : TfuncA → Prop
  | .store .. | .unlock _ => True
  | _ => False

/-- `tfunc_a` is between the start of `push_item` and the end of the broadcast. -/
def TfuncA.pushing (pc : TfuncA) : Prop := pc ≠ .read

/-- `tfunc_b` owns the mutex. -/
def TfuncB.holds : TfuncB → Prop
  | .test | .take | .wait | .unlock _ => True
  | _ => False

/-- Which threads hold the mutex, by their program counters. -/
def holds (a : TfuncA) (b : ι → TfuncB) : Tid ι → Prop
  | .a => a.holds
  | .b i => (b i).holds

/-- What the branch taken by the test of `pop_item` says about the queue. -/
def TfuncB.tested (cnt : Int) : TfuncB → Prop
  | .take => cnt > 0
  | .wait => ¬ cnt > 0
  | _ => True

/-- Mutual exclusion, the test of `pop_item` still being true where it is relied on, and sleep with
items in the queue only during a push. -/
structure Coordinated (s : Threads ι) : Prop where
  guards : s.monitor.Guards (holds s.tfuncA s.tfuncB)
  tested : ∀ i, (s.tfuncB i).tested s.wq.cnt
  asleep : s.wq.cnt > 0 → s.monitor.asleep.Nonempty → s.tfuncA.pushing

theorem coordinated_init :
    Coordinated (⟨calloc, .idle, .read, fun _ => .lock, [], []⟩ : Threads ι) := by
  refine ⟨Monitor.guards_idle fun u held => ?_, fun _ => trivial, fun some => ?_⟩
  · cases u with
    | a => exact held
    | b i => exact held
  · exact absurd some (lt_irrefl 0)

/-! ### Who holds the mutex after a step -/

section guards

variable {m m' : Monitor (Tid ι)} {a a' : TfuncA} {b : ι → TfuncB} {i : ι} {pc : TfuncB}

theorem holds_of_ne_a (u : Tid ι) (ne : u ≠ .a) : holds a' b u ↔ holds a b u := by
  cases u with
  | a => exact absurd rfl ne
  | b i => exact Iff.rfl

theorem keep_a (guards : m.Guards (holds a b)) (same : a'.holds ↔ a.holds)
    (owner : m'.owner = m.owner) : m'.Guards (holds a' b) := by
  refine guards.keep (fun u => ?_) owner
  cases u with
  | a => exact same
  | b i => exact Iff.rfl

theorem acquire_a (guards : m.Guards (holds a b)) (free : m.owner = none) (now : a'.holds) :
    (m.acquire .a).Guards (holds a' b) :=
  guards.acquire free now holds_of_ne_a

theorem free_a (guards : m.Guards (holds a b)) (held : a.holds) (now : ¬ a'.holds)
    (free : m'.owner = none) : m'.Guards (holds a' b) := by
  have held : holds a b .a := held
  exact guards.free held now holds_of_ne_a free

variable [DecidableEq ι]

theorem holds_update_self : holds a (Function.update b i pc) (.b i) ↔ pc.holds := by
  simp [holds]

theorem holds_update_of_ne (u : Tid ι) (ne : u ≠ .b i) :
    holds a (Function.update b i pc) u ↔ holds a b u := by
  cases u with
  | a => exact Iff.rfl
  | b k =>
      have other : k ≠ i := fun same => ne (congrArg _ same)
      simp [holds, other]

theorem keep_b (guards : m.Guards (holds a b)) (same : pc.holds ↔ (b i).holds) :
    m.Guards (holds a (Function.update b i pc)) := by
  refine guards.keep (fun u => ?_) rfl
  by_cases self : u = .b i
  · subst self
    exact holds_update_self.trans same
  · exact holds_update_of_ne u self

theorem acquire_b (guards : m.Guards (holds a b)) (free : m.owner = none) (now : pc.holds) :
    (m.acquire (.b i)).Guards (holds a (Function.update b i pc)) :=
  guards.acquire free (holds_update_self.mpr now) holds_update_of_ne

theorem free_b (guards : m.Guards (holds a b)) (held : (b i).holds) (now : ¬ pc.holds)
    (free : m'.owner = none) : m'.Guards (holds a (Function.update b i pc)) := by
  have held : holds a b (.b i) := held
  exact guards.free held (fun hold => now (holds_update_self.mp hold)) holds_update_of_ne free

end guards

/-! ### What the threads know about the queue after a step -/

variable {s t : Threads ι}

theorem TfuncB.tested_of_not_holds {pc : TfuncB} (out : ¬ pc.holds) (cnt : Int) :
    pc.tested cnt := by
  cases pc with
  | take => exact absurd trivial out
  | wait => exact absurd trivial out
  | _ => trivial

/-- While a thread holds the mutex, no other thread does. -/
theorem Coordinated.excluded (inv : Coordinated s) (u : Tid ι)
    (held : holds s.tfuncA s.tfuncB u) {i : ι} (ne : u ≠ .b i) : ¬ (s.tfuncB i).holds :=
  fun other => ne (inv.guards.unique held other)

variable [DecidableEq ι]

/-- A step of thread `i` with the mutex to `pc` may change the count. -/
theorem Coordinated.tested_setB (inv : Coordinated s) {i : ι} (held : (s.tfuncB i).holds)
    {pc : TfuncB} {cnt : Int} (now : pc.tested cnt) (k : ι) :
    (Function.update s.tfuncB i pc k).tested cnt := by
  by_cases self : k = i
  · subst self
    simpa using now
  · rw [Function.update_of_ne self]
    have out := inv.excluded (.b i) held (fun same => self (Tid.b.inj same).symm)
    exact TfuncB.tested_of_not_holds out cnt

/-- A step of thread `i` to `pc` that leaves the count alone. -/
theorem Coordinated.tested_keep (inv : Coordinated s) {i : ι} {pc : TfuncB}
    (now : pc.tested s.wq.cnt) (k : ι) : (Function.update s.tfuncB i pc k).tested s.wq.cnt := by
  by_cases self : k = i
  · subst self
    simpa using now
  · rw [Function.update_of_ne self]
    exact inv.tested k

/-! ### One step -/

theorem Coordinated.step (inv : Coordinated s) (step : ThreadStep s t) : Coordinated t := by
  cases step with
  | read buf reading _ _ =>
      exact ⟨keep_a inv.guards (by rw [reading]; exact Iff.rfl) rfl, inv.tested, fun _ _ => nofun⟩
  | lockA buf locking free =>
      exact ⟨acquire_a inv.guards free trivial, inv.tested, fun _ _ => nofun⟩
  | store i j c rest storing room =>
      have held : s.tfuncA.holds := by rw [storing]; trivial
      have out : ∀ k, ¬ (s.tfuncB k).holds := fun k => inv.excluded .a held nofun
      exact ⟨keep_a inv.guards (by rw [storing]; exact Iff.rfl) rfl,
        fun k => TfuncB.tested_of_not_holds (out k) _, fun _ _ => nofun⟩
  | full i j c rest storing _ =>
      exact ⟨keep_a inv.guards (by rw [storing]; exact Iff.rfl) rfl, inv.tested, fun _ _ => nofun⟩
  | stored i j storing =>
      exact ⟨keep_a inv.guards (by rw [storing]; exact Iff.rfl) rfl, inv.tested, fun _ _ => nofun⟩
  | unlockA i unlocking =>
      have held : s.tfuncA.holds := by rw [unlocking]; trivial
      exact ⟨free_a inv.guards held (fun hold => hold) rfl, inv.tested, fun _ _ => nofun⟩
  | broadcast broadcasting =>
      -- The push ends here, and nobody sleeps any more.
      exact ⟨keep_a inv.guards (by rw [broadcasting]; exact Iff.rfl) rfl, inv.tested,
        fun _ sleepers => absurd sleepers Finset.not_nonempty_empty⟩
  | lockB i locking free =>
      exact ⟨acquire_b inv.guards free trivial, inv.tested_keep trivial, inv.asleep⟩
  | test i testing =>
      by_cases some : s.wq.cnt > 0
      · rw [if_pos some]
        exact ⟨keep_b inv.guards (by rw [testing]; exact Iff.rfl), inv.tested_keep some, inv.asleep⟩
      · rw [if_neg some]
        exact ⟨keep_b inv.guards (by rw [testing]; exact Iff.rfl), inv.tested_keep some, inv.asleep⟩
  | take i taking =>
      have held : (s.tfuncB i).holds := by rw [taking]; trivial
      have some : (TfuncB.take).tested s.wq.cnt := taking ▸ inv.tested i
      exact ⟨keep_b inv.guards (by rw [taking]; exact Iff.rfl), inv.tested_setB held trivial,
        fun _ sleepers => inv.asleep some sleepers⟩
  | wait i waiting =>
      -- The test that found the queue empty is still true when the thread falls asleep.
      have held : (s.tfuncB i).holds := by rw [waiting]; trivial
      have none : (TfuncB.wait).tested s.wq.cnt := waiting ▸ inv.tested i
      exact ⟨free_b inv.guards held (fun hold => hold) rfl, inv.tested_keep trivial,
        fun some => absurd some none⟩
  | wake i =>
      exact ⟨keep_a inv.guards Iff.rfl rfl, inv.tested,
        fun some sleepers => inv.asleep some (sleepers.mono (Finset.erase_subset _ _))⟩
  | woken i waiting awake free =>
      exact ⟨acquire_b inv.guards free trivial, inv.tested_keep trivial, inv.asleep⟩
  | unlockB i item unlocking =>
      have held : (s.tfuncB i).holds := by rw [unlocking]; trivial
      exact ⟨free_b inv.guards held (fun hold => hold) rfl, inv.tested_keep trivial, inv.asleep⟩
  | job i item working =>
      exact ⟨keep_b inv.guards (by rw [working]; exact Iff.rfl), inv.tested_keep trivial,
        inv.asleep⟩

theorem coordinated_of_reachable (reached : (threads ι).Reachable s) : Coordinated s := by
  refine reached.invariant (P := Coordinated) ?_ fun _ _ _ inv step => inv.step step
  intro s start
  subst start
  exact coordinated_init

/-- **No lost wake-up.**  With items in the queue, either `tfunc_a` is between the start of
`push_item` and the end of the broadcast or no thread is asleep, and an item is taken only when
there is one. -/
theorem no_lost_wakeup (reached : (threads ι).Reachable s) :
    (s.wq.cnt > 0 → s.tfuncA.pushing ∨ ∀ i, .b i ∉ s.monitor.asleep) ∧
      ∀ i, s.tfuncB i = .take → s.wq.cnt > 0 := by
  have inv := coordinated_of_reachable reached
  refine ⟨fun some => ?_, fun i taking => ?_⟩
  · by_cases sleepers : s.monitor.asleep.Nonempty
    · exact .inl (inv.asleep some sleepers)
    · exact .inr fun i member => sleepers ⟨_, member⟩
  · have tested : (TfuncB.take).tested s.wq.cnt := taking ▸ inv.tested i
    exact tested

/-- A thread falls asleep on the empty queue, then a byte is read and stored: the thread sleeps on
a queue with an item, and the broadcast is due. -/
theorem no_lost_wakeup_stored :
    ∃ s : Threads Unit, (threads Unit).Reachable s ∧ s.wq.cnt > 0 ∧ .b () ∈ s.monitor.asleep ∧
      s.tfuncA.pushing := by
  have asleep := (((Machine.Reachable.of_init (M := threads Unit) rfl).tail
    (ThreadStep.lockB _ () rfl rfl)).tail (ThreadStep.test _ () rfl)).tail
    (ThreadStep.wait _ () rfl)
  have stored := ((asleep.tail (ThreadStep.read _ [65] rfl nofun (by decide))).tail
    (ThreadStep.lockA _ [65] rfl rfl)).tail (ThreadStep.store _ 0 0 65 [] rfl (by decide))
  have due := (stored.tail (ThreadStep.stored _ 1 1 rfl)).tail (ThreadStep.unlockA _ 1 rfl)
  have item : (pushTurn 65 0 calloc).value.2.cnt > 0 := Int.one_pos
  refine ⟨_, due, item, Finset.mem_insert_self _ _, ?_⟩
  exact ((no_lost_wakeup due).1 item).resolve_right fun awake =>
    awake () (Finset.mem_insert_self _ _)

end Alnp.CondVar
