import Mathlib.Data.List.Count
import Mathlib.Data.List.Nodup
import Alnp.Lib.Machine

/-!
# The four routines `clean_thread`

`clean_thread` of `Chapter08/cond_var.c`, `pthread_hello.c`, `sum_strnum_tls.c` and
`Chapter10/cond_var_rts.c` is to wait for the threads in an array before `main` returns.  The loop
counts them with `i`, but calls `pthread_join` with `t_arg->tid`; only the last program moves the
pointer along.

`joins_iff`: which of them wait for every thread, and when.
-/

namespace Alnp.CleanThread

/-- A `struct thread_arg`; the programs without a field `func` start one function in all threads. -/
structure ThreadArg (τ : Type) where
  tid : τ
  /-- `func != NULL` -/
  func : Bool

/-- The array behind the loop of `main` that creates the threads: the entries it has passed to
`pthread_create`, and those behind. -/
structure Threads (τ : Type) where
  numThreads : Nat
  created : List (ThreadArg τ)
  rest : List (ThreadArg τ)
  func : ∀ e ∈ created, e.func = true
  /-- The loop has stopped at `NUM_THREADS` or at an entry without a function. -/
  stopped : created.length = numThreads ∨
    created.length < numThreads ∧ rest.head?.map ThreadArg.func = some false
  distinct : (created.map ThreadArg.tid).Nodup

/-- All `NUM_THREADS` entries have been passed to `pthread_create`. -/
structure FullThreads (τ : Type) extends Threads τ where
  full : created.length = numThreads

variable {τ : Type}

def Threads.tArg (a : Threads τ) : List (ThreadArg τ) := a.created ++ a.rest

/-- The threads that run besides `main`. -/
def Threads.tids (a : Threads τ) : List τ := a.created.map ThreadArg.tid

/-- The loop of `clean_thread`: its condition, for `i` and the number of entries by which the
pointer has been moved, and by how many an iteration moves it. -/
structure Walk (τ : Type) where
  goes : Nat → Nat → Bool
  stride : Nat
  tArg : List (ThreadArg τ)

/-- `t_arg[k].func != NULL` -/
def hasFunc (tArg : List (ThreadArg τ)) (k : Nat) : Bool := tArg[k]?.any ThreadArg.func

def condVar (a : Threads τ) : Walk τ where
  goes i p := i < a.numThreads && hasFunc a.tArg (p + i)
  stride := 0
  tArg := a.tArg

def pthreadHello (a : FullThreads τ) : Walk τ where
  goes i _ := i < a.numThreads
  stride := 0
  tArg := a.tArg

def sumStrnumTls (a : FullThreads τ) : Walk τ where
  goes i _ := i < a.numThreads
  stride := 0
  tArg := a.tArg

def condVarRts (a : Threads τ) : Walk τ where
  goes i p := i < a.numThreads && hasFunc a.tArg p
  stride := 1
  tArg := a.tArg

/-- Where `main` is in `clean_thread`. -/
inductive At (τ : Type)
  | loop
  /-- in `pthread_join` -/
  | joining (t : τ)
  | returned

structure System (τ : Type) where
  pc : At τ
  i : Nat
  p : Nat
  /-- The threads with which `pthread_join` has been called. -/
  calls : List τ
  /-- The threads that have ended. -/
  ended : List τ

inductive SystemStep (tids : List τ) (w : Walk τ) : System τ → System τ → Prop
  /-- A thread ends. -/
  | finish (s : System τ) (t : τ) :
      t ∈ tids → t ∉ s.ended → SystemStep tids w s { s with ended := t :: s.ended }
  | call (s : System τ) (e : ThreadArg τ) :
      s.pc = .loop → w.goes s.i s.p = true → w.tArg[s.p]? = some e →
      SystemStep tids w s { s with pc := .joining e.tid, calls := s.calls ++ [e.tid] }
  /-- `pthread_join` returns once the thread has ended. -/
  | joined (s : System τ) (t : τ) :
      s.pc = .joining t → t ∈ s.ended →
      SystemStep tids w s { s with pc := .loop, i := s.i + 1, p := s.p + w.stride }
  | leave (s : System τ) :
      s.pc = .loop → w.goes s.i s.p = false → SystemStep tids w s { s with pc := .returned }

/-- `clean_thread` with threads some of which have ended before. -/
def machine (tids : List τ) (w : Walk τ) : Machine (System τ) where
  init s := ∃ ended, (∀ t ∈ ended, t ∈ tids) ∧ s = ⟨.loop, 0, 0, [], ended⟩
  step := SystemStep tids w

/-- No thread is joined twice; behind `clean_thread` every thread has been joined, and has ended. -/
structure Joined [DecidableEq τ] (tids : List τ) (s : System τ) : Prop where
  notTwice : s.calls.Nodup
  once : s.pc = .returned → ∀ t ∈ tids, s.calls.count t = 1
  ended : s.pc = .returned → ∀ t ∈ tids, t ∈ s.ended

/-- The routine waits for everyone, in whatever order the threads end. -/
def Joins [DecidableEq τ] (tids : List τ) (w : Walk τ) : Prop :=
  ∀ s, (machine tids w).Reachable s → Joined tids s

/-! ## A loop that finds the threads one by one -/

/-- There are as many iterations as threads. -/
def Counts (tids : List τ) (w : Walk τ) : Prop :=
  ∀ k ≤ tids.length, w.goes k (w.stride * k) = decide (k < tids.length)

/-- The `k`th iteration finds the `k`th thread. -/
def Finds (tids : List τ) (w : Walk τ) : Prop :=
  ∀ k < tids.length, w.tArg[w.stride * k]?.map ThreadArg.tid = tids[k]?

variable {tids : List τ} {w : Walk τ} {s t : System τ}

/-- What has been done at a place of the loop. -/
def Place (tids : List τ) (s : System τ) : At τ → Prop
  | .loop => s.i ≤ tids.length ∧ s.calls = tids.take s.i ∧ ∀ t ∈ tids.take s.i, t ∈ s.ended
  | .joining t =>
      tids[s.i]? = some t ∧ s.calls = tids.take (s.i + 1) ∧ ∀ t ∈ tids.take s.i, t ∈ s.ended
  | .returned => s.calls = tids ∧ ∀ t ∈ tids, t ∈ s.ended

structure Inv (tids : List τ) (w : Walk τ) (s : System τ) : Prop where
  pointer : s.p = w.stride * s.i
  place : Place tids s s.pc

theorem take_succ_of_getElem? {t : τ} {k : Nat} (here : tids[k]? = some t) :
    tids.take (k + 1) = tids.take k ++ [t] := by
  rw [List.take_add_one, here, Option.toList_some]

/-- The threads that have ended stay so. -/
theorem Place.finish {pc : At τ} (place : Place tids s pc) (u : τ) :
    Place tids { s with ended := u :: s.ended } pc := by
  have more {us : List τ} (all : ∀ t ∈ us, t ∈ s.ended) : ∀ t ∈ us, t ∈ u :: s.ended :=
    fun t member => List.mem_cons_of_mem u (all t member)
  cases pc with
  | loop => exact ⟨place.1, place.2.1, more place.2.2⟩
  | joining t => exact ⟨place.1, place.2.1, more place.2.2⟩
  | returned => exact ⟨place.1, more place.2⟩

theorem Inv.step (counts : Counts tids w) (finds : Finds tids w) (inv : Inv tids w s)
    (step : SystemStep tids w s t) : Inv tids w t := by
  obtain ⟨pointer, place⟩ := inv
  cases step with
  | finish u => exact ⟨pointer, place.finish u⟩
  | call e at' goes found =>
      rw [at'] at place
      obtain ⟨le, calls, ended⟩ := place
      rw [pointer, counts s.i le, decide_eq_true_iff] at goes
      have here := finds s.i goes
      rw [← pointer, found, Option.map_some] at here
      refine ⟨pointer, here.symm, ?_, ended⟩
      rw [take_succ_of_getElem? here.symm, ← calls]
  | joined u at' over' =>
      rw [at'] at place
      obtain ⟨here, calls, ended⟩ := place
      refine ⟨?_, (List.getElem?_eq_some_iff.mp here).1, calls, fun t member => ?_⟩
      · dsimp only
        rw [pointer, Nat.mul_succ]
      · rw [take_succ_of_getElem? here, List.mem_append] at member
        rcases member with old | new
        · exact ended t old
        · rw [List.mem_singleton.mp new]
          exact over'
  | leave at' stops =>
      rw [at'] at place
      obtain ⟨le, calls, ended⟩ := place
      rw [pointer, counts s.i le, decide_eq_false_iff_not] at stops
      have whole : tids.take s.i = tids := List.take_of_length_le (by omega)
      rw [whole] at calls ended
      exact ⟨pointer, calls, ended⟩

variable [DecidableEq τ]

omit [DecidableEq τ] in
/-- The threads joined so far are the first of the list. -/
theorem Place.calls_eq {pc : At τ} (place : Place tids s pc) : ∃ k, s.calls = tids.take k := by
  cases pc with
  | loop => exact ⟨s.i, place.2.1⟩
  | joining t => exact ⟨s.i + 1, place.2.1⟩
  | returned => exact ⟨tids.length, place.1.trans List.take_length.symm⟩

/-- A loop that finds the threads one by one waits for everyone. -/
theorem Finds.joins (finds : Finds tids w) (counts : Counts tids w) (distinct : tids.Nodup) :
    Joins tids w := by
  intro s reached
  have inv : Inv tids w s := by
    refine reached.invariant ?_ fun s t _ inv step => inv.step counts finds step
    rintro s ⟨ended, -, rfl⟩
    exact ⟨rfl, Nat.zero_le _, rfl, nofun⟩
  have done (over' : s.pc = .returned) : s.calls = tids ∧ ∀ t ∈ tids, t ∈ s.ended := by
    have place := inv.place
    rw [over'] at place
    exact place
  refine ⟨?_, fun over' t member => ?_, fun over' => (done over').2⟩
  · obtain ⟨k, calls⟩ := inv.place.calls_eq
    rw [calls]
    exact distinct.sublist (List.take_sublist k tids)
  · rw [(done over').1]
    exact List.count_eq_one_of_mem distinct member

/-! ## A loop that does not move the pointer -/

/-- Of two threads or more, the first is joined twice. -/
theorem not_joins (counts : Counts tids w) (fixed : w.stride = 0)
    (lists : ∀ k < tids.length, w.tArg[k]?.map ThreadArg.tid = tids[k]?)
    (more : 1 < tids.length) : ¬ Joins tids w := by
  intro joins
  have first := lists 0 (Nat.lt_of_succ_lt more)
  obtain ⟨u, rest, whole⟩ := List.exists_cons_of_length_pos (Nat.lt_of_succ_lt more)
  have member : u ∈ tids := whole ▸ List.mem_cons_self
  obtain ⟨e, found, same⟩ : ∃ e, w.tArg[0]? = some e ∧ e.tid = u := by
    rw [whole, List.getElem?_cons_zero, Option.map_eq_some_iff] at first
    exact first
  have goes (k : Nat) (lt : k < tids.length) : w.goes k 0 = true := by
    have count := counts k (Nat.le_of_lt lt)
    rw [fixed, Nat.zero_mul] at count
    rw [count, decide_eq_true lt]
  have start : (machine tids w).Reachable ⟨.loop, 0, 0, [], []⟩ := .of_init ⟨[], nofun, rfl⟩
  have ended := start.tail (.finish _ u member List.not_mem_nil)
  have called := ended.tail (.call _ e rfl (goes 0 (Nat.lt_of_succ_lt more)) found)
  have joined := called.tail (.joined _ e.tid rfl (same ▸ List.mem_cons_self))
  have moved : 0 + w.stride = 0 := by rw [fixed]
  rw [moved] at joined
  have twice := joined.tail (.call _ e rfl (goes 1 more) found)
  have nodup := (joins _ twice).notTwice
  simp at nodup

theorem joins_iff_of_fixed (counts : Counts tids w) (fixed : w.stride = 0)
    (lists : ∀ k < tids.length, w.tArg[k]?.map ThreadArg.tid = tids[k]?) (distinct : tids.Nodup) :
    Joins tids w ↔ tids.length ≤ 1 := by
  constructor
  · intro joins
    exact Nat.le_of_not_lt fun more => not_joins counts fixed lists more joins
  · intro few
    refine Finds.joins (fun k lt => ?_) counts distinct
    have zero : k = 0 := by omega
    rw [zero] at lt ⊢
    exact lists 0 lt

/-! ## The four programs -/

omit [DecidableEq τ] in
/-- The condition on `func` holds for the threads and fails behind them. -/
theorem Threads.counts_func (a : Threads τ) {k : Nat} (le : k ≤ a.tids.length) :
    (decide (k < a.numThreads) && hasFunc a.tArg k) = decide (k < a.tids.length) := by
  rw [tids, List.length_map] at le ⊢
  have bound : a.created.length ≤ a.numThreads := by
    rcases a.stopped with full | ⟨short, -⟩
    · exact Nat.le_of_eq full
    · exact Nat.le_of_lt short
  rcases Nat.lt_or_eq_of_le le with lt | rfl
  · have func : hasFunc a.tArg k = true := by
      rw [hasFunc, tArg, List.getElem?_append_left lt, List.getElem?_eq_getElem lt, Option.any_some]
      exact a.func _ (List.getElem_mem lt)
    rw [func, Bool.and_true, decide_eq_true lt, decide_eq_true (Nat.lt_of_lt_of_le lt bound)]
  · rw [decide_eq_false (Nat.lt_irrefl _)]
    rcases a.stopped with full | ⟨-, null⟩
    · rw [← full, decide_eq_false (Nat.lt_irrefl _), Bool.false_and]
    · have func : hasFunc a.tArg a.created.length = false := by
        rw [hasFunc, tArg, List.getElem?_append_right (Nat.le_refl _), Nat.sub_self,
          ← List.head?_eq_getElem?]
        obtain ⟨e, here, isNull⟩ := Option.map_eq_some_iff.mp null
        rw [here, Option.any_some, isNull]
      rw [func, Bool.and_false]

omit [DecidableEq τ] in
theorem Threads.tid_tArg (a : Threads τ) {k : Nat} (lt : k < a.tids.length) :
    a.tArg[k]?.map ThreadArg.tid = a.tids[k]? := by
  rw [tids, List.length_map] at lt
  rw [tArg, List.getElem?_append_left lt, tids, List.getElem?_map]

omit [DecidableEq τ] in
theorem counts_condVar (a : Threads τ) : Counts a.tids (condVar a) := by
  intro k le
  have pointer : (condVar a).stride * k + k = k := by
    rw [show (condVar a).stride = 0 from rfl, Nat.zero_mul, Nat.zero_add]
  change (decide (k < a.numThreads) && hasFunc a.tArg ((condVar a).stride * k + k)) = _
  rw [pointer]
  exact a.counts_func le

omit [DecidableEq τ] in
theorem counts_condVarRts (a : Threads τ) : Counts a.tids (condVarRts a) := by
  intro k le
  have pointer : (condVarRts a).stride * k = k := Nat.one_mul k
  rw [pointer]
  exact a.counts_func le

omit [DecidableEq τ] in
/-- Counting to `NUM_THREADS` is enough where all threads have been created. -/
theorem FullThreads.counts (b : FullThreads τ) : Counts b.tids (pthreadHello b) := by
  intro k _
  have length : b.tids.length = b.numThreads := by
    rw [Threads.tids, List.length_map]
    exact b.full
  rw [length]
  rfl

/-- **`clean_thread`.**  The routine of `cond_var_rts.c` waits for everyone, the other three exactly
where at most one thread has been created. -/
theorem joins_iff (a : Threads τ) (b : FullThreads τ) :
    (Joins a.tids (condVar a) ↔ a.tids.length ≤ 1) ∧
      (Joins b.tids (pthreadHello b) ↔ b.tids.length ≤ 1) ∧
      (Joins b.tids (sumStrnumTls b) ↔ b.tids.length ≤ 1) ∧
      Joins a.tids (condVarRts a) := by
  have lists : ∀ k < a.tids.length, a.tArg[k]?.map ThreadArg.tid = a.tids[k]? :=
    fun k lt => a.tid_tArg lt
  have lists' : ∀ k < b.tids.length, b.tArg[k]?.map ThreadArg.tid = b.tids[k]? :=
    fun k lt => b.tid_tArg lt
  refine ⟨?_, ?_, ?_, ?_⟩
  · exact joins_iff_of_fixed (counts_condVar a) rfl lists a.distinct
  · exact joins_iff_of_fixed b.counts rfl lists' b.distinct
  · exact joins_iff_of_fixed b.counts rfl lists' b.distinct
  · refine Finds.joins (fun k lt => ?_) (counts_condVarRts a) a.distinct
    have pointer : (condVarRts a).stride * k = k := Nat.one_mul k
    rw [pointer]
    exact lists k lt

/-- Two threads. -/
def twoThreads : FullThreads Nat where
  numThreads := 2
  created := [⟨7, true⟩, ⟨8, true⟩]
  rest := []
  func := by simp
  stopped := .inl rfl
  distinct := by decide
  full := rfl

/-- With two threads the first is joined twice, in each of the three programs. -/
theorem not_forall_joins :
    (¬ ∀ a : Threads Nat, Joins a.tids (condVar a)) ∧
      (¬ ∀ b : FullThreads Nat, Joins b.tids (pthreadHello b)) ∧
      ¬ ∀ b : FullThreads Nat, Joins b.tids (sumStrnumTls b) := by
  have lists : ∀ k < twoThreads.tids.length,
      twoThreads.tArg[k]?.map ThreadArg.tid = twoThreads.tids[k]? :=
    fun k lt => twoThreads.tid_tArg lt
  have two : 1 < twoThreads.tids.length := by decide
  refine ⟨fun always => ?_, fun always => ?_, fun always => ?_⟩
  · exact not_joins (counts_condVar twoThreads.toThreads) rfl lists two (always _)
  · exact not_joins twoThreads.counts rfl lists two (always twoThreads)
  · exact not_joins twoThreads.counts rfl lists two (always twoThreads)

end Alnp.CleanThread
