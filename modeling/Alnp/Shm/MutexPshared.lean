import Mathlib.Data.Int.Order.Basic
import Mathlib.Logic.Function.Basic
import Alnp.Lib.Machine
import Alnp.Lib.Monitor

/-!
# The processes of `mutex_pshared.c`

Any number of processes of `Chapter08/mutex_pshared.c` share an object that the first one creates,
with an object record and a mutex in it.  A process with the argument `c` clears the record and
initialises the mutex, whoever uses them; then each process runs six threads that lock the mutex
once, print the pair they find in the record and leave their own.

`ftruncate` stands in the branch of the processes that find the object there: the process that has
created it goes on with an object of length 0.
-/

namespace Alnp.MutexPshared

abbrev numThreads : Nat := 6

def shmSegment : Nat := 4096

/-- A thread: its process and its `idx`. -/
abbrev Tid (ι : Type) := ι × Fin numThreads

inductive MutexType
  | normal
  | errorcheck
  deriving DecidableEq

/-- The shared object: its length and `struct shr_data`, of which `prev_time` is not used. -/
structure Object (ι : Type) where
  size : Nat
  prevPid : Int
  prevIdx : Int
  mutexType : MutexType
  mutex : Monitor (Tid ι)

variable {ι : Type}

/-- A new object has length 0.  Its bytes are zero once it is longer, and a mutex of zeros is a free
one of the default type. -/
def Object.new : Object ι := ⟨0, 0, 0, .normal, .idle⟩

/-- `memset(shr_data, 0x00, sizeof(struct shr_data))` -/
def Object.clear (o : Object ι) : Object ι := { Object.new with size := o.size }

/-- `pthread_mutex_init` with the attributes of `main`. -/
def Object.init (o : Object ι) : Object ι := { o with mutexType := .errorcheck, mutex := .idle }

/-- `pthread_mutex_lock` by `t`, on a free mutex. -/
def Object.lock (t : Tid ι) (o : Object ι) : Object ι := { o with mutex := o.mutex.acquire t }

/-- `pthread_mutex_unlock` by `t`: a mutex that checks errors stays as it is if `t` is not its
owner. -/
def Object.unlock [DecidableEq ι] (t : Tid ι) (o : Object ι) : Object ι :=
  if o.mutexType = .errorcheck ∧ o.mutex.owner ≠ some t then o
  else { o with mutex := o.mutex.release }

/-- Where `main` is. -/
inductive MainAt
  /-- at `shm_open` with `O_CREAT | O_EXCL` -/
  | shmOpenExcl
  /-- at `shm_open` behind `EEXIST` -/
  | shmOpen
  | ftruncate
  | mmap
  /-- at the test for `c` -/
  | testC
  | memset
  | mutexInit
  /-- in the loop that starts the threads, with its `i` -/
  | create (i : Nat)
  | exited
  /-- ended by `SIGBUS` -/
  | killed

/-- Where `start_thread` is. -/
inductive ThreadAt
  /-- The thread has not been created. -/
  | absent
  | sleepIdx
  | lock
  /-- at the message with the pair of the record -/
  | prOut
  | sleep
  /-- at the store to `prev_pid` -/
  | storePid
  /-- at the store to `prev_idx` -/
  | storeIdx
  | unlock
  | ended

/-- The next action uses the mapping. -/
def MainAt.maps : MainAt → Bool
  | .memset | .mutexInit => true
  | _ => false

def ThreadAt.maps : ThreadAt → Bool
  | .lock | .prOut | .storePid | .storeIdx | .unlock => true
  | _ => false

/-- The threads of the process may run. -/
def MainAt.alive : MainAt → Bool
  | .exited | .killed => false
  | _ => true

/-- A line that a thread has printed. -/
structure Line (ι : Type) where
  thread : Tid ι
  prevPid : Int
  prevIdx : Int
  /-- the thread that held the mutex before -/
  before : Option (Tid ι)

structure System (ι : Type) where
  object : Option (Object ι)
  main : ι → MainAt
  thread : Tid ι → ThreadAt
  /-- The processes that have called `ftruncate`. -/
  truncated : List ι
  /-- The length of the object at each use of a mapping. -/
  accesses : List Nat
  /-- The thread that was the last to lock the mutex since the record was cleared. -/
  last : Option (Tid ι)
  /-- What `last` was when a thread locked the mutex. -/
  before : Tid ι → Option (Tid ι)
  printed : List (Line ι)

variable [DecidableEq ι]

def System.setMain (s : System ι) (i : ι) (pc : MainAt) : System ι :=
  { s with main := Function.update s.main i pc }

def System.setThread (s : System ι) (t : Tid ι) (pc : ThreadAt) : System ι :=
  { s with thread := Function.update s.thread t pc }

/-- A mapping of the object is used. -/
def System.access (s : System ι) (o : Object ι) : System ι :=
  { s with accesses := s.accesses ++ [o.size] }

/-- A step of the system; `pid i` is the number of process `i`, and `c i` says that it was started
with the argument `c`. -/
inductive SystemStep (pid : ι → Int) (c : ι → Bool) : System ι → System ι → Prop
  | create (s : System ι) (i : ι) :
      s.main i = .shmOpenExcl → s.object = none →
      SystemStep pid c s { s.setMain i .mmap with object := some .new }
  | exists (s : System ι) (i : ι) :
      s.main i = .shmOpenExcl → s.object ≠ none → SystemStep pid c s (s.setMain i .shmOpen)
  | shmOpen (s : System ι) (i : ι) :
      s.main i = .shmOpen → SystemStep pid c s (s.setMain i .ftruncate)
  | ftruncate (s : System ι) (i : ι) (o : Object ι) :
      s.main i = .ftruncate → s.object = some o →
      SystemStep pid c s
        { s.setMain i .mmap with
          object := some { o with size := shmSegment }, truncated := s.truncated ++ [i] }
  | mmap (s : System ι) (i : ι) :
      s.main i = .mmap → SystemStep pid c s (s.setMain i .testC)
  | testC (s : System ι) (i : ι) :
      s.main i = .testC →
      SystemStep pid c s (s.setMain i (if c i then .memset else .create 0))
  | memset (s : System ι) (i : ι) (o : Object ι) :
      s.main i = .memset → s.object = some o → shmSegment ≤ o.size →
      SystemStep pid c s
        { (s.access o).setMain i .mutexInit with object := some o.clear, last := none }
  | mutexInit (s : System ι) (i : ι) (o : Object ι) :
      s.main i = .mutexInit → s.object = some o → shmSegment ≤ o.size →
      SystemStep pid c s { (s.access o).setMain i (.create 0) with object := some o.init }
  | pthreadCreate (s : System ι) (i : ι) (k : Fin numThreads) :
      s.main i = .create k →
      SystemStep pid c s ((s.setThread (i, k) .sleepIdx).setMain i (.create (k + 1)))
  /-- `clean_thread` has joined the threads, and `main` returns. -/
  | joined (s : System ι) (i : ι) :
      s.main i = .create numThreads → (∀ k, s.thread (i, k) = .ended) →
      SystemStep pid c s (s.setMain i .exited)
  | sleepIdx (s : System ι) (t : Tid ι) :
      (s.main t.1).alive = true → s.thread t = .sleepIdx →
      SystemStep pid c s (s.setThread t .lock)
  | lock (s : System ι) (t : Tid ι) (o : Object ι) :
      (s.main t.1).alive = true → s.thread t = .lock → s.object = some o →
      shmSegment ≤ o.size → o.mutex.owner = none →
      SystemStep pid c s
        { (s.access o).setThread t .prOut with
          object := some (o.lock t)
          last := some t
          before := Function.update s.before t s.last }
  | prOut (s : System ι) (t : Tid ι) (o : Object ι) :
      (s.main t.1).alive = true → s.thread t = .prOut → s.object = some o →
      shmSegment ≤ o.size →
      SystemStep pid c s
        { (s.access o).setThread t .sleep with
          printed := s.printed ++ [⟨t, o.prevPid, o.prevIdx, s.before t⟩] }
  | sleep (s : System ι) (t : Tid ι) :
      (s.main t.1).alive = true → s.thread t = .sleep →
      SystemStep pid c s (s.setThread t .storePid)
  | storePid (s : System ι) (t : Tid ι) (o : Object ι) :
      (s.main t.1).alive = true → s.thread t = .storePid → s.object = some o →
      shmSegment ≤ o.size →
      SystemStep pid c s
        { (s.access o).setThread t .storeIdx with
          object := some { o with prevPid := pid t.1 } }
  | storeIdx (s : System ι) (t : Tid ι) (o : Object ι) :
      (s.main t.1).alive = true → s.thread t = .storeIdx → s.object = some o →
      shmSegment ≤ o.size →
      SystemStep pid c s
        { (s.access o).setThread t .unlock with object := some { o with prevIdx := t.2.val } }
  | unlock (s : System ι) (t : Tid ι) (o : Object ι) :
      (s.main t.1).alive = true → s.thread t = .unlock → s.object = some o →
      shmSegment ≤ o.size →
      SystemStep pid c s
        { (s.access o).setThread t .ended with object := some (o.unlock t) }
  /-- `main` or a thread uses the mapping behind the end of the object. -/
  | sigbus (s : System ι) (i : ι) (o : Object ι) :
      (s.main i).alive = true → ((s.main i).maps = true ∨ ∃ k, (s.thread (i, k)).maps = true) →
      s.object = some o → o.size < shmSegment →
      SystemStep pid c s ((s.access o).setMain i .killed)

/-- Nothing has been started, and there is no object. -/
def System.start : System ι where
  object := none
  main := fun _ => .shmOpenExcl
  thread := fun _ => .absent
  truncated := []
  accesses := []
  last := none
  before := fun _ => none
  printed := []

def machine (pid : ι → Int) (c : ι → Bool) : Machine (System ι) where
  init s := s = .start
  step := SystemStep pid c

/-! ## The length of the object -/

variable {pid : ι → Int} {c : ι → Bool} {s t : System ι}

/-- The object is long enough exactly when a process has called `ftruncate`. -/
structure Sized (s : System ι) : Prop where
  none : s.object = none → s.truncated = []
  iff : ∀ o, s.object = some o → (shmSegment ≤ o.size ↔ s.truncated ≠ [])

omit [DecidableEq ι] in
/-- A step that leaves the length alone. -/
theorem Sized.keep (sized : Sized s) {o o' : Object ι} (before : s.object = some o)
    (after : t.object = some o') (size : o'.size = o.size) (truncated : t.truncated = s.truncated) :
    Sized t := by
  refine ⟨fun gone => (by cases gone.symm.trans after), fun x out => ?_⟩
  cases after.symm.trans out
  rw [size, truncated]
  exact sized.iff o before

omit [DecidableEq ι] in
theorem Sized.same (sized : Sized s) (object : t.object = s.object)
    (truncated : t.truncated = s.truncated) : Sized t :=
  ⟨fun gone => truncated ▸ sized.none (object ▸ gone),
    fun o out => truncated ▸ sized.iff o (object ▸ out)⟩

theorem size_unlock (t : Tid ι) (o : Object ι) : (o.unlock t).size = o.size := by
  unfold Object.unlock
  split <;> rfl

theorem Sized.step (sized : Sized s) (step : SystemStep pid c s t) : Sized t := by
  cases step with
  | create i at' none =>
      have never := sized.none none
      refine ⟨fun gone => (by cases gone), fun o out => ?_⟩
      cases out
      have short : ¬ shmSegment ≤ 0 := by decide
      exact iff_of_false short fun some => some never
  | ftruncate i o at' out =>
      refine ⟨fun gone => (by cases gone), fun o' out' => ?_⟩
      cases out'
      have some : s.truncated ++ [i] ≠ [] :=
        List.append_ne_nil_of_right_ne_nil _ (List.cons_ne_nil _ _)
      exact iff_of_true (Nat.le_refl _) some
  | «exists» | shmOpen | mmap | testC | pthreadCreate | joined | sleepIdx | sleep =>
      exact sized.same rfl rfl
  | prOut | sigbus => exact sized.same rfl rfl
  | memset i o at' out | mutexInit i o at' out => exact sized.keep out rfl rfl rfl
  | lock u o alive at' out | storePid u o alive at' out | storeIdx u o alive at' out =>
      exact sized.keep out rfl rfl rfl
  | unlock u o alive at' out => exact sized.keep out rfl (size_unlock u o) rfl

theorem sized_of_reachable (reached : (machine pid c).Reachable s) : Sized s := by
  refine reached.invariant ?_ fun s t _ sized step => sized.step step
  intro s start
  subst start
  exact ⟨fun _ => rfl, fun o out => (by cases out)⟩

/-- The object is at least as long as the mapping. -/
def Within (size : Nat) : Prop := shmSegment ≤ size

/-- Every use of a mapping comes after a process that has found the object there has called
`ftruncate`. -/
def afterFtruncate : System ι → System ι → Prop :=
  Machine.Logs System.accesses fun s _ => s.truncated ≠ []

/-- A step uses a mapping with the object as it is, or uses none. -/
theorem accesses_step (step : SystemStep pid c s t) :
    t.accesses = s.accesses ∨
      ∃ o, s.object = some o ∧ t.accesses = s.accesses ++ [o.size] := by
  cases step with
  | create | «exists» | shmOpen | ftruncate | mmap | testC => exact .inl rfl
  | pthreadCreate | joined | sleepIdx | sleep => exact .inl rfl
  | memset i o at' out | mutexInit i o at' out => exact .inr ⟨o, out, rfl⟩
  | lock u o alive at' out | prOut u o alive at' out | storePid u o alive at' out
  | storeIdx u o alive at' out | unlock u o alive at' out | sigbus i o alive at' out =>
      exact .inr ⟨o, out, rfl⟩

theorem within_iff_guarded (reached : (machine pid c).Reachable s) :
    (∀ size ∈ s.accesses, Within size) ↔
      ((machine pid c).guarded afterFtruncate).Reachable s := by
  refine reached.log_iff ?_ fun s t before step => ?_
  · intro s start
    rw [start]
    rfl
  · rcases accesses_step step with same | ⟨o, out, added⟩
    · exact .inl same
    · exact .inr ⟨o.size, added, (sized_of_reachable before).iff o out⟩

end Alnp.MutexPshared
