import Mathlib.Logic.Function.Basic
import Alnp.Lib.Machine
import Alnp.Lib.Mutex

/-!
# Cancelling the threads of `cleanup_mutex.c`

Any number of threads run `start_thread` of `Chapter08/cleanup_mutex.c`.  A cancellation request may
come from anywhere at any time; it is acted upon at a cancellation point, and the thread then runs
the cleanup handlers that it has pushed and not popped.  The unlock is in the handler and once more
behind `pthread_cleanup_pop(0)`.

`safe_of_reachable`: in every interleaving a thread unlocks the mutex exactly once for each time it
has locked it, and only while it owns it; a thread that has ended does not own it.
-/

namespace Alnp.CleanupMutex

/-- A routine given to `pthread_cleanup_push`. -/
inductive Handler
  | cleanupMutex

/-- Where a thread is. -/
inductive At
  /-- at `sleep(t_arg->idx)` -/
  | sleepIdx
  | lock
  /-- at the `pr_err` behind a failed `pthread_mutex_lock` -/
  | prErr
  | push
  /-- at the message that it holds the mutex -/
  | prOut
  /-- at the first of the `left` calls of `sleep(1)` ahead -/
  | sleep (left : Nat)
  | pop
  | unlock
  /-- at the test of `t_arg->idx` -/
  | testIdx
  /-- at the message in front of `pthread_cancel` -/
  | prCancel
  | sleepCancel
  | cancel
  /-- at `return t_arg` -/
  | ret
  /-- cancelled, about to take the next handler -/
  | unwind
  /-- at the message of `cleanup_mutex` -/
  | prCleanup
  /-- at the unlock of `cleanup_mutex` -/
  | unlockCleanup
  /-- `start_thread` has returned. -/
  | ended
  /-- The thread has been cancelled. -/
  | cancelled

/-- A request is acted upon at `sleep` and where the messages write to a stream.  While a thread
runs its handlers it is not cancelled again. -/
def At.cancellationPoint : At → Bool
  | .sleepIdx | .prErr | .prOut | .sleep _ | .prCancel | .sleepCancel => true
  | _ => false

structure Thread where
  pc : At
  /-- The handlers pushed and not popped, the last one first. -/
  handlers : List Handler

/-- The branch on the result of `pthread_mutex_lock`. -/
def afterLock (ret : Int) : At := if ret ≠ 0 then .prErr else .push

/-- The steps of a thread that leave the mutex alone; `idx` is `t_arg->idx`. -/
inductive Moves (idx : Nat) : Thread → Thread → Prop
  | sleepIdx (hs : List Handler) : Moves idx ⟨.sleepIdx, hs⟩ ⟨.lock, hs⟩
  | prErr (hs : List Handler) : Moves idx ⟨.prErr, hs⟩ ⟨.push, hs⟩
  | push (hs : List Handler) : Moves idx ⟨.push, hs⟩ ⟨.prOut, .cleanupMutex :: hs⟩
  | prOut (hs : List Handler) : Moves idx ⟨.prOut, hs⟩ ⟨.sleep 4, hs⟩
  | sleep (left : Nat) (hs : List Handler) :
      Moves idx ⟨.sleep (left + 1), hs⟩ ⟨if left = 0 then .pop else .sleep left, hs⟩
  | pop (h : Handler) (hs : List Handler) : Moves idx ⟨.pop, h :: hs⟩ ⟨.unlock, hs⟩
  | testIdx (hs : List Handler) :
      Moves idx ⟨.testIdx, hs⟩ ⟨if idx = 1 then .prCancel else .ret, hs⟩
  | prCancel (hs : List Handler) : Moves idx ⟨.prCancel, hs⟩ ⟨.sleepCancel, hs⟩
  | sleepCancel (hs : List Handler) : Moves idx ⟨.sleepCancel, hs⟩ ⟨.cancel, hs⟩
  | cancel (hs : List Handler) : Moves idx ⟨.cancel, hs⟩ ⟨.ret, hs⟩
  | ret (hs : List Handler) : Moves idx ⟨.ret, hs⟩ ⟨.ended, hs⟩
  /-- A cancellation request is acted upon. -/
  | acted (pc : At) (hs : List Handler) :
      pc.cancellationPoint = true → Moves idx ⟨pc, hs⟩ ⟨.unwind, hs⟩
  | handler (hs : List Handler) :
      Moves idx ⟨.unwind, .cleanupMutex :: hs⟩ ⟨.prCleanup, hs⟩
  | prCleanup (hs : List Handler) : Moves idx ⟨.prCleanup, hs⟩ ⟨.unlockCleanup, hs⟩
  | exit : Moves idx ⟨.unwind, []⟩ ⟨.cancelled, []⟩

structure Threads (ι : Type) where
  mutex : Mutex ι
  thread : ι → Thread

variable {ι : Type} [DecidableEq ι]

/-- Thread `i` has moved to `t`. -/
def Threads.set (s : Threads ι) (i : ι) (t : Thread) : Threads ι :=
  { s with thread := Function.update s.thread i t }

inductive ThreadStep (idx : ι → Nat) : Threads ι → Threads ι → Prop
  | move (s : Threads ι) (i : ι) (t : Thread) :
      Moves (idx i) (s.thread i) t → ThreadStep idx s (s.set i t)
  /-- A default mutex makes `pthread_mutex_lock` wait until it is free; the call then returns 0. -/
  | lock (s : Threads ι) (i : ι) (hs : List Handler) :
      s.thread i = ⟨.lock, hs⟩ → s.mutex.monitor.owner = none →
      ThreadStep idx s { s.set i ⟨afterLock 0, hs⟩ with mutex := s.mutex.lock i }
  | unlock (s : Threads ι) (i : ι) (hs : List Handler) :
      s.thread i = ⟨.unlock, hs⟩ →
      ThreadStep idx s { s.set i ⟨.testIdx, hs⟩ with mutex := s.mutex.unlock i }
  | unlockCleanup (s : Threads ι) (i : ι) (hs : List Handler) :
      s.thread i = ⟨.unlockCleanup, hs⟩ →
      ThreadStep idx s { s.set i ⟨.unwind, hs⟩ with mutex := s.mutex.unlock i }

/-- The program from the moment the threads run; `idx i` is `t_arg->idx` of thread `i`. -/
def machine (idx : ι → Nat) : Machine (Threads ι) where
  init s := s = ⟨.init, fun _ => ⟨.sleepIdx, []⟩⟩
  step := ThreadStep idx

/-! ## What a thread holds -/

/-- The thread is between locking and unlocking the mutex. -/
def Thread.Holds : Thread → Prop
  | ⟨.push, _⟩ | ⟨.prOut, _⟩ | ⟨.sleep _, _⟩ | ⟨.pop, _⟩ | ⟨.unlock, _⟩ => True
  | ⟨.prCleanup, _⟩ | ⟨.unlockCleanup, _⟩ => True
  | ⟨.unwind, hs⟩ => hs ≠ []
  | _ => False

/-- The handler is on the stack from the push to the pop, and on the way to it once cancelled. -/
def Thread.WellFormed : Thread → Prop
  | ⟨.prErr, _⟩ => False
  | ⟨.prOut, hs⟩ | ⟨.sleep _, hs⟩ | ⟨.pop, hs⟩ => hs = [.cleanupMutex]
  | ⟨.unwind, hs⟩ => hs = [] ∨ hs = [.cleanupMutex]
  | ⟨_, hs⟩ => hs = []

/-- The steps that leave the mutex alone keep the stack in order and neither lose nor gain it. -/
theorem WellFormed.moves {idx : Nat} {t u : Thread} (ok : t.WellFormed) (moves : Moves idx t u) :
    u.WellFormed ∧ (u.Holds ↔ t.Holds) := by
  cases moves with
  | sleepIdx hs => exact ⟨ok, Iff.rfl⟩
  | prErr hs => exact absurd ok not_false
  | push hs =>
      cases show hs = [] from ok
      exact ⟨rfl, Iff.rfl⟩
  | prOut hs => exact ⟨ok, Iff.rfl⟩
  | sleep left hs =>
      split
      · exact ⟨ok, Iff.rfl⟩
      · exact ⟨ok, Iff.rfl⟩
  | pop h hs =>
      cases show h :: hs = [.cleanupMutex] from ok
      exact ⟨rfl, Iff.rfl⟩
  | testIdx hs =>
      split
      · exact ⟨ok, Iff.rfl⟩
      · exact ⟨ok, Iff.rfl⟩
  | prCancel hs => exact ⟨ok, Iff.rfl⟩
  | sleepCancel hs => exact ⟨ok, Iff.rfl⟩
  | cancel hs => exact ⟨ok, Iff.rfl⟩
  | ret hs => exact ⟨ok, Iff.rfl⟩
  | acted pc hs point =>
      -- With the mutex in hand the handler is on the stack, without it the stack is empty.
      cases pc with
      | sleepIdx | prCancel | sleepCancel =>
          cases show hs = [] from ok
          exact ⟨.inl rfl, iff_of_false (fun some => some rfl) not_false⟩
      | prErr => exact absurd ok not_false
      | prOut | sleep left =>
          cases show hs = [.cleanupMutex] from ok
          exact ⟨.inr rfl, iff_of_true (List.cons_ne_nil _ _) trivial⟩
      | _ => cases point
  | handler hs =>
      rcases show _ ∨ _ from ok with none | one
      · cases none
      · cases one
        exact ⟨rfl, iff_of_true trivial (List.cons_ne_nil _ _)⟩
  | prCleanup hs => exact ⟨ok, Iff.rfl⟩
  | exit => exact ⟨rfl, iff_of_false not_false fun some => some rfl⟩

/-! ## The invariant -/

structure Inv (s : Threads ι) : Prop where
  wellFormed : ∀ i, (s.thread i).WellFormed
  guards : s.mutex.monitor.Guards fun i => (s.thread i).Holds
  disciplined : s.mutex.Disciplined

variable {idx : ι → Nat} {s s' : Threads ι} {i : ι} {t : Thread}

@[simp] theorem thread_set_self : (s.set i t).thread i = t := Function.update_self ..

@[simp] theorem thread_set_of_ne {j : ι} (other : j ≠ i) : (s.set i t).thread j = s.thread j :=
  Function.update_of_ne other ..

theorem holds_set_self : ((s.set i t).thread i).Holds ↔ t.Holds := by rw [thread_set_self]

theorem forall_set {P : Thread → Prop} (all : ∀ j, P (s.thread j)) (here : P t) (j : ι) :
    P ((s.set i t).thread j) :=
  (Function.forall_update_iff s.thread fun _ => P).mpr ⟨here, fun j _ => all j⟩ j

theorem holds_set_of_ne (j : ι) (other : j ≠ i) :
    ((s.set i t).thread j).Holds ↔ (s.thread j).Holds := by
  rw [thread_set_of_ne other]

/-- An unlock by a thread that holds the mutex. -/
theorem Inv.unlock (inv : Inv s) (held : (s.thread i).Holds) (ok : t.WellFormed)
    (gone : ¬ t.Holds) : Inv { s.set i t with mutex := s.mutex.unlock i } := by
  have owner := (inv.guards i).mp held
  refine ⟨forall_set inv.wellFormed ok, ?_, inv.disciplined.unlock owner⟩
  exact inv.guards.free held (fun still => gone (holds_set_self.mp still)) holds_set_of_ne rfl

theorem Inv.step (inv : Inv s) (step : ThreadStep idx s s') : Inv s' := by
  cases step with
  | move i t moves =>
      obtain ⟨ok, same⟩ := WellFormed.moves (inv.wellFormed i) moves
      refine ⟨forall_set inv.wellFormed ok, inv.guards.keep (fun j => ?_) rfl, inv.disciplined⟩
      refine (Function.forall_update_iff s.thread fun j t => t.Holds ↔ (s.thread j).Holds).mpr ?_ j
      exact ⟨same, fun _ _ => Iff.rfl⟩
  | lock i hs at' free =>
      have ok := inv.wellFormed i
      rw [at'] at ok
      refine ⟨forall_set inv.wellFormed ok, ?_, inv.disciplined.lock free⟩
      exact inv.guards.acquire free (holds_set_self.mpr trivial) holds_set_of_ne
  | unlock i hs at' =>
      have ok := inv.wellFormed i
      have held : (s.thread i).Holds := by
        rw [at']
        trivial
      rw [at'] at ok
      exact inv.unlock held ok not_false
  | unlockCleanup i hs at' =>
      have ok := inv.wellFormed i
      have held : (s.thread i).Holds := by
        rw [at']
        trivial
      rw [at'] at ok
      exact inv.unlock held (.inl ok) fun some => some ok

theorem inv_of_reachable (reached : (machine idx).Reachable s) : Inv s := by
  refine reached.invariant ?_ fun s t _ inv step => inv.step step
  intro s start
  subst start
  exact ⟨fun _ => rfl, Monitor.guards_idle fun _ => not_false, Mutex.disciplined_init⟩

/-! ## Cancellation safety -/

/-- The thread has returned or has been cancelled. -/
def At.Finished : At → Prop
  | .ended | .cancelled => True
  | _ => False

structure Safe (s : Threads ι) : Prop where
  unique : ∀ i j, s.mutex.Owns i → s.mutex.Owns j → i = j
  finished : ∀ i, (s.thread i).pc.Finished → ¬ s.mutex.Owns i
  /-- The unlocks, each with the owner of the mutex at that moment. -/
  byOwner : ∀ u ∈ s.mutex.unlocked, u.2 = some u.1
  once : ∀ i, s.mutex.locked.count i =
    s.mutex.unlocks i + if s.mutex.monitor.owner = some i then 1 else 0

/-- **Cancellation safety.**  Whatever the interleaving and wherever threads are cancelled, at most
one owns the mutex, none that has ended does, and each unlocks it exactly once for each time it has
locked it, as its owner. -/
theorem safe_of_reachable (reached : (machine idx).Reachable s) : Safe s := by
  have inv := inv_of_reachable reached
  refine ⟨fun i j => inv.disciplined.unique, fun i finished owns => ?_, inv.disciplined.byOwner,
    inv.disciplined.once⟩
  have held : (s.thread i).Holds := (inv.guards i).mpr (inv.disciplined.owns_iff.mp owns)
  generalize s.thread i = t at finished held
  obtain ⟨pc, hs⟩ := t
  cases pc with
  | ended | cancelled => exact held
  | _ => exact finished

/-! ## A cancelled owner -/

/-- Two threads; the first is cancelled at the message that it holds the mutex, ... -/
def unwinding : Threads Nat :=
  let s : Threads Nat := ⟨.init, fun _ => ⟨.sleepIdx, []⟩⟩
  let s := s.set 0 ⟨.lock, []⟩
  let s := { s.set 0 ⟨.push, []⟩ with mutex := s.mutex.lock 0 }
  let s := s.set 0 ⟨.prOut, [.cleanupMutex]⟩
  s.set 0 ⟨.unwind, [.cleanupMutex]⟩

/-- ... and its handler unlocks the mutex. -/
def unwound : Threads Nat :=
  let s := unwinding.set 0 ⟨.prCleanup, []⟩
  let s := s.set 0 ⟨.unlockCleanup, []⟩
  let s := { s.set 0 ⟨.unwind, []⟩ with mutex := s.mutex.unlock 0 }
  s.set 0 ⟨.cancelled, []⟩

theorem reachable_unwound : (machine (id : Nat → Nat)).Reachable unwound := by
  have start := Machine.Reachable.of_init (M := machine (id : Nat → Nat)) rfl
  have slept := start.tail (.move _ 0 _ (.sleepIdx []))
  have locked := slept.tail (.lock _ 0 [] rfl rfl)
  have pushed := locked.tail (.move _ 0 _ (.push []))
  have acted := pushed.tail (.move _ 0 _ (.acted .prOut _ rfl))
  have taken := acted.tail (.move _ 0 _ (.handler []))
  have printed := taken.tail (.move _ 0 _ (.prCleanup []))
  have unlocked := printed.tail (.unlockCleanup _ 0 [] rfl)
  exact unlocked.tail (.move _ 0 _ .exit)

theorem safe_unwound : Safe unwound := safe_of_reachable reachable_unwound

end Alnp.CleanupMutex
