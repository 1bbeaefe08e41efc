import Alnp.Lib.Barrier
import Alnp.Lib.Crew

/-!
# The threads of `barrier.c`

`main` of `Chapter08/barrier.c` starts `NUM_THREADS` threads, each of which sleeps, waits at the
barrier and ends; `clean_thread` joins them, and then the barrier is destroyed.

* `met_of_reachable`: no thread is behind the barrier before all have come to it, and at most one is
  told that it is the serial thread.
* `barrier_terminates`: every run ends, with the barrier destroyed behind the last thread and
  exactly one serial thread, or because `pthread_create` has failed.
-/

namespace Alnp.PtBarrier

/-- Where a thread is. -/
inductive Thread
  /-- in front of `pthread_barrier_wait` -/
  | sleep
  /-- in `pthread_barrier_wait`, with the round in which it has arrived -/
  | wait (round : Nat)
  /-- behind it; `serial` is whether it has returned `PTHREAD_BARRIER_SERIAL_THREAD` -/
  | awake (serial : Bool)
  /-- behind `pthread_exit` -/
  | exited (serial : Bool)

/-- An action of the thread with index `idx`. -/
inductive StartThread (idx : Nat) : Barrier Nat → Thread → Barrier Nat → Thread → Prop
  | arrive (b b' : Barrier Nat) :
      b.Arrive idx b' → StartThread idx b .sleep b' (.wait b.round)
  | pass (b : Barrier Nat) (round serial : Nat) (members : List Nat) :
      b.past[round]? = some (members, serial) →
      StartThread idx b (.wait round) b (.awake (serial == idx))
  | exit (b : Barrier Nat) (serial : Bool) :
      StartThread idx b (.awake serial) b (.exited serial)

def Thread.ended : Thread → Bool
  | .exited _ => true
  | _ => false

/-- The program with `numThreads` threads.  What `main` does before it creates a thread leaves the
barrier alone. -/
def crew (numThreads : Nat) : Crew (Barrier Nat) Thread where
  size := numThreads
  start _ := .sleep
  ended := Thread.ended
  prepare _ b b' := b' = b
  act := StartThread
  final i b w b' w' acted := by cases acted <;> rfl

abbrev State := Crew.State (Barrier Nat) Thread

/-- The barrier is for all threads. -/
def machine (numThreads : Nat) : Machine State :=
  (crew numThreads).machine (.init numThreads)

variable {n : Nat} {s : State} {b b' : Barrier Nat} {threads : List Thread}

/-- What a thread has been told behind the barrier. -/
def Thread.told : Thread → Option Bool
  | .awake serial => some serial
  | .exited serial => some serial
  | _ => none

structure Inv (n : Nat) (b : Barrier Nat) (threads : List Thread) : Prop where
  count : b.count = n
  rounds : b.Rounds
  made : threads.length ≤ n
  nodup : b.arrivals.Nodup
  arrived : ∀ i : Nat, i ∈ b.arrivals ↔ ∃ w, threads[i]? = some w ∧ w ≠ .sleep
  first : ∀ (i round : Nat), threads[i]? = some (.wait round) → round = 0
  told : ∀ (i : Nat) (w : Thread) (serial : Bool), threads[i]? = some w → w.told = some serial →
    ∃ members j, b.past[0]? = some (members, j) ∧ serial = (j == i)

theorem Inv.below (inv : Inv n b threads) {i : Nat} (member : i ∈ b.arrivals) : i < n := by
  obtain ⟨w, here, -⟩ := (inv.arrived i).mp member
  exact Nat.lt_of_lt_of_le (List.getElem?_eq_some_iff.mp here).1 inv.made

/-- The end of the first round means that every thread has arrived. -/
theorem Inv.mem_arrivals (inv : Inv n b threads) (done : 0 < b.round) {i : Nat} (lt : i < n) :
    i ∈ b.arrivals := by
  refine Barrier.mem_arrivals_of_round inv.rounds inv.nodup (fun j member => ?_) done ?_
  · rw [inv.count]
    exact inv.below member
  · rw [inv.count]
    exact lt

theorem Inv.make (inv : Inv n b threads) (less : threads.length < n) :
    Inv n b (threads ++ [.sleep]) := by
  have last {i : Nat} {w : Thread} (here : (threads ++ [.sleep])[i]? = some w)
      (other : w ≠ .sleep) : threads[i]? = some w := by
    rcases Nat.lt_or_ge i threads.length with old | new
    · rwa [List.getElem?_append_left old] at here
    · rw [List.getElem?_append_right new] at here
      exact absurd (List.mem_singleton.mp (List.mem_of_getElem? here)) other
  refine ⟨inv.count, inv.rounds, ?_, inv.nodup, fun i => ?_, fun i round here => ?_,
    fun i w serial here told => ?_⟩
  · rw [List.length_append]
    exact less
  · rw [inv.arrived i]
    constructor
    · rintro ⟨w, here, other⟩
      refine ⟨w, ?_, other⟩
      rw [List.getElem?_append_left (List.getElem?_eq_some_iff.mp here).1]
      exact here
    · rintro ⟨w, here, other⟩
      exact ⟨w, last here other, other⟩
  · exact inv.first i round (last here nofun)
  · refine inv.told i w serial (last here ?_) told
    rintro rfl
    cases told

/-- A thread that has arrived does something that leaves the barrier alone. -/
theorem Inv.move (inv : Inv n b threads) {i : Nat} {w w' : Thread} (here : threads[i]? = some w)
    (behind : w ≠ .sleep) (behind' : ∃ serial, w'.told = some serial)
    (told : ∀ serial, w'.told = some serial →
      ∃ members j, b.past[0]? = some (members, j) ∧ serial = (j == i)) :
    Inv n b (threads.set i w') := by
  obtain ⟨x, told'⟩ := behind'
  have inside := (List.getElem?_eq_some_iff.mp here).1
  have self : (threads.set i w')[i]? = some w' := List.getElem?_set_self inside
  have others {j : Nat} (other : i ≠ j) : (threads.set i w')[j]? = threads[j]? :=
    List.getElem?_set_ne other
  refine ⟨inv.count, inv.rounds, ?_, inv.nodup, fun j => ?_, fun j round found => ?_,
    fun j v serial found => ?_⟩
  · rw [List.length_set]
    exact inv.made
  · rw [inv.arrived j]
    by_cases same : i = j
    · subst same
      refine iff_of_true ⟨w, here, behind⟩ ⟨w', self, ?_⟩
      rintro rfl
      cases told'
    · rw [others same]
  · by_cases same : i = j
    · subst same
      cases self.symm.trans found
      cases told'
    · rw [others same] at found
      exact inv.first j round found
  · by_cases same : i = j
    · subst same
      cases self.symm.trans found
      exact told serial
    · rw [others same] at found
      exact inv.told j v serial found

theorem Inv.arrive (inv : Inv n b threads) {i : Nat} (here : threads[i]? = some .sleep)
    (arrive : b.Arrive i b') : Inv n b' (threads.set i (.wait b.round)) := by
  have inside := (List.getElem?_eq_some_iff.mp here).1
  have self : (threads.set i (.wait b.round))[i]? = some (.wait b.round) :=
    List.getElem?_set_self inside
  have others {j : Nat} (other : i ≠ j) :
      (threads.set i (.wait b.round))[j]? = threads[j]? := List.getElem?_set_ne other
  have new : i ∉ b.arrivals := by
    intro member
    obtain ⟨w, found, other⟩ := (inv.arrived i).mp member
    exact other (Option.some.inj (found.symm.trans here))
  -- A round that is over would have had this thread in it.
  have first : b.round = 0 := by
    by_contra done
    exact new (inv.mem_arrivals (Nat.pos_of_ne_zero done) (Nat.lt_of_lt_of_le inside inv.made))
  have arrivals := arrive.arrivals_eq
  refine ⟨arrive.count_eq.trans inv.count, arrive.rounds inv.rounds, ?_, ?_, fun j => ?_,
    fun j round found => ?_, fun j v serial found told => ?_⟩
  · rw [List.length_set]
    exact inv.made
  · rw [arrivals]
    exact List.nodup_append.mpr ⟨inv.nodup, List.pairwise_singleton _ i, fun j member k last => by
      rw [List.mem_singleton.mp last]
      exact fun same => new (same ▸ member)⟩
  · rw [arrivals, List.mem_append, List.mem_singleton, inv.arrived j]
    by_cases same : i = j
    · subst same
      exact iff_of_true (.inr rfl) ⟨_, self, nofun⟩
    · rw [others same]
      exact or_iff_left (Ne.symm same)
  · by_cases same : i = j
    · subst same
      cases self.symm.trans found
      exact first
    · rw [others same] at found
      exact inv.first j round found
  · by_cases same : i = j
    · subst same
      cases self.symm.trans found
      cases told
    · rw [others same] at found
      obtain ⟨members, k, done, is⟩ := inv.told j v serial found told
      exact ⟨members, k, arrive.getElem?_past done, is⟩

theorem inv_of_reachable (positive : 0 < n) (reached : (machine n).Reachable s) :
    Inv n s.shared s.workers := by
  refine Crew.invariant (P := Inv n) ?_ ?_ ?_ ?_ reached
  · refine ⟨rfl, Barrier.rounds_init positive, Nat.zero_le n, List.nodup_nil, ?_, ?_, ?_⟩
    · exact fun i => iff_of_false List.not_mem_nil fun ⟨w, here, _⟩ => by cases here
    · exact fun i round here => by cases here
    · exact fun i w serial here _ => by cases here
  · rintro b b' threads inv rfl
    exact inv
  · exact fun b threads inv less => inv.make less
  · intro b b' threads i w w' inv here acted
    cases acted with
    | arrive _ arrive => exact inv.arrive here arrive
    | pass round serial members done =>
        refine inv.move here nofun ⟨_, rfl⟩ fun x told => ?_
        cases inv.first i round here
        cases told
        exact ⟨members, serial, done, rfl⟩
    | exit serial =>
        exact inv.move here nofun ⟨_, rfl⟩ fun x told => inv.told i _ x here told

/-! ## What the barrier is for -/

/-- Nobody is behind the barrier before everybody has come to it, at most one thread is told that
it is the serial thread, and exactly one as soon as all are behind it. -/
structure Met (n : Nat) (threads : List Thread) : Prop where
  together : (∃ w ∈ threads, w.told.isSome) → threads.length = n ∧ ∀ w ∈ threads, w ≠ .sleep
  unique : ∀ (i j : Nat) (w v : Thread), threads[i]? = some w → threads[j]? = some v →
    w.told = some true → v.told = some true → i = j
  serial : threads.length = n → (∀ w ∈ threads, w.told.isSome) →
    ∃ (i : Nat) (w : Thread), threads[i]? = some w ∧ w.told = some true

theorem Inv.past (inv : Inv n b threads) {w : Thread} (member : w ∈ threads)
    (told : w.told.isSome) : ∃ members j, b.past[0]? = some (members, j) := by
  obtain ⟨i, here⟩ := List.mem_iff_getElem?.mp member
  obtain ⟨serial, told⟩ := Option.isSome_iff_exists.mp told
  obtain ⟨members, j, done, -⟩ := inv.told i w serial here told
  exact ⟨members, j, done⟩

/-- Behind a round there is a thread at each place, and none of them in front of the barrier. -/
theorem Inv.all_arrived (inv : Inv n b threads) (done : 0 < b.round) :
    threads.length = n ∧ ∀ w ∈ threads, w ≠ .sleep := by
  have all : threads.length = n := by
    refine Nat.le_antisymm inv.made (Nat.le_of_not_lt fun less => ?_)
    obtain ⟨w, here, -⟩ := (inv.arrived threads.length).mp (inv.mem_arrivals done less)
    exact Nat.lt_irrefl _ (List.getElem?_eq_some_iff.mp here).1
  refine ⟨all, fun w member => ?_⟩
  obtain ⟨i, here⟩ := List.mem_iff_getElem?.mp member
  have inside := (List.getElem?_eq_some_iff.mp here).1
  obtain ⟨v, found, other⟩ := (inv.arrived i).mp (inv.mem_arrivals done (all ▸ inside))
  cases here.symm.trans found
  exact other

theorem Inv.met (positive : 0 < n) (inv : Inv n b threads) : Met n threads := by
  refine ⟨?_, ?_, ?_⟩
  · rintro ⟨w, member, told⟩
    obtain ⟨members, j, done⟩ := inv.past member told
    exact inv.all_arrived (List.getElem?_eq_some_iff.mp done).1
  · intro i j w v here there told told'
    obtain ⟨members, k, done, isI⟩ := inv.told i w true here told
    obtain ⟨members', k', done', isJ⟩ := inv.told j v true there told'
    cases done.symm.trans done'
    rw [← beq_iff_eq.mp isI.symm, ← beq_iff_eq.mp isJ.symm]
  · intro all told
    have inside : 0 < threads.length := all.symm ▸ positive
    have head := List.getElem_mem inside
    obtain ⟨members, j, done⟩ := inv.past head (told _ head)
    -- The serial thread of the round was in it, so it has been told.
    have member : j ∈ members :=
      (inv.rounds.full _ (List.mem_of_getElem? done)).2
    obtain ⟨w, here, -⟩ := (inv.arrived j).mp (Barrier.mem_arrivals_of_past done member)
    obtain ⟨serial, is⟩ := Option.isSome_iff_exists.mp (told w (List.mem_of_getElem? here))
    obtain ⟨members', k, done', same⟩ := inv.told j w serial here is
    cases done.symm.trans done'
    rw [beq_self_eq_true] at same
    exact ⟨j, w, here, same ▸ is⟩

/-- **The barrier.**  Whatever the order of the threads, they meet at the barrier, and the barrier
is not destroyed before all of them have ended. -/
theorem met_of_reachable (n : Nat) (positive : 0 < n) (s : State)
    (reached : (machine n).Reachable s) :
    Met n s.workers ∧
      (s.main = .returned → s.workers.length = n ∧ ∀ w ∈ s.workers, w.ended = true) :=
  ⟨(inv_of_reachable positive reached).met positive, Crew.ended_of_returned reached⟩

/-- Two threads; the first one to come is the serial one. -/
theorem met_two :
    ∃ s : State, (machine 2).Reachable s ∧ s.main = .returned ∧
      s.workers = [.exited true, .exited false] ∧ Met 2 s.workers := by
  have start : (machine 2).Reachable _ := .of_init rfl
  have first := (start.tail (.prepare _ _ rfl (by decide) rfl)).tail (.make _ rfl)
  have second := (first.tail (.prepare _ _ rfl (by decide) rfl)).tail (.make _ rfl)
  have waits := second.tail (.act _ 0 _ _ _ trivial rfl (.arrive _ _ (.waits _ (by decide))))
  have trips := waits.tail
    (.act _ 1 _ _ _ trivial rfl (.arrive _ _ (.trips _ 0 (by decide) (by decide))))
  have passed := (trips.tail (.act _ 0 _ _ _ trivial rfl (.pass _ 0 0 _ rfl))).tail
    (.act _ 1 _ _ _ trivial rfl (.pass _ 0 0 _ rfl))
  have exited := (passed.tail (.act _ 0 _ _ _ trivial rfl (.exit _ _))).tail
    (.act _ 1 _ _ _ trivial rfl (.exit _ _))
  have joined := ((exited.tail (.made _ rfl rfl)).tail (.join _ 0 _ rfl rfl rfl)).tail
    (.join _ 1 _ rfl rfl rfl)
  have returned := joined.tail (.joined _ rfl)
  exact ⟨_, returned, rfl, rfl, (met_of_reachable 2 (by decide) _ returned).1⟩

/-! ## Every run ends -/

/-- How many actions a thread still has to take. -/
def Thread.rank : Thread → Nat
  | .sleep => 3
  | .wait _ => 2
  | .awake _ => 1
  | .exited _ => 0

theorem StartThread.lowers {i : Nat} {w w' : Thread} (acted : StartThread i b w b' w') :
    w'.rank < w.rank := by
  cases acted with
  | arrive => exact Nat.lt_succ_self 2
  | pass => exact Nat.lt_succ_self 1
  | exit => exact Nat.lt_succ_self 0

/-- Where no thread can act, all have ended. -/
theorem Inv.ended_of_idle (inv : Inv n b threads) (all : threads.length = n)
    (idle : ∀ (i : Nat) w b' w', threads[i]? = some w → ¬ StartThread i b w b' w') :
    ∀ w ∈ threads, w.ended = true := by
  have waits : ∀ (i : Nat) w, threads[i]? = some w → w ≠ .sleep := by
    rintro i w here rfl
    obtain ⟨b', arrive⟩ := inv.rounds.exists_arrive i
    exact idle i _ b' _ here (.arrive b b' arrive)
  intro w member
  obtain ⟨i, here⟩ := List.mem_iff_getElem?.mp member
  have inside := (List.getElem?_eq_some_iff.mp here).1
  cases w with
  | sleep => exact absurd rfl (waits i _ here)
  | wait round =>
      cases inv.first i round here
      -- All threads have arrived, so the first round is over.
      have done : 0 < b.round := by
        have subset : List.range n ⊆ b.arrivals := by
          intro j member
          have lt := List.mem_range.mp member
          have inside : j < threads.length := all ▸ lt
          have found : threads[j]? = some threads[j] := List.getElem?_eq_getElem inside
          exact (inv.arrived j).mpr ⟨_, found, waits j _ found⟩
        have many := (List.nodup_range.subperm subset).length_le
        have room := inv.rounds.room
        rw [List.length_range, inv.rounds.length_arrivals] at many
        rw [inv.count] at many room
        by_contra none
        rw [Nat.eq_zero_of_not_pos none, Nat.mul_zero] at many
        omega
      have found : b.past[0]? = some b.past[0] := List.getElem?_eq_getElem done
      exact absurd (.pass b 0 _ _ found) (idle i _ b _ here)
  | awake serial => exact absurd (.exit b serial) (idle i _ b _ here)
  | exited serial => rfl

/-- **No deadlock at the barrier.**  Every run ends: `main` has returned with exactly one thread
told that it was the serial one, or `pthread_create` has failed. -/
theorem barrier_terminates (n : Nat) (positive : 0 < n) :
    (machine n).Terminates fun s =>
      s.main = .failed ∨
        s.main = .returned ∧ ∃ i : Nat, s.workers[i]? = some (.exited true) ∧
          ∀ j : Nat, s.workers[j]? = some (.exited true) → j = i := by
  have descends : (machine n).Descends ((crew n).measure Thread.rank 3) :=
    Crew.descends (fun _ => Nat.le_refl 3) fun _ _ _ _ _ acted => acted.lowers
  refine Machine.terminates_of_descends descends fun s reached stuck => ?_
  have inv := inv_of_reachable positive reached
  rcases Crew.stuck_cases reached stuck with returned | failed | ⟨idle, atHead | ⟨all, atJoin⟩⟩
  · right
    obtain ⟨all, ended⟩ := Crew.ended_of_returned reached returned
    have met := inv.met positive
    have told : ∀ w ∈ s.workers, w.told.isSome := by
      intro w member
      have exited := ended w member
      cases w with
      | exited serial => rfl
      | sleep => cases exited
      | wait round => cases exited
      | awake serial => cases exited
    obtain ⟨i, w, here, serial⟩ := met.serial all told
    have exited := ended w (List.mem_of_getElem? here)
    cases w with
    | sleep => cases exited
    | wait round => cases exited
    | awake serial => cases exited
    | exited x =>
        cases serial
        exact ⟨returned, i, here, fun j there => met.unique j i _ _ there here rfl rfl⟩
  · exact .inl failed
  · obtain ⟨-, -, unprepared⟩ := atHead
    exact absurd rfl (unprepared s.shared)
  · obtain ⟨i, w, -, here, working⟩ := atJoin
    have ended := inv.ended_of_idle all idle w (List.mem_of_getElem? here)
    rw [show (crew n).ended w = w.ended from rfl, ended] at working
    cases working

theorem barrier_terminates_five :
    (machine 5).Terminates fun s =>
      s.main = .failed ∨
        s.main = .returned ∧ ∃ i : Nat, s.workers[i]? = some (.exited true) ∧
          ∀ j : Nat, s.workers[j]? = some (.exited true) → j = i :=
  barrier_terminates 5 (by decide)

end Alnp.PtBarrier
