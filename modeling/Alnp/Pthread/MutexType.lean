import Alnp.Lib.Crew

/-!
# The types of mutex in `mutex_type.c`

`start_thread` of `Chapter08/mutex_type.c` locks the mutex, the threads from index 2 on lock it once
more, and all of them unlock it once.  What becomes of the second lock is the type of the mutex: the
thread waits for itself, or counts its locks, or is told `EDEADLK`.

* `errorcheck_terminates`: with error checking every run ends, with the mutex free.
* `returns_iff`: when `main` can come to its end at all.  With four threads it cannot for the other
  two types.
-/

namespace Alnp.MutexType

/-- `PTHREAD_MUTEX_NORMAL` and its siblings. -/
inductive Kind
  | normal
  | recursive
  | errorcheck
  deriving DecidableEq

/-- The mutex: the index of the thread that owns it, and how often that thread has locked it. -/
structure PMutex where
  kind : Kind
  owner : Option Nat
  count : Nat
  deriving DecidableEq

inductive Locked
  | ok (m : PMutex)
  | blocks
  | edeadlk

/-- `pthread_mutex_lock` by the thread with index `idx`. -/
def PMutex.lock (idx : Nat) (m : PMutex) : Locked :=
  match m.owner with
  | none => .ok { m with owner := some idx, count := 1 }
  | some owner =>
      if owner = idx then
        match m.kind with
        | .normal => .blocks
        | .recursive => .ok { m with count := m.count + 1 }
        | .errorcheck => .edeadlk
      else .blocks

/-- `pthread_mutex_unlock` by the thread with index `idx`; the mutex stays as it is where another
thread owns it. -/
def PMutex.unlock (idx : Nat) (m : PMutex) : PMutex :=
  if m.owner ≠ some idx then m
  else if m.count ≤ 1 then { m with owner := none, count := 0 }
  else { m with count := m.count - 1 }

/-- Where a thread is. -/
inductive Thread
  /-- at the first `pthread_mutex_lock` -/
  | lock
  /-- at the second one -/
  | relock
  /-- at `pthread_mutex_unlock` -/
  | unlock
  | ended
  deriving DecidableEq

/-- Behind the first lock, successful or not. -/
def afterLock (idx : Nat) : Thread := if idx > 1 then .relock else .unlock

/-- An action of the thread with index `idx`. -/
inductive StartThread (idx : Nat) : PMutex → Thread → PMutex → Thread → Prop
  | lock (m m' : PMutex) : m.lock idx = .ok m' → StartThread idx m .lock m' (afterLock idx)
  | lockFailed (m : PMutex) : m.lock idx = .edeadlk → StartThread idx m .lock m (afterLock idx)
  | relock (m m' : PMutex) : m.lock idx = .ok m' → StartThread idx m .relock m' .unlock
  | relockFailed (m : PMutex) : m.lock idx = .edeadlk → StartThread idx m .relock m .unlock
  | unlock (m : PMutex) : StartThread idx m .unlock (m.unlock idx) .ended

/-- The program with `numThreads` threads. -/
def crew (numThreads : Nat) : Crew PMutex Thread where
  size := numThreads
  start _ := .lock
  ended w := w = .ended
  prepare _ m m' := m' = m
  act := StartThread
  final i m w m' w' acted := by cases acted <;> rfl

abbrev State := Crew.State PMutex Thread

def machine (kind : Kind) (numThreads : Nat) : Machine State :=
  (crew numThreads).machine ⟨kind, none, 0⟩

variable {kind : Kind} {n : Nat} {s : State} {m m' : PMutex} {threads : List Thread} {idx : Nat}

/-! ## The mutex -/

theorem lock_eq_ok (locked : m.lock idx = .ok m') :
    m.owner = none ∧ m' = ⟨m.kind, some idx, 1⟩ ∨
      m.owner = some idx ∧ m.kind = .recursive ∧ m' = ⟨m.kind, some idx, m.count + 1⟩ := by
  obtain ⟨kind, owner, count⟩ := m
  unfold PMutex.lock at locked
  cases owner with
  | none =>
      cases locked
      exact .inl ⟨rfl, rfl⟩
  | some owner =>
      dsimp only at locked
      split at locked
      · next same =>
          subst same
          cases kind with
          | recursive =>
              cases locked
              exact .inr ⟨rfl, rfl, rfl⟩
          | normal => cases locked
          | errorcheck => cases locked
      · cases locked

theorem lock_eq_edeadlk (locked : m.lock idx = .edeadlk) :
    m.owner = some idx ∧ m.kind = .errorcheck := by
  obtain ⟨kind, owner, count⟩ := m
  unfold PMutex.lock at locked
  cases owner with
  | none => cases locked
  | some owner =>
      dsimp only at locked
      split at locked
      · next same =>
          subst same
          cases kind with
          | errorcheck => exact ⟨rfl, rfl⟩
          | normal => cases locked
          | recursive => cases locked
      · cases locked

/-! ## How many locks a thread holds -/

/-- The locks that the thread with index `idx` holds at its place. -/
def held (kind : Kind) (idx : Nat) : Thread → Nat
  | .lock => 0
  | .relock => 1
  | .unlock => if 1 < idx ∧ kind = .recursive then 2 else 1
  | .ended => if 1 < idx ∧ kind = .recursive then 1 else 0

/-- The places that the thread with index `idx` can come to. -/
def Possible (kind : Kind) (idx : Nat) : Thread → Prop
  | .lock => True
  | .relock => 1 < idx
  | .unlock => kind = .normal → idx ≤ 1
  | .ended => kind = .normal → idx ≤ 1

structure Inv (kind : Kind) (m : PMutex) (threads : List Thread) : Prop where
  kind_eq : m.kind = kind
  held_eq : ∀ (i : Nat) (w : Thread), threads[i]? = some w →
    held kind i w = if m.owner = some i then m.count else 0
  possible : ∀ (i : Nat) (w : Thread), threads[i]? = some w → Possible kind i w
  owner : ∀ i, m.owner = some i → i < threads.length ∧ 0 < m.count

/-- A thread that holds a lock owns the mutex. -/
theorem Inv.owner_eq (inv : Inv kind m threads) {i : Nat} {w : Thread} (here : threads[i]? = some w)
    (some : 0 < held kind i w) : m.owner = .some i ∧ m.count = held kind i w := by
  have held := inv.held_eq i w here
  split at held
  · next owner => exact ⟨owner, held.symm⟩
  · omega

/-- A thread without a lock does not own the mutex. -/
theorem Inv.owner_ne (inv : Inv kind m threads) {i : Nat} {w : Thread} (here : threads[i]? = some w)
    (none : held kind i w = 0) : m.owner ≠ some i := by
  intro owner
  have held := inv.held_eq i w here
  rw [if_pos owner, none] at held
  exact absurd held (Nat.ne_of_lt (inv.owner i owner).2)

theorem Inv.make (inv : Inv kind m threads) : Inv kind m (threads ++ [.lock]) := by
  have cases' {i : Nat} {w : Thread} (here : (threads ++ [.lock])[i]? = some w) :
      threads[i]? = some w ∨ i = threads.length ∧ w = .lock := by
    rcases Nat.lt_or_ge i threads.length with old | new
    · rw [List.getElem?_append_left old] at here
      exact .inl here
    · rw [List.getElem?_append_right new] at here
      have first : i - threads.length = 0 := by
        have inside := (List.getElem?_eq_some_iff.mp here).1
        rw [List.length_singleton] at inside
        omega
      rw [first] at here
      cases here
      exact .inr ⟨by omega, rfl⟩
  refine ⟨inv.kind_eq, fun i w here => ?_, fun i w here => ?_, fun i owner => ?_⟩
  · rcases cases' here with old | ⟨rfl, rfl⟩
    · exact inv.held_eq i w old
    · rw [if_neg fun owner => Nat.lt_irrefl _ (inv.owner _ owner).1]
      rfl
  · rcases cases' here with old | ⟨-, rfl⟩
    · exact inv.possible i w old
    · trivial
  · rw [List.length_append]
    exact ⟨Nat.lt_add_right 1 (inv.owner i owner).1, (inv.owner i owner).2⟩

/-- The thread with index `i` moves from a mutex that nobody else owns to one that nobody else
owns. -/
theorem Inv.move (inv : Inv kind m threads) {i : Nat} {w w' : Thread} (here : threads[i]? = some w)
    (kind_eq : m'.kind = m.kind) (mine : ∀ j, m.owner = some j → j = i)
    (mine' : ∀ j, m'.owner = some j → j = i ∧ 0 < m'.count)
    (held_eq : held kind i w' = if m'.owner = some i then m'.count else 0)
    (possible : Possible kind i w') : Inv kind m' (threads.set i w') := by
  have inside := (List.getElem?_eq_some_iff.mp here).1
  have self : (threads.set i w')[i]? = some w' := List.getElem?_set_self inside
  have others {j : Nat} (other : i ≠ j) : (threads.set i w')[j]? = threads[j]? :=
    List.getElem?_set_ne other
  refine ⟨kind_eq.trans inv.kind_eq, fun j v found => ?_, fun j v found => ?_, fun j owner => ?_⟩
  · by_cases same : i = j
    · subst same
      cases self.symm.trans found
      exact held_eq
    · rw [others same] at found
      rw [inv.held_eq j v found, if_neg fun owner => same (mine j owner).symm,
        if_neg fun owner => same (mine' j owner).1.symm]
  · by_cases same : i = j
    · subst same
      cases self.symm.trans found
      exact possible
    · rw [others same] at found
      exact inv.possible j v found
  · rw [List.length_set, (mine' j owner).1]
    exact ⟨inside, (mine' j owner).2⟩

/-- The first lock succeeds: the mutex was free. -/
theorem Inv.lock (inv : Inv kind m threads) {i : Nat} (here : threads[i]? = some .lock)
    (locked : m.lock i = .ok m') : Inv kind m' (threads.set i (afterLock i)) := by
  rcases lock_eq_ok locked with ⟨free, rfl⟩ | ⟨owner, -⟩
  · refine inv.move here rfl (fun j owner => ?_) (fun j owner => ?_) ?_ ?_
    · cases free.symm.trans owner
    · cases owner
      exact ⟨rfl, Nat.one_pos⟩
    · rw [if_pos rfl, afterLock]
      split
      · rfl
      · next first => exact if_neg fun both => first both.1
    · rw [afterLock]
      split
      · next second => exact second
      · next first => exact fun _ => Nat.le_of_not_lt first
  · exact absurd owner (inv.owner_ne here rfl)

/-- The second lock succeeds: the mutex is recursive. -/
theorem Inv.relock (inv : Inv kind m threads) {i : Nat} (here : threads[i]? = some .relock)
    (locked : m.lock i = .ok m') : Inv kind m' (threads.set i .unlock) := by
  have second : 1 < i := inv.possible i _ here
  obtain ⟨owner, count⟩ := inv.owner_eq here Nat.one_pos
  rcases lock_eq_ok locked with ⟨free, -⟩ | ⟨-, recursive, rfl⟩
  · cases free.symm.trans owner
  · have isRecursive : kind = .recursive := inv.kind_eq.symm.trans recursive
    refine inv.move here rfl (fun j owner' => ?_) (fun j owner' => ?_) ?_ ?_
    · cases owner.symm.trans owner'
      rfl
    · cases owner'
      exact ⟨rfl, Nat.succ_pos _⟩
    · rw [if_pos rfl, count]
      exact if_pos ⟨second, isRecursive⟩
    · rw [isRecursive]
      nofun

/-- The second lock fails: the mutex checks for errors, and stays as it is. -/
theorem Inv.relockFailed (inv : Inv kind m threads) {i : Nat} (here : threads[i]? = some .relock)
    (locked : m.lock i = .edeadlk) : Inv kind m (threads.set i .unlock) := by
  obtain ⟨owner, errorcheck⟩ := lock_eq_edeadlk locked
  obtain ⟨-, count⟩ := inv.owner_eq here Nat.one_pos
  have isErrorcheck : kind = .errorcheck := inv.kind_eq.symm.trans errorcheck
  refine inv.move here rfl (fun j owner' => ?_) (fun j owner' => ?_) ?_ ?_
  · cases owner.symm.trans owner'
    rfl
  · cases owner.symm.trans owner'
    exact ⟨rfl, (inv.owner _ owner).2⟩
  · rw [if_pos owner, count, isErrorcheck]
    exact if_neg fun both => nomatch both.2
  · rw [isErrorcheck]
    nofun

/-- A thread that unlocks owns the mutex, with as many locks as it holds. -/
theorem Inv.owner_of_unlock (inv : Inv kind m threads) {i : Nat}
    (here : threads[i]? = some .unlock) : m.owner = some i ∧ m.count = held kind i .unlock := by
  have positive : 0 < held kind i .unlock := by
    rw [held]
    split <;> decide
  exact inv.owner_eq here positive

theorem Inv.unlock (inv : Inv kind m threads) {i : Nat} (here : threads[i]? = some .unlock) :
    Inv kind (m.unlock i) (threads.set i .ended) := by
  have possible := inv.possible i _ here
  obtain ⟨owner, count⟩ := inv.owner_of_unlock here
  rw [held] at count
  unfold PMutex.unlock
  rw [if_neg (not_not.mpr owner)]
  by_cases twice : 1 < i ∧ kind = .recursive
  · rw [if_pos twice] at count
    rw [if_neg (by omega)]
    refine inv.move here rfl (fun j owner' => ?_) (fun j owner' => ?_) ?_ possible
    · cases owner.symm.trans owner'
      rfl
    · cases owner.symm.trans owner'
      exact ⟨rfl, by dsimp only; omega⟩
    · rw [if_pos owner, count]
      exact if_pos twice
  · rw [if_neg twice] at count
    rw [if_pos (by omega)]
    refine inv.move here rfl (fun j owner' => ?_) nofun ?_ possible
    · cases owner.symm.trans owner'
      rfl
    · rw [if_neg nofun]
      exact if_neg twice

theorem Inv.act (inv : Inv kind m threads) {i : Nat} {w w' : Thread} (here : threads[i]? = some w)
    (acted : StartThread i m w m' w') : Inv kind m' (threads.set i w') := by
  cases acted with
  | lock _ locked => exact inv.lock here locked
  | lockFailed locked => exact absurd (lock_eq_edeadlk locked).1 (inv.owner_ne here rfl)
  | relock _ locked => exact inv.relock here locked
  | relockFailed locked => exact inv.relockFailed here locked
  | unlock => exact inv.unlock here

theorem inv_of_reachable (reached : (machine kind n).Reachable s) :
    Inv kind s.shared s.workers := by
  refine Crew.invariant (P := Inv kind) ?_ ?_ ?_ ?_ reached
  · refine ⟨rfl, fun i w here => ?_, fun i w here => ?_, nofun⟩
    · cases here
    · cases here
  · rintro m m' threads inv rfl
    exact inv
  · exact fun m threads inv _ => inv.make
  · exact fun m m' threads i w w' inv here acted => inv.act here acted

/-- Every thread unlocks a mutex that it owns. -/
theorem owner_of_unlock (reached : (machine kind n).Reachable s) {i : Nat}
    (here : s.workers[i]? = some .unlock) : s.shared.owner = some i :=
  ((inv_of_reachable reached).owner_of_unlock here).1

/-! ## Every run ends -/

/-- How many actions a thread still has to take. -/
def Thread.rank : Thread → Nat
  | .lock => 3
  | .relock => 2
  | .unlock => 1
  | .ended => 0

theorem rank_afterLock (idx : Nat) : (afterLock idx).rank < 3 := by
  rw [afterLock]
  split <;> decide

theorem StartThread.lowers {w w' : Thread} (acted : StartThread idx m w m' w') :
    w'.rank < w.rank := by
  cases acted with
  | lock => exact rank_afterLock idx
  | lockFailed => exact rank_afterLock idx
  | relock => exact Nat.lt_succ_self 1
  | relockFailed => exact Nat.lt_succ_self 1
  | unlock => exact Nat.lt_succ_self 0

theorem descends (kind : Kind) (n : Nat) :
    (machine kind n).Descends ((crew n).measure Thread.rank 3) :=
  Crew.descends (fun _ => Nat.le_refl 3) fun _ _ _ _ _ acted => acted.lowers

/-- Where a second lock does not block, or nobody locks twice, somebody can act as long as not all
threads have ended. -/
theorem Inv.exists_act (inv : Inv kind m threads) (safe : kind = .errorcheck ∨ threads.length ≤ 2)
    {i : Nat} {w : Thread} (here : threads[i]? = some w) (working : w ≠ .ended) :
    ∃ (j : Nat) (v v' : Thread) (m' : PMutex), threads[j]? = some v ∧ StartThread j m v m' v' := by
  cases owner : m.owner with
  | none =>
      have held := inv.held_eq i w here
      rw [owner, if_neg nofun] at held
      cases w with
      | lock =>
          refine ⟨i, _, _, _, here, .lock m ⟨m.kind, some i, 1⟩ ?_⟩
          simp only [PMutex.lock, owner]
      | relock => cases held
      | unlock =>
          rw [Alnp.MutexType.held] at held
          split at held <;> cases held
      | ended => exact absurd rfl working
  | some k =>
      obtain ⟨inside, positive⟩ := inv.owner k owner
      have there : threads[k]? = some threads[k] := List.getElem?_eq_getElem inside
      have held := inv.held_eq k _ there
      have possible := inv.possible k _ there
      rw [if_pos owner] at held
      generalize threads[k] = v at there held possible
      cases v with
      | lock => exact absurd held (Nat.ne_of_lt positive)
      | relock =>
          have twice : 1 < k := possible
          have errorcheck : m.kind = .errorcheck :=
            inv.kind_eq.trans (safe.resolve_right (by omega))
          refine ⟨k, _, _, _, there, .relockFailed m ?_⟩
          simp only [PMutex.lock, owner, errorcheck, ↓reduceIte]
      | unlock => exact ⟨k, _, _, _, there, .unlock m⟩
      | ended =>
          rw [Alnp.MutexType.held] at held
          split at held
          · next both =>
              rcases safe with errorcheck | few
              · cases errorcheck.symm.trans both.2
              · omega
          · omega

/-- **Error checking.**  Every run ends: `main` has returned, with the mutex free and every thread
ended, or `pthread_create` has failed. -/
theorem errorcheck_terminates (n : Nat) :
    (machine .errorcheck n).Terminates fun s =>
      s.main = .failed ∨
        s.main = .returned ∧ s.shared.owner = none ∧ ∀ w ∈ s.workers, w = .ended := by
  refine Machine.terminates_of_descends (descends .errorcheck n) fun s reached stuck => ?_
  have inv := inv_of_reachable reached
  rcases Crew.stuck_cases reached stuck with returned | failed | ⟨idle, atHead | ⟨-, atJoin⟩⟩
  · obtain ⟨-, ended⟩ := Crew.ended_of_returned reached returned
    have ended : ∀ w ∈ s.workers, w = .ended := fun w member => of_decide_eq_true (ended w member)
    refine .inr ⟨returned, ?_, ended⟩
    cases owner : s.shared.owner with
    | none => rfl
    | some k =>
        obtain ⟨inside, positive⟩ := inv.owner k owner
        have held := inv.held_eq k _ (List.getElem?_eq_getElem inside)
        rw [ended _ (List.getElem_mem inside), if_pos owner,
          Alnp.MutexType.held, if_neg fun both => nomatch both.2] at held
        omega
  · exact .inl failed
  · obtain ⟨-, -, unprepared⟩ := atHead
    exact absurd rfl (unprepared s.shared)
  · obtain ⟨i, w, -, here, working⟩ := atJoin
    have working : w ≠ .ended := of_decide_eq_false working
    obtain ⟨j, v, v', m', there, acts⟩ := inv.exists_act (.inl rfl) here working
    exact absurd acts (idle j v m' v' there)

/-! ## The other types -/

/-- `main` can come to its end where nobody has to wait for ever. -/
theorem exists_returned (safe : kind = .errorcheck ∨ n ≤ 2) :
    ∃ s, (machine kind n).Reachable s ∧ s.main = .returned := by
  obtain ⟨s, reached, stuck, ends⟩ := Crew.exists_end (descends kind n) fun _ => rfl
  have formed := Crew.formed_of_reachable reached
  rcases Crew.stuck_cases reached stuck with returned | failed | ⟨idle, atHead | ⟨all, atJoin⟩⟩
  · exact ⟨s, reached, returned⟩
  · rw [failed] at ends
    rcases ends with ⟨i, other⟩ | other <;> cases other
  · rw [atHead.1] at ends
    rcases ends with ⟨i, other⟩ | other <;> cases other
  · obtain ⟨i, w, -, here, working⟩ := atJoin
    have working : w ≠ .ended := of_decide_eq_false working
    have few : kind = .errorcheck ∨ s.workers.length ≤ 2 := by
      rw [all]
      exact safe
    obtain ⟨j, v, v', m', there, acts⟩ := (inv_of_reachable reached).exists_act few here working
    exact absurd acts (idle j v m' v' there)

/-- Three threads can share a recursive mutex: the last one ends with the mutex locked. -/
theorem exists_returned_three :
    ∃ s, (machine .recursive 3).Reachable s ∧ s.main = .returned := by
  have made : (machine .recursive 3).Reachable
      ⟨.join 0, ⟨.recursive, none, 0⟩, [.lock, .lock, .lock]⟩ := Crew.reachable_made fun _ => rfl
  have first := (made.tail (.act _ 0 _ _ _ trivial rfl (.lock _ _ rfl))).tail
    (.act _ 0 _ _ _ trivial rfl (.unlock _))
  have second := (first.tail (.act _ 1 _ _ _ trivial rfl (.lock _ _ rfl))).tail
    (.act _ 1 _ _ _ trivial rfl (.unlock _))
  have twice := (second.tail (.act _ 2 _ _ _ trivial rfl (.lock _ _ rfl))).tail
    (.act _ 2 _ _ _ trivial rfl (.relock _ _ rfl))
  have last := twice.tail (.act _ 2 _ _ _ trivial rfl (.unlock _))
  have joined := ((last.tail (.join _ 0 _ rfl rfl rfl)).tail (.join _ 1 _ rfl rfl rfl)).tail
    (.join _ 2 _ rfl rfl rfl)
  exact ⟨_, joined.tail (.joined _ rfl), rfl⟩

/-- **Locking twice.**  `main` can return exactly if the mutex checks for errors, or counts with at
most three threads, or there are at most two threads: a thread that has locked a normal mutex twice
waits for itself, and one that has locked a recursive mutex twice ends with it locked. -/
theorem returns_iff (kind : Kind) (n : Nat) :
    (∃ s, (machine kind n).Reachable s ∧ s.main = .returned) ↔
      kind = .errorcheck ∨ kind = .recursive ∧ n ≤ 3 ∨ n ≤ 2 := by
  constructor
  · rintro ⟨s, reached, returned⟩
    have inv := inv_of_reachable reached
    obtain ⟨all, ended⟩ := Crew.ended_of_returned reached returned
    have all : s.workers.length = n := all
    have here (i : Nat) (lt : i < n) : s.workers[i]? = some .ended := by
      have inside : i < s.workers.length := all ▸ lt
      have done : s.workers[i] = .ended := of_decide_eq_true (ended _ (List.getElem_mem inside))
      rw [List.getElem?_eq_getElem inside, done]
    cases kind with
    | errorcheck => exact .inl rfl
    | normal =>
        refine .inr (.inr (Nat.le_of_not_lt fun many => ?_))
        have few : 2 ≤ 1 := inv.possible 2 _ (here 2 many) rfl
        omega
    | recursive =>
        refine .inr (.inl ⟨rfl, Nat.le_of_not_lt fun many => ?_⟩)
        have second := (inv.owner_eq (here 2 (by omega)) (by decide)).1
        have third := (inv.owner_eq (here 3 many) (by decide)).1
        cases second.symm.trans third
  · rintro (errorcheck | ⟨rfl, few⟩ | few)
    · exact exists_returned (.inl errorcheck)
    · rcases Nat.le_succ_iff.mp few with fewer | rfl
      · exact exists_returned (.inr fewer)
      · exact exists_returned_three
    · exact exists_returned (.inr few)

end Alnp.MutexType
