import Alnp.Lib.Crew

/-!
# The permits of `posix_nameless_sem.c`

`main` of `Chapter05/posix_nameless_sem.c` starts `MAX_CHILD_THREAD` threads and takes a permit of a
semaphore of `n_count` for each (a negative `n_count` ends the program at `sem_init`); a thread
returns its permit, except the one with index 11, which ends without.

* `inside_le_of_reachable`: the permits are with the semaphore, the threads or the one that has kept
  its own, so at most `n_count` threads are at work at once.
* `nameless_terminates`: every run ends, but with less than two permits not at the end of `main`.
-/

namespace Alnp.NamelessSem

def maxChildThread : Nat := 30

/-- Where a thread is. -/
inductive Thread
  /-- at the test `t_arg->idx == 11` -/
  | test
  /-- at `sem_post` -/
  | post
  | ended
  deriving DecidableEq

/-- An action of the thread with index `idx`, from and to a value of the semaphore. -/
inductive StartChild (idx : Nat) : Nat → Thread → Nat → Thread → Prop
  | leave (value : Nat) : idx = 11 → StartChild idx value .test value .ended
  | sleep (value : Nat) : idx ≠ 11 → StartChild idx value .test value .post
  | post (value : Nat) : StartChild idx value .post (value + 1) .ended

/-- The program; `sem_wait` comes before each thread. -/
def crew : Crew Nat Thread where
  size := maxChildThread
  start _ := .test
  ended w := w = .ended
  prepare _ value value' := 0 < value ∧ value' = value - 1
  act := StartChild
  final i value w value' w' acted := by cases acted <;> rfl

abbrev State := Crew.State Nat Thread

/-- `sem_init` has given the semaphore the value `nCount`. -/
def machine (nCount : Nat) : Machine State := crew.machine nCount

variable {n : Nat} {s t : State}

/-! ## Where the permits are -/

/-- The thread has a permit that it is going to return, unless it is the one with index 11. -/
def Thread.permit : Thread → Nat
  | .test => 1
  | .post => 1
  | .ended => 0

/-- How many threads are at work. -/
def inside (s : State) : Nat := total Thread.permit s.workers

/-- The permit that `main` has taken for a thread that does not exist yet. -/
def mainPermit (s : State) : Nat :=
  match s.main with
  | .make => 1
  | .failed => 1
  | _ => 0

/-- The permit that the thread with index 11 has kept. -/
def kept (workers : List Thread) : Nat := if workers[11]? = some .ended then 1 else 0

structure Inv (n : Nat) (s : State) : Prop where
  permits : s.shared + inside s + mainPermit s + kept s.workers = n
  eleven : s.workers[11]? ≠ some .post
  positive : 0 < s.workers.length + mainPermit s → 1 ≤ n
  many : 12 < s.workers.length + mainPermit s → 2 ≤ n

/-- The thread with index 11 has its permit or has kept it. -/
theorem one_le_of_length {workers : List Thread} (more : 11 < workers.length) :
    1 ≤ total Thread.permit workers + kept workers := by
  have here : workers[11]? = some workers[11] := List.getElem?_eq_getElem more
  rw [kept, here]
  split
  · omega
  · next working =>
      have permit : 1 ≤ workers[11].permit := by
        generalize workers[11] = w at working
        cases w with
        | test => exact Nat.le_refl 1
        | post => exact Nat.le_refl 1
        | ended => exact absurd rfl working
      have balance := total_set Thread.permit .ended here
      have none : Thread.ended.permit = 0 := rfl
      omega

theorem kept_append (workers : List Thread) : kept (workers ++ [.test]) = kept workers := by
  have same : (workers ++ [.test])[11]? = some .ended ↔ workers[11]? = some .ended := by
    rcases Nat.lt_or_ge 11 workers.length with old | new
    · rw [List.getElem?_append_left old]
    · rw [List.getElem?_append_right new, List.getElem?_eq_none new]
      refine iff_of_false (fun here => ?_) nofun
      cases List.mem_singleton.mp (List.mem_of_getElem? here)
  simp only [kept, same]

theorem kept_set {workers : List Thread} {i : Nat} (w : Thread) (other : i ≠ 11) :
    kept (workers.set i w) = kept workers := by
  rw [kept, kept, List.getElem?_set_ne other]

theorem Inv.act (inv : Inv n s) {i : Nat} {w w' : Thread} {value : Nat}
    (here : s.workers[i]? = some w) (acted : StartChild i s.shared w value w') :
    Inv n { s with shared := value, workers := s.workers.set i w' } := by
  obtain ⟨permits, eleven, positive, many⟩ := inv
  have inside' := (List.getElem?_eq_some_iff.mp here).1
  have balance := total_set Thread.permit w' here
  have length : (s.workers.set i w').length = s.workers.length := List.length_set
  have self : (s.workers.set i w')[i]? = some w' := List.getElem?_set_self inside'
  unfold inside at permits
  cases acted with
  | leave index =>
      subst index
      have before : kept s.workers = 0 := if_neg (by rw [here]; nofun)
      have after : kept (s.workers.set 11 .ended) = 1 := if_pos self
      refine ⟨?_, ?_, length ▸ positive, length ▸ many⟩
      · change s.shared + total Thread.permit (s.workers.set 11 .ended) + mainPermit s +
          kept (s.workers.set 11 .ended) = n
        simp only [Thread.permit] at balance
        omega
      · change (s.workers.set 11 .ended)[11]? ≠ some .post
        rw [self]
        nofun
  | sleep other =>
      refine ⟨?_, ?_, length ▸ positive, length ▸ many⟩
      · change s.shared + total Thread.permit (s.workers.set i .post) + mainPermit s +
          kept (s.workers.set i .post) = n
        rw [kept_set _ other]
        simp only [Thread.permit] at balance
        omega
      · change (s.workers.set i .post)[11]? ≠ some .post
        rw [List.getElem?_set_ne other]
        exact eleven
  | post =>
      have other : i ≠ 11 := by
        rintro rfl
        exact eleven here
      refine ⟨?_, ?_, length ▸ positive, length ▸ many⟩
      · change s.shared + 1 + total Thread.permit (s.workers.set i .ended) + mainPermit s +
          kept (s.workers.set i .ended) = n
        rw [kept_set _ other]
        simp only [Thread.permit] at balance
        omega
      · change (s.workers.set i .ended)[11]? ≠ some .post
        rw [List.getElem?_set_ne other]
        exact eleven

theorem Inv.step (inv : Inv n s) (step : Crew.Step crew s t) : Inv n t := by
  have ⟨permits, eleven, positive, many⟩ := inv
  cases step with
  | prepare value head less prepared =>
      obtain ⟨some, rfl⟩ := prepared
      have none : mainPermit s = 0 := by rw [mainPermit, head]
      have one {value : Nat} : mainPermit { s with main := .make, shared := value } = 1 := rfl
      rw [none] at permits positive many
      refine ⟨?_, eleven, fun _ => by omega, fun more => ?_⟩
      · rw [one]
        change s.shared - 1 + inside s + 1 + kept s.workers = n
        omega
      · -- The thread with index 11 has a permit besides the one that has been there.
        rw [one] at more
        have long : 12 ≤ s.workers.length := by dsimp only at more; omega
        have eleventh := one_le_of_length long
        unfold inside at permits
        omega
  | make make =>
      have one : mainPermit s = 1 := by rw [mainPermit, make]
      rw [one] at permits positive many
      refine ⟨?_, ?_, fun _ => positive (Nat.succ_pos _), fun more => many ?_⟩
      · change s.shared + total Thread.permit (s.workers ++ [.test]) + 0 +
          kept (s.workers ++ [.test]) = n
        unfold inside total at permits
        rw [kept_append, total, List.map_append, List.sum_append]
        change s.shared + ((s.workers.map Thread.permit).sum + 1) + 0 + kept s.workers = n
        omega
      · change (s.workers ++ [.test])[11]? ≠ some .post
        rcases Nat.lt_or_ge 11 s.workers.length with old | new
        · rw [List.getElem?_append_left old]
          exact eleven
        · rw [List.getElem?_append_right new]
          intro here
          cases List.mem_singleton.mp (List.mem_of_getElem? here)
      · change 12 < (s.workers ++ [Thread.test]).length + 0 at more
        rw [List.length_append] at more
        exact more
  | fail make =>
      have one : mainPermit s = 1 := by rw [mainPermit, make]
      rw [one] at permits positive many
      exact ⟨permits, eleven, positive, many⟩
  | made head all =>
      have none : mainPermit s = 0 := by rw [mainPermit, head]
      rw [none] at permits positive many
      exact ⟨permits, eleven, positive, many⟩
  | join i w joining here ended =>
      have none : mainPermit s = 0 := by rw [mainPermit, joining]
      rw [none] at permits positive many
      exact ⟨permits, eleven, positive, many⟩
  | joined joining =>
      have none : mainPermit s = 0 := by rw [mainPermit, joining]
      rw [none] at permits positive many
      exact ⟨permits, eleven, positive, many⟩
  | act i w w' value alive here acted => exact inv.act here acted

theorem inv_of_reachable (reached : (machine n).Reachable s) : Inv n s := by
  apply reached.invariant (P := Inv n)
  · rintro s rfl
    exact ⟨rfl, nofun, nofun, nofun⟩
  · exact fun s t _ inv step => inv.step step

/-- **Permits.**  The value of the semaphore, the threads at work and the permit of the thread with
index 11 are `n_count` together, up to one permit that `main` is about to hand to a thread; so at
most `n_count` threads are at work at once. -/
theorem inside_le_of_reachable (n : Nat) (s : State) (reached : (machine n).Reachable s) :
    s.shared + inside s + mainPermit s + kept s.workers = n ∧ inside s ≤ n := by
  have permits := (inv_of_reachable reached).permits
  exact ⟨permits, by omega⟩

/-- Two permits; the first thread has returned its own, the second is at work. -/
theorem inside_le_two :
    ∃ s : State, (machine 2).Reachable s ∧ s.shared = 1 ∧ s.workers = [.ended, .post] ∧
      inside s ≤ 2 := by
  have start : (machine 2).Reachable _ := .of_init rfl
  have first := (start.tail (.prepare _ 1 rfl (by decide) ⟨by decide, rfl⟩)).tail (.make _ rfl)
  have slept := first.tail (.act _ 0 _ _ _ trivial rfl (.sleep _ (by decide)))
  have posted := slept.tail (.act _ 0 _ _ _ trivial rfl (.post _))
  have second := (posted.tail (.prepare _ 1 rfl (by decide) ⟨by decide, rfl⟩)).tail (.make _ rfl)
  have reached := second.tail (.act _ 1 _ _ _ trivial rfl (.sleep _ (by decide)))
  exact ⟨_, reached, rfl, rfl, (inside_le_of_reachable 2 _ reached).2⟩

/-! ## Every run ends -/

/-- How many actions a thread still has to take. -/
def Thread.rank : Thread → Nat
  | .test => 2
  | .post => 1
  | .ended => 0

theorem StartChild.lowers {i value value' : Nat} {w w' : Thread}
    (acted : StartChild i value w value' w') : w'.rank < w.rank := by
  cases acted with
  | leave => exact Nat.succ_pos 1
  | sleep => exact Nat.lt_succ_self 1
  | post => exact Nat.lt_succ_self 0

/-- A thread that has not ended can go on. -/
theorem exists_act (i value : Nat) {w : Thread} (working : w ≠ .ended) :
    ∃ value' w', StartChild i value w value' w' := by
  cases w with
  | test =>
      by_cases index : i = 11
      · exact ⟨_, _, .leave value index⟩
      · exact ⟨_, _, .sleep value index⟩
  | post => exact ⟨_, _, .post value⟩
  | ended => exact absurd rfl working

theorem permits_eq_zero {workers : List Thread} (ended : ∀ w ∈ workers, w = .ended) :
    total Thread.permit workers = 0 := by
  refine List.sum_eq_zero fun permit member => ?_
  obtain ⟨w, among, rfl⟩ := List.mem_map.mp member
  rw [ended w among]
  rfl

/-- The end of `main` for a semaphore of `n` permits, and where it waits for ever without one. -/
def Outcome (n : Nat) (s : State) : Prop :=
  if 2 ≤ n then s.main = .returned ∧ s.shared = n - 1
  else s.main = .head ∧ s.shared = 0 ∧ s.workers.length = if n = 1 then 12 else 0

/-- **The end of a run.**  With two permits or more, every run comes to the end of `main`, where the
semaphore has lost one of them; with one permit every run stops in front of the thread with index
12, and with none in front of the first; unless `pthread_create` fails. -/
theorem nameless_terminates (n : Nat) :
    (machine n).Terminates fun s => s.main = .failed ∨ Outcome n s := by
  have descends : (machine n).Descends (crew.measure Thread.rank 2) :=
    Crew.descends (fun _ => Nat.le_refl 2) fun _ _ _ _ _ acted => acted.lowers
  refine Machine.terminates_of_descends descends fun s reached stuck => ?_
  obtain ⟨permits, -, positive, many⟩ := inv_of_reachable reached
  rcases Crew.stuck_cases reached stuck with returned | failed | ⟨idle, atHead | ⟨-, atJoin⟩⟩
  · right
    obtain ⟨all, ended⟩ := Crew.ended_of_returned reached returned
    have all : s.workers.length = 30 := all
    have ended : ∀ w ∈ s.workers, w = .ended := fun w member => of_decide_eq_true (ended w member)
    have none : mainPermit s = 0 := by rw [mainPermit, returned]
    have enough : 2 ≤ n := many (by omega)
    have inside' : 11 < s.workers.length := by omega
    have lost : kept s.workers = 1 := by
      refine if_pos ?_
      rw [List.getElem?_eq_getElem inside', ended _ (List.getElem_mem inside')]
    rw [inside, permits_eq_zero ended, none, lost] at permits
    rw [Outcome, if_pos enough]
    exact ⟨returned, by omega⟩
  · exact .inl failed
  · right
    obtain ⟨head, less, blocked⟩ := atHead
    have ended : ∀ w ∈ s.workers, w = .ended := by
      intro w member
      obtain ⟨i, here⟩ := List.mem_iff_getElem?.mp member
      by_contra working
      obtain ⟨value, w', acts⟩ := exists_act i s.shared working
      exact idle i w value w' here acts
    have zero : s.shared = 0 := by
      by_contra some
      exact blocked _ ⟨Nat.pos_of_ne_zero some, rfl⟩
    have none : mainPermit s = 0 := by rw [mainPermit, head]
    rw [inside, permits_eq_zero ended, none, zero] at permits
    rw [none] at positive many
    have few : ¬ 2 ≤ n := by
      rw [kept] at permits
      split at permits <;> omega
    rw [Outcome, if_neg few]
    refine ⟨head, zero, ?_⟩
    rw [kept] at permits
    split at permits
    · next here =>
        have inside' := (List.getElem?_eq_some_iff.mp here).1
        rw [if_pos (by omega)]
        omega
    · rw [if_neg (by omega)]
      omega
  · obtain ⟨i, w, -, here, working⟩ := atJoin
    have working : w ≠ .ended := of_decide_eq_false working
    obtain ⟨value, w', acts⟩ := exists_act i s.shared working
    exact absurd acts (idle i w value w' here)

end Alnp.NamelessSem
