import Mathlib.Data.Finset.Card
import Alnp.Kernel.Sigchld
import Alnp.Lib.Machine

/-!
# The children and permits of `posix_named_sem_cnt.c`

`main` of `Chapter05/posix_named_sem_cnt.c` takes a permit of a semaphore of `n_count` for each of
the `max_child` children it forks; a child returns the permit itself, but child 11 aborts instead.
The handler `check_abrt` of `SIGCHLD` reaps one child, returns the permit of an aborted one and
counts `cur_child` down, and `main` waits for `cur_child` to reach 0.

One run of `check_abrt` stands for one child, but terminations merge into one pending `SIGCHLD`.
`restored_iff_of_reachable` says that the count and the permits come out right exactly if no child
has terminated while a `SIGCHLD` was pending.
-/

namespace Alnp.PosixNamedSem

def maxChild : Nat := 30

/-- The child that `process_child` aborts. -/
def abortedChild : Nat := 11

/-- Where `main` is. -/
inductive MainAt
  /-- at the test `i < max_child` -/
  | head
  | semWait
  | fork
  /-- at `while (cur_child > 0)` -/
  | spin
  /-- behind that loop -/
  | done
  /-- at `exit` because `fork` has failed -/
  | failed

/-- Where `check_abrt` is. -/
inductive CheckAbrt
  /-- It does not run. -/
  | idle
  | waitpid
  /-- at the test of `status` -/
  | test (status : Int)
  /-- at `cur_child--` -/
  | count
  /-- at `exit` because `waitpid` has returned -1 -/
  | exited

/-- Behind `waitpid`; `garbage` is what the uninitialised `status` holds. -/
def CheckAbrt.next (garbage : Int) : Waited Int → CheckAbrt
  | .child _ status => .test status
  | .none => .test garbage
  | .echild => .exited

structure System where
  main : MainAt
  i : Nat
  handler : CheckAbrt
  semval : Nat
  curChild : Int
  /-- The children behind their own `sem_post`. -/
  posted : Finset Nat
  /-- Child `i` is the one forked in round `i`. -/
  children : Sigchld Int

inductive SystemStep : System → System → Prop
  | head (s : System) :
      s.main = .head → s.handler = .idle →
      SystemStep s { s with main := if s.i < maxChild then .semWait else .spin }
  | semWait (s : System) :
      s.main = .semWait → s.handler = .idle → 0 < s.semval →
      SystemStep s { s with main := .fork, semval := s.semval - 1 }
  | fork (s : System) :
      s.main = .fork → s.handler = .idle →
      SystemStep s { s with main := .head, i := s.i + 1, children := s.children.fork s.i }
  | forkFailed (s : System) :
      s.main = .fork → s.handler = .idle → SystemStep s { s with main := .failed }
  | spin (s : System) :
      s.main = .spin → s.handler = .idle → s.curChild ≤ 0 → SystemStep s { s with main := .done }
  /-- `sem_post` of a child behind `process_child`. -/
  | post (s : System) (c : Nat) :
      c ∈ s.children.running → c ∉ s.posted → c ≠ abortedChild →
      SystemStep s { s with semval := s.semval + 1, posted := insert c s.posted }
  /-- `exit(EXIT_SUCCESS)` of a child. -/
  | exit (s : System) (c : Nat) :
      c ∈ s.children.running → c ∈ s.posted →
      SystemStep s { s with children := s.children.terminate c 0 }
  /-- `SIGABRT`, with or without a core dump. -/
  | abort (s : System) (status : Int) :
      abortedChild ∈ s.children.running → status = 6 ∨ status = 134 →
      SystemStep s { s with children := s.children.terminate abortedChild status }
  | deliver (s : System) :
      s.main ≠ .failed → s.handler = .idle → s.children.pending = true →
      SystemStep s { s with handler := .waitpid, children := s.children.deliver }
  | waitpid (s : System) (waited : Waited Int) (garbage : Int) (children : Sigchld Int) :
      s.handler = .waitpid → s.children.Waitpid waited children →
      SystemStep s { s with handler := .next garbage waited, children := children }
  | test (s : System) (status : Int) :
      s.handler = .test status →
      SystemStep s
        { s with handler := .count, semval := if status ≠ 0 then s.semval + 1 else s.semval }
  | count (s : System) :
      s.handler = .count →
      SystemStep s { s with handler := .idle, curChild := s.curChild - 1 }

/-- The program once it has created the semaphore and installed the handler. -/
def machine (nCount : Nat) : Machine System where
  init s := s = ⟨.head, 0, .idle, nCount, maxChild, ∅, .quiet ∅⟩
  step := SystemStep

/-- No child terminates in this step if a `SIGCHLD` is pending. -/
def Apart (s t : System) : Prop :=
  s.children.pending = true → s.children.running ⊆ t.children.running

/-- The program in the runs in which no two terminations share a `SIGCHLD`. -/
def spaced (nCount : Nat) : Machine System :=
  (machine nCount).guarded Apart

/-! ## The account -/

/-- `main` is in the body of its loop. -/
def MainAt.Inside : MainAt → Prop
  | .semWait => True
  | .fork => True
  | .failed => True
  | _ => False

/-- `main` has a permit that no child has got yet. -/
def MainAt.held : MainAt → Nat
  | .fork => 1
  | .failed => 1
  | _ => 0

/-- The handler has been started for a child that it has not reaped yet. -/
def CheckAbrt.taken : CheckAbrt → Nat
  | .waitpid => 1
  | _ => 0

/-- The handler has reaped a child that it has not counted yet. -/
def CheckAbrt.reaped : CheckAbrt → Nat
  | .test _ => 1
  | .count => 1
  | _ => 0

/-- The handler has reaped a child whose permit it has still to return. -/
def CheckAbrt.owed : CheckAbrt → Nat
  | .test status => if status ≠ 0 then 1 else 0
  | _ => 0

/-- The zombies whose permit has still to be returned. -/
def aborted (zombies : List (Nat × Int)) : Nat :=
  zombies.countP fun z => z.2 ≠ 0

/-- Where the children forked and the permits are. -/
structure Accounted (nCount : Nat) (s : System) : Prop where
  announced : s.children.notice.Balanced s.handler.taken
  alive : s.handler ≠ .exited
  counted : s.curChild + s.i =
    maxChild + s.children.running.card + s.children.zombies.length + s.handler.reaped
  permits : s.semval + s.main.held + (s.children.running \ s.posted).card +
    aborted s.children.zombies + s.handler.owed = nCount
  forked : ∀ c ∈ s.children.running ∪ s.posted, c < s.i
  unposted : abortedChild ∉ s.posted
  looping : s.main.Inside → s.i < maxChild

variable {n : Nat} {s t : System}

theorem aborted_append (before after : List (Nat × Int)) :
    aborted (before ++ after) = aborted before + aborted after :=
  List.countP_append

/-- A child terminates with its permit returned, or as a zombie that owes it. -/
theorem Accounted.terminate (account : Accounted n s) {c : Nat} {status : Int}
    (running : c ∈ s.children.running)
    (owes : ((s.children.running.erase c) \ s.posted).card + (if status ≠ 0 then 1 else 0) =
      (s.children.running \ s.posted).card) :
    Accounted n { s with children := s.children.terminate c status } := by
  obtain ⟨announced, alive, counted, permits, forked, unposted, looping⟩ := account
  refine ⟨?_, alive, ?_, ?_, ?_, unposted, looping⟩
  · rw [Sigchld.notice_terminate]
    exact announced.raise
  · have card := Finset.card_erase_add_one running
    simp only [Sigchld.terminate, List.length_append, List.length_singleton]
    omega
  · have zombie : aborted [(c, status)] = if status ≠ 0 then 1 else 0 := by
      simp [aborted, List.countP_cons]
    simp only [Sigchld.terminate, aborted_append, zombie]
    omega
  · intro d member
    refine forked d (Finset.union_subset_union_left ?_ member)
    exact Finset.erase_subset _ _

theorem Accounted.step (account : Accounted n s) (step : SystemStep s t) : Accounted n t := by
  have ⟨announced, alive, counted, permits, forked, unposted, looping⟩ := account
  cases step with
  | head head idle =>
      refine ⟨announced, alive, counted, ?_, forked, unposted, ?_⟩
      · rw [head] at permits
        dsimp only
        split <;> exact permits
      · dsimp only
        split
        · rename_i more
          exact fun _ => more
        · exact False.elim
  | semWait waiting idle some =>
      rw [waiting] at permits looping
      refine ⟨announced, alive, counted, ?_, forked, unposted, fun _ => looping trivial⟩
      simp only [MainAt.held] at permits ⊢
      omega
  | fork forking idle =>
      rw [forking] at permits
      -- The new child has a number that no child has had.
      have unused : s.i ∉ s.children.running ∪ s.posted := fun used =>
        absurd (forked _ used) (Nat.lt_irrefl _)
      rw [Finset.mem_union, not_or] at unused
      obtain ⟨notRunning, notPosted⟩ := unused
      refine ⟨announced, alive, ?_, ?_, ?_, unposted, False.elim⟩
      · simp only [Sigchld.fork, Finset.card_insert_of_notMem notRunning]
        push_cast
        omega
      · have card : (insert s.i s.children.running \ s.posted).card =
            (s.children.running \ s.posted).card + 1 := by
          rw [Finset.insert_sdiff_of_notMem _ notPosted, Finset.card_insert_of_notMem]
          exact fun member => notRunning (Finset.mem_sdiff.mp member).1
        simp only [Sigchld.fork, MainAt.held, card] at permits ⊢
        omega
      · simp only [Sigchld.fork, Finset.insert_union, Finset.mem_insert]
        intro c member
        rcases member with rfl | member
        · exact Nat.lt_succ_self _
        · exact (forked c member).trans (Nat.lt_succ_self _)
  | forkFailed forking idle =>
      rw [forking] at permits looping
      exact ⟨announced, alive, counted, permits, forked, unposted, looping⟩
  | spin spinning idle none =>
      rw [spinning] at permits
      exact ⟨announced, alive, counted, permits, forked, unposted, False.elim⟩
  | post c running fresh ordinary =>
      refine ⟨announced, alive, counted, ?_, ?_, ?_, looping⟩
      · have taken : c ∈ s.children.running \ s.posted := Finset.mem_sdiff.mpr ⟨running, fresh⟩
        have card := Finset.card_erase_add_one taken
        rw [← Finset.sdiff_insert] at card
        dsimp only
        omega
      · simp only [Finset.union_insert, Finset.mem_insert]
        intro d member
        rcases member with rfl | member
        · exact forked _ (Finset.mem_union_left _ running)
        · exact forked d member
      · simp only [Finset.mem_insert, not_or]
        exact ⟨ordinary.symm, unposted⟩
  | exit c running posted =>
      refine account.terminate running ?_
      have gone : c ∉ s.children.running \ s.posted := fun member =>
        (Finset.mem_sdiff.mp member).2 posted
      rw [Finset.erase_sdiff_comm, Finset.erase_eq_of_notMem gone]
      rfl
  | abort status running sigabrt =>
      refine account.terminate running ?_
      have taken : abortedChild ∈ s.children.running \ s.posted :=
        Finset.mem_sdiff.mpr ⟨running, unposted⟩
      have nonzero : status ≠ 0 := by omega
      rw [Finset.erase_sdiff_comm, if_pos nonzero]
      exact Finset.card_erase_add_one taken
  | deliver alive' idle up =>
      rw [idle] at announced counted permits
      exact ⟨announced.accept up, nofun, counted, permits, forked, unposted, looping⟩
  | waitpid waited garbage children waiting wait =>
      rw [waiting] at announced counted permits
      have some : s.children.zombies ≠ [] := List.ne_nil_of_length_pos announced.waiting_pos
      cases wait with
      | none empty _ => exact absurd empty some
      | echild empty _ => exact absurd empty some
      | child pid status before after split =>
          rw [split] at counted permits
          refine ⟨?_, nofun, ?_, ?_, forked, unposted, looping⟩
          · rw [(Sigchld.Waitpid.child pid status before after split).notice_child]
            exact announced.deal
          · simp only [List.length_append, List.length_cons, CheckAbrt.next, CheckAbrt.reaped]
              at counted ⊢
            omega
          · simp only [aborted, List.countP_append, List.countP_cons, CheckAbrt.next,
              CheckAbrt.owed, decide_eq_true_eq] at permits ⊢
            omega
  | test status testing =>
      rw [testing] at announced counted permits
      refine ⟨announced, nofun, counted, ?_, forked, unposted, looping⟩
      simp only [CheckAbrt.owed] at permits ⊢
      split_ifs at permits ⊢ <;> omega
  | count counting =>
      rw [counting] at announced counted permits
      refine ⟨announced, nofun, ?_, permits, forked, unposted, looping⟩
      simp only [CheckAbrt.reaped] at counted ⊢
      omega

theorem accounted_of_reachable (reached : (machine n).Reachable s) : Accounted n s := by
  apply reached.invariant (P := Accounted n)
  · intro s start
    subst start
    exact ⟨rfl, nofun, rfl, rfl, nofun, nofun, False.elim⟩
  · exact fun s t _ account step => account.step step

/-! ## Signals that merge -/

/-- The count of merged signals grows exactly in the steps that are not `Apart`. -/
theorem SystemStep.merged (step : SystemStep s t) :
    s.children.merged ≤ t.children.merged ∧
      (t.children.merged = s.children.merged ↔ Apart s t) := by
  have terminate {c : Nat} (running : c ∈ s.children.running) (status : Int) :
      s.children.merged ≤ (s.children.terminate c status).merged ∧
        ((s.children.terminate c status).merged = s.children.merged ↔
          (s.children.pending = true → s.children.running ⊆ s.children.running.erase c)) := by
    have shrinks : ¬ s.children.running ⊆ s.children.running.erase c := fun subset =>
      Finset.notMem_erase c _ (subset running)
    cases up : s.children.pending <;> simp [Sigchld.terminate, up, shrinks]
  cases step with
  | fork forking idle =>
      exact ⟨le_rfl, fun _ _ => Finset.subset_insert _ _, fun _ => rfl⟩
  | exit c running posted => exact terminate running 0
  | abort status running sigabrt => exact terminate running status
  | waitpid waited garbage children waiting wait =>
      cases wait <;> exact ⟨le_rfl, fun _ _ => subset_rfl, fun _ => rfl⟩
  | _ => exact ⟨le_rfl, fun _ _ => subset_rfl, fun _ => rfl⟩

/-- A run is `spaced` as long as no signal has been merged. -/
theorem spaced_iff_merged (reached : (machine n).Reachable s) :
    (spaced n).Reachable s ↔ s.children.merged = 0 := by
  constructor
  · intro run
    apply run.invariant (P := fun s => s.children.merged = 0)
    · intro s start
      subst start
      rfl
    · exact fun s t _ none step => (step.1.merged.2.mpr step.2).trans none
  · intro none
    have either : (spaced n).Reachable s ∨ 0 < s.children.merged := by
      apply reached.or_damaged
      · exact fun s start => start
      · intro s t _ _ step
        obtain ⟨grows, same⟩ := step.merged
        rcases Nat.lt_or_eq_of_le grows with more | equal
        · exact .inr (Nat.lt_of_le_of_lt (Nat.zero_le _) more)
        · exact .inl ⟨step, same.mp equal.symm⟩
      · exact fun s t _ some step => Nat.lt_of_lt_of_le some step.merged.1
    rcases either with run | some
    · exact run
    · exact absurd none (Nat.ne_of_gt some)

/-! ## When all children have terminated -/

/-- Every child is counted and every permit is back. -/
def Restored (nCount : Nat) (s : System) : Prop :=
  s.curChild = 0 ∧ s.semval = nCount

/-- **Accounting of children and permits.**  Once all children have terminated and no `SIGCHLD` is
pending, `cur_child` is 0 and the semaphore is back at `n_count` exactly if no child has terminated
while a `SIGCHLD` was pending and the last run of `check_abrt` is over. -/
theorem restored_iff_of_reachable (reached : (machine n).Reachable s) (forked : s.i = maxChild)
    (ended : s.children.running = ∅) (down : s.children.pending = false) :
    Restored n s ↔ (spaced n).Reachable s ∧ s.handler = .idle := by
  have account := accounted_of_reachable reached
  have waiting : s.children.zombies.length = s.handler.taken + s.children.merged :=
    account.announced.waiting_eq down
  have counted := account.counted
  rw [forked, ended, Finset.card_empty] at counted
  rw [spaced_iff_merged reached]
  constructor
  · intro restored
    have zero := restored.1
    have none : s.handler.taken + s.children.merged + s.handler.reaped = 0 := by omega
    refine ⟨by omega, ?_⟩
    have alive := account.alive
    cases pc : s.handler with
    | idle => rfl
    | waitpid => simp [pc, CheckAbrt.taken] at none
    | test status => simp [pc, CheckAbrt.reaped] at none
    | count => simp [pc, CheckAbrt.reaped] at none
    | exited => exact absurd pc alive
  · intro none
    obtain ⟨merged, idle⟩ := none
    rw [idle, merged] at waiting
    rw [idle, waiting] at counted
    have empty : s.children.zombies = [] := List.length_eq_zero_iff.mp waiting
    -- All rounds are over, so `main` holds no permit.
    have unheld : s.main.held = 0 := by
      have looping := account.looping
      cases pc : s.main with
      | fork => exact absurd (looping (pc ▸ trivial)) (Nat.not_lt.mpr forked.ge)
      | failed => exact absurd (looping (pc ▸ trivial)) (Nat.not_lt.mpr forked.ge)
      | _ => rfl
    have permits := account.permits
    rw [unheld, ended, empty, idle, Finset.empty_sdiff, Finset.card_empty] at permits
    simp only [CheckAbrt.taken, CheckAbrt.reaped] at counted
    exact ⟨by omega, permits⟩

/-! ## Runs of whole rounds -/

/-- A round of `main`: it takes a permit and forks. -/
theorem reachable_forked (reached : (machine n).Reachable s) (head : s.main = .head)
    (idle : s.handler = .idle) (more : s.i < maxChild) (some : 0 < s.semval) :
    (machine n).Reachable
      { s with
        main := .head, i := s.i + 1, semval := s.semval - 1, children := s.children.fork s.i } := by
  have tested := reached.tail (SystemStep.head s head idle)
  rw [if_pos more] at tested
  have taken := tested.tail (SystemStep.semWait _ rfl idle some)
  exact taken.tail (SystemStep.fork _ rfl idle)

/-- A child returns its permit and exits. -/
theorem reachable_exited (reached : (machine n).Reachable s) {c : Nat}
    (running : c ∈ s.children.running) (fresh : c ∉ s.posted) (ordinary : c ≠ abortedChild) :
    (machine n).Reachable
      { s with
        semval := s.semval + 1, posted := insert c s.posted,
        children := s.children.terminate c 0 } := by
  have posted := reached.tail (SystemStep.post s c running fresh ordinary)
  exact posted.tail (SystemStep.exit _ c running (Finset.mem_insert_self _ _))

/-- A run of `check_abrt` that reaps the oldest zombie. -/
theorem reachable_handled (reached : (machine n).Reachable s) (head : s.main = .head)
    (idle : s.handler = .idle) (up : s.children.pending = true) {c : Nat} {status : Int}
    {rest : List (Nat × Int)} (zombies : s.children.zombies = (c, status) :: rest) :
    (machine n).Reachable
      { s with
        semval := if status ≠ 0 then s.semval + 1 else s.semval
        curChild := s.curChild - 1
        children := { s.children with pending := false, zombies := rest } } := by
  have alive : s.main ≠ .failed := by
    rw [head]
    exact nofun
  have delivered := reached.tail (SystemStep.deliver s alive idle up)
  have reaped := delivered.tail (.waitpid _ _ 0 _ rfl (.child c status [] rest zombies))
  have tested := reaped.tail (SystemStep.test _ status rfl)
  have counted := tested.tail (SystemStep.count _ rfl)
  rw [← idle] at counted
  exact counted

/-- `main` at the head of its loop with all `k` children forked so far reaped. -/
def resting (nCount k : Nat) (posted : Finset Nat) : System :=
  ⟨.head, k, .idle, nCount, maxChild - k, posted, .quiet ∅⟩

/-- `main` forks child `k`, which terminates and is reaped before the next round. -/
theorem reachable_round {k : Nat} {posted : Finset Nat}
    (reached : (machine (n + 1)).Reachable (resting (n + 1) k posted)) (more : k < maxChild)
    (fresh : k ∉ posted) :
    ∃ posted' ⊆ insert k posted,
      (machine (n + 1)).Reachable (resting (n + 1) (k + 1) posted') := by
  have forked := reachable_forked reached rfl rfl more (Nat.succ_pos n)
  have running : k ∈ ((Sigchld.quiet ∅).fork k : Sigchld Int).running := Finset.mem_insert_self _ _
  have gone : (insert k ∅ : Finset Nat).erase k = ∅ := Finset.erase_insert (Finset.notMem_empty _)
  have count : (maxChild - k : Int) - 1 = maxChild - (k + 1 : Nat) := by omega
  by_cases ordinary : k = abortedChild
  · subst ordinary
    have aborted := forked.tail (SystemStep.abort _ 6 running (.inl rfl))
    have handled := reachable_handled aborted rfl rfl rfl rfl
    refine ⟨posted, Finset.subset_insert _ _, ?_⟩
    simp only [resting, Sigchld.fork, Sigchld.terminate, Sigchld.quiet, gone, count] at handled
    exact handled
  · have exited := reachable_exited forked running fresh ordinary
    have handled := reachable_handled exited rfl rfl rfl rfl
    refine ⟨insert k posted, Finset.Subset.refl _, ?_⟩
    simp only [resting, Sigchld.fork, Sigchld.terminate, Sigchld.quiet, gone, count] at handled
    exact handled

theorem reachable_resting {k : Nat} (le : k ≤ maxChild) :
    ∃ posted ⊆ Finset.range k, (machine (n + 1)).Reachable (resting (n + 1) k posted) := by
  induction k with
  | zero => exact ⟨∅, Finset.Subset.refl _, .of_init rfl⟩
  | succ k ih =>
      obtain ⟨posted, below, reached⟩ := ih (Nat.le_of_succ_le le)
      have fresh : k ∉ posted := fun member =>
        absurd (below member) Finset.notMem_range_self
      obtain ⟨posted', subset, reached'⟩ := reachable_round reached le fresh
      refine ⟨posted', subset.trans ?_, reached'⟩
      rw [Finset.range_add_one]
      exact Finset.insert_subset_insert _ below

/-- All children are reaped one by one. -/
theorem restored_spaced :
    ∃ s, (machine 3).Reachable s ∧ s.i = maxChild ∧ s.children.running = ∅ ∧ Restored 3 s := by
  obtain ⟨posted, -, reached⟩ := reachable_resting (n := 2) (le_refl maxChild)
  have run := (spaced_iff_merged reached).mpr rfl
  exact ⟨_, reached, rfl, rfl, (restored_iff_of_reachable reached rfl rfl rfl).mpr ⟨run, rfl⟩⟩

/-- The last two children terminate together, and one run of `check_abrt` counts one of them. -/
theorem not_forall_restored :
    ¬ ∀ n : Nat, 1 ≤ n → ∀ s, (machine n).Reachable s → s.i = maxChild →
      s.children.running = ∅ → s.children.pending = false → Restored n s := by
  intro always
  obtain ⟨posted, below, reached⟩ := reachable_resting (n := 2) (k := 28) (by decide)
  have fresh {c : Nat} (le : 28 ≤ c) : c ∉ posted := fun member =>
    absurd (Finset.mem_range.mp (below member)) (Nat.not_lt.mpr le)
  have forked := reachable_forked reached rfl rfl (show 28 < 30 by decide) (show 0 < 3 by decide)
  have forked' := reachable_forked forked rfl rfl (show 29 < 30 by decide) (show 0 < 2 by decide)
  have exited := reachable_exited forked' (show 28 ∈ ({29, 28} : Finset Nat) by decide)
    (fresh (by decide)) (by decide)
  have exited' := reachable_exited exited (show 29 ∈ ({29} : Finset Nat) by decide)
    (fun member => (Finset.mem_insert.mp member).elim (by decide) (fresh (by decide))) (by decide)
  have handled := reachable_handled exited' rfl rfl rfl rfl
  have uncounted : (1 : Int) = 0 := (always 3 (by decide) _ handled rfl rfl rfl).1
  exact absurd uncounted (by decide)

end Alnp.PosixNamedSem
