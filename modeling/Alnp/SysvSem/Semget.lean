import Alnp.Kernel.SemTable
import Alnp.Lib.Machine

/-!
# `sysv_semget`

`sysv_semget` of `Chapter05/sysv_sem.c` and `Chapter05/sysv_sem_zwait.c`, which are the same, called
any number of times with the same arguments.  It creates a set and then gives each semaphore its
value in a call of its own; where the key is taken it attaches to the set that is there.

A call that fails between the two steps leaves the set behind, and the next one attaches to it.
`allOrNothing_iff`: the calls of a run are all-or-nothing exactly if `SETVAL` never fails and every
set attached to was created by one of them.
-/

namespace Alnp.SysvSem.Semget

/-- The arguments. -/
structure Args where
  /-- `tok` is not null. -/
  tok : Bool
  semFixkey : Int
  nSem : Nat
  semValue : Int

/-- What the calls inside `sysv_semget` return, where they are made. -/
structure Answers where
  ftok : Int
  semgetExcl : Except Errno Int
  semget : Int
  /-- `SETVAL` is refused for a reason other than the value. -/
  refused : Nat → Bool

/-- A call that has returned the identifier of a set it has created, with what it has stored. -/
structure Completed where
  semId : Int
  stored : List (Nat × Int)

/-- A call: its result, and the sets of the system before and after it. -/
structure Call where
  ret : Int
  before : SemTable
  after : SemTable
  /-- The calls that have completed so far. -/
  completed : List Completed

structure System where
  sets : SemTable
  /-- The identifiers of the sets that `sysv_semget` has created. -/
  created : List Int
  completed : List Completed
  calls : List Call

/-- `sem_key`, or nothing if `ftok` has failed. -/
def Args.semKey (args : Args) (answers : Answers) : Option Int :=
  if args.tok then if answers.ftok = -1 then none else some answers.ftok else some args.semFixkey

/-- The loop of `semctl`, from semaphore `i` on for `k` semaphores: whether it came to its end, what
it has stored, and the sets. -/
def setAll (args : Args) (answers : Answers) (id : Int) :
    Nat → Nat → SemTable → Bool × List (Nat × Int) × SemTable
  | _, 0, t => (true, [], t)
  | i, k + 1, t =>
      match t.setval (answers.refused i) id i args.semValue with
      | none => (false, [], t)
      | some t =>
          let (done, stored, t) := setAll args answers id (i + 1) k t
          (done, (i, args.semValue) :: stored, t)

/-- `sysv_semget`: the result and the system afterwards. -/
def sysvSemget (args : Args) (answers : Answers) (s : System) : Int × System :=
  match args.semKey answers with
  | none => (-1, s)
  | some key =>
      match answers.semgetExcl with
      | .error errno => if errno = eexist then (answers.semget, s) else (-1, s)
      | .ok id =>
          let s := { s with sets := s.sets.create id key args.nSem, created := s.created ++ [id] }
          match setAll args answers id 0 args.nSem s.sets with
          | (false, _, sets) => (-1, { s with sets := sets })
          | (true, stored, sets) =>
              (id, { s with sets := sets, completed := s.completed ++ [⟨id, stored⟩] })

/-- A call, with its entry in the record. -/
def System.call (args : Args) (answers : Answers) (s : System) : System :=
  let (ret, t) := sysvSemget args answers s
  { t with calls := s.calls ++ [⟨ret, s.sets, t.sets, t.completed⟩] }

/-- The kernel may answer so. -/
def Answers.Possible (args : Args) (answers : Answers) (t : SemTable) : Prop :=
  ∀ key, args.semKey answers = some key →
    t.SemgetExcl key answers.semgetExcl ∧ t.Semget key args.nSem answers.semget

/-- Any calls with the same arguments, in a system with any sets. -/
def machine (args : Args) : Machine System where
  init s := s.created = [] ∧ s.completed = [] ∧ s.calls = []
  step s t := ∃ answers : Answers, answers.Possible args s.sets ∧ t = s.call args answers

/-! ## What is asked of a call -/

/-- A completed call has given every semaphore of the set `id` its value. -/
def Initialised (args : Args) (completed : List Completed) (t : SemTable) (id : Int) : Prop :=
  ∃ set, t id = some set ∧ ∃ c ∈ completed, c.semId = id ∧
    ∀ i < set.nSems, (i, args.semValue) ∈ c.stored

/-- The call has failed and changed nothing, or its set is initialised. -/
def AllOrNothing (args : Args) (c : Call) : Prop :=
  (c.ret = -1 → c.after = c.before) ∧
    (c.ret ≠ -1 → Initialised args c.completed c.after c.ret)

/-- `SETVAL` does not fail for any semaphore. -/
def Settable (args : Args) (answers : Answers) : Prop :=
  ∀ i < args.nSem, ¬ (answers.refused i ∨ args.semValue < 0 ∨ args.semValue > semvmx)

/-- Where the call creates a set it can initialise it, and where it attaches to one, this was
created by `sysv_semget`. -/
def Orderly (args : Args) (answers : Answers) (s : System) : Prop :=
  args.semKey answers ≠ none →
    match answers.semgetExcl with
    | .ok _ => Settable args answers
    | .error errno => errno = eexist → answers.semget ≠ -1 → answers.semget ∈ s.created

/-- The runs whose calls are all `Orderly`. -/
def orderly (args : Args) : Machine System where
  init := (machine args).init
  step s t := ∃ answers : Answers, answers.Possible args s.sets ∧ Orderly args answers s ∧
    t = s.call args answers

variable {args : Args} {answers : Answers} {s t : System} {id key : Int} {sets sets' : SemTable}

/-! ## The loop over the semaphores -/

/-- What the loop leaves of the sets: the key and the size of its own, and all others. -/
structure Kept (id : Int) (key : Int) (nSems : Nat) (sets sets' : SemTable) : Prop where
  self : ∃ semval, sets' id = some ⟨key, nSems, semval⟩
  others : ∀ j, j ≠ id → sets' j = sets j

/-- The loop comes to its end exactly if no `SETVAL` fails, and then it has stored every value. -/
theorem setAll_spec (answers : Answers) (k : Nat) :
    ∀ (i : Nat) (sets : SemTable) (semval : Nat → Int), i + k = args.nSem →
      sets id = some ⟨key, args.nSem, semval⟩ →
      Kept id key args.nSem sets (setAll args answers id i k sets).2.2 ∧
        ((setAll args answers id i k sets).1 = true ↔
          ∀ j, i ≤ j → j < args.nSem →
            ¬ (answers.refused j ∨ args.semValue < 0 ∨ args.semValue > semvmx)) ∧
        ((setAll args answers id i k sets).1 = true →
          ∀ j, i ≤ j → j < args.nSem →
            (j, args.semValue) ∈ (setAll args answers id i k sets).2.1) := by
  induction k with
  | zero =>
      intro i sets semval whole here
      have outside (j : Nat) (le : i ≤ j) : ¬ j < args.nSem := by omega
      exact ⟨⟨⟨semval, here⟩, fun _ _ => rfl⟩,
        iff_of_true rfl fun j le lt => absurd lt (outside j le),
        fun _ j le lt => absurd lt (outside j le)⟩
  | succ k ih =>
      intro i sets semval whole here
      have inside : i < args.nSem := by omega
      cases stored : sets.setval (answers.refused i) id i args.semValue with
      | none =>
          have fails := (SemTable.setval_eq_none_iff here inside).mp stored
          rw [setAll, stored]
          refine ⟨⟨⟨semval, here⟩, fun _ _ => rfl⟩, iff_of_false nofun fun all => ?_, nofun⟩
          exact all i (Nat.le_refl i) inside fails
      | some sets' =>
          obtain ⟨⟨semval', here'⟩, others⟩ := SemTable.setval_some here stored
          have works : ¬ (answers.refused i ∨ args.semValue < 0 ∨ args.semValue > semvmx) := by
            intro fails
            have failed := (SemTable.setval_eq_none_iff here inside).mpr fails
            exact nomatch stored.symm.trans failed
          obtain ⟨⟨self, others'⟩, ends, all⟩ := ih (i + 1) sets' semval' (by omega) here'
          rw [setAll, stored]
          refine ⟨⟨self, fun j other => (others' j other).trans (others j other)⟩, ?_, ?_⟩
          · refine ends.trans ⟨fun rest j le lt => ?_, fun rest j le lt => rest j (by omega) lt⟩
            rcases Nat.eq_or_lt_of_le le with rfl | later
            · exact works
            · exact rest j later lt
          · intro done j le lt
            rcases Nat.eq_or_lt_of_le le with rfl | later
            · exact List.mem_cons_self
            · exact List.mem_cons_of_mem _ (all done j later lt)

/-! ## One call -/

/-- A call that has created no set. -/
def System.attached (ret : Int) (s : System) : System :=
  { s with calls := s.calls ++ [⟨ret, s.sets, s.sets, s.completed⟩] }

theorem call_of_ftok_failed (failed : args.semKey answers = none) :
    s.call args answers = s.attached (-1) := by
  rw [System.call, sysvSemget, failed]
  rfl

theorem call_of_error {errno : Errno} (semKey : args.semKey answers = some key)
    (error : answers.semgetExcl = .error errno) :
    s.call args answers = s.attached (if errno = eexist then answers.semget else -1) := by
  rw [System.call, sysvSemget, semKey, error]
  dsimp only
  split <;> rfl

/-- What a call that creates a set does: the set is there afterwards, and it is initialised and its
identifier returned exactly if no `SETVAL` fails. -/
structure Creates (args : Args) (answers : Answers) (id : Int) (s t : System) : Prop where
  created : t.created = s.created ++ [id]
  others : ∀ j, j ≠ id → t.sets j = s.sets j
  call : ∃ ret, t.calls = s.calls ++ [⟨ret, s.sets, t.sets, t.completed⟩] ∧
    (Settable args answers → ret = id) ∧ (¬ Settable args answers → ret = -1)
  completed : ∃ new, t.completed = s.completed ++ new ∧ ∀ c ∈ new, c.semId = id
  present : t.sets id ≠ none
  initialised : Settable args answers → Initialised args t.completed t.sets id

theorem creates_call (semKey : args.semKey answers = some key)
    (ok : answers.semgetExcl = .ok id) : Creates args answers id s (s.call args answers) := by
  have here : s.sets.create id key args.nSem id = some ⟨key, args.nSem, fun _ => 0⟩ :=
    Function.update_self _ _ _
  obtain ⟨⟨⟨semval, self⟩, others⟩, ends, all⟩ :=
    setAll_spec answers args.nSem 0 _ _ (Nat.zero_add _) here
  have settable : (setAll args answers id 0 args.nSem (s.sets.create id key args.nSem)).1 = true ↔
      Settable args answers :=
    ends.trans ⟨fun ok j lt => ok j (Nat.zero_le j) lt, fun ok j _ lt => ok j lt⟩
  have frame (j : Int) (other : j ≠ id) :
      (setAll args answers id 0 args.nSem (s.sets.create id key args.nSem)).2.2 j = s.sets j :=
    (others j other).trans (Function.update_of_ne other _ _)
  have present : (setAll args answers id 0 args.nSem (s.sets.create id key args.nSem)).2.2 id ≠
      none := fun gone => nomatch gone.symm.trans self
  unfold System.call sysvSemget
  simp only [semKey, ok]
  revert settable all self frame present
  generalize setAll args answers id 0 args.nSem (s.sets.create id key args.nSem) = loop
  obtain ⟨done, stored, sets⟩ := loop
  intro self all settable frame present
  cases done with
  | false =>
      have fails : ¬ Settable args answers := fun ok => nomatch settable.mpr ok
      exact ⟨rfl, frame, ⟨-1, rfl, fun ok => absurd ok fails, fun _ => rfl⟩,
        ⟨[], (List.append_nil _).symm, nofun⟩, present, fun ok => absurd ok fails⟩
  | true =>
      have works : Settable args answers := settable.mp rfl
      refine ⟨rfl, frame, ⟨id, rfl, fun _ => rfl, fun fails => absurd works fails⟩,
        ⟨[⟨id, stored⟩], rfl, fun c member => ?_⟩, present, fun _ => ?_⟩
      · rw [List.mem_singleton.mp member]
      · refine ⟨_, self, ⟨id, stored⟩, List.mem_append_right _ (List.mem_singleton_self _), rfl, ?_⟩
        exact fun i lt => all rfl i (Nat.zero_le i) lt

/-! ## Runs -/

/-- What holds in every run: calls have completed on created sets only. -/
def OfCreated (s : System) : Prop := ∀ c ∈ s.completed, c.semId ∈ s.created

/-- What holds in an orderly run. -/
structure Sound (args : Args) (s : System) : Prop where
  created : ∀ id ∈ s.created, Initialised args s.completed s.sets id
  calls : ∀ c ∈ s.calls, AllOrNothing args c

/-- More completed calls and other sets do not undo an initialisation. -/
theorem Initialised.mono {completed completed' : List Completed}
    (initialised : Initialised args completed sets id) (same : sets' id = sets id)
    (more : ∀ c ∈ completed, c ∈ completed') : Initialised args completed' sets' id := by
  obtain ⟨set, here, c, member, rest⟩ := initialised
  exact ⟨set, same.trans here, c, more c member, rest⟩

theorem ofCreated_call (before : OfCreated s) : OfCreated (s.call args answers) := by
  cases semKey : args.semKey answers with
  | none =>
      rw [call_of_ftok_failed semKey]
      exact before
  | some key =>
      cases excl : answers.semgetExcl with
      | error errno =>
          rw [call_of_error semKey excl]
          exact before
      | ok id =>
          obtain ⟨created, -, -, ⟨new, completed, own⟩, -, -⟩ :=
            creates_call (s := s) semKey excl
          intro c member
          rw [completed, List.mem_append] at member
          rw [created, List.mem_append, List.mem_singleton]
          rcases member with old | new
          · exact .inl (before c old)
          · exact .inr (own c new)

theorem ofCreated_of_reachable (reached : (machine args).Reachable s) : OfCreated s := by
  apply reached.invariant (P := OfCreated)
  · intro s start c member
    rw [start.2.1] at member
    cases member
  · rintro s t - before ⟨answers, -, rfl⟩
    exact ofCreated_call before

/-- A call that has created no set is all-or-nothing if what it returns is initialised. -/
theorem Sound.attached {ret : Int} (sound : Sound args s)
    (found : ret ≠ -1 → Initialised args s.completed s.sets ret) : Sound args (s.attached ret) := by
  refine ⟨sound.created, ?_⟩
  intro c member
  rcases List.mem_append.mp member with old | new
  · exact sound.calls c old
  · rw [List.mem_singleton.mp new]
    exact ⟨fun _ => rfl, found⟩

theorem Sound.call (sound : Sound args s) (possible : answers.Possible args s.sets)
    (ok : Orderly args answers s) : Sound args (s.call args answers) := by
  cases semKey : args.semKey answers with
  | none =>
      rw [call_of_ftok_failed semKey]
      exact sound.attached fun other => absurd rfl other
  | some key =>
      have ok := ok (by rw [semKey]; nofun)
      cases excl : answers.semgetExcl with
      | error errno =>
          rw [excl] at ok
          rw [call_of_error semKey excl]
          refine sound.attached fun other => ?_
          split at other
          · next exists' =>
              rw [if_pos exists']
              exact sound.created _ (ok exists' other)
          · exact absurd rfl other
      | ok id =>
          rw [excl] at ok
          have free := (possible key semKey).1
          rw [excl] at free
          obtain ⟨nonneg, absent, -⟩ := free
          obtain ⟨created, others, ⟨ret, calls, returned, -⟩, ⟨new, completed, -⟩, -,
            initialised⟩ := creates_call (s := s) semKey excl
          refine ⟨fun j member => ?_, fun c member => ?_⟩
          · rw [created, List.mem_append, List.mem_singleton] at member
            rcases member with old | rfl
            · have before := sound.created j old
              have other : j ≠ id := by
                rintro rfl
                obtain ⟨set, here, -⟩ := before
                exact nomatch here.symm.trans absent
              refine before.mono (others j other) fun c member => ?_
              rw [completed]
              exact List.mem_append_left new member
            · exact initialised ok
          · rw [calls] at member
            rcases List.mem_append.mp member with old | last
            · exact sound.calls c old
            · rw [List.mem_singleton.mp last, returned ok]
              refine ⟨fun failed => ?_, fun _ => initialised ok⟩
              dsimp only at failed
              omega

/-- A call that is not orderly is not all-or-nothing. -/
theorem not_allOrNothing (ofCreated : OfCreated s) (possible : answers.Possible args s.sets)
    (slip : ¬ Orderly args answers s) :
    ∃ c ∈ (s.call args answers).calls, ¬ AllOrNothing args c := by
  cases semKey : args.semKey answers with
  | none => exact absurd (fun other => absurd semKey other) slip
  | some key =>
      cases excl : answers.semgetExcl with
      | error errno =>
          rw [call_of_error semKey excl]
          refine ⟨_, List.mem_append_right _ (List.mem_singleton_self _), ?_⟩
          intro ok
          refine slip fun _ => ?_
          rw [excl]
          intro exists' found
          rw [if_pos exists'] at ok
          obtain ⟨set, -, c, member, same, -⟩ := ok.2 found
          have id : c.semId = answers.semget := same
          exact id ▸ ofCreated c member
      | ok id =>
          have free := (possible key semKey).1
          rw [excl] at free
          obtain ⟨-, -, ⟨ret, calls, -, failed⟩, -, present, -⟩ :=
            creates_call (s := s) semKey excl
          have fails : ¬ Settable args answers := by
            intro works
            refine slip fun _ => ?_
            rw [excl]
            exact works
          rw [calls]
          refine ⟨_, List.mem_append_right _ (List.mem_singleton_self _), fun ok => ?_⟩
          have same := congrFun (ok.1 (failed fails)) id
          exact present (same.trans free.2.1)

theorem sound_of_orderly (run : (orderly args).Reachable s) : Sound args s := by
  apply run.invariant (P := Sound args)
  · intro s start
    obtain ⟨created, -, calls⟩ := start
    refine ⟨fun id member => ?_, fun c member => ?_⟩
    · rw [created] at member
      cases member
    · rw [calls] at member
      cases member
  · rintro s t - sound ⟨answers, possible, ok, rfl⟩
    exact sound.call possible ok

/-- **All or nothing.**  Every call of a run has failed and changed nothing or returned a set that a
completed call has initialised, exactly if no `SETVAL` on a new set has failed and no call has
attached to a set that `sysv_semget` had not created. -/
theorem allOrNothing_iff (reached : (machine args).Reachable s) :
    (∀ c ∈ s.calls, AllOrNothing args c) ↔ (orderly args).Reachable s := by
  constructor
  · intro all
    refine (reached.or_damaged (D := fun s => ∃ c ∈ s.calls, ¬ AllOrNothing args c) ?_ ?_
      ?_).resolve_right ?_
    · exact fun _ start => start
    · rintro s t before - ⟨answers, possible, rfl⟩
      by_cases ok : Orderly args answers s
      · exact .inl ⟨answers, possible, ok, rfl⟩
      · exact .inr (not_allOrNothing (ofCreated_of_reachable before) possible ok)
    · rintro s t - ⟨c, member, bad⟩ ⟨answers, -, rfl⟩
      exact ⟨c, List.mem_append_left _ member, bad⟩
    · rintro ⟨c, member, bad⟩
      exact bad (all c member)
  · exact fun run => (sound_of_orderly run).calls

/-- A system without sets, in front of the first call. -/
def start : System := ⟨fun _ => none, [], [], []⟩

/-- The arguments of `sysv_sem.c` and `sysv_sem_zwait.c`, with any value. -/
def argsWith (semValue : Int) : Args := ⟨false, 0x12340001, 1, semValue⟩

/-- The set 0 is created. -/
def creating : Answers := ⟨0, .ok 0, -1, fun _ => false⟩

/-- The set 0 is there. -/
def attaching : Answers := ⟨0, .error eexist, 0, fun _ => false⟩

theorem creating_possible (semValue : Int) : creating.Possible (argsWith semValue) start.sets := by
  intro key semKey
  refine ⟨⟨Int.le_refl 0, rfl, .inr ?_⟩, .inl rfl⟩
  rintro ⟨id, set, here, -⟩
  cases here

theorem attaching_possible {semValue : Int} {semval : Nat → Int}
    (here : sets 0 = some ⟨0x12340001, 1, semval⟩) :
    attaching.Possible (argsWith semValue) sets := by
  intro key semKey
  cases semKey
  have fixed : (0x12340001 : Int) ≠ ipcPrivate := by decide
  exact ⟨fun _ => ⟨fixed, 0, _, here, rfl⟩, .inr ⟨_, here, rfl, Nat.le_refl 1⟩⟩

theorem machine_of_orderly (run : (orderly args).Reachable s) : (machine args).Reachable s := by
  apply run.mono
  · exact fun _ start => start
  · rintro s t ⟨answers, possible, -, same⟩
    exact ⟨answers, possible, same⟩

/-- A set is created and attached to. -/
theorem allOrNothing_twice :
    ∃ s, (machine (argsWith 1)).Reachable s ∧ s.calls.map Call.ret = [0, 0] ∧
      ∀ c ∈ s.calls, AllOrNothing (argsWith 1) c := by
  have before : (orderly (argsWith 1)).Reachable start := .of_init ⟨rfl, rfl, rfl⟩
  have first := before.tail
    ⟨creating, creating_possible 1, fun _ i _ => by simp [creating, argsWith, semvmx], rfl⟩
  have second := first.tail
    ⟨attaching, attaching_possible rfl, fun _ _ _ => List.mem_singleton_self _, rfl⟩
  have run := machine_of_orderly second
  exact ⟨_, run, rfl, (allOrNothing_iff run).mpr second⟩

/-- A value that no semaphore can have: the first call fails and leaves its set behind, and the
second returns that set. -/
theorem not_forall_allOrNothing :
    ¬ ∀ args : Args, 1 ≤ args.nSem → ∀ s, (machine args).Reachable s →
      ∀ c ∈ s.calls, AllOrNothing args c := by
  intro always
  have before : (machine (argsWith 40000)).Reachable start := .of_init ⟨rfl, rfl, rfl⟩
  have first := before.tail ⟨creating, creating_possible 40000, rfl⟩
  have second := first.tail ⟨attaching, attaching_possible rfl, rfl⟩
  have ok := always (argsWith 40000) (Nat.le_refl 1) _ second _
    (List.mem_append_right _ (List.mem_singleton_self _))
  obtain ⟨set, -, c, member, -⟩ := ok.2 (by decide)
  cases member

end Alnp.SysvSem.Semget
