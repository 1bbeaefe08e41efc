import Mathlib.Logic.Function.Basic
import Alnp.Lib.Progress
import Alnp.Lib.Since

/-!
# Signals waited for

`Chapter09/pthread_sigwait.c` and `Chapter11/io_signalfd.c` block their signals and take them one at
a time, the first by `sigwait` in a thread and the second by `read` from a `signalfd`: they print
some lines for the signal taken, and exit behind one of the signals.  Any number of the signals come
at any time, and of those that come while one of the kind is pending nothing remains.  The output is
that of the thread that takes the signals; the lines of the other threads are left out.

* `waited_of_reachable`: what is taken is the first of its kind that has come since the last was
  taken, while none with a lower number is pending; and the lines of a signal stand together.
* `sigwait_terminates`: once no signal comes any more everything pending is taken, unless the signal
  to exit has come, and then the program exits.
-/

namespace Alnp.Sigwait

/-- A program that takes the signals `ς`, which come with some information, one at a time. -/
structure Program (ς ι ℓ : Type) where
  /-- the set it takes them from -/
  mask : List ς
  mem_mask : ∀ x, x ∈ mask
  signum : ς → Nat
  /-- what it prints when it has taken a signal -/
  text : ς → ι → List ℓ
  /-- whether it exits behind this -/
  exits : ς → Bool

/-- The signals that `start_sigthread` waits for. -/
inductive Sigthread
  | usr1
  | usr2
  | term
deriving DecidableEq

/-- The lines of `start_sigthread` and of `sa_handler_usr`, which counts the seconds. -/
inductive SigthreadLine
  | usr (x : Sigthread) (i : Nat)
  | term
deriving DecidableEq

def saHandlerUsr (x : Sigthread) : List SigthreadLine :=
  (List.range 5).map (.usr x)

def pthreadSigwait : Program Sigthread Unit SigthreadLine where
  mask := [.usr1, .usr2, .term]
  mem_mask x := by cases x <;> decide
  signum
    | .usr1 => 10
    | .usr2 => 12
    | .term => 15
  text
    | .usr1, _ => saHandlerUsr .usr1
    | .usr2, _ => saHandlerUsr .usr2
    | .term, _ => [.term]
  exits x := x = .term

/-- The signals of the `signalfd`. -/
inductive Sfd
  | int
  | quit
deriving DecidableEq

structure SignalfdSiginfo where
  ssiCode : Int
  ssiPid : Nat
deriving DecidableEq

inductive SfdLine
  | gotSigint (ssiCode : Int) (ssiPid : Nat)
  | gotSigquit
deriving DecidableEq

def ioSignalfd : Program Sfd SignalfdSiginfo SfdLine where
  mask := [.int, .quit]
  mem_mask x := by cases x <;> decide
  signum
    | .int => 2
    | .quit => 3
  text
    | .int, fdsi => [.gotSigint fdsi.ssiCode fdsi.ssiPid]
    | .quit, _ => [.gotSigquit]
  exits x := x = .quit

variable {ς ι ℓ : Type}

inductive Main (ς ℓ : Type)
  /-- in front of `sigwait` or `read`, or in it -/
  | wait
  /-- a signal has been taken, and these lines are still to be printed -/
  | print (x : ς) (rest : List ℓ)
  | exited

inductive Event (ς ι : Type)
  | raised (x : ς) (info : ι)
  | taken (x : ς) (info : ι)

structure State (ς ι ℓ : Type) where
  main : Main ς ℓ
  /-- the signals that are pending, with what came with them -/
  pending : ς → Option ι
  output : List ℓ
  log : List (Event ς ι)

section Steps

variable [DecidableEq ς]

/-- A signal comes; if it is pending already nothing changes. -/
def State.raise (s : State ς ι ℓ) (x : ς) (info : ι) : State ς ι ℓ :=
  { s with
    pending := Function.update s.pending x ((s.pending x).or (some info))
    log := s.log ++ [.raised x info] }

/-- `sigwait` or `read` returns this signal. -/
def State.take (p : Program ς ι ℓ) (s : State ς ι ℓ) (x : ς) (info : ι) : State ς ι ℓ :=
  { s with
    main := .print x (p.text x info)
    pending := Function.update s.pending x none
    log := s.log ++ [.taken x info] }

section Pending

variable {s : State ς ι ℓ} {x y : ς} {info : ι}

theorem pending_raise_self : (s.raise x info).pending x = (s.pending x).or (some info) := by
  simp only [State.raise, Function.update_self]

theorem pending_raise_of_ne (other : x ≠ y) : (s.raise x info).pending y = s.pending y := by
  simp only [State.raise, Function.update_of_ne (Ne.symm other)]

theorem pending_take_self {p : Program ς ι ℓ} : (s.take p x info).pending x = none := by
  simp only [State.take, Function.update_self]

theorem pending_take_of_ne {p : Program ς ι ℓ} (other : x ≠ y) :
    (s.take p x info).pending y = s.pending y := by
  simp only [State.take, Function.update_of_ne (Ne.symm other)]

end Pending

/-- The steps of the program. -/
inductive Turn (p : Program ς ι ℓ) : State ς ι ℓ → State ς ι ℓ → Prop
  | take (s : State ς ι ℓ) (x : ς) (info : ι) :
      s.main = .wait → s.pending x = some info →
      (∀ y, p.signum y < p.signum x → s.pending y = none) →
      Turn p s (s.take p x info)
  | line (s : State ς ι ℓ) (x : ς) (line : ℓ) (rest : List ℓ) :
      s.main = .print x (line :: rest) →
      Turn p s { s with main := .print x rest, output := s.output ++ [line] }
  | leave (s : State ς ι ℓ) (x : ς) :
      s.main = .print x [] →
      Turn p s { s with main := if p.exits x then .exited else .wait }

inductive Step (p : Program ς ι ℓ) : State ς ι ℓ → State ς ι ℓ → Prop
  | raise (s : State ς ι ℓ) (x : ς) (info : ι) :
      s.main ≠ .exited → Step p s (s.raise x info)
  | turn (s t : State ς ι ℓ) : Turn p s t → Step p s t

/-- The program with its signals blocked. -/
def machine (p : Program ς ι ℓ) : Machine (State ς ι ℓ) where
  init s := s = ⟨.wait, fun _ => none, [], []⟩
  step := Step p

/-- The program from a state in which no signal comes any more. -/
def quiet (p : Program ς ι ℓ) (s : State ς ι ℓ) : Machine (State ς ι ℓ) where
  init t := t = s
  step := Turn p

end Steps

/-! ## What is taken -/

def Event.Raises (x : ς) (e : Event ς ι) : Prop := ∃ info, e = .raised x info

def Event.Takes (x : ς) (e : Event ς ι) : Prop := ∃ info, e = .taken x info

/-- One has come that was not taken. -/
def Came (x : ς) (log : List (Event ς ι)) : Prop := Since (Event.Raises x) (Event.Takes x) log

/-- The first that has come since the last was taken has come with this. -/
def First (x : ς) (info : ι) (log : List (Event ς ι)) : Prop :=
  RaisedBy (Event.Raises x) (Event.Takes x) log (.raised x info)

/-- What is taken is the first that has come, and none with a lower number is there; behind the
signal to exit nothing is taken. -/
def Waited (p : Program ς ι ℓ) (log : List (Event ς ι)) : Prop :=
  ∀ before x info after, log = before ++ .taken x info :: after →
    First x info before ∧ (∀ y, p.signum y < p.signum x → ¬ Came y before) ∧
      (p.exits x = true → ∀ y info, .taken y info ∉ after)

/-- The lines that an event leads to. -/
def Event.text (p : Program ς ι ℓ) : Event ς ι → List ℓ
  | raised _ _ => []
  | taken x info => p.text x info

/-- What is still to be printed for the signal taken. -/
def Main.todo : Main ς ℓ → List ℓ
  | wait | exited => []
  | print _ rest => rest

/-- The signal to exit has been taken. -/
def Main.Exits (p : Program ς ι ℓ) : Main ς ℓ → Prop
  | wait => False
  | print x _ => p.exits x = true
  | exited => True

variable {p : Program ς ι ℓ} {log : List (Event ς ι)} {x y : ς} {info info' : ι}
  {s t : State ς ι ℓ}

theorem came_iff : Came x log ↔ ∃ info, First x info log := by
  constructor
  · intro came
    have disjoint (e : Event ς ι) (raises : e.Raises x) : ¬ e.Takes x := by
      rintro ⟨info, rfl⟩
      obtain ⟨_, wrong⟩ := raises
      cases wrong
    obtain ⟨e, before, after, split, ⟨info, rfl⟩, first⟩ := came.exists_raisedBy disjoint
    exact ⟨info, before, after, split, ⟨info, rfl⟩, first⟩
  · rintro ⟨info, first⟩
    exact first.since

theorem first_raised : First x info (log ++ [.raised y info']) ↔
    (y = x ∧ info' = info ∧ ¬ Came x log) ∨ First x info log := by
  refine raisedBy_snoc.trans (or_congr ?_ (and_iff_right ?_))
  · constructor
    · rintro ⟨same, -, down⟩
      cases same
      exact ⟨rfl, rfl, down⟩
    · rintro ⟨rfl, rfl, down⟩
      exact ⟨rfl, ⟨_, rfl⟩, down⟩
  · rintro ⟨_, wrong⟩
    cases wrong

theorem first_taken : First x info (log ++ [.taken y info']) ↔ y ≠ x ∧ First x info log := by
  refine raisedBy_snoc.trans ((or_iff_right ?_).trans (and_congr_left' (not_congr ?_)))
  · rintro ⟨wrong, -⟩
    cases wrong
  · constructor
    · rintro ⟨_, same⟩
      cases same
      rfl
    · rintro rfl
      exact ⟨info', rfl⟩

theorem Waited.snoc {e : Event ς ι} (waited : Waited p log)
    (now : ∀ x info, e = .taken x info →
      First x info log ∧ (∀ y, p.signum y < p.signum x → ¬ Came y log) ∧
        ∀ y info, p.exits y = true → .taken y info ∉ log) :
    Waited p (log ++ [e]) := by
  intro before x info after split
  rcases split_snoc split with ⟨same, rfl⟩ | ⟨rest, rfl, earlier⟩
  · obtain ⟨rfl, -⟩ := List.append_inj' split rfl
    obtain ⟨first, lowest, -⟩ := now x info same.symm
    exact ⟨first, lowest, nofun⟩
  · obtain ⟨first, lowest, last⟩ := waited before x info rest earlier
    refine ⟨first, lowest, fun exits y info' member => ?_⟩
    rcases List.mem_append.mp member with old | new
    · exact last exits y info' old
    · have none := (now y info' (List.mem_singleton.mp new).symm).2.2 x info exits
      exact none (earlier ▸ List.mem_append_right _ List.mem_cons_self)

/-! ## The invariant -/

structure Inv (p : Program ς ι ℓ) (s : State ς ι ℓ) : Prop where
  pending : ∀ x info, s.pending x = some info ↔ First x info s.log
  waited : Waited p s.log
  exits : s.main.Exits p ↔ ∃ x info, p.exits x = true ∧ .taken x info ∈ s.log
  printed : s.output ++ s.main.todo = s.log.flatMap (Event.text p)

/-- What is not pending has not come since it was taken. -/
theorem Inv.not_came_iff (inv : Inv p s) : ¬ Came x s.log ↔ s.pending x = none := by
  rw [came_iff, Option.eq_none_iff_forall_not_mem, not_exists]
  exact forall_congr' fun info => not_congr (inv.pending x info).symm

/-- Where a signal is pending one with the lowest number is. -/
theorem exists_lowest (p : Program ς ι ℓ) {pending : ς → Option ι} {x : ς} {info : ι}
    (some' : pending x = some info) : ∃ x info, pending x = some info ∧
      ∀ y, p.signum y < p.signum x → pending y = none := by
  induction num : p.signum x using Nat.strongRecOn generalizing x info with
  | ind n ih =>
      by_cases lower : ∃ y, p.signum y < p.signum x ∧ pending y ≠ none
      · obtain ⟨y, less, there⟩ := lower
        obtain ⟨info', some'⟩ := Option.ne_none_iff_exists'.mp there
        exact ih (p.signum y) (num ▸ less) some' rfl
      · exact ⟨x, info, some', fun y less => of_not_not fun there => lower ⟨y, less, there⟩⟩

variable [DecidableEq ς]

theorem Inv.raise (inv : Inv p s) (x : ς) (info : ι) : Inv p (s.raise x info) := by
  refine ⟨fun y info' => ?_, inv.waited.snoc nofun, ?_, ?_⟩
  · refine Iff.trans ?_ first_raised.symm
    by_cases same : x = y
    · subst same
      rw [pending_raise_self, ← inv.pending, inv.not_came_iff]
      cases pending : s.pending x with
      | none =>
          simp only [Option.none_or, Option.some.injEq, reduceCtorEq, or_false, true_and, and_true]
      | some first => simp only [Option.some_or, reduceCtorEq, and_false, false_or]
    · rw [pending_raise_of_ne same, inv.pending]
      exact (or_iff_right fun wrong => same wrong.1).symm
  · refine inv.exits.trans (exists_congr fun y => exists_congr fun info' => and_congr_right' ?_)
    exact (List.mem_append.trans (or_iff_left (by simp only [List.mem_singleton, reduceCtorEq,
      not_false_eq_true]))).symm
  · have log : (s.raise x info).log.flatMap (Event.text p) =
        s.log.flatMap (Event.text p) ++ [] := flatMap_snoc ..
    rw [log, List.append_nil]
    exact inv.printed

theorem Inv.take (inv : Inv p s) (main : s.main = .wait) (pending : s.pending x = some info)
    (lowest : ∀ y, p.signum y < p.signum x → s.pending y = none) : Inv p (s.take p x info) := by
  have running : ∀ y info, p.exits y = true → .taken y info ∉ s.log := by
    intro y info' exits member
    have wrong := inv.exits.mpr ⟨y, info', exits, member⟩
    rwa [main] at wrong
  refine ⟨fun y info' => ?_, inv.waited.snoc fun y info' same => ?_, ?_, ?_⟩
  · refine Iff.trans ?_ first_taken.symm
    rw [← inv.pending]
    by_cases same : x = y
    · subst same
      rw [pending_take_self]
      exact iff_of_false nofun fun wrong => wrong.1 rfl
    · rw [pending_take_of_ne same]
      exact (and_iff_right same).symm
  · cases same
    exact ⟨(inv.pending x info).mp pending, fun z less => inv.not_came_iff.mpr (lowest z less),
      running⟩
  · constructor
    · intro exits
      exact ⟨x, info, exits, List.mem_append_right _ (List.mem_singleton_self _)⟩
    · rintro ⟨y, info', exits, member⟩
      rcases List.mem_append.mp member with old | new
      · exact absurd old (running y info' exits)
      · cases List.mem_singleton.mp new
        exact exits
  · have log : (s.take p x info).log.flatMap (Event.text p) =
        s.log.flatMap (Event.text p) ++ p.text x info := flatMap_snoc ..
    have printed := inv.printed
    rw [main] at printed
    rw [log, ← printed, Main.todo, List.append_nil]
    rfl

theorem Inv.turn (inv : Inv p s) (turn : Turn p s t) : Inv p t := by
  cases turn with
  | take x info main pending lowest => exact inv.take main pending lowest
  | line x line rest main =>
      have exits := inv.exits
      have printed := inv.printed
      rw [main] at exits printed
      exact ⟨inv.pending, inv.waited, exits, (List.append_assoc ..).trans printed⟩
  | leave x main =>
      have exits := inv.exits
      have printed := inv.printed
      rw [main] at exits printed
      cases ends : p.exits x with
      | true => exact ⟨inv.pending, inv.waited, (iff_of_true trivial ends).trans exits, printed⟩
      | false =>
          refine ⟨inv.pending, inv.waited, Iff.trans (iff_of_false id ?_) exits, printed⟩
          exact Bool.eq_false_iff.mp ends

theorem Inv.step (inv : Inv p s) (step : Step p s t) : Inv p t := by
  cases step with
  | raise x info => exact inv.raise x info
  | turn t turn => exact inv.turn turn

theorem inv_of_reachable (reached : (machine p).Reachable s) : Inv p s := by
  refine reached.invariant (fun s init => ?_) fun s t _ inv step => inv.step step
  cases init
  refine ⟨fun x info => iff_of_false nofun fun first => not_since_nil first.since, ?_, ?_, rfl⟩
  · intro before x info after split
    cases (List.append_eq_nil_iff.mp split.symm).2
  · exact iff_of_false id fun ⟨_, _, _, member⟩ => List.not_mem_nil member

/-- **Waiting.**  A signal taken is the first of its kind that has come since the last was taken,
and none with a lower number was pending; what is pending is the first of its kind that has come
since; behind the signal to exit nothing is taken; and the lines of the signals taken are printed
one behind the other. -/
theorem waited_of_reachable (p : Program ς ι ℓ) (s : State ς ι ℓ)
    (reached : (machine p).Reachable s) :
    Waited p s.log ∧ (∀ x info, s.pending x = some info ↔ First x info s.log) ∧
      s.output ++ s.main.todo = s.log.flatMap (Event.text p) := by
  have inv := inv_of_reachable reached
  exact ⟨inv.waited, inv.pending, inv.printed⟩

/-- `SIGQUIT` comes, and behind it two `SIGINT`, of which one is taken before it. -/
theorem waited_quit :
    ∃ s, (machine ioSignalfd).Reachable s ∧ s.main = .exited ∧
      s.output = [.gotSigint 0 7, .gotSigquit] ∧ Waited ioSignalfd s.log := by
  have start : (machine ioSignalfd).Reachable _ := .of_init rfl
  have quit := start.tail (.raise _ .quit ⟨0, 6⟩ nofun)
  have raised := (quit.tail (.raise _ .int ⟨0, 7⟩ nofun)).tail (.raise _ .int ⟨0, 8⟩ nofun)
  have taken := raised.tail (.turn _ _ (.take _ .int ⟨0, 7⟩ rfl rfl fun y less => by
    cases y <;> exact absurd less (by decide)))
  have again := (taken.tail (.turn _ _ (.line _ .int _ [] rfl))).tail
    (.turn _ _ (.leave _ .int rfl))
  have last := again.tail (.turn _ _ (.take _ .quit ⟨0, 6⟩ rfl rfl fun y less => by
    cases y with
    | int => rfl
    | quit => exact absurd less (by decide)))
  have exited := (last.tail (.turn _ _ (.line _ .quit _ [] rfl))).tail
    (.turn _ _ (.leave _ .quit rfl))
  exact ⟨_, exited, rfl, rfl, (waited_of_reachable ioSignalfd _ exited).1⟩

/-! ## The end -/

/-- The signals have been taken that had come, the program has printed the lines of all, and has
exited if one to exit is among them. -/
structure Ended (p : Program ς ι ℓ) (s t : State ς ι ℓ) : Prop where
  behind : s.log <+: t.log
  printed : t.output = t.log.flatMap (Event.text p)
  main : (t.main = .exited ∧ ∃ x info, p.exits x = true ∧ .taken x info ∈ t.log) ∨
    t.main = .wait ∧ ∀ x, ¬ Came x t.log ∧ (p.exits x = true → ∀ info, .raised x info ∉ t.log)

theorem reachable_of_quiet (reached : (machine p).Reachable s) (run : (quiet p s).Reachable t) :
    (machine p).Reachable t ∧ s.log <+: t.log := by
  refine run.invariant (P := fun t => (machine p).Reachable t ∧ s.log <+: t.log) ?_ ?_
  · rintro t rfl
    exact ⟨reached, List.prefix_rfl⟩
  · intro t u _ ⟨reached, behind⟩ turn
    refine ⟨reached.tail (.turn t u turn), behind.trans ?_⟩
    cases turn with
    | take x info main pending lowest => exact List.prefix_append _ _
    | line x line rest main => exact List.prefix_rfl
    | leave x main => exact List.prefix_rfl

/-- What is left to do for the signal taken. -/
def Main.left : Main ς ℓ → Nat
  | wait | exited => 0
  | print _ rest => rest.length + 1

/-- What is left to do for a signal that may be pending. -/
def Program.left (p : Program ς ι ℓ) (pending : ς → Option ι) (x : ς) : Nat :=
  (pending x).elim 0 fun info => (p.text x info).length + 2

/-- What is left to do. -/
def State.left (p : Program ς ι ℓ) (s : State ς ι ℓ) : Nat :=
  total (p.left s.pending) p.mask + s.main.left

theorem left_lt (turn : Turn p s t) : t.left p < s.left p := by
  cases turn with
  | take x info main pending lowest =>
      have fewer : total (p.left (s.take p x info).pending) p.mask + ((p.text x info).length + 2) ≤
          total (p.left s.pending) p.mask := by
        refine total_add_le (fun y => ?_) (p.mem_mask x) ?_
        · by_cases same : x = y
          · subst same
            rw [Program.left, pending_take_self]
            exact Nat.zero_le _
          · rw [Program.left, pending_take_of_ne same]
            exact Nat.le_refl _
        · rw [Program.left, Program.left, pending, pending_take_self]
          exact Nat.le_of_eq (Nat.zero_add _)
      have now : (s.take p x info).main.left = (p.text x info).length + 1 := rfl
      rw [State.left, State.left, now]
      omega
  | line x line rest main =>
      rw [State.left, State.left, main]
      exact Nat.add_lt_add_left (Nat.lt_succ_self _) _
  | leave x main =>
      have done : (if p.exits x then Main.exited else Main.wait : Main ς ℓ).left = 0 := by
        split <;> rfl
      rw [State.left, State.left, main, done]
      exact Nat.lt_succ_self _

theorem stuck_cases (stuck : (quiet p s).Stuck t) :
    t.main = .exited ∨ t.main = .wait ∧ ∀ x, t.pending x = none := by
  cases main : t.main with
  | wait =>
      refine .inr ⟨rfl, fun x => ?_⟩
      by_contra there
      obtain ⟨info, some'⟩ := Option.ne_none_iff_exists'.mp there
      obtain ⟨y, info', pending, lowest⟩ := exists_lowest p some'
      exact stuck _ (.take t y info' main pending lowest)
  | print x rest =>
      cases rest with
      | nil => exact absurd (.leave t x main) (stuck _)
      | cons line rest => exact absurd (.line t x line rest main) (stuck _)
  | exited => exact .inl rfl

/-- **The end.**  Once no signal comes any more the program takes what is pending and waits, or
exits if a signal to exit is among what has come. -/
theorem sigwait_terminates (p : Program ς ι ℓ) (s : State ς ι ℓ)
    (reached : (machine p).Reachable s) : (quiet p s).Terminates (Ended p s) := by
  refine Machine.terminates_of_descends (fun t u _ turn => left_lt turn) fun t run stuck => ?_
  obtain ⟨reached', behind⟩ := reachable_of_quiet reached run
  have inv := inv_of_reachable reached'
  have printed := inv.printed
  rcases stuck_cases stuck with exited | ⟨wait, empty⟩
  · have exits := inv.exits
    rw [exited] at exits printed
    exact ⟨behind, (List.append_nil _).symm.trans printed, .inl ⟨exited, exits.mp trivial⟩⟩
  · have exits := inv.exits
    rw [wait] at exits printed
    refine ⟨behind, (List.append_nil _).symm.trans printed, .inr ⟨wait, fun x => ?_⟩⟩
    have gone : ¬ Came x t.log := inv.not_came_iff.mpr (empty x)
    refine ⟨gone, fun ends info member => ?_⟩
    obtain ⟨e, among, info', rfl⟩ := exists_clears gone member ⟨info, rfl⟩
    exact exits.mpr ⟨x, info', ends, among⟩

theorem sigwait_term :
    ∃ s, (machine pthreadSigwait).Reachable s ∧ s.pending .term = some () ∧
      (quiet pthreadSigwait s).Terminates (Ended pthreadSigwait s) := by
  have start : (machine pthreadSigwait).Reachable _ := .of_init rfl
  have raised := start.tail (.raise _ .term () nofun)
  exact ⟨_, raised, rfl, sigwait_terminates pthreadSigwait _ raised⟩

end Alnp.Sigwait
