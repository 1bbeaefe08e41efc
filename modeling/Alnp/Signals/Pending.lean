import Alnp.Lib.Since
import Alnp.Signals.Nesting

/-!
# Signals looked up

`Chapter09/sig_pending.c` handles `SIGUSR1` with all signals blocked and ignores `SIGUSR2`.  In each
turn of its loop `main` blocks all signals, sleeps, looks at what is pending and calls the handler
itself if `SIGUSR2` is among it; then it restores the mask: a pending `SIGUSR1` is delivered now,
and a pending `SIGUSR2` is thrown away.  Any number of the two signals come at any time, but no
`SIGUSR1` inside the one message that `main` prints with the signals not blocked: `pr_out` is
several calls of stdio, which the handler would tear.

`looked_of_reachable`: `main` finds `SIGUSR2` pending exactly if one has come since it has blocked
the signals, and `SIGUSR1` exactly if one has come since the last was handled; and the output tells
this in complete lines of both handlers, which do not get between each other.
-/

namespace Alnp.SigPending

open SigNesting (Usr)

inductive Line
  /-- `Install signal block mask (allow only SIGINT)` -/
  | install
  /-- `Pending singal` -/
  | pending (x : Usr)
  /-- the line with this number of `sa_handler_usr` -/
  | usr (x : Usr) (i : Nat)
  /-- `Restore the previous single block mask.` -/
  | restore
deriving DecidableEq

/-- How many lines `sa_handler_usr` prints. -/
def numLines : Nat := 3

/-- Where `main` is. -/
inductive Main
  /-- in front of the message that it is going to block the signals -/
  | turn
  | block
  /-- in `sleep`, and then in front of `sigpending` -/
  | sleep
  /-- in front of the test for the signal, in the loop over those found pending -/
  | scan (sigsetPend : Usr → Bool) (x : Usr)
  /-- in `sa_handler_usr(SIGUSR2)` in front of the line with this number -/
  | saHandlerUsr (i : Nat)
  | message
  | restore

/-- `main` has blocked the signals. -/
def Main.blocks : Main → Bool
  | turn | block => false
  | _ => true

inductive Event
  | raised (x : Usr)
  /-- `SIGUSR1` is delivered. -/
  | delivered
  | turn
  | blocked
  | looked (sigsetPend : Usr → Bool)

structure State where
  main : Main
  pending : Usr → Bool
  /-- where the handler of `SIGUSR1` is, if it runs -/
  handler : Option Nat
  output : List Line
  log : List Event

def State.blocked (s : State) : Bool := s.main.blocks || s.handler.isSome

/-- A signal comes; the ignored one is thrown away unless it is blocked. -/
def State.raise (s : State) (x : Usr) : State :=
  { s with
    pending := Function.update s.pending x (x = .usr1 || s.blocked || s.pending x)
    log := s.log ++ [.raised x] }

/-- `SIGUSR1` is delivered. -/
def State.deliver (s : State) : State :=
  { s with
    pending := Function.update s.pending .usr1 false
    handler := some 0
    log := s.log ++ [.delivered] }

/-- Signals are not blocked any more: `SIGUSR1` comes first, and while its handler runs `SIGUSR2` is
blocked again. -/
def State.settle (s : State) : State :=
  if s.pending .usr1 then s.deliver
  else { s with pending := Function.update s.pending .usr2 false }

def State.print (s : State) (line : Line) (main : Main) : State :=
  { s with output := s.output ++ [line], main := main }

/-- A step.  A message is printed in one step. -/
inductive Step : State → State → Prop
  | raise (s : State) (x : Usr) : Step s (s.raise x)
  /-- The handler begins, in front of a message of `main` or behind it. -/
  | deliver (s : State) :
      s.blocked = false → s.pending .usr1 = true → Step s s.deliver
  | line (s : State) (i : Nat) :
      s.handler = some i → i < numLines →
      Step s { s.print (.usr .usr1 i) s.main with handler := some (i + 1) }
  | leave (s : State) :
      s.handler = some numLines → Step s { s with handler := none }.settle
  | turn (s : State) :
      s.main = .turn → s.handler = none →
      Step s { s.print .install .block with log := s.log ++ [.turn] }
  | block (s : State) :
      s.main = .block → s.handler = none →
      Step s { s with main := .sleep, log := s.log ++ [.blocked] }
  | sigpending (s : State) :
      s.main = .sleep →
      Step s { s with main := .scan s.pending .usr1, log := s.log ++ [.looked s.pending] }
  | usr1 (s : State) (sigsetPend : Usr → Bool) :
      s.main = .scan sigsetPend .usr1 →
      Step s
        (if sigsetPend .usr1 then s.print (.pending .usr1) (.scan sigsetPend .usr2)
        else { s with main := .scan sigsetPend .usr2 })
  | usr2 (s : State) (sigsetPend : Usr → Bool) :
      s.main = .scan sigsetPend .usr2 →
      Step s
        (if sigsetPend .usr2 then s.print (.pending .usr2) (.saHandlerUsr 0)
        else { s with main := .message })
  | saHandlerUsr (s : State) (i : Nat) :
      s.main = .saHandlerUsr i → i < numLines →
      Step s (s.print (.usr .usr2 i) (.saHandlerUsr (i + 1)))
  | handled (s : State) : s.main = .saHandlerUsr numLines → Step s { s with main := .message }
  | message (s : State) : s.main = .message → Step s (s.print .restore .restore)
  | restore (s : State) : s.main = .restore → Step s { s with main := .turn }.settle

/-- The program with its handlers installed. -/
def machine : Machine State where
  init s := s = ⟨.turn, fun _ => false, none, [], []⟩
  step := Step

/-! ## What is found -/

/-- A signal has come since it was dealt with: `SIGUSR1` by its handler, `SIGUSR2` in front of the
moment at which `main` has blocked the signals. -/
def Came (log : List Event) : Usr → Prop
  | .usr1 => Since (· = .raised .usr1) (· = .delivered) log
  | .usr2 => Since (· = .raised .usr2) (· = .blocked) log

/-- What `main` has found at each of its looks is what had come. -/
def Looked (log : List Event) : Prop :=
  ∀ before after sigsetPend, log = before ++ .looked sigsetPend :: after →
    ∀ x, sigsetPend x = true ↔ Came before x

variable {log : List Event} {s t : State} {x : Usr}

theorem Looked.snoc (looked : Looked log) {e : Event}
    (now : ∀ sigsetPend, e = .looked sigsetPend → ∀ x, sigsetPend x = true ↔ Came log x) :
    Looked (log ++ [e]) := by
  intro before after sigsetPend split x
  rcases split_snoc split with ⟨same, rfl⟩ | ⟨rest, rfl, earlier⟩
  · obtain ⟨front, -⟩ := List.append_inj' split rfl
    exact front ▸ now sigsetPend same.symm x
  · exact looked before rest sigsetPend earlier x

/-- What has come changes with the arrival of a signal and with what deals with it. -/
theorem came_raised : Came (log ++ [.raised x]) x := by
  cases x <;> exact since_snoc.mpr (.inl rfl)

theorem came_snoc {e : Event} (other : e ≠ .raised x) (keeps : e ≠ .delivered ∨ x = .usr2)
    (keeps' : e ≠ .blocked ∨ x = .usr1) : Came (log ++ [e]) x ↔ Came log x := by
  cases x with
  | usr1 =>
      refine since_snoc.trans ((or_iff_right other).trans (and_iff_right ?_))
      exact keeps.resolve_right nofun
  | usr2 =>
      refine since_snoc.trans ((or_iff_right other).trans (and_iff_right ?_))
      exact keeps'.resolve_right nofun

theorem not_came_delivered : ¬ Came (log ++ [.delivered]) .usr1 := by
  intro came
  rcases since_snoc.mp came with raised | ⟨keeps, -⟩
  · cases raised
  · exact keeps rfl

theorem not_came_blocked : ¬ Came (log ++ [.blocked]) .usr2 := by
  intro came
  rcases since_snoc.mp came with raised | ⟨keeps, -⟩
  · cases raised
  · exact keeps rfl

/-! ## What is printed -/

/-- The lines of `sa_handler_usr` from one on. -/
def linesFrom (x : Usr) (i : Nat) : List Line :=
  (List.range' i (numLines - i)).map (.usr x)

theorem linesFrom_of_lt {i : Nat} (less : i < numLines) :
    linesFrom x i = .usr x i :: linesFrom x (i + 1) := by
  obtain ⟨k, more⟩ : ∃ k, numLines - i = k + 1 := ⟨numLines - i - 1, by omega⟩
  have rest : numLines - (i + 1) = k := by omega
  rw [linesFrom, linesFrom, more, rest, List.range'_succ, List.map_cons]

/-- What `main` prints before it looks again. -/
def Main.todo : Main → List Line
  | turn | block | sleep | restore => []
  | scan sigsetPend x =>
      (if x = .usr1 ∧ sigsetPend .usr1 then [.pending .usr1] else []) ++
        (if sigsetPend .usr2 then .pending .usr2 :: linesFrom .usr2 0 else []) ++ [.restore]
  | saHandlerUsr i => linesFrom .usr2 i ++ [.restore]
  | message => [.restore]

/-- What the handler that runs has still to print. -/
def State.todo (s : State) : List Line :=
  (s.handler.elim [] (linesFrom .usr1)) ++ s.main.todo

/-- The lines that an event leads to. -/
def Event.text : Event → List Line
  | raised _ | blocked => []
  | delivered => linesFrom .usr1 0
  | turn => [.install]
  | looked sigsetPend => (Main.scan sigsetPend .usr1).todo

/-! ## The invariant -/

structure Inv (s : State) : Prop where
  /-- The handler of `SIGUSR1` does not run while `main` has blocked it. -/
  alone : s.main.blocks = true → s.handler = none
  usr1 : s.pending .usr1 = true ↔ Came s.log .usr1
  usr2 : s.main.blocks = true → (s.pending .usr2 = true ↔ Came s.log .usr2)
  ignored : s.blocked = false → s.pending .usr2 = false
  looked : Looked s.log
  printed : s.output ++ s.todo = s.log.flatMap Event.text

/-- Where signals are not blocked `main` has nothing to print of what it has found. -/
theorem todo_of_free {main : Main} (free : main.blocks = false) : main.todo = [] := by
  cases main with
  | turn | block => rfl
  | _ => cases free

theorem todo_of_none (none : s.handler = none) : s.todo = s.main.todo := by
  rw [State.todo, none]
  rfl

theorem Inv.raise (inv : Inv s) (x : Usr) : Inv (s.raise x) := by
  have others {y : Usr} (other : y ≠ x) : (s.raise x).pending y = s.pending y :=
    Function.update_of_ne other ..
  have itself : (s.raise x).pending x = (x = .usr1 || s.blocked || s.pending x) :=
    Function.update_self ..
  have came {y : Usr} (other : y ≠ x) : Came (s.raise x).log y ↔ Came s.log y :=
    came_snoc (fun same => other (Event.raised.inj same).symm) (.inl nofun) (.inl nofun)
  refine ⟨inv.alone, ?_, fun blocks => ?_, fun free => ?_, inv.looked.snoc nofun, ?_⟩
  · by_cases same : Usr.usr1 = x
    · subst same
      rw [itself]
      exact iff_of_true rfl came_raised
    · rw [others same, came same]
      exact inv.usr1
  · by_cases same : Usr.usr2 = x
    · subst same
      have blocked : s.blocked = true := Bool.or_eq_true_iff.mpr (.inl blocks)
      rw [itself, blocked]
      exact iff_of_true rfl came_raised
    · rw [others same, came same]
      exact inv.usr2 blocks
  · have open' : s.blocked = false := free
    by_cases same : Usr.usr2 = x
    · subst same
      rw [itself, open', inv.ignored open']
      rfl
    · rw [others same]
      exact inv.ignored open'
  · have log : (s.raise x).log.flatMap Event.text = s.log.flatMap Event.text ++ [] :=
      flatMap_snoc ..
    rw [log, List.append_nil]
    exact inv.printed

/-- Signals are not blocked any more. -/
structure Free (s : State) : Prop where
  main : s.main.blocks = false
  handler : s.handler = none
  usr1 : s.pending .usr1 = true ↔ Came s.log .usr1
  looked : Looked s.log
  printed : s.output = s.log.flatMap Event.text

theorem Free.deliver (free : Free s) : Inv s.deliver := by
  have gone : s.deliver.pending .usr1 = false := by
    simp only [State.deliver, Function.update_self]
  have held : s.deliver.blocked = true := Bool.or_true _
  refine ⟨fun blocks => ?_, ?_, fun blocks => ?_, fun still => ?_, free.looked.snoc nofun, ?_⟩
  · cases free.main.symm.trans blocks
  · exact iff_of_false (Bool.eq_false_iff.mp gone) not_came_delivered
  · cases free.main.symm.trans blocks
  · cases held.symm.trans still
  · have todo : s.deliver.todo = linesFrom .usr1 0 ++ s.main.todo := rfl
    have log : s.deliver.log.flatMap Event.text =
        s.log.flatMap Event.text ++ linesFrom .usr1 0 := flatMap_snoc ..
    rw [todo, log, todo_of_free free.main, List.append_nil, ← free.printed]
    rfl

theorem Free.settle (free : Free s) : Inv s.settle := by
  unfold State.settle
  split
  · exact free.deliver
  · have gone : Function.update s.pending .usr2 false .usr2 = false :=
      (Function.update_apply s.pending ..).trans (if_pos rfl)
    have other : Function.update s.pending .usr2 false .usr1 = s.pending .usr1 :=
      (Function.update_apply s.pending ..).trans (if_neg nofun)
    refine ⟨fun blocks => ?_, ?_, fun blocks => ?_, fun _ => gone, free.looked, ?_⟩
    · cases free.main.symm.trans blocks
    · exact (iff_of_eq (congrArg (· = true) other)).trans free.usr1
    · cases free.main.symm.trans blocks
    · refine Eq.trans ?_ free.printed
      refine (congrArg (s.output ++ ·) ?_).trans (List.append_nil _)
      exact (todo_of_none (s := { s with pending := Function.update s.pending .usr2 false })
        free.handler).trans (todo_of_free free.main)

/-- `main` goes on with the signals blocked and prints some of what it has to print. -/
theorem Inv.move (inv : Inv s) (blocks : s.main.blocks = true) {main : Main} {lines : List Line}
    (still : main.blocks = true) (split : s.main.todo = lines ++ main.todo) :
    Inv { s with main := main, output := s.output ++ lines } := by
  have none : s.handler = none := inv.alone blocks
  refine ⟨fun _ => none, inv.usr1, fun _ => inv.usr2 blocks, fun free => ?_, inv.looked, ?_⟩
  · cases (Bool.or_eq_false_iff.mp free).1.symm.trans still
  · have todo : State.todo { s with main := main, output := s.output ++ lines } = main.todo :=
      todo_of_none none
    have printed := inv.printed
    rw [todo_of_none none, split, ← List.append_assoc] at printed
    rw [todo]
    exact printed

theorem Inv.skip (inv : Inv s) (blocks : s.main.blocks = true) {main : Main}
    (still : main.blocks = true) (same : s.main.todo = main.todo) :
    Inv { s with main := main } := by
  have moved := inv.move blocks still (same.trans (List.nil_append _).symm)
  rwa [List.append_nil] at moved

theorem Inv.blocks_of_handler (inv : Inv s) {i : Nat} (handler : s.handler = some i) :
    s.main.blocks = false := by
  by_contra blocks
  cases handler.symm.trans (inv.alone (eq_true_of_ne_false blocks))

theorem Inv.free (inv : Inv s) (free : s.main.blocks = false) (none : s.handler = none) :
    Free s := by
  have printed := inv.printed
  rw [todo_of_none none, todo_of_free free, List.append_nil] at printed
  exact ⟨free, none, inv.usr1, inv.looked, printed⟩

/-- Where nothing blocks the ignored signal it is not pending. -/
theorem Inv.gone (inv : Inv s) (main : s.main.blocks = false) (none : s.handler = none) :
    s.pending .usr2 = false := by
  refine inv.ignored ?_
  rw [State.blocked, main, none]
  rfl

theorem Inv.line (inv : Inv s) {i : Nat} (handler : s.handler = some i) (less : i < numLines) :
    Inv { s.print (.usr .usr1 i) s.main with handler := some (i + 1) } := by
  have runs := inv.blocks_of_handler handler
  refine ⟨fun blocks => ?_, inv.usr1, inv.usr2, fun free => ?_, inv.looked, ?_⟩
  · cases runs.symm.trans blocks
  · cases (Bool.or_eq_false_iff.mp free).2
  · have todo : s.todo = .usr .usr1 i :: (linesFrom .usr1 (i + 1) ++ s.main.todo) := by
      rw [State.todo, handler, Option.elim_some, linesFrom_of_lt less, List.cons_append]
    have printed := inv.printed
    rw [todo] at printed
    exact (List.append_assoc ..).trans printed

theorem Inv.leave (inv : Inv s) (handler : s.handler = some numLines) :
    Inv { s with handler := none }.settle := by
  have free := inv.blocks_of_handler handler
  have done : s.todo = [] := by
    rw [State.todo, handler, todo_of_free free]
    rfl
  have printed := inv.printed
  rw [done, List.append_nil] at printed
  exact Free.settle ⟨free, rfl, inv.usr1, inv.looked, printed⟩

theorem Inv.turn (inv : Inv s) (main : s.main = .turn) (none : s.handler = none) :
    Inv { s.print .install .block with log := s.log ++ [.turn] } := by
  have runs : s.main.blocks = false := by rw [main]; rfl
  have free := inv.free runs none
  have came (x : Usr) : Came (s.log ++ [.turn]) x ↔ Came s.log x :=
    came_snoc nofun (.inl nofun) (.inl nofun)
  refine ⟨nofun, free.usr1.trans (came _).symm, nofun, fun _ => inv.gone runs none,
    free.looked.snoc nofun, ?_⟩
  have todo : State.todo { s.print .install .block with log := s.log ++ [.turn] } = [] :=
    todo_of_none none
  rw [todo, List.append_nil, flatMap_snoc, ← free.printed]
  rfl

theorem Inv.block (inv : Inv s) (main : s.main = .block) (none : s.handler = none) :
    Inv { s with main := .sleep, log := s.log ++ [.blocked] } := by
  have runs : s.main.blocks = false := by rw [main]; rfl
  have free := inv.free runs none
  have came : Came (s.log ++ [.blocked]) .usr1 ↔ Came s.log .usr1 :=
    came_snoc nofun (.inl nofun) (.inr rfl)
  refine ⟨fun _ => none, free.usr1.trans came.symm, fun _ => ?_, nofun, free.looked.snoc nofun, ?_⟩
  · exact iff_of_false (Bool.eq_false_iff.mp (inv.gone runs none)) not_came_blocked
  · have todo : State.todo { s with main := .sleep, log := s.log ++ [.blocked] } = [] :=
      todo_of_none none
    rw [todo, List.append_nil, flatMap_snoc, ← free.printed]
    exact (List.append_nil _).symm

theorem Inv.sigpending (inv : Inv s) (main : s.main = .sleep) :
    Inv { s with main := .scan s.pending .usr1, log := s.log ++ [.looked s.pending] } := by
  have blocks : s.main.blocks = true := by rw [main]; rfl
  have none := inv.alone blocks
  have came (x : Usr) : Came (s.log ++ [.looked s.pending]) x ↔ Came s.log x :=
    came_snoc nofun (.inl nofun) (.inl nofun)
  have usr2 := inv.usr2 blocks
  refine ⟨fun _ => none, inv.usr1.trans (came _).symm, fun _ => usr2.trans (came _).symm, nofun,
    inv.looked.snoc fun sigsetPend same x => ?_, ?_⟩
  · cases same
    cases x with
    | usr1 => exact inv.usr1
    | usr2 => exact usr2
  · have all : s.output = s.log.flatMap Event.text := by
      have printed := inv.printed
      rw [todo_of_none none, main] at printed
      exact (List.append_nil _).symm.trans printed
    have todo : State.todo
        { s with main := .scan s.pending .usr1, log := s.log ++ [.looked s.pending] } =
          (Main.scan s.pending .usr1).todo := todo_of_none none
    rw [todo, flatMap_snoc, ← all]
    rfl

theorem Inv.restore (inv : Inv s) (main : s.main = .restore) :
    Inv { s with main := .turn }.settle := by
  have none := inv.alone (by rw [main]; rfl)
  have printed := inv.printed
  rw [todo_of_none none, main] at printed
  exact Free.settle ⟨rfl, none, inv.usr1, inv.looked, (List.append_nil _).symm.trans printed⟩

theorem Inv.step (inv : Inv s) (step : Step s t) : Inv t := by
  cases step with
  | raise x => exact inv.raise x
  | deliver free _ =>
      obtain ⟨main, handler⟩ := Bool.or_eq_false_iff.mp free
      have none := Option.not_isSome_iff_eq_none.mp (Bool.eq_false_iff.mp handler)
      exact (inv.free main none).deliver
  | line i handler less => exact inv.line handler less
  | leave handler => exact inv.leave handler
  | turn main none => exact inv.turn main none
  | block main none => exact inv.block main none
  | sigpending main => exact inv.sigpending main
  | usr1 sigsetPend main =>
      have blocks : s.main.blocks = true := by rw [main]; rfl
      split
      next found => exact inv.move blocks rfl (by simp only [main, Main.todo, found]; rfl)
      next found => exact inv.skip blocks rfl (by simp only [main, Main.todo, found]; rfl)
  | usr2 sigsetPend main =>
      have blocks : s.main.blocks = true := by rw [main]; rfl
      split
      next found => exact inv.move blocks rfl (by simp only [main, Main.todo, found]; rfl)
      next found => exact inv.skip blocks rfl (by simp only [main, Main.todo, found]; rfl)
  | saHandlerUsr i main less =>
      exact inv.move (by rw [main]; rfl) rfl (by rw [main, Main.todo, linesFrom_of_lt less]; rfl)
  | handled main => exact inv.skip (by rw [main]; rfl) rfl (by rw [main]; rfl)
  | message main => exact inv.move (by rw [main]; rfl) rfl (by rw [main]; rfl)
  | restore main => exact inv.restore main

theorem inv_of_reachable (reachable : machine.Reachable s) : Inv s := by
  refine reachable.invariant (fun s init => ?_) fun s t _ inv step => inv.step step
  cases init
  refine ⟨fun _ => rfl, iff_of_false nofun not_since_nil, nofun, fun _ => rfl, ?_, rfl⟩
  intro before after sigsetPend split
  cases (List.append_eq_nil_iff.mp split.symm).2

/-- **Looking.**  `main` finds `SIGUSR2` pending if and only if one has come since it has blocked
the signals, and `SIGUSR1` if and only if one has come since the last was handled, which is also
when it is pending at any time; and the lines printed are those of the turns, of the signals found
and of the two handlers one behind the other. -/
theorem looked_of_reachable (s : State) (reached : machine.Reachable s) :
    Looked s.log ∧ (s.pending .usr1 = true ↔ Came s.log .usr1) ∧
      s.output ++ s.todo = s.log.flatMap Event.text := by
  have inv := inv_of_reachable reached
  exact ⟨inv.looked, inv.usr1, inv.printed⟩

/-- One `SIGUSR2` comes while `main` sleeps, and a second behind its look, which nothing tells. -/
theorem looked_lost :
    ∃ s, machine.Reachable s ∧
      s.log.take 3 = [.turn, .blocked, .raised .usr2] ∧ s.log.drop 4 = [.raised .usr2] ∧
      s.output = [.install, .pending .usr2, .usr .usr2 0, .usr .usr2 1, .usr .usr2 2, .restore] ∧
      s.pending .usr2 = false ∧ Looked s.log := by
  have start : machine.Reachable _ := .of_init rfl
  have asleep := (start.tail (.turn _ rfl rfl)).tail (.block _ rfl rfl)
  have looked := (asleep.tail (.raise _ .usr2)).tail (.sigpending _ rfl)
  have found := ((looked.tail (.raise _ .usr2)).tail (.usr1 _ _ rfl)).tail (.usr2 _ _ rfl)
  have second := (found.tail (.saHandlerUsr _ 0 rfl (by decide))).tail
    (.saHandlerUsr _ 1 rfl (by decide))
  have handled := (second.tail (.saHandlerUsr _ 2 rfl (by decide))).tail (.handled _ rfl)
  have restored := (handled.tail (.message _ rfl)).tail (.restore _ rfl)
  exact ⟨_, restored, rfl, rfl, rfl, rfl, (looked_of_reachable _ restored).1⟩

end Alnp.SigPending
