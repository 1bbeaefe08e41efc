import Mathlib.Data.List.Chain
import Alnp.Lib.Handlers
import Alnp.Lib.Machine
import Alnp.Lib.Progress

/-!
# Handlers within handlers

`Chapter09/sig_basic.c` and `sig_siginfo.c` handle `SIGUSR1` with all signals blocked and `SIGUSR2`
with none but itself; both handlers print a line a second (in `sig_siginfo.c` one line more, in
front).  `main` waits in `pause` and prints a line when a handler has interrupted it.  Any number of
the two signals come, but no handler begins inside a message: `pr_out` is several calls of stdio,
which a handler that prints would tear.  So a signal that is not blocked comes while the process
sleeps, is in `pause` or is between two messages.

* `nested_of_reachable`: which handlers run inside which, and the lines of a `SIGUSR1` stand
  together.
* `handled_of_reachable`: every signal that has come has been handled since or is pending, and each
  handling prints its lines from the first to the last.
-/

namespace Alnp.SigNesting

inductive Usr
  | usr1
  | usr2
deriving DecidableEq

/-- `sa_mask` with the signal itself: `sigfillset` for `SIGUSR1`, `sigemptyset` for `SIGUSR2`. -/
def blocks : Usr → Usr → Bool
  | .usr1, _ => true
  | .usr2, y => y = .usr2

/-- The two programs. -/
inductive Program
  | sigBasic
  | sigSiginfo

/-- How many lines a handler prints. -/
def Program.lines : Program → Nat
  | sigBasic => 10
  | sigSiginfo => 11

/-- A line of the output. -/
inductive Line
  /-- the line with this number of the handler -/
  | usr (x : Usr) (i : Nat)
  /-- `[MAIN] receive signal...` -/
  | main
deriving DecidableEq

inductive Main
  /-- In front of `pause`: a handler that runs here does not end it. -/
  | turn
  | pause
  /-- Behind `pause`. -/
  | report
deriving DecidableEq

/-- Where `main` goes on behind a handler. -/
def Main.resume : Main → Main
  | turn => turn
  | pause => report
  | report => report

structure State where
  signals : Handlers Usr Nat
  main : Main
  output : List Line

/-- A step, with handlers that print `n` lines.  A message is printed in one step. -/
inductive Step (n : Nat) : State → State → Prop
  | raise (s : State) (x : Usr) : Step n s { s with signals := s.signals.raise x }
  /-- A handler begins, between two messages of what it interrupts. -/
  | deliver (s : State) (x : Usr) :
      s.signals.pending x = true → s.signals.mask x = false →
      Step n s { s with signals := s.signals.deliver blocks 0 x }
  | line (s : State) (x : Usr) (saved : Usr → Bool) (i : Nat) (rest : List (Frame Usr Nat)) :
      s.signals.frames = ⟨x, saved, i⟩ :: rest → i < n →
      Step n s
        { s with signals := s.signals.advance (i + 1), output := s.output ++ [.usr x i] }
  /-- The handler returns; if it has interrupted `main`, that is no longer in `pause`. -/
  | leave (s : State) (x : Usr) (saved : Usr → Bool) (rest : List (Frame Usr Nat)) :
      s.signals.frames = ⟨x, saved, n⟩ :: rest →
      Step n s
        { s with
          signals := s.signals.leave, main := if rest.isEmpty then s.main.resume else s.main }
  | report (s : State) :
      s.signals.frames = [] → s.main = .report →
      Step n s { s with main := .turn, output := s.output ++ [.main] }
  | pause (s : State) :
      s.signals.frames = [] → s.main = .turn → Step n s { s with main := .pause }

/-- The program with its handlers installed. -/
def machine (p : Program) : Machine State where
  init s := s = ⟨⟨fun _ => false, fun _ => false, [], []⟩, .turn, []⟩
  step := Step p.lines

/-! ## Which handlers run -/

variable {n : Nat} {s t : State}

/-- Above a handler that runs there can only be `SIGUSR1`, and that on `SIGUSR2`. -/
theorem blocks_eq_false {x y : Usr} : blocks x y = false ↔ x = .usr2 ∧ y = .usr1 := by
  cases x <;> cases y <;> simp [blocks]

theorem blocks_self (x : Usr) : blocks x x = true := by
  cases x <;> rfl

/-- The handlers that may run, the innermost first. -/
def Nested (running : List Usr) : Prop :=
  running = [] ∨ running = [.usr1] ∨ running = [.usr2] ∨ running = [.usr1, .usr2]

theorem nested_of_pairwise {running : List Usr}
    (pairwise : running.Pairwise fun upper lower => blocks lower upper = false) :
    Nested running := by
  cases pairwise with
  | nil => exact .inl rfl
  | @cons x rest above pairwise =>
      cases pairwise with
      | nil =>
          cases x with
          | usr1 => exact .inr (.inl rfl)
          | usr2 => exact .inr (.inr (.inl rfl))
      | @cons y rest above' pairwise =>
          obtain ⟨rfl, rfl⟩ := blocks_eq_false.mp (above y List.mem_cons_self)
          cases rest with
          | nil => exact .inr (.inr (.inr rfl))
          | cons z rest =>
              obtain ⟨-, wrong⟩ := blocks_eq_false.mp (above' z List.mem_cons_self)
              cases wrong

/-! ## The lines -/

/-- What may follow a line: behind a line of `SIGUSR1` that is not its last comes the next one, and
nowhere else. -/
def Follows (n : Nat) (before behind : Line) : Prop :=
  ∀ i, (before = .usr .usr1 i → i + 1 < n → behind = .usr .usr1 (i + 1)) ∧
    (behind = .usr .usr1 (i + 1) → before = .usr .usr1 i)

/-- The number of a line of a signal. -/
def Line.number (x : Usr) : Line → Option Nat
  | .usr y i => if y = x then some i else none
  | .main => none

/-- The numbers of the lines of a signal. -/
def numbers (x : Usr) (output : List Line) : List Nat := output.filterMap (Line.number x)

theorem numbers_append (x : Usr) (xs ys : List Line) :
    numbers x (xs ++ ys) = numbers x xs ++ numbers x ys :=
  List.filterMap_append

theorem numbers_self (x : Usr) (i : Nat) : numbers x [.usr x i] = [i] := by
  simp [numbers, Line.number]

theorem numbers_of_ne {x y : Usr} {i : Nat} (other : x ≠ y) : numbers y [.usr x i] = [] := by
  simp [numbers, Line.number, other]

/-- How far the handler of a signal has come, if it runs. -/
def progress (x : Usr) (frames : List (Frame Usr Nat)) : Nat :=
  total (fun f => if f.signal = x then f.progress else 0) frames

/-- How many handlers of a signal run. -/
def running (x : Usr) (frames : List (Frame Usr Nat)) : Nat :=
  frames.countP fun f => f.signal = x

/-- `k` runs through the lines and one that has come to line `i`. -/
def through (n k i : Nat) : List Nat := (List.replicate k (List.range n)).flatten ++ List.range i

theorem through_succ (n k i : Nat) : through n k i ++ [i] = through n k (i + 1) := by
  rw [through, through, List.range_succ, List.append_assoc]

/-- A run through all lines. -/
theorem through_full (n k : Nat) : through n k n = through n (k + 1) 0 := by
  rw [through, through, List.replicate_succ', List.flatten_append, List.flatten_singleton,
    List.range_zero, List.append_nil]

/-- Every delivery of a signal has printed its lines, and the last one those so far. -/
def Printed (n : Nat) (s : State) (x : Usr) : Prop :=
  ∃ k, numbers x s.output = through n k (progress x s.signals.frames) ∧
    s.signals.log.count (.delivered x) = k + running x s.signals.frames

structure Inv (n : Nat) (s : State) : Prop where
  stacked : Handlers.Stacked blocks (fun _ => false) s.signals.mask s.signals.frames
  answered : Handlers.Answered s.signals.pending s.signals.log
  printed : ∀ x, Printed n s x
  chain : s.output.IsChain (Follows n)
  /-- Behind a line of `SIGUSR1` that is not its last its handler runs on top. -/
  last : ∀ i, s.output.getLast? = some (.usr .usr1 i) → i + 1 < n →
    ∃ saved rest, s.signals.frames = ⟨.usr1, saved, i + 1⟩ :: rest
  top : ∀ saved i rest, s.signals.frames = ⟨.usr1, saved, i + 1⟩ :: rest →
    s.output.getLast? = some (.usr .usr1 i)

/-! ### The handlers of one signal -/

variable {frames rest : List (Frame Usr Nat)} {x y : Usr} {saved : Usr → Bool} {i : Nat}

theorem progress_cons (f : Frame Usr Nat) (rest : List (Frame Usr Nat)) (x : Usr) :
    progress x (f :: rest) = (if f.signal = x then f.progress else 0) + progress x rest :=
  List.sum_cons

theorem running_cons (f : Frame Usr Nat) (rest : List (Frame Usr Nat)) (x : Usr) :
    running x (f :: rest) = running x rest + if f.signal = x then 1 else 0 := by
  rw [running, List.countP_cons]
  simp [running]

theorem none_of_notMem (none : ∀ f ∈ frames, f.signal ≠ x) :
    running x frames = 0 ∧ progress x frames = 0 := by
  induction frames with
  | nil => exact ⟨rfl, rfl⟩
  | cons f rest ih =>
      have other := none f List.mem_cons_self
      obtain ⟨running, progress⟩ := ih fun g member => none g (List.mem_cons_of_mem _ member)
      rw [running_cons, progress_cons, if_neg other, if_neg other, running, progress]
      exact ⟨rfl, rfl⟩

/-- Below the handler on top there is no other of its signal. -/
theorem Inv.none_below (inv : Inv n s) (frames : s.signals.frames = ⟨x, saved, i⟩ :: rest) :
    running x rest = 0 ∧ progress x rest = 0 := by
  have nodup := inv.stacked.nodup blocks_self
  rw [frames, List.map_cons, List.nodup_cons] at nodup
  exact none_of_notMem fun f member same => nodup.1 (List.mem_map.mpr ⟨f, member, same⟩)

/-! ## The invariant is kept -/

theorem Inv.deliver (inv : Inv n s) (up : s.signals.pending x = true)
    (free : s.signals.mask x = false) :
    Inv n { s with signals := s.signals.deliver blocks 0 x } := by
  refine ⟨inv.stacked.deliver free 0, inv.answered.deliver up, fun y => ?_, inv.chain,
    fun i last more => ?_, fun saved i rest top => ?_⟩
  · obtain ⟨k, numbers, count⟩ := inv.printed y
    refine ⟨k, ?_, ?_⟩
    · change _ = through n k (progress y (⟨x, s.signals.mask, 0⟩ :: s.signals.frames))
      rw [progress_cons, ite_self, Nat.zero_add]
      exact numbers
    · change (s.signals.log ++ [SignalEvent.delivered x]).count (SignalEvent.delivered y) =
        k + running y (⟨x, s.signals.mask, 0⟩ :: s.signals.frames)
      rw [List.count_append, running_cons, count, List.count_singleton]
      by_cases same : x = y <;> simp [same, Nat.add_assoc]
  · -- While `SIGUSR1` has lines left to print, nothing is delivered.
    obtain ⟨saved, rest, frames⟩ := inv.last i last more
    have member : (⟨.usr1, saved, i + 1⟩ : Frame Usr Nat) ∈ s.signals.frames :=
      frames ▸ List.mem_cons_self
    cases free.symm.trans (inv.stacked.blocked member rfl)
  · cases top

theorem Inv.line (inv : Inv n s) (frames : s.signals.frames = ⟨x, saved, i⟩ :: rest)
    (less : i < n) :
    Inv n { s with
      signals := s.signals.advance (i + 1), output := s.output ++ [.usr x i] } := by
  have now : (s.signals.advance (i + 1)).frames = ⟨x, saved, i + 1⟩ :: rest := by
    rw [Handlers.advance, frames]
  have log : (s.signals.advance (i + 1)).log = s.signals.log := by
    rw [Handlers.advance, frames]
  have pending : (s.signals.advance (i + 1)).pending = s.signals.pending := by
    rw [Handlers.advance, frames]
  have below := inv.none_below frames
  refine ⟨inv.stacked.advance (i + 1), ?_, fun y => ?_, ?_, fun j last more => ?_,
    fun saved' j rest' top => ?_⟩
  · rw [log, pending]
    exact inv.answered
  · obtain ⟨k, numbers', count⟩ := inv.printed y
    refine ⟨k, ?_, ?_⟩
    · rw [frames, progress_cons] at numbers'
      rw [numbers_append, numbers', now, progress_cons]
      by_cases same : x = y
      · subst same
        rw [numbers_self, if_pos rfl, if_pos rfl, below.2]
        exact through_succ n k i
      · rw [numbers_of_ne same, List.append_nil, if_neg same, if_neg same]
    · rw [frames, running_cons] at count
      rw [log, now, running_cons]
      exact count
  · refine List.isChain_append.mpr ⟨inv.chain, List.isChain_singleton _, ?_⟩
    intro l last l' head
    cases List.mem_singleton.mp (List.mem_of_mem_head? head)
    refine fun j => ⟨?_, ?_⟩
    · rintro rfl more
      obtain ⟨saved', rest', top⟩ := inv.last j last more
      cases frames.symm.trans top
      rfl
    · intro same
      cases same
      exact Option.some.inj (last.symm.trans (inv.top saved j rest frames))
  · rw [List.getLast?_concat] at last
    cases last
    exact ⟨saved, rest, now⟩
  · cases now.symm.trans top
    exact List.getLast?_concat

theorem Inv.leave (inv : Inv n s) (frames : s.signals.frames = ⟨x, saved, n⟩ :: rest)
    (main : Main) :
    Inv n { s with signals := s.signals.leave, main := main } := by
  have now : s.signals.leave.frames = rest := by
    rw [Handlers.leave, frames]
  have log : s.signals.leave.log = s.signals.log := by
    rw [Handlers.leave, frames]
  have pending : s.signals.leave.pending = s.signals.pending := by
    rw [Handlers.leave, frames]
  have below := inv.none_below frames
  refine ⟨inv.stacked.leave, ?_, fun y => ?_, inv.chain, fun j last more => ?_,
    fun saved' j rest' top => ?_⟩
  · rw [log, pending]
    exact inv.answered
  · obtain ⟨k, numbers', count⟩ := inv.printed y
    rw [frames, progress_cons] at numbers'
    rw [frames, running_cons] at count
    by_cases same : x = y
    · subst same
      refine ⟨k + 1, ?_, ?_⟩
      · rw [now, below.2, ← through_full, numbers', if_pos rfl, below.2, Nat.add_zero]
      · rw [log, now, below.1, count, if_pos rfl, below.1]
    · rw [if_neg same, Nat.zero_add] at numbers'
      rw [if_neg same, Nat.add_zero] at count
      refine ⟨k, ?_, ?_⟩
      · rw [now]
        exact numbers'
      · rw [log, now]
        exact count
  · obtain ⟨saved', rest', top⟩ := inv.last j last more
    cases frames.symm.trans top
    exact absurd more (Nat.lt_irrefl _)
  · -- No handler runs above that of `SIGUSR1`.
    have pairwise := inv.stacked.pairwise
    rw [frames, now.symm.trans top, List.map_cons, List.map_cons] at pairwise
    cases (List.pairwise_cons.mp pairwise).1 .usr1 List.mem_cons_self

theorem Inv.report (inv : Inv n s) (idle : s.signals.frames = []) :
    Inv n { s with main := .turn, output := s.output ++ [.main] } := by
  refine ⟨inv.stacked, inv.answered, fun y => ?_, ?_, fun j last _ => ?_,
    fun saved j rest top => ?_⟩
  · obtain ⟨k, numbers', count⟩ := inv.printed y
    refine ⟨k, ?_, count⟩
    rw [numbers_append, numbers']
    exact List.append_nil _
  · refine List.isChain_append.mpr ⟨inv.chain, List.isChain_singleton _, ?_⟩
    intro l last l' head
    cases List.mem_singleton.mp (List.mem_of_mem_head? head)
    refine fun j => ⟨?_, nofun⟩
    rintro rfl more
    obtain ⟨saved, rest, top⟩ := inv.last j last more
    cases idle.symm.trans top
  · rw [List.getLast?_concat] at last
    cases last
  · cases idle.symm.trans top

theorem Inv.step (inv : Inv n s) (step : Step n s t) : Inv n t := by
  cases step with
  | raise x =>
      refine ⟨inv.stacked, inv.answered.raise x, fun y => ?_, inv.chain, inv.last, inv.top⟩
      obtain ⟨k, numbers, count⟩ := inv.printed y
      refine ⟨k, numbers, ?_⟩
      change (s.signals.log ++ [SignalEvent.raised x]).count (SignalEvent.delivered y) = _
      have none : [SignalEvent.raised x].count (SignalEvent.delivered y) = 0 := by simp
      rw [List.count_append, none]
      exact count
  | deliver x up free => exact inv.deliver up free
  | line x saved i rest frames less => exact inv.line frames less
  | leave x saved rest frames => exact inv.leave frames _
  | report idle main => exact inv.report idle
  | pause idle main =>
      exact ⟨inv.stacked, inv.answered, inv.printed, inv.chain, inv.last, inv.top⟩

variable {p : Program}

theorem inv_of_reachable (reached : (machine p).Reachable s) : Inv p.lines s := by
  apply reached.invariant (P := Inv p.lines)
  · rintro s rfl
    exact ⟨.nil, Handlers.answered_nil, fun x => ⟨0, rfl, rfl⟩, .nil, nofun, nofun⟩
  · exact fun s t _ inv step => inv.step step

/-- `SIGUSR2` comes, and behind its first line `SIGUSR1`, which prints a line. -/
theorem exists_run_two :
    ∃ s, (machine .sigBasic).Reachable s ∧ s.signals.frames.map Frame.signal = [.usr1, .usr2] ∧
      s.output = [.usr .usr2 0, .usr .usr1 0] ∧ s.signals.pending = fun _ => false := by
  have start : (machine .sigBasic).Reachable _ := .of_init rfl
  have second := ((start.tail (.raise _ .usr2)).tail (.deliver _ .usr2 rfl rfl)).tail
    (.line _ .usr2 _ 0 [] rfl (by decide))
  have first := ((second.tail (.raise _ .usr1)).tail (.deliver _ .usr1 rfl rfl)).tail
    (.line _ .usr1 _ 0 _ rfl (by decide))
  refine ⟨_, first, rfl, rfl, ?_⟩
  funext x
  cases x <;> rfl

/-- **Nesting.**  The handler of `SIGUSR1` runs alone or on top of that of `SIGUSR2`; the mask is
that of the handlers that run; and the lines of a `SIGUSR1` stand together. -/
theorem nested_of_reachable (p : Program) (s : State) (reached : (machine p).Reachable s) :
    Nested (s.signals.frames.map Frame.signal) ∧
      (∀ y, s.signals.mask y = s.signals.frames.any fun f => blocks f.signal y) ∧
      s.output.IsChain (Follows p.lines) := by
  have inv := inv_of_reachable reached
  exact ⟨nested_of_pairwise inv.stacked.pairwise, inv.stacked.mask_eq, inv.chain⟩

theorem nested_two :
    ∃ s, (machine .sigBasic).Reachable s ∧ s.signals.frames.map Frame.signal = [.usr1, .usr2] ∧
      Nested [.usr1, .usr2] := by
  obtain ⟨s, reached, running, -⟩ := exists_run_two
  exact ⟨s, reached, running, running ▸ (nested_of_reachable .sigBasic s reached).1⟩

/-- **Handling.**  Every signal that has come has been handled since or is pending; the lines of its
handler are those of complete runs and of the one at work, one run for each delivery, of which there
are not more than signals that have come. -/
theorem handled_of_reachable (p : Program) (s : State) (reached : (machine p).Reachable s) :
    Handlers.Answered s.signals.pending s.signals.log ∧ ∀ x, Printed p.lines s x := by
  have inv := inv_of_reachable reached
  exact ⟨inv.answered, inv.printed⟩

theorem handled_two :
    ∃ s, (machine .sigBasic).Reachable s ∧ s.output = [.usr .usr2 0, .usr .usr1 0] ∧
      Handlers.Answered (fun _ => false) s.signals.log := by
  obtain ⟨s, reached, -, output, pending⟩ := exists_run_two
  exact ⟨s, reached, output, pending ▸ (handled_of_reachable .sigBasic s reached).1⟩

end Alnp.SigNesting
