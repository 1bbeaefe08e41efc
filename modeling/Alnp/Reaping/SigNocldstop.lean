import Alnp.Kernel.Sigchld
import Alnp.Lib.Machine

/-!
# The reaper of `sig_nocldstop.c`

`main` of `Chapter09/sig_nocldstop.c` installs `sa_handler_chld`, forks once and then calls `pause`
for ever; the handler calls `waitpid` until it returns no child.  The handler runs with every signal
blocked (`sigfillset`) and its `SIGCHLD` stands for terminations only (`SA_NOCLDSTOP`).

`no_lost_reap`: a zombie is always announced by a pending `SIGCHLD` or about to be found by the
handler, so none is left over while `main` pauses with nothing pending.
-/

namespace Alnp.SigNocldstop

/-- Where `main` is. -/
inductive MainAt
  | fork
  /-- in `pause` -/
  | pause
  /-- in `pause`, which a handler has interrupted -/
  | interrupted
  /-- at the message behind `pause` -/
  | print

/-- Where `sa_handler_chld` is. -/
inductive SaHandlerChld
  /-- It does not run. -/
  | idle
  /-- at its first message -/
  | start
  | waitpid
  /-- at the message about `pid_child` -/
  | report (pidChild : Nat)
  /-- behind the `break` -/
  | leave

/-- A handler in the middle of a call of `pause` makes it return. -/
def MainAt.interrupt : MainAt → MainAt
  | .pause => .interrupted
  | pc => pc

/-- The branch on the result of `waitpid`: 0 and -1 both leave the loop. -/
def SaHandlerChld.next : Waited Int → SaHandlerChld
  | .child pidChild _ => .report pidChild
  | .none => .leave
  | .echild => .leave

structure System where
  main : MainAt
  handler : SaHandlerChld
  children : Sigchld Int

inductive SystemStep : System → System → Prop
  | fork (s : System) (pid : Nat) :
      s.main = .fork → s.handler = .idle → pid ∉ s.children.running →
      (∀ z ∈ s.children.zombies, z.1 ≠ pid) →
      SystemStep s { s with main := .pause, children := s.children.fork pid }
  | forkFailed (s : System) :
      s.main = .fork → s.handler = .idle → SystemStep s { s with main := .pause }
  | resume (s : System) :
      s.main = .interrupted → s.handler = .idle → SystemStep s { s with main := .print }
  | print (s : System) :
      s.main = .print → s.handler = .idle → SystemStep s { s with main := .pause }
  | terminate (s : System) (pid : Nat) (status : Int) :
      pid ∈ s.children.running →
      SystemStep s { s with children := s.children.terminate pid status }
  /-- `SIGCHLD` is not blocked and starts the handler. -/
  | deliver (s : System) :
      s.handler = .idle → s.children.pending = true →
      SystemStep s ⟨s.main.interrupt, .start, s.children.deliver⟩
  | start (s : System) :
      s.handler = .start → SystemStep s { s with handler := .waitpid }
  | waitpid (s : System) (waited : Waited Int) (children : Sigchld Int) :
      s.handler = .waitpid → s.children.Waitpid waited children →
      SystemStep s { s with handler := .next waited, children := children }
  | report (s : System) (pidChild : Nat) :
      s.handler = .report pidChild → SystemStep s { s with handler := .waitpid }
  | leave (s : System) :
      s.handler = .leave → SystemStep s { s with handler := .idle }

/-- The program once the handler is installed.  Besides the child it forks, the process may have any
number of children from before its `exec`. -/
def machine : Machine System where
  init s := ∃ running, s = ⟨.fork, .idle, .quiet running⟩
  step := SystemStep

/-! ## No zombie is forgotten -/

/-- The handler runs and has not made its last call of `waitpid`. -/
def SaHandlerChld.BeforeLast : SaHandlerChld → Prop
  | .idle => False
  | .start => True
  | .waitpid => True
  | .report _ => True
  | .leave => False

/-- A zombie is announced or will be found by the handler. -/
def Announced (s : System) : Prop :=
  s.children.notice.Covered s.handler.BeforeLast

variable {s t : System}

theorem Announced.step (announced : Announced s) (step : SystemStep s t) : Announced t := by
  cases step with
  | fork pid forking idle _ _ => exact announced
  | forkFailed forking idle => exact announced
  | resume interrupted idle => exact announced
  | print printing idle => exact announced
  | terminate pid status running => exact Notice.covered_of_pending rfl
  | deliver idle pending => exact Notice.covered_of_working trivial
  | start starting => exact Notice.covered_of_working trivial
  | waitpid waited children waiting wait =>
      cases waited with
      | child pidChild status => exact Notice.covered_of_working trivial
      | none =>
          obtain ⟨empty, rfl⟩ := wait.zombies_eq_nil nofun
          exact Notice.covered_of_none (List.length_eq_zero_iff.mpr empty)
      | echild =>
          obtain ⟨empty, rfl⟩ := wait.zombies_eq_nil nofun
          exact Notice.covered_of_none (List.length_eq_zero_iff.mpr empty)
  | report pidChild reporting => exact Notice.covered_of_working trivial
  | leave leaving =>
      -- Behind its loop the handler covers no zombie, so the flag alone does.
      unfold Announced at announced
      rw [leaving] at announced
      exact announced

theorem announced_of_reachable (reached : machine.Reachable s) : Announced s := by
  apply reached.invariant (P := Announced)
  · intro s start
    obtain ⟨running, rfl⟩ := start
    exact Notice.covered_of_none rfl
  · exact fun s t _ announced step => announced.step step

/-- **No lost reap.**  As long as a terminated child is not reaped, `SIGCHLD` is pending or
`sa_handler_chld` has its last `waitpid` still before it; in `pause` with nothing pending there is
no zombie. -/
theorem no_lost_reap (reached : machine.Reachable s) :
    (s.children.zombies ≠ [] → s.children.pending = true ∨ s.handler.BeforeLast) ∧
      (s.main = .pause → s.handler = .idle → s.children.pending = false →
        s.children.zombies = []) := by
  have announced := announced_of_reachable reached
  refine ⟨fun some => announced (mt List.length_eq_zero_iff.mp some), ?_⟩
  intro _ idle down
  by_contra some
  rcases announced (mt List.length_eq_zero_iff.mp some) with up | working
  · exact absurd (down.symm.trans up) Bool.false_ne_true
  · rw [idle] at working
    exact working

/-- Two children terminate, their signals merge, and one run of the handler reaps both. -/
theorem no_lost_reap_merged :
    ∃ s, machine.Reachable s ∧ s.main = .pause ∧ s.children.merged = 1 ∧
      s.children.zombies = [] := by
  have start : machine.Reachable ⟨.fork, .idle, .quiet {1}⟩ := .of_init ⟨_, rfl⟩
  have forked := start.tail (SystemStep.fork _ 2 rfl rfl (by decide) nofun)
  have exited := forked.tail (SystemStep.terminate _ 1 0 (by decide))
  have killed := exited.tail (SystemStep.terminate _ 2 9 (by decide))
  have delivered := killed.tail (SystemStep.deliver _ rfl rfl)
  have started := delivered.tail (SystemStep.start _ rfl)
  have first := started.tail (SystemStep.waitpid _ _ _ rfl (.child 1 0 [] [(2, 9)] rfl))
  have again := first.tail (SystemStep.report _ 1 rfl)
  have second := again.tail (SystemStep.waitpid _ _ _ rfl (.child 2 9 [] [] rfl))
  have last := second.tail (SystemStep.report _ 2 rfl)
  have none := last.tail (SystemStep.waitpid _ _ _ rfl (.echild rfl (by decide)))
  have left := none.tail (SystemStep.leave _ rfl)
  have resumed := left.tail (SystemStep.resume _ rfl rfl)
  have paused := resumed.tail (SystemStep.print _ rfl rfl)
  exact ⟨_, paused, rfl, rfl, (no_lost_reap paused).2 rfl rfl rfl⟩

end Alnp.SigNocldstop
