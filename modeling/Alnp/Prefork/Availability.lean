import Mathlib.Data.Fintype.Basic
import Alnp.Prefork.Model

/-!
# Availability of `inet_tcp_serv1.c`

The parent forks `MAX_POOL` children and waits for as many to end; then it returns.  In this program
`pr_err` ends the process, and it stands on every way out of a session but one: the chunk without a
newline.

`inService_iff_of_reachable`: the whole pool and its parent are still there exactly if no client has
done anything that leads to one of these ways out.
-/

namespace Alnp.Prefork

/-- The children and those that the parent has waited for. -/
structure Pool where
  children : Fin maxPool → Child
  reaped : Finset (Fin maxPool)

/-- The parent is in its loop over `wait`. -/
def Pool.Waiting (s : Pool) : Prop := s.reaped.card < maxPool

inductive PoolStep : Pool → Pool → Prop
  | child (s : Pool) (j : Fin maxPool) (answer : Answer) (c : Child) :
      ChildStep .inetTcpServ1 (s.children j) answer c →
      PoolStep s { s with children := Function.update s.children j c }
  | wait (s : Pool) (j : Fin maxPool) :
      s.Waiting → (s.children j).pc = .exited → j ∉ s.reaped →
      PoolStep s { s with reaped := insert j s.reaped }

/-- The program once all children are forked. -/
def pool : Machine Pool where
  init s := (∀ j, (s.children j).Started) ∧ s.reaped = ∅
  step := PoolStep

/-- Every child is in `start_child` and the parent in its loop. -/
def InService (s : Pool) : Prop :=
  (∀ j, (s.children j).pc ≠ .exited) ∧ s.Waiting

/-- What the client and the kernel do does not end the child: `accept` succeeds, `recv` neither
fails nor reports the end of the stream, and a chunk with a newline can be sent back. -/
def Survivable : Answer → Child → Prop
  | .accept (.fd _) _, _ => True
  | .accept (.failed _) _, _ => False
  | .recv (.failed errno) _, _ => errno = eintr
  | .recv .eof _, _ => False
  | .recv (.data bytes) (.sent _), c => strchr 10 (c.store bytes).memory ≠ .overrun
  | .recv (.data bytes) _, c => strchr 10 (c.store bytes).memory = .null

/-- The runs in which everything is `Survivable`. -/
def peaceful : Machine Pool where
  init := pool.init
  step s t := ∃ j answer c, ChildStep .inetTcpServ1 (s.children j) answer c ∧
    Survivable answer (s.children j) ∧ t = { s with children := Function.update s.children j c }

variable {c c' : Child} {s t : Pool}

/-- A turn ends the child exactly if it is not `Survivable`. -/
theorem ChildStep.survives {answer : Answer} (step : ChildStep .inetTcpServ1 c answer c') :
    c'.pc ≠ .exited ↔ Survivable answer c := by
  cases step with
  | accept accepted rcGai pc possible =>
      cases accepted with
      | fd cfd => exact iff_of_true nofun trivial
      | failed errno => exact iff_of_false (fun alive => alive rfl) id
  | recv cfd received sent pc possible =>
      have alive : c.pc ≠ .exited := fun exited => nomatch pc.symm.trans exited
      cases received with
      | failed errno =>
          rw [Program.received, InetTcpServ1.received]
          split
          · rename_i interrupted
            exact iff_of_true alive interrupted
          · rename_i failed
            exact iff_of_false (fun alive => alive rfl) failed
      | eof => exact iff_of_false (fun alive => alive rfl) id
      | data bytes =>
          have same : ((c.use cfd).store bytes).memory = (c.store bytes).memory := rfl
          rw [Program.received, InetTcpServ1.received, InetTcpServ1.reply, same]
          cases found : strchr 10 (c.store bytes).memory with
          | found index =>
              cases sent with
              | sent len =>
                  exact iff_of_true alive fun overrun => nomatch found.symm.trans overrun
              | failed errno =>
                  exact iff_of_false (fun alive => alive rfl)
                    fun null => nomatch found.symm.trans null
              | sigpipe =>
                  exact iff_of_false (fun alive => alive rfl)
                    fun null => nomatch found.symm.trans null
          | null =>
              have survives : Survivable (.recv (.data bytes) sent) c := by
                cases sent with
                | sent len => exact fun overrun => nomatch found.symm.trans overrun
                | _ => exact found
              exact iff_of_true nofun survives
          | overrun =>
              refine iff_of_false (fun alive => alive rfl) fun survives => ?_
              cases sent with
              | sent len => exact survives found
              | _ => exact nomatch found.symm.trans survives

/-! ## The pool -/

theorem peaceful_reachable (run : peaceful.Reachable s) : pool.Reachable s := by
  apply run.mono
  · exact fun s start => start
  · intro s t step
    obtain ⟨j, answer, c, turn, -, rfl⟩ := step
    exact .child s j answer c turn

theorem inService_of_peaceful (run : peaceful.Reachable s) :
    (∀ j, (s.children j).pc ≠ .exited) ∧ s.reaped = ∅ := by
  apply run.invariant (P := fun s => (∀ j, (s.children j).pc ≠ .exited) ∧ s.reaped = ∅)
  · intro s start
    refine ⟨fun j => ?_, start.2⟩
    obtain ⟨memory, -, started⟩ := start.1 j
    rw [started]
    nofun
  · intro s t _ inService step
    obtain ⟨alive, none⟩ := inService
    obtain ⟨j, answer, c, turn, survivable, rfl⟩ := step
    refine ⟨fun i => ?_, none⟩
    rcases eq_or_ne i j with rfl | other
    · simp only [Function.update_self]
      exact turn.survives.mpr survivable
    · simp only [Function.update_of_ne other]
      exact alive i

/-- An exited child stays so. -/
theorem peaceful_or_exited (reached : pool.Reachable s) :
    peaceful.Reachable s ∨ ∃ j, (s.children j).pc = .exited := by
  apply reached.or_damaged
  · exact fun s start => start
  · intro s t _ _ step
    cases step with
    | child j answer c turn =>
        by_cases survivable : Survivable answer (s.children j)
        · exact .inl ⟨j, answer, c, turn, survivable, rfl⟩
        · refine .inr ⟨j, ?_⟩
          simp only [Function.update_self]
          exact not_not.mp (mt turn.survives.mp survivable)
    | wait j waiting exited fresh => exact .inr ⟨j, exited⟩
  · intro s t _ exited step
    obtain ⟨i, exited⟩ := exited
    cases step with
    | child j answer c turn =>
        have other : i ≠ j := fun same => turn.alive (same ▸ exited)
        refine ⟨i, ?_⟩
        simp only [Function.update_of_ne other]
        exact exited
    | wait j waiting _ fresh => exact ⟨i, exited⟩

/-- **Availability.**  All children are in `start_child` and the parent waits for them exactly if
nothing has happened to any child that is not `Survivable`. -/
theorem inService_iff_of_reachable (reached : pool.Reachable s) :
    InService s ↔ peaceful.Reachable s := by
  constructor
  · intro inService
    rcases peaceful_or_exited reached with run | ⟨j, exited⟩
    · exact run
    · exact absurd exited (inService.1 j)
  · intro run
    obtain ⟨alive, none⟩ := inService_of_peaceful run
    refine ⟨alive, ?_⟩
    rw [Pool.Waiting, none]
    decide

/-- Three children whose buffers are zero. -/
def zeroedPool : Pool := ⟨fun _ => .zeroed, ∅⟩

theorem peaceful_zeroedPool : peaceful.Reachable zeroedPool :=
  .of_init ⟨fun _ => Child.zeroed_started, rfl⟩

/-- A line is sent back, a byte without a newline ends the session, and the server goes on. -/
theorem inService_dropped :
    ∃ s, pool.Reachable s ∧ (s.children 0).replies = [[104, 0]] ∧ (s.children 0).pc = .accept ∧
      InService s := by
  have accepted := peaceful_zeroedPool.tail
    ⟨0, _, _, .accept _ (.fd 4) 0 rfl (by decide), trivial, rfl⟩
  have echoed := accepted.tail
    ⟨0, _, _, .recv _ 4 (.data [104, 10]) (.sent 2) rfl (by decide), nofun, rfl⟩
  have dropped := echoed.tail
    ⟨0, _, _, .recv _ 4 (.data [104]) (.failed ebadf) rfl (by decide), rfl, rfl⟩
  have reached := peaceful_reachable dropped
  exact ⟨_, reached, by decide, by decide, (inService_iff_of_reachable reached).mpr dropped⟩

/-- A client connects and closes the connection, and a child is gone. -/
theorem not_forall_inService : ¬ ∀ s, pool.Reachable s → InService s := by
  intro always
  have start := peaceful_reachable peaceful_zeroedPool
  have accepted := start.tail (.child _ 0 _ _ (.accept _ (.fd 4) 0 rfl (by decide)))
  have closed := accepted.tail (.child _ 0 _ _ (.recv _ 4 .eof (.sent 0) rfl (by decide)))
  exact (always _ closed).1 0 rfl

end Alnp.Prefork
