import Alnp.Lib.Loop
import Alnp.Kernel.Sigchld
import Alnp.Reaping.SignalfdChld

/-!
# The handler of `sig_waitid.c`

`sa_handler_chld` of `Chapter09/sig_waitid.c` calls `waitid` in a `while (true)` loop.  It reports
every state change once (`reported_of_turns`), but where `waitid` has nothing to report the loop
goes on: unlike the one of `sig_nocldstop.c` it has no `break`, so the handler never returns
(`not_ends_saHandlerChld`).
-/

namespace Alnp.SigWaitid

open SignalfdChld (SiCode)

/-- The `switch` of `sa_handler_chld`. -/
def strStatus : SiCode → String
  | .exited => "Exited"
  | .killed => "Killed"
  | .dumped => "Dumped"
  | .stopped => "Stopped"
  | .continued => "Continue"
  | .trapped => "si_code"

/-- The handler: the state changes that `waitid` has still to report, each with its `si_pid`,
`si_code` and `si_status`, and what the handler has printed about the others. -/
structure Handler where
  waitable : List (Nat × SiCode × Int)
  printed : List (Nat × String × Int)

def Handler.start (changes : List (Nat × SiCode × Int)) : Handler := ⟨changes, []⟩

/-- What is printed about a state change. -/
def message (change : Nat × SiCode × Int) : Nat × String × Int :=
  (change.1, strStatus change.2.1, change.2.2)

/-- A turn of the loop of `sa_handler_chld`, with the answer of `waitid` where it has nothing to
report. -/
def saHandlerChldTurn (idle : Idle) (_ : Unit) (h : Handler) : Flow Handler :=
  match waitid idle h.waitable with
  | (.child pid (code, status), rest) =>
      .next { waitable := rest, printed := h.printed ++ [message (pid, code, status)] }
  | (.none, rest) => .next { h with waitable := rest }
  | (.echild, rest) => .next { h with waitable := rest }

/-- Every state change has been reported once. -/
structure Reported (changes : List (Nat × SiCode × Int)) (h : Handler) : Prop where
  waitable : h.waitable = []
  printed : h.printed = changes.map message

variable {changes : List (Nat × SiCode × Int)} {idle : Idle} {h t : Handler}

/-- What is printed and what is left to report are the state changes, whatever the turn. -/
theorem parts_saHandlerChldTurn
    (parts : h.printed ++ h.waitable.map message = changes.map message)
    (went : saHandlerChldTurn idle () h = .next t) :
    t.printed ++ t.waitable.map message = changes.map message := by
  unfold saHandlerChldTurn at went
  cases more : h.waitable with
  | nil =>
      rw [more] at parts went
      cases idle <;> cases went <;> exact parts
  | cons change rest =>
      obtain ⟨pid, code, status⟩ := change
      rw [more] at parts went
      cases went
      rw [List.map_cons, List.append_cons] at parts
      exact parts

/-- At the head of every turn each state change has been reported once or is still waitable. -/
theorem parts_of_turns (turns : Loop.Turns (saHandlerChldTurn idle) (.start changes) h) :
    h.printed ++ h.waitable.map message = changes.map message :=
  turns.invariant (fun _ _ _ parts went => parts_saHandlerChldTurn parts went) rfl

/-- The reports are made, all of them and each once. -/
theorem reported_of_turns (idle : Idle) (changes : List (Nat × SiCode × Int))
    (printed : List (Nat × String × Int)) :
    Loop.Turns (saHandlerChldTurn idle) ⟨changes, printed⟩
      ⟨[], printed ++ changes.map message⟩ := by
  induction changes generalizing printed with
  | nil =>
      rw [List.map_nil, List.append_nil]
      exact .refl
  | cons change rest ih =>
      obtain ⟨pid, code, status⟩ := change
      rw [List.map_cons, List.append_cons]
      exact .head ⟨(), rfl⟩ (ih _)

/-- Every turn is followed by another one, also where `waitid` has nothing to report. -/
theorem exists_next (idle : Idle) (h : Handler) :
    ∃ t, saHandlerChldTurn idle () h = .next t := by
  unfold saHandlerChldTurn
  cases h.waitable with
  | nil => cases idle <;> exact ⟨_, rfl⟩
  | cons change rest => exact ⟨_, rfl⟩

theorem not_ends {P : Handler → Prop} (h : Handler) :
    ¬ Loop.Ends (saHandlerChldTurn idle) P h :=
  Loop.not_ends (I := fun _ => True)
    (fun h _ => (exists_next idle h).elim fun t went => ⟨(), t, went, trivial⟩) trivial

/-- **The handler never returns.**  There is no sequence of state changes, not even the empty one,
for which it reports each of them and ends. -/
theorem not_ends_reported (changes : List (Nat × SiCode × Int)) (idle : Idle) :
    ¬ Loop.Ends (saHandlerChldTurn idle) (Reported changes) (.start changes) :=
  not_ends _

/-- One child has exited, and there is no other child. -/
theorem not_forall_ends_reported :
    ¬ ∀ (changes : List (Nat × SiCode × Int)) (idle : Idle),
      Loop.Ends (saHandlerChldTurn idle) (Reported changes) (.start changes) :=
  fun always => not_ends _ (always [(1, .exited, 0)] .echild)

end Alnp.SigWaitid
