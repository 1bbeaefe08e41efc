import Mathlib.Data.Finset.Basic
import Alnp.Lib.Notice

/-!
# Terminated children and `SIGCHLD`

What the kernel keeps for a parent whose children do nothing but run and terminate.  `SIGCHLD` is a
standard signal: it is pending or not, and a termination that finds it pending leaves it so
(`Sigchld.merged` counts these).  A terminated child is a zombie until `waitpid` returns it.
-/

namespace Alnp

/-- The children of a process, each named by a number; `ε` is the status of a terminated one. -/
structure Sigchld (ε : Type) where
  running : Finset Nat
  /-- The terminated children that `waitpid` has not returned. -/
  zombies : List (Nat × ε)
  pending : Bool
  /-- How many terminations have found `SIGCHLD` pending. -/
  merged : Nat

/-- What `waitpid` returns. -/
inductive Waited (ε : Type)
  /-- a number `> 0`, with the status -/
  | child (pid : Nat) (status : ε)
  /-- 0 -/
  | none
  /-- -1 with `ECHILD` -/
  | echild

namespace Sigchld

variable {ε : Type}

/-- Children run and nothing has happened to them. -/
def quiet (running : Finset Nat) : Sigchld ε := ⟨running, [], false, 0⟩

def fork (pid : Nat) (k : Sigchld ε) : Sigchld ε := { k with running := insert pid k.running }

/-- A child terminates, and `SIGCHLD` is generated. -/
def terminate (pid : Nat) (status : ε) (k : Sigchld ε) : Sigchld ε where
  running := k.running.erase pid
  zombies := k.zombies ++ [(pid, status)]
  pending := true
  merged := k.merged + k.pending.toNat

/-- The pending `SIGCHLD` is delivered to its handler. -/
def deliver (k : Sigchld ε) : Sigchld ε := { k with pending := false }

/-- `waitpid(-1, &status, WNOHANG)` -/
inductive Waitpid (k : Sigchld ε) : Waited ε → Sigchld ε → Prop
  | child (pid : Nat) (status : ε) (before after : List (Nat × ε)) :
      k.zombies = before ++ (pid, status) :: after →
      Waitpid k (.child pid status) { k with zombies := before ++ after }
  | none : k.zombies = [] → k.running.Nonempty → Waitpid k .none k
  | echild : k.zombies = [] → k.running = ∅ → Waitpid k .echild k

/-- `SIGCHLD` announces zombies. -/
def notice (k : Sigchld ε) : Notice := ⟨k.zombies.length, k.pending, k.merged⟩

variable {k : Sigchld ε} {pid : Nat} {status : ε}

theorem notice_terminate : (k.terminate pid status).notice = k.notice.raise := by
  simp [notice, terminate, Notice.raise]

/-- `waitpid` returns a zombie if there is one. -/
theorem Waitpid.zombies_eq_nil {k' : Sigchld ε} {waited : Waited ε}
    (wait : k.Waitpid waited k') (none : ∀ pid status, waited ≠ .child pid status) :
    k.zombies = [] ∧ k' = k := by
  cases wait with
  | child pid status before after split => exact absurd rfl (none pid status)
  | none empty _ => exact ⟨empty, rfl⟩
  | echild empty _ => exact ⟨empty, rfl⟩

/-- Reaping a zombie deals with one item. -/
theorem Waitpid.notice_child {k' : Sigchld ε} (wait : k.Waitpid (.child pid status) k') :
    k'.notice = k.notice.deal := by
  cases wait with
  | child _ _ before after split =>
      simp [notice, Notice.deal, split]

end Sigchld

/-- How `waitid` with `WNOHANG` says that it has nothing to report. -/
inductive Idle
  /-- 0, with `si_pid` 0 -/
  | none
  /-- -1 with `ECHILD` -/
  | echild
  deriving Inhabited

/-- `waitid(P_ALL, 0, &wsiginfo, optflags)` with `WNOHANG`, on the state changes it has to report;
`idle` is its answer where there are none. -/
def waitid {ε : Type} (idle : Idle) : List (Nat × ε) → Waited ε × List (Nat × ε)
  | (pid, status) :: rest => (.child pid status, rest)
  | [] =>
      match idle with
      | .none => (.none, [])
      | .echild => (.echild, [])

end Alnp
