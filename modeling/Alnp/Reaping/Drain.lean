import Mathlib.Data.List.TakeWhile
import Alnp.Lib.Loop
import Alnp.Kernel.Sigchld
import Alnp.Reaping.SignalfdChld

/-!
# The drain loop of `io_signalfd_chld.c`

The inner `while` loop of `main`, which one `SIGCHLD` starts, calls `waitid` until a turn leaves
`is_refork` at 0.  That is so when `waitid` has nothing to report, but also when it has reported a
child that was continued or trapped.  The messages of the loop are left out.

* `left_of_drain`: what the loop leaves to report, for every sequence of state changes.
* `drained_iff`: when it ends because nothing is left.
-/

namespace Alnp.SignalfdChld

/-- The loop: the state changes that `waitid` has still to report, those it has reported and whether
it has said that there are none; the variable `is_refork` and how often `start_child` was called. -/
structure Drain where
  waitable : List (Nat × SiCode)
  reported : List (Nat × SiCode)
  drained : Bool
  isRefork : Bool
  started : Nat

def Drain.start (reports : List (Nat × SiCode)) : Drain := ⟨reports, [], false, false, 0⟩

/-- The call of `waitid` and the `switch`. -/
def collect (idle : Idle) (d : Drain) : Drain :=
  match waitid idle d.waitable with
  | (.child pid code, rest) =>
      { d with
        waitable := rest
        reported := d.reported ++ [(pid, code)]
        isRefork := d.isRefork || code.isRefork }
  | (.none, rest) => { d with waitable := rest, drained := true }
  | (.echild, rest) => { d with waitable := rest, drained := true }

/-- A turn of the loop. -/
def drainTurn (idle : Idle) (d : Drain) : Flow Drain :=
  let d := collect idle d
  if d.isRefork then .next { d with isRefork := false, started := d.started + 1 } else .leave d

/-- The loop has ended with what `waitid` says: that nothing is left. -/
structure Drained (reports : List (Nat × SiCode)) (d : Drain) : Prop where
  drained : d.drained = true
  waitable : d.waitable = []
  reported : d.reported = reports

variable {reports : List (Nat × SiCode)} {d : Drain} {idle : Idle}

/-! ## One turn -/

theorem collect_nil (empty : d.waitable = []) : collect idle d = { d with drained := true } := by
  unfold collect
  rw [empty]
  obtain ⟨_, _, _, _, _⟩ := d
  cases empty
  cases idle <;> rfl

theorem collect_cons {pid : Nat} {code : SiCode} {rest : List (Nat × SiCode)}
    (more : d.waitable = (pid, code) :: rest) :
    collect idle d = { d with
      waitable := rest
      reported := d.reported ++ [(pid, code)]
      isRefork := d.isRefork || code.isRefork } := by
  unfold collect
  rw [more]
  rfl

/-- The reports at the head of a turn: all of those made so far set `is_refork`. -/
structure Collecting (reports : List (Nat × SiCode)) (d : Drain) : Prop where
  parts : d.reported ++ d.waitable = reports
  all : ∀ r ∈ d.reported, r.2.isRefork = true
  drained : d.drained = false
  isRefork : d.isRefork = false

theorem Collecting.start (reports : List (Nat × SiCode)) : Collecting reports (.start reports) :=
  ⟨rfl, fun _ none => (by cases none), rfl, rfl⟩

/-- What the loop leaves to report when it ends: what follows the first report that does not set
`is_refork`. -/
structure Left (reports : List (Nat × SiCode)) (d : Drain) : Prop where
  parts : d.reported ++ d.waitable = reports
  waitable : d.waitable = (reports.dropWhile fun r => r.2.isRefork).tail
  drained : d.drained = true ↔ ∀ r ∈ reports, r.2.isRefork = true

/-- The reports made so far are not what ends the loop. -/
theorem Collecting.dropWhile (collecting : Collecting reports d) :
    (reports.dropWhile fun r => r.2.isRefork) = d.waitable.dropWhile fun r => r.2.isRefork := by
  rw [← collecting.parts]
  exact List.dropWhile_append_of_pos collecting.all

/-- `waitid` has nothing to report, and the loop ends. -/
theorem Collecting.left_nil (collecting : Collecting reports d) (empty : d.waitable = []) :
    Left reports { d with drained := true, isRefork := false } := by
  have parts := collecting.parts
  have dropped := collecting.dropWhile
  rw [empty] at parts dropped
  refine ⟨empty ▸ parts, ?_, ?_⟩
  · rw [dropped]
    exact empty
  · rw [List.append_nil] at parts
    exact iff_of_true rfl (parts ▸ collecting.all)

/-- A report does not set `is_refork`, and the loop ends. -/
theorem Collecting.left_cons (collecting : Collecting reports d) {pid : Nat} {code : SiCode}
    {rest : List (Nat × SiCode)} (more : d.waitable = (pid, code) :: rest)
    (goes : code.isRefork = false) :
    Left reports
      { d with waitable := rest, reported := d.reported ++ [(pid, code)], isRefork := false } := by
  have parts := collecting.parts
  have dropped := collecting.dropWhile
  rw [more] at parts dropped
  refine ⟨(List.append_cons ..).symm.trans parts, ?_, ?_⟩
  · rw [dropped, List.dropWhile_cons_of_neg (by simp [goes])]
    rfl
  · refine iff_of_false (Bool.eq_false_iff.mp collecting.drained) fun all => ?_
    have sets := all (pid, code) (parts ▸ List.mem_append_right _ (List.mem_cons_self ..))
    cases goes.symm.trans sets

/-- A report sets `is_refork`, and the loop goes on. -/
theorem Collecting.next (collecting : Collecting reports d) {pid : Nat} {code : SiCode}
    {rest : List (Nat × SiCode)} (more : d.waitable = (pid, code) :: rest)
    (sets : code.isRefork = true) :
    Collecting reports
      { d with
        waitable := rest
        reported := d.reported ++ [(pid, code)]
        isRefork := false
        started := d.started + 1 } := by
  have parts := collecting.parts
  rw [more, List.append_cons] at parts
  refine ⟨parts, ?_, collecting.drained, rfl⟩
  intro r member
  rcases List.mem_append.mp member with old | new
  · exact collecting.all r old
  · rw [List.mem_singleton.mp new]
    exact sets

/-- The loop ends for every sequence of state changes. -/
theorem left_of_drain (reports : List (Nat × SiCode)) :
    Loop.Ends drainTurn (Left reports) (.start reports) := by
  refine Loop.ends_of_measure (I := Collecting reports) (fun d => d.waitable.length) ?_
    (.start reports)
  intro idle d collecting
  unfold drainTurn
  cases more : d.waitable with
  | nil =>
      rw [collect_nil more]
      simp only [collecting.isRefork, Bool.false_eq_true, ↓reduceIte]
      exact .inl ⟨_, rfl, collecting.left_nil more⟩
  | cons r rest =>
      obtain ⟨pid, code⟩ := r
      rw [collect_cons more]
      simp only [collecting.isRefork, Bool.false_or]
      cases sets : code.isRefork with
      | false => exact .inl ⟨_, rfl, collecting.left_cons more sets⟩
      | true => exact .inr ⟨_, rfl, collecting.next more sets, Nat.lt_succ_self _⟩

/-! ## The exact condition -/

theorem isRefork_iff (code : SiCode) :
    code.isRefork = true ↔ code ≠ .continued ∧ code ≠ .trapped := by
  cases code <;> decide

theorem all_of_drained (drained : Loop.Ends drainTurn (Drained reports) (.start reports)) :
    ∀ r ∈ reports, r.2.isRefork = true := by
  obtain ⟨d, left, all⟩ := ((left_of_drain reports).and drained).exists
  exact left.drained.mp all.drained

/-- **The drain loop.**  It ends after `waitid` has said that nothing is left, with every state
change reported, if and only if none of them is a continuation or a trap. -/
theorem drained_iff (reports : List (Nat × SiCode)) :
    Loop.Ends drainTurn (Drained reports) (.start reports) ↔
      ∀ r ∈ reports, r.2 ≠ .continued ∧ r.2 ≠ .trapped := by
  constructor
  · intro drained r member
    exact (isRefork_iff r.2).mp (all_of_drained drained r member)
  · intro none
    have all : ∀ r ∈ reports, r.2.isRefork = true :=
      fun r member => (isRefork_iff r.2).mpr (none r member)
    refine (left_of_drain reports).mono fun d left => ?_
    have empty : d.waitable = [] := by
      rw [left.waitable, List.dropWhile_eq_nil_iff.mpr all]
      rfl
    have parts := left.parts
    rw [empty, List.append_nil] at parts
    exact ⟨left.drained.mpr all, empty, parts⟩

/-- A child was continued and another one has exited: the loop ends at the first report, with the
second one, of a terminated child, not collected. -/
theorem not_forall_drained :
    ¬ ∀ reports : List (Nat × SiCode),
      Loop.Ends drainTurn (Drained reports) (.start reports) := by
  intro always
  have all := all_of_drained (always [(1, .continued), (2, .exited)])
  cases all (1, .continued) (List.mem_cons_self ..)

/-- No terminated child is left unreaped exactly when none is reported behind the first report that
ends the loop. -/
theorem reaped_iff (reports : List (Nat × SiCode)) :
    Loop.Ends drainTurn (fun d => ∀ r ∈ d.waitable, r.2.terminal = false) (.start reports) ↔
      ∀ r ∈ (reports.dropWhile fun r => r.2.isRefork).tail, r.2.terminal = false := by
  constructor
  · intro reaped
    obtain ⟨d, left, none⟩ := ((left_of_drain reports).and reaped).exists
    exact left.waitable ▸ none
  · intro none
    refine (left_of_drain reports).mono fun d left => ?_
    exact left.waitable.symm ▸ none

end Alnp.SignalfdChld
