import Mathlib.Order.Defs.LinearOrder
import Mathlib.Data.Int.Order.Basic

/-!
# System V semaphores with `SEM_UNDO`

One semaphore as `semop` and the end of a process see it.  Every process has an adjustment
`semadj`: an operation with `SEM_UNDO` subtracts its `sem_op` from the adjustment of the caller,
and the adjustment is added to the semaphore when the process ends, however it ends.
-/

namespace Alnp.SysvSem

/-- `SEMVMX`, the largest value of a semaphore. -/
def semvmx : Int := 32767

/-- `struct sembuf` for the one semaphore of the set. -/
structure Sembuf where
  semOp : Int
  /-- `sem_flg` is `SEM_UNDO`. -/
  undo : Bool

/-- What `semop` does when it is tried. -/
inductive Tried
  /-- It returns 0 with a new value and a new adjustment of the caller. -/
  | done (semval semadj : Int)
  /-- The caller sleeps and tries again later. -/
  | blocks
  /-- It returns -1 with `ERANGE`. -/
  | erange

/-- `semop` with one operation on a semaphore of value `semval`, by a process with adjustment
`semadj`. -/
def semop (buf : Sembuf) (semval semadj : Int) : Tried :=
  if buf.semOp = 0 ∧ semval ≠ 0 then .blocks
  else if semval + buf.semOp < 0 then .blocks
  else if semval + buf.semOp > semvmx then .erange
  else if buf.undo then
    if semadj - buf.semOp < -semvmx - 1 ∨ semadj - buf.semOp > semvmx then .erange
    else .done (semval + buf.semOp) (semadj - buf.semOp)
  else .done (semval + buf.semOp) semadj

/-- The value of the semaphore after the end of a process with adjustment `semadj`. -/
def exitSem (semadj semval : Int) : Int :=
  if semadj = 0 then semval else max 0 (min semvmx (semval + semadj))

/-- Within the range of the semaphore the adjustment is added as it is. -/
theorem exitSem_eq_add {semadj semval : Int} (nonneg : 0 ≤ semval + semadj)
    (le : semval + semadj ≤ semvmx) : exitSem semadj semval = semval + semadj := by
  unfold exitSem
  split
  · rename_i zero
    rw [zero, Int.add_zero]
  · rw [min_eq_right le, max_eq_right nonneg]

/-- An operation with `SEM_UNDO` moves its `sem_op` from the adjustment to the semaphore. -/
theorem semop_undo_done {op semval semadj semval' semadj' : Int}
    (done : semop ⟨op, true⟩ semval semadj = .done semval' semadj') :
    semval' = semval + op ∧ semadj' = semadj - op ∧ 0 ≤ semval' := by
  simp only [semop, ↓reduceIte] at done
  split_ifs at done with _ negative
  cases done
  exact ⟨rfl, rfl, Int.not_lt.mp negative⟩

/-- Waiting for zero succeeds only at zero. -/
theorem semop_zero_done {undo : Bool} {semval semadj semval' semadj' : Int}
    (done : semop ⟨0, undo⟩ semval semadj = .done semval' semadj') : semval = 0 := by
  by_contra nonzero
  simp [semop, nonzero] at done

end Alnp.SysvSem
