import Mathlib.Logic.Function.Basic
import Alnp.Kernel.SysvMsg
import Alnp.Kernel.SysvSem

/-!
# Semaphore sets by key and identifier

The sets of the system, each under its identifier with the key it was created for.  `Semget` and
`SemgetExcl` say what a call of `semget` may come to; a new set has all semaphores at 0.  `setval`
is `semctl` with `SETVAL`, which refuses values outside `0..SEMVMX`.
-/

namespace Alnp

structure SemSet where
  key : Int
  nSems : Nat
  semval : Nat → Int

/-- The semaphore sets of the system by identifier. -/
abbrev SemTable := Int → Option SemSet

namespace SemTable

/-- A set with the key is there. -/
def HasKey (t : SemTable) (key : Int) : Prop := ∃ id set, t id = some set ∧ set.key = key

/-- A new set. -/
def create (t : SemTable) (id key : Int) (nSems : Nat) : SemTable :=
  Function.update t id (some ⟨key, nSems, fun _ => 0⟩)

/-- `semget(key, n_sem, IPC_CREAT | IPC_EXCL | mode)`: the identifier of a new set, or the error. -/
def SemgetExcl (t : SemTable) (key : Int) : Except Errno Int → Prop
  | .ok id => 0 ≤ id ∧ t id = none ∧ (key = ipcPrivate ∨ ¬ t.HasKey key)
  | .error errno => errno = eexist → key ≠ ipcPrivate ∧ t.HasKey key

/-- `semget(key, n_sem, 0)`: the identifier of a set with the key, or -1. -/
def Semget (t : SemTable) (key : Int) (nSem : Nat) (ret : Int) : Prop :=
  ret = -1 ∨ ∃ set, t ret = some set ∧ set.key = key ∧ nSem ≤ set.nSems

/-- `semctl(id, i, SETVAL, val)`; it also fails where the kernel has another reason to. -/
def setval (t : SemTable) (refused : Bool) (id : Int) (i : Nat) (val : Int) : Option SemTable :=
  match t id with
  | none => none
  | some set =>
      if refused ∨ set.nSems ≤ i ∨ val < 0 ∨ val > SysvSem.semvmx then none
      else
        some (Function.update t id (some { set with semval := Function.update set.semval i val }))

variable {t t' : SemTable} {id : Int} {i : Nat} {val : Int} {refused : Bool} {set : SemSet}

/-- `SETVAL` fails where it is refused and for a value out of range. -/
theorem setval_eq_none_iff (here : t id = some set) (inside : i < set.nSems) :
    t.setval refused id i val = none ↔ refused ∨ val < 0 ∨ val > SysvSem.semvmx := by
  rw [setval, here]
  dsimp only
  split
  · next fails =>
      have either := fails
      rw [or_iff_right (a := set.nSems ≤ i) (Nat.not_le.mpr inside)] at either
      exact iff_of_true rfl either
  · next works =>
      rw [or_iff_right (a := set.nSems ≤ i) (Nat.not_le.mpr inside)] at works
      exact iff_of_false nofun works

/-- `SETVAL` keeps the key and the size of the set, and it touches no other. -/
theorem setval_some (here : t id = some set) (set' : t.setval refused id i val = some t') :
    (∃ semval, t' id = some ⟨set.key, set.nSems, semval⟩) ∧ ∀ j, j ≠ id → t' j = t j := by
  rw [setval, here] at set'
  dsimp only at set'
  split at set'
  · cases set'
  · cases set'
    refine ⟨⟨_, Function.update_self _ _ _⟩, fun j other => Function.update_of_ne other _ _⟩

end SemTable

end Alnp
