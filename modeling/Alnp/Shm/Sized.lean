import Alnp.Shm.MutexPshared
import Alnp.Shm.PosixShm

/-!
# Sizing before use in `mutex_pshared.c` and `posix_shm.c`

Both programs create a shared object or open the one that is there, and both call `ftruncate` in one
branch only: `posix_shm.c` in the branch of the creator and `mutex_pshared.c` in the other.  Each is
right in the runs in which that branch has been through `ftruncate` when a mapping is used, and
`sized_iff_of_reachable` says that these are all.
-/

namespace Alnp.Shm

variable {ι κ : Type} [DecidableEq ι] [DecidableEq κ] {pid : ι → Int} {c : ι → Bool}
  {s : MutexPshared.System ι} {t : PosixShm.System κ}

/-- **Sizing before use.**  The uses of the mappings in a run lie inside the objects exactly if each
of them comes after the `ftruncate` of the branch that has it. -/
theorem sized_iff_of_reachable (pshared : (MutexPshared.machine pid c).Reachable s)
    (posix : (PosixShm.machine κ).Reachable t) :
    ((∀ size ∈ s.accesses, MutexPshared.Within size) ↔
      ((MutexPshared.machine pid c).guarded MutexPshared.afterFtruncate).Reachable s) ∧
    ((∀ a ∈ t.accesses, a.Within) ↔
      ((PosixShm.machine κ).guarded PosixShm.afterFtruncate).Reachable t) :=
  ⟨MutexPshared.within_iff_guarded pshared, PosixShm.within_iff_guarded posix⟩

/-- A second process of `mutex_pshared.c` sizes the object and clears it, and a process of
`posix_shm.c` prints what it has created. -/
theorem sized_iff_second : ∃ (s : MutexPshared.System Nat) (t : PosixShm.System Nat),
    s.accesses = [4096] ∧ t.accesses = [⟨0, 4096, 1⟩] ∧
    ((∀ size ∈ s.accesses, MutexPshared.Within size) ↔
      ((MutexPshared.machine Int.ofNat fun _ => true).guarded
        MutexPshared.afterFtruncate).Reachable s) ∧
    ((∀ a ∈ t.accesses, a.Within) ↔
      ((PosixShm.machine Nat).guarded PosixShm.afterFtruncate).Reachable t) := by
  have start := Machine.Reachable.of_init
    (M := MutexPshared.machine Int.ofNat fun _ => true) rfl
  have created := start.tail (.create _ 0 rfl rfl)
  have «exists» := created.tail (.exists _ 1 rfl (Option.some_ne_none _))
  have opened := «exists».tail (.shmOpen _ 1 rfl)
  have sized := opened.tail (.ftruncate _ 1 _ rfl rfl)
  have mapped := sized.tail (.mmap _ 1 rfl)
  have tested := mapped.tail (.testC _ 1 rfl)
  have cleared := tested.tail (.memset _ 1 _ rfl rfl (Nat.le_refl _))
  have start' := Machine.Reachable.of_init (M := PosixShm.machine Nat) rfl
  have created' := start'.tail (.create _ 0 3 rfl rfl (by decide))
  have sized' := created'.tail (.ftruncate _ 0 rfl)
  have mapped' := sized'.tail (.mmap _ 0 0 rfl)
  have printed' := mapped'.tail (.print _ 0 0 _ 1 rfl rfl (Nat.le_refl _) (by decide))
  exact ⟨_, _, rfl, rfl, sized_iff_of_reachable cleared printed'⟩

/-! ## The other branches -/

/-- The first process of `mutex_pshared.c` clears the record of an object of length 0. -/
theorem reachable_unsized : ∃ s : MutexPshared.System Nat,
    (MutexPshared.machine Int.ofNat fun _ => true).Reachable s ∧
    s.accesses = [0] ∧ s.main 0 = .killed := by
  have start := Machine.Reachable.of_init
    (M := MutexPshared.machine Int.ofNat fun _ => true) rfl
  have created := start.tail (.create _ 0 rfl rfl)
  have mapped := created.tail (.mmap _ 0 rfl)
  have tested := mapped.tail (.testC _ 0 rfl)
  have killed := tested.tail (.sigbus _ 0 _ rfl (.inl rfl) rfl (by decide))
  exact ⟨_, killed, rfl, rfl⟩

/-- A process of `posix_shm.c` prints an object whose creator has not come to `ftruncate`. -/
theorem reachable_early : ∃ t : PosixShm.System Nat, (PosixShm.machine Nat).Reachable t ∧
    t.accesses = [⟨0, 0, 1⟩] ∧ t.pc 0 = .ftruncate ∧ t.pc 1 = .killed := by
  have start := Machine.Reachable.of_init (M := PosixShm.machine Nat) rfl
  have created := start.tail (.create _ 0 3 rfl rfl (by decide))
  have «exists» := created.tail (.exists _ 1 rfl (Option.some_ne_none _))
  have opened := «exists».tail (.shmOpen _ 1 0 rfl rfl)
  have mapped := opened.tail (.mmap _ 1 0 rfl)
  have killed := mapped.tail (.print _ 1 0 _ 1 rfl rfl (Nat.le_refl _) (by decide))
  exact ⟨_, killed, rfl, rfl, rfl⟩

theorem not_forall_sized :
    (¬ ∀ (pid : Nat → Int) (c : Nat → Bool) (s : MutexPshared.System Nat),
      (MutexPshared.machine pid c).Reachable s → ∀ size ∈ s.accesses, MutexPshared.Within size) ∧
    ¬ ∀ t : PosixShm.System Nat, (PosixShm.machine Nat).Reachable t →
      ∀ a ∈ t.accesses, a.Within := by
  constructor
  · intro always
    obtain ⟨s, reached, accesses, -⟩ := reachable_unsized
    have within := always _ _ s reached 0 (accesses ▸ List.mem_singleton_self _)
    exact absurd within (Nat.not_succ_le_zero _)
  · intro always
    obtain ⟨t, reached, accesses, -⟩ := reachable_early
    have within := always t reached ⟨0, 0, 1⟩ (accesses ▸ List.mem_singleton_self _)
    exact absurd within.1 (Nat.not_succ_le_zero _)

end Alnp.Shm
