import Mathlib.Data.Finset.Basic

/-!
# A mutex with a condition variable

The part of a program's state that `pthread_mutex_lock`, `pthread_mutex_unlock`,
`pthread_cond_wait` and `pthread_cond_broadcast` act on: who owns the mutex and who sleeps on the
condition variable.  A thread inside `pthread_cond_wait` that is no longer asleep has been woken and
takes the mutex again before the call returns.

`Guards m holds` says that the mutex is owned by the thread that by its program counter holds it;
it follows that at most one does (`Guards.unique`).  It survives taking (`Guards.acquire`) and
leaving (`Guards.release`) the mutex and every step that changes neither (`Guards.keep`).
-/

namespace Alnp

/-- A mutex and a condition variable shared by the threads `τ`. -/
structure Monitor (τ : Type) where
  owner : Option τ
  asleep : Finset τ

namespace Monitor

variable {τ : Type}

/-- Nobody holds the mutex and nobody sleeps. -/
def idle : Monitor τ := ⟨none, ∅⟩

/-- `pthread_mutex_lock` by `t` on a free mutex, or the end of `pthread_cond_wait`. -/
def acquire (t : τ) (m : Monitor τ) : Monitor τ := { m with owner := some t }

/-- `pthread_mutex_unlock` -/
def release (m : Monitor τ) : Monitor τ := { m with owner := none }

/-- `pthread_cond_wait` by `t`: leave the mutex and fall asleep, in one step. -/
def sleep [DecidableEq τ] (t : τ) (m : Monitor τ) : Monitor τ := ⟨none, insert t m.asleep⟩

/-- `pthread_cond_broadcast` -/
def broadcast (m : Monitor τ) : Monitor τ := { m with asleep := ∅ }

/-- `t` wakes up for no reason. -/
def wake [DecidableEq τ] (t : τ) (m : Monitor τ) : Monitor τ :=
  { m with asleep := m.asleep.erase t }

/-! ## Mutual exclusion -/

/-- The owner of the mutex is the thread that holds it by its program counter. -/
def Guards (m : Monitor τ) (holds : τ → Prop) : Prop :=
  ∀ t, holds t ↔ m.owner = some t

variable {m : Monitor τ} {holds holds' : τ → Prop} {t u : τ}

theorem Guards.unique (guards : m.Guards holds) (ht : holds t) (hu : holds u) : t = u := by
  have owner := (guards t).mp ht
  rw [(guards u).mp hu] at owner
  exact (Option.some.inj owner).symm

theorem guards_idle (nobody : ∀ t, ¬ holds t) : (idle : Monitor τ).Guards holds :=
  fun t => ⟨fun held => absurd held (nobody t), fun owner => nomatch owner⟩

theorem Guards.acquire (guards : m.Guards holds) (free : m.owner = none) (now : holds' t)
    (others : ∀ u, u ≠ t → (holds' u ↔ holds u)) : (m.acquire t).Guards holds' := by
  intro u
  by_cases same : u = t
  · subst same
    exact ⟨fun _ => rfl, fun _ => now⟩
  · rw [others u same, guards u, free]
    exact ⟨fun owner => (nomatch owner),
      fun owner => absurd (Option.some.inj owner).symm same⟩

/-- Leaving the mutex, whatever happens to the sleepers. -/
theorem Guards.free (guards : m.Guards holds) (held : holds t) (now : ¬ holds' t)
    (others : ∀ u, u ≠ t → (holds' u ↔ holds u)) {m' : Monitor τ} (released : m'.owner = none) :
    m'.Guards holds' := by
  intro u
  rw [released]
  refine ⟨fun hu => ?_, fun owner => nomatch owner⟩
  by_cases same : u = t
  · exact absurd (same ▸ hu) now
  · exact absurd (guards.unique ((others u same).mp hu) held) same

/-- A step of a thread that neither takes nor leaves the mutex. -/
theorem Guards.keep (guards : m.Guards holds) (same : ∀ u, holds' u ↔ holds u)
    {m' : Monitor τ} (owner : m'.owner = m.owner) : m'.Guards holds' := by
  intro u
  rw [same u, guards u, owner]

end Monitor

end Alnp
