import Mathlib.Data.List.Count
import Alnp.Lib.Monitor

/-!
# A mutex with the history of its calls

`Mutex` keeps who has locked the mutex and who has unlocked it, and for every unlock who was the
owner then.  A thread `Owns` the mutex while it has locked it more often than it has unlocked it.

`Mutex.Disciplined` is the account of a program that only unlocks what it owns: every unlock is by
the owner, and there is one for each lock except the owner's last.  Locking a free mutex keeps it
(`Disciplined.lock`), and so does an unlock by the owner (`Disciplined.unlock`).
-/

namespace Alnp

structure Mutex (τ : Type) where
  monitor : Monitor τ
  /-- Who has locked the mutex, in order. -/
  locked : List τ
  /-- Who has unlocked it, and who owned it then. -/
  unlocked : List (τ × Option τ)

namespace Mutex

variable {τ : Type}

/-- `pthread_mutex_init` -/
def init : Mutex τ := ⟨.idle, [], []⟩

/-- `pthread_mutex_lock` by `t`, on a free mutex. -/
def lock (t : τ) (m : Mutex τ) : Mutex τ :=
  { m with monitor := m.monitor.acquire t, locked := m.locked ++ [t] }

/-- `pthread_mutex_unlock` by `t`, which need not be the owner. -/
def unlock (t : τ) (m : Mutex τ) : Mutex τ :=
  { m with monitor := m.monitor.release, unlocked := m.unlocked ++ [(t, m.monitor.owner)] }

variable [DecidableEq τ] {m : Mutex τ} {t u : τ}

/-- How often `t` has unlocked the mutex. -/
def unlocks (m : Mutex τ) (t : τ) : Nat := (m.unlocked.map Prod.fst).count t

/-- `t` has locked the mutex and not unlocked it since. -/
def Owns (m : Mutex τ) (t : τ) : Prop := m.unlocks t < m.locked.count t

/-- Every unlock is by the owner, exactly one for each lock but the owner's last. -/
structure Disciplined (m : Mutex τ) : Prop where
  byOwner : ∀ u ∈ m.unlocked, u.2 = some u.1
  once : ∀ t, m.locked.count t = m.unlocks t + if m.monitor.owner = some t then 1 else 0

theorem unlocks_unlock : (m.unlock t).unlocks u = m.unlocks u + if t = u then 1 else 0 := by
  simp [unlocks, unlock, List.count_singleton]

theorem disciplined_init : (init : Mutex τ).Disciplined :=
  ⟨fun _ none => (by cases none), fun _ => rfl⟩

theorem Disciplined.owns_iff (disciplined : m.Disciplined) :
    m.Owns t ↔ m.monitor.owner = some t := by
  have once := disciplined.once t
  unfold Owns
  split at once <;> simp_all

theorem Disciplined.unique (disciplined : m.Disciplined) (ht : m.Owns t) (hu : m.Owns u) :
    t = u := by
  have owner := disciplined.owns_iff.mp ht
  rw [disciplined.owns_iff.mp hu] at owner
  exact (Option.some.inj owner).symm

theorem Disciplined.lock (disciplined : m.Disciplined) (free : m.monitor.owner = none) :
    (m.lock t).Disciplined := by
  refine ⟨disciplined.byOwner, fun u => ?_⟩
  have once := disciplined.once u
  rw [free, if_neg (Option.some_ne_none u).symm] at once
  have count : (m.locked ++ [t]).count u = m.locked.count u + if t = u then 1 else 0 := by
    simp [List.count_singleton]
  have owner : (m.lock t).monitor.owner = some t := rfl
  rw [owner]
  simp only [Option.some_inj]
  exact count.trans (congrArg (· + _) once)

theorem Disciplined.unlock (disciplined : m.Disciplined) (owner : m.monitor.owner = some t) :
    (m.unlock t).Disciplined := by
  refine ⟨?_, fun u => ?_⟩
  · refine List.forall_mem_append.mpr ⟨disciplined.byOwner, fun u member => ?_⟩
    rw [List.mem_singleton.mp member]
    exact owner
  · have once := disciplined.once u
    rw [owner] at once
    have free : (m.unlock t).monitor.owner = none := rfl
    rw [unlocks_unlock, free, if_neg (Option.some_ne_none u).symm, Nat.add_zero]
    simp only [Option.some_inj] at once
    exact once

end Mutex

end Alnp
