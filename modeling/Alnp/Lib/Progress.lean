import Mathlib.Algebra.BigOperators.Group.List.Basic
import Mathlib.Algebra.Ring.Nat
import Alnp.Lib.Machine

/-!
# Runs that come to an end

`Machine.Terminates M P`: no run of `M` goes on for ever, and where a run can go no further, `P`
holds.  For a machine each step of which makes a number smaller, `terminates_of_descends` leaves the
states without a step to be looked at, and `Descends.exists_stuck` takes a run from any state of it
to one of them.  `total` adds up what is left to do in the parts of a system.
-/

namespace Alnp

/-! ## What is left to do -/

/-- The sum of the weights of the parts. -/
def total {ω : Type*} (weight : ω → Nat) (parts : List ω) : Nat := (parts.map weight).sum

theorem le_total {ω : Type*} (weight : ω → Nat) {parts : List ω} {w : ω} (member : w ∈ parts) :
    weight w ≤ total weight parts := by
  obtain ⟨before, after, rfl⟩ := List.append_of_mem member
  simp only [total, List.map_append, List.map_cons, List.sum_append, List.sum_cons]
  omega

/-- One part changes. -/
theorem total_set {ω : Type*} (weight : ω → Nat) {parts : List ω} {i : Nat} {w : ω} (w' : ω)
    (here : parts[i]? = some w) :
    total weight (parts.set i w') + weight w = total weight parts + weight w' := by
  induction parts generalizing i with
  | nil => cases here
  | cons v parts ih =>
      cases i with
      | zero =>
          cases here
          simp only [total, List.set_cons_zero, List.map_cons, List.sum_cons]
          omega
      | succ i =>
          have others := ih here
          simp only [total, List.set_cons_succ, List.map_cons, List.sum_cons] at others ⊢
          omega

/-- No part gets heavier, and one gets lighter by `k`. -/
theorem total_add_le {ω : Type*} {weight weight' : ω → Nat} {parts : List ω} {w : ω} {k : Nat}
    (le : ∀ v, weight' v ≤ weight v) (member : w ∈ parts) (here : weight' w + k ≤ weight w) :
    total weight' parts + k ≤ total weight parts := by
  have others (parts : List ω) : total weight' parts ≤ total weight parts := by
    induction parts with
    | nil => exact Nat.le_refl _
    | cons v parts ih => exact Nat.add_le_add (le v) ih
  obtain ⟨before, after, rfl⟩ := List.append_of_mem member
  have front := others before
  have back := others after
  simp only [total, List.map_append, List.map_cons, List.sum_append, List.sum_cons] at front back ⊢
  omega

/-! ## Runs -/

namespace Machine

variable {σ : Type*} {M : Machine σ} {P : σ → Prop} {s : σ}

/-- A run that never ends. -/
structure Endless (M : Machine σ) (run : Nat → σ) : Prop where
  start : M.init (run 0)
  goes : ∀ n, M.step (run n) (run (n + 1))

/-- No step is possible. -/
def Stuck (M : Machine σ) (s : σ) : Prop := ∀ t, ¬ M.step s t

/-- Every run ends, and where it does `P` holds. -/
structure Terminates (M : Machine σ) (P : σ → Prop) : Prop where
  finite : ∀ run, ¬ M.Endless run
  ends : ∀ s, M.Reachable s → M.Stuck s → P s

/-- Every step of a run makes `μ` smaller. -/
def Descends (M : Machine σ) (μ : σ → Nat) : Prop :=
  ∀ s t, M.Reachable s → M.step s t → μ t < μ s

theorem Endless.reachable {run : Nat → σ} (endless : M.Endless run) (n : Nat) :
    M.Reachable (run n) := by
  induction n with
  | zero => exact .of_init endless.start
  | succ n ih => exact ih.tail (endless.goes n)

variable {μ : σ → Nat}

/-- After `n` steps at least `n` has been used up. -/
theorem Descends.add_le (descends : M.Descends μ) {run : Nat → σ} (endless : M.Endless run)
    (n : Nat) : μ (run n) + n ≤ μ (run 0) := by
  induction n with
  | zero => exact Nat.le_refl _
  | succ n ih =>
      have less := descends _ _ (endless.reachable n) (endless.goes n)
      omega

theorem terminates_of_descends (descends : M.Descends μ)
    (ends : ∀ s, M.Reachable s → M.Stuck s → P s) : M.Terminates P := by
  refine ⟨fun run endless => ?_, ends⟩
  have used := descends.add_le endless (μ (run 0) + 1)
  omega

/-- A run can be taken to its end. -/
theorem Descends.exists_stuck (descends : M.Descends μ) (reached : M.Reachable s) :
    ∃ t, Relation.ReflTransGen M.step s t ∧ M.Reachable t ∧ M.Stuck t := by
  induction length : μ s using Nat.strongRecOn generalizing s with
  | ind n ih =>
      by_cases stuck : M.Stuck s
      · exact ⟨s, .refl, reached, stuck⟩
      · obtain ⟨t, goes⟩ := Classical.not_forall.mp stuck
        have step : M.step s t := Classical.not_not.mp goes
        have less := descends s t reached step
        obtain ⟨u, run, reached', stuck'⟩ := ih (μ t) (length ▸ less) (reached.tail step) rfl
        exact ⟨u, .head step run, reached', stuck'⟩

end Machine

end Alnp
