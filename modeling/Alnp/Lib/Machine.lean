import Mathlib.Logic.Relation

/-!
# Runs of a machine

A `Machine` says where a run may start and what one step may do; `Machine.Reachable` collects the
states its runs pass through.  The rules below are the only inductions over runs this development
needs:

* `Machine.Reachable.invariant`: what holds at the start and survives a step holds everywhere.
* `Machine.guarded`: the runs whose steps all meet a condition, with `Machine.Reachable.of_guarded`
  and `Machine.Reachable.weaken`.
* `Machine.Reachable.or_damaged`: a run meets the condition or has come to a damage that lasts.
* `Machine.Reachable.log_iff`: the runs that log only good entries, by a condition on the steps.
* `Machine.Simulation.reachable`: a simulation carries reachability to the simulating machine.
-/

namespace Alnp

/-- Where a run may start and what one step may do. -/
structure Machine (σ : Type*) where
  init : σ → Prop
  step : σ → σ → Prop

namespace Machine

variable {σ τ : Type*} {M : Machine σ} {N : Machine τ}

/-- The states that the runs of `M` pass through. -/
def Reachable (M : Machine σ) (s : σ) : Prop :=
  ∃ s₀, M.init s₀ ∧ Relation.ReflTransGen M.step s₀ s

theorem Reachable.of_init {s : σ} (start : M.init s) : M.Reachable s :=
  ⟨s, start, .refl⟩

theorem Reachable.tail {s t : σ} (reached : M.Reachable s) (step : M.step s t) :
    M.Reachable t := by
  obtain ⟨s₀, start, run⟩ := reached
  exact ⟨s₀, start, run.tail step⟩

/-- **Invariant rule.**  A property of the initial states that every step from a reachable state
preserves holds in every reachable state. -/
theorem Reachable.invariant {P : σ → Prop}
    (base : ∀ s, M.init s → P s)
    (preserved : ∀ s t, M.Reachable s → P s → M.step s t → P t)
    {s : σ} (reached : M.Reachable s) : P s := by
  obtain ⟨s₀, start, run⟩ := reached
  induction run with
  | refl => exact base s₀ start
  | @tail s t run step ih => exact preserved s t ⟨s₀, start, run⟩ ih step

/-- The runs of a machine that starts and steps as `N` may are runs of `N`. -/
theorem Reachable.mono {M N : Machine σ} (init : ∀ s, M.init s → N.init s)
    (step : ∀ s t, M.step s t → N.step s t) {s : σ} (reached : M.Reachable s) :
    N.Reachable s := by
  obtain ⟨s₀, start, run⟩ := reached
  exact ⟨s₀, init s₀ start, Relation.ReflTransGen.mono step _ _ run⟩

/-- The machine that only takes the steps of `M` that meet the condition `g`. -/
def guarded (M : Machine σ) (g : σ → σ → Prop) : Machine σ where
  init := M.init
  step s t := M.step s t ∧ g s t

/-- A run whose steps all meet a condition is a run. -/
theorem Reachable.of_guarded {g : σ → σ → Prop} {s : σ}
    (reached : (M.guarded g).Reachable s) : M.Reachable s := by
  apply reached.mono
  · exact fun _ start => start
  · exact fun _ _ step => step.1

/-- A run whose steps all meet a condition also meets a weaker one. -/
theorem Reachable.weaken {g g' : σ → σ → Prop} (weaker : ∀ s t, g s t → g' s t) {s : σ}
    (reached : (M.guarded g).Reachable s) : (M.guarded g').Reachable s := by
  apply reached.mono
  · exact fun _ start => start
  · exact fun s t step => ⟨step.1, weaker s t step.2⟩

/-- **Damage rule.**  If a step that leaves the runs of `N` does a damage that no later step
repairs, then a run of `M` is a run of `N` or has come to damage. -/
theorem Reachable.or_damaged {M N : Machine σ} {D : σ → Prop}
    (init : ∀ s, M.init s → N.init s)
    (damage : ∀ s t, M.Reachable s → N.Reachable s → M.step s t → N.step s t ∨ D t)
    (lasts : ∀ s t, M.Reachable s → D s → M.step s t → D t)
    {s : σ} (reached : M.Reachable s) : N.Reachable s ∨ D s := by
  apply reached.invariant (P := fun s => N.Reachable s ∨ D s)
  · exact fun s start => .inl (.of_init (init s start))
  · intro s t before either step
    rcases either with run | damaged
    · exact (damage s t before run step).imp_left run.tail
    · exact .inr (lasts s t before damaged step)

/-- The steps that add an entry to the log do so in a state that meets the condition. -/
def Logs {α : Type*} (log : σ → List α) (cond : σ → α → Prop) (s t : σ) : Prop :=
  ∀ a, log t = log s ++ [a] → cond s a

/-- **Log rule.**  If a step leaves the log alone or adds an entry that is good exactly where the
state in front of the step meets a condition, then the log of a run is good exactly if all steps
that added to it met the condition. -/
theorem Reachable.log_iff {α : Type*} {log : σ → List α} {good : α → Prop} {cond : σ → α → Prop}
    (init : ∀ s, M.init s → log s = [])
    (grows : ∀ s t, M.Reachable s → M.step s t →
      log t = log s ∨ ∃ a, log t = log s ++ [a] ∧ (good a ↔ cond s a))
    {s : σ} (reached : M.Reachable s) :
    (∀ a ∈ log s, good a) ↔ (M.guarded (Logs log cond)).Reachable s := by
  constructor
  · intro all
    refine (reached.or_damaged (D := fun s => ∃ a ∈ log s, ¬ good a) ?_ ?_ ?_).resolve_right ?_
    · exact fun _ start => start
    · intro s t before _ step
      rcases grows s t before step with same | ⟨a, added, either⟩
      · refine .inl ⟨step, fun a added => ?_⟩
        rw [same] at added
        exact absurd (List.self_eq_append_right.mp added) (List.cons_ne_nil a [])
      · by_cases met : cond s a
        · refine .inl ⟨step, fun b added' => ?_⟩
          cases List.append_cancel_left (added.symm.trans added')
          exact met
        · exact .inr ⟨a, added ▸ List.mem_append_right _ (List.mem_singleton_self a),
            fun ok => met (either.mp ok)⟩
    · rintro s t before ⟨a, member, bad⟩ step
      rcases grows s t before step with same | ⟨b, added, -⟩
      · exact ⟨a, same ▸ member, bad⟩
      · exact ⟨a, added ▸ List.mem_append_left _ member, bad⟩
    · rintro ⟨a, member, bad⟩
      exact bad (all a member)
  · intro guarded
    refine guarded.invariant (P := fun s => ∀ a ∈ log s, good a) ?_ ?_
    · intro s start a member
      rw [init s start] at member
      cases member
    · intro s t before all step a member
      rcases grows s t before.of_guarded step.1 with same | ⟨b, added, either⟩
      · exact all a (same ▸ member)
      · rw [added] at member
        rcases List.mem_append.mp member with old | new
        · exact all a old
        · rw [List.mem_singleton.mp new]
          exact either.mpr (step.2 b added)

/-- `R` relates the states of `M` to states of `N` so that `N` can match every step of `M` by a
step of its own or by standing still. -/
structure Simulation (M : Machine σ) (N : Machine τ) (R : σ → τ → Prop) : Prop where
  init : ∀ s, M.init s → ∃ t, N.init t ∧ R s t
  step : ∀ s s' t, M.Reachable s → R s t → M.step s s' →
    R s' t ∨ ∃ t', N.step t t' ∧ R s' t'

/-- **Simulation rule.**  Every state reached by the simulated machine is related to a state
reached by the simulating one. -/
theorem Simulation.reachable {R : σ → τ → Prop} (sim : Simulation M N R) {s : σ}
    (reached : M.Reachable s) : ∃ t, N.Reachable t ∧ R s t := by
  refine reached.invariant (P := fun s => ∃ t, N.Reachable t ∧ R s t) ?_ ?_
  · intro s start
    obtain ⟨t, startN, related⟩ := sim.init s start
    exact ⟨t, .of_init startN, related⟩
  · intro s s' before matched step
    rcases matched with ⟨t, reachedN, related⟩
    rcases sim.step s s' t before related step with still | ⟨t', stepN, related'⟩
    · exact ⟨t, reachedN, still⟩
    · exact ⟨t', reachedN.tail stepN, related'⟩

end Machine

end Alnp
