import Alnp.Lib.Progress

/-!
# A main thread and its workers

A program whose main thread makes `size` workers, each after a preparation, then waits for them in
the same order and returns.  Workers act on a state that all of them share; the one with index `i`
begins at `start i`, and one that has `ended` does nothing more.  Where a worker cannot be made the
main thread ends the process.

* `Crew.formed_of_reachable`: how many workers there are, and which have ended.
* `Crew.invariant`: what the workers keep, whatever the main thread does.
* `Crew.descends`: with a rank that every action of a worker lowers, every run ends.
* `Crew.stuck_cases`: what keeps a run from going on.
* `Crew.exists_end`: a run in which all workers are made, up to its end.
-/

namespace Alnp

/-- Shared states `σ` and the places `ω` of a worker. -/
structure Crew (σ ω : Type) where
  size : Nat
  start : Nat → ω
  ended : ω → Bool
  /-- What the main thread does before it makes the worker with this index. -/
  prepare : Nat → σ → σ → Prop
  /-- An action of the worker with this index, from and to a shared state and a place. -/
  act : Nat → σ → ω → σ → ω → Prop
  final : ∀ i a w b w', act i a w b w' → ended w = false

namespace Crew

/-- Where the main thread is. -/
inductive Main
  /-- at the head of the loop that makes the workers -/
  | head
  /-- prepared, and about to make a worker -/
  | make
  /-- waiting for the worker with this index -/
  | join (i : Nat)
  | returned
  /-- The process has ended, because a worker could not be made. -/
  | failed
  deriving DecidableEq

structure State (σ ω : Type) where
  main : Main
  shared : σ
  /-- The workers made so far. -/
  workers : List ω

/-- The process is still there. -/
def Main.alive : Main → Prop
  | .returned | .failed => False
  | _ => True

variable {σ ω : Type}

inductive Step (c : Crew σ ω) : State σ ω → State σ ω → Prop
  | prepare (s : State σ ω) (b : σ) :
      s.main = .head → s.workers.length < c.size → c.prepare s.workers.length s.shared b →
      Step c s { s with main := .make, shared := b }
  | make (s : State σ ω) :
      s.main = .make →
      Step c s { s with main := .head, workers := s.workers ++ [c.start s.workers.length] }
  | fail (s : State σ ω) : s.main = .make → Step c s { s with main := .failed }
  | made (s : State σ ω) :
      s.main = .head → s.workers.length = c.size → Step c s { s with main := .join 0 }
  | join (s : State σ ω) (i : Nat) (w : ω) :
      s.main = .join i → s.workers[i]? = some w → c.ended w = true →
      Step c s { s with main := .join (i + 1) }
  | joined (s : State σ ω) : s.main = .join c.size → Step c s { s with main := .returned }
  | act (s : State σ ω) (i : Nat) (w w' : ω) (b : σ) :
      s.main.alive → s.workers[i]? = some w → c.act i s.shared w b w' →
      Step c s { s with shared := b, workers := s.workers.set i w' }

/-- The program, with the shared state as it is before the first worker. -/
def machine (c : Crew σ ω) (shared : σ) : Machine (State σ ω) where
  init s := s = ⟨.head, shared, []⟩
  step := Step c

variable {c : Crew σ ω} {shared : σ} {s t : State σ ω}

/-! ## The main thread -/

/-- What has been done at a place of the main thread. -/
def Place (c : Crew σ ω) (s : State σ ω) : Main → Prop
  | .head => s.workers.length ≤ c.size
  | .make => s.workers.length < c.size
  | .join i => s.workers.length = c.size ∧ i ≤ c.size ∧
      ∀ j < i, ∀ w, s.workers[j]? = some w → c.ended w = true
  | .returned => s.workers.length = c.size ∧ ∀ w ∈ s.workers, c.ended w = true
  | .failed => s.workers.length < c.size

/-- The number of workers, and which of them have ended, by the place of the main thread. -/
def Formed (c : Crew σ ω) (s : State σ ω) : Prop := Place c s s.main

theorem Formed.step (formed : Formed c s) (step : Step c s t) : Formed c t := by
  unfold Formed at formed
  cases step with
  | prepare b head less _ => exact less
  | make make =>
      rw [make] at formed
      change (s.workers ++ [c.start s.workers.length]).length ≤ c.size
      rw [List.length_append]
      exact formed
  | fail make =>
      rw [make] at formed
      exact formed
  | made head all => exact ⟨all, Nat.zero_le _, nofun⟩
  | join i w joining here ended =>
      rw [joining] at formed
      obtain ⟨all, le, before⟩ := formed
      have inside : i < c.size := all ▸ (List.getElem?_eq_some_iff.mp here).1
      refine ⟨all, inside, fun j lt w' found => ?_⟩
      rcases Nat.lt_succ_iff_lt_or_eq.mp lt with earlier | rfl
      · exact before j earlier w' found
      · cases here.symm.trans found
        exact ended
  | joined joining =>
      rw [joining] at formed
      obtain ⟨all, -, before⟩ := formed
      refine ⟨all, fun w member => ?_⟩
      obtain ⟨j, found⟩ := List.mem_iff_getElem?.mp member
      exact before j (all ▸ (List.getElem?_eq_some_iff.mp found).1) w found
  | act i w w' b alive here acted =>
      have length : (s.workers.set i w').length = s.workers.length := List.length_set
      cases at' : s.main with
      | head => rw [at'] at formed; exact length.trans_le formed
      | make => rw [at'] at formed; exact length.trans_lt formed
      | join k =>
          rw [at'] at formed
          obtain ⟨all, le, before⟩ := formed
          refine ⟨length.trans all, le, fun j lt v found => ?_⟩
          -- Who has ended has not acted.
          have other : i ≠ j := by
            rintro rfl
            have ended := before i lt w here
            rw [c.final i _ w _ w' acted] at ended
            cases ended
          rw [List.getElem?_set_ne other] at found
          exact before j lt v found
      | returned => rw [at'] at alive; exact alive.elim
      | failed => rw [at'] at alive; exact alive.elim

theorem formed_of_reachable (reached : (c.machine shared).Reachable s) : Formed c s := by
  apply reached.invariant (P := Formed c)
  · rintro s rfl
    exact Nat.zero_le _
  · exact fun s t _ formed step => formed.step step

/-- Behind the last join every worker has ended. -/
theorem ended_of_returned (reached : (c.machine shared).Reachable s)
    (returned : s.main = .returned) :
    s.workers.length = c.size ∧ ∀ w ∈ s.workers, c.ended w = true := by
  have formed := formed_of_reachable reached
  rw [Formed, returned] at formed
  exact formed

/-- **Invariant rule.**  What holds without workers and survives the preparation of a worker, a
worker more and an action of a worker holds throughout. -/
theorem invariant {P : σ → List ω → Prop} (base : P shared [])
    (prepare : ∀ a b ws, P a ws → c.prepare ws.length a b → P b ws)
    (make : ∀ a ws, P a ws → ws.length < c.size → P a (ws ++ [c.start ws.length]))
    (act : ∀ a b ws i w w', P a ws → ws[i]? = some w → c.act i a w b w' → P b (ws.set i w'))
    (reached : (c.machine shared).Reachable s) : P s.shared s.workers := by
  refine reached.invariant (P := fun s => P s.shared s.workers) ?_ ?_
  · rintro s rfl
    exact base
  · intro s t before holds step
    have formed := formed_of_reachable before
    unfold Formed at formed
    cases step with
    | prepare b head less prepared => exact prepare _ b _ holds prepared
    | make making =>
        rw [making] at formed
        exact make _ _ holds formed
    | fail making => exact holds
    | made head all => exact holds
    | join i w joining here ended => exact holds
    | joined joining => exact holds
    | act i w w' b alive here acted => exact act _ b _ i w w' holds here acted

/-! ## Every run ends -/

/-- What is left to do for the main thread, with workers that begin with at most `most`. -/
def Main.rest (size made most : Nat) : Main → Nat
  | .head => (size - made) * (most + 2) + (size + 2)
  | .make => (size - made) * (most + 2) + (size + 1)
  | .join i => size + 1 - i
  | .returned | .failed => 0

/-- The measure of a run. -/
def measure (c : Crew σ ω) (rank : ω → Nat) (most : Nat) (s : State σ ω) : Nat :=
  s.main.rest c.size s.workers.length most + total rank s.workers

theorem descends {rank : ω → Nat} {most : Nat} (begins : ∀ i, rank (c.start i) ≤ most)
    (lowers : ∀ i a w b w', c.act i a w b w' → rank w' < rank w) :
    (c.machine shared).Descends (c.measure rank most) := by
  intro s t reached step
  have formed := formed_of_reachable reached
  unfold Formed at formed
  unfold measure
  cases step with
  | prepare b head less _ =>
      simp only [head, Main.rest]
      omega
  | make make =>
      rw [make] at formed
      obtain ⟨k, left⟩ : ∃ k, c.size - s.workers.length = k + 1 :=
        ⟨_, (Nat.succ_pred_eq_of_pos (Nat.sub_pos_of_lt formed)).symm⟩
      have fewer : c.size - (s.workers.length + 1) = k := by omega
      have first := begins s.workers.length
      simp only [make, Main.rest, List.length_append, List.length_singleton, left, fewer, total,
        List.map_append, List.map_singleton, List.sum_append, List.sum_singleton, Nat.succ_mul]
      omega
  | fail make =>
      simp only [make, Main.rest]
      omega
  | made head all =>
      simp only [head, Main.rest]
      omega
  | join i w joining here ended =>
      have inside := (List.getElem?_eq_some_iff.mp here).1
      rw [joining] at formed
      obtain ⟨all, -, -⟩ := formed
      simp only [joining, Main.rest]
      omega
  | joined joining =>
      simp only [joining, Main.rest]
      omega
  | act i w w' b alive here acted =>
      have less := lowers i _ w b w' acted
      have balance := total_set rank w' here
      simp only [List.length_set]
      omega

/-! ## Where a run can go no further -/

/-- The main thread is done, or it waits for something while no worker can act. -/
theorem stuck_cases (reached : (c.machine shared).Reachable s)
    (stuck : (c.machine shared).Stuck s) :
    s.main = .returned ∨ s.main = .failed ∨
      (∀ i w b w', s.workers[i]? = some w → ¬ c.act i s.shared w b w') ∧
        (s.main = .head ∧ s.workers.length < c.size ∧
            (∀ b, ¬ c.prepare s.workers.length s.shared b) ∨
          s.workers.length = c.size ∧
            ∃ i w, s.main = .join i ∧ s.workers[i]? = some w ∧ c.ended w = false) := by
  have formed := formed_of_reachable reached
  unfold Formed at formed
  have idle (alive : s.main.alive) (i : Nat) (w : ω) (b : σ) (w' : ω)
      (here : s.workers[i]? = some w) : ¬ c.act i s.shared w b w' :=
    fun acted => stuck _ (.act s i w w' b alive here acted)
  cases at' : s.main with
  | head =>
      rw [at'] at formed idle
      rcases Nat.lt_or_eq_of_le formed with less | all
      · exact .inr (.inr ⟨idle trivial, .inl ⟨rfl, less, fun b prepared =>
          stuck _ (.prepare s b at' less prepared)⟩⟩)
      · exact absurd (.made s at' all) (stuck _)
  | make => exact absurd (.make s at') (stuck _)
  | join i =>
      rw [at'] at formed idle
      obtain ⟨all, le, -⟩ := formed
      rcases Nat.lt_or_eq_of_le le with less | rfl
      · have inside : i < s.workers.length := all ▸ less
        have here : s.workers[i]? = some s.workers[i] := List.getElem?_eq_getElem inside
        refine .inr (.inr ⟨idle trivial, .inr ⟨all, i, _, rfl, here, ?_⟩⟩)
        exact Bool.eq_false_iff.mpr fun ended => stuck _ (.join s i _ at' here ended)
      · exact absurd (.joined s at') (stuck _)
  | returned => exact .inl rfl
  | failed => exact .inr (.inl rfl)

/-! ## A run in which no worker is missing -/

/-- With preparations that leave the shared state alone, all workers can be made at once. -/
theorem reachable_made (ready : ∀ i, c.prepare i shared shared) :
    (c.machine shared).Reachable ⟨.join 0, shared, (List.range c.size).map c.start⟩ := by
  have made (k : Nat) (le : k ≤ c.size) :
      (c.machine shared).Reachable ⟨.head, shared, (List.range k).map c.start⟩ := by
    induction k with
    | zero => exact .of_init rfl
    | succ k ih =>
        have length : ((List.range k).map c.start).length = k := by
          rw [List.length_map, List.length_range]
        have prepared := (ih (Nat.le_of_succ_le le)).tail
          (.prepare _ shared rfl (length.trans_lt le) (ready _))
        have more := prepared.tail (.make _ rfl)
        dsimp only at more
        rwa [length, ← List.map_singleton, ← List.map_append, ← List.range_succ] at more
  refine (made c.size (Nat.le_refl _)).tail (.made _ rfl ?_)
  rw [List.length_map, List.length_range]

/-- A main thread that waits for its workers goes on with it. -/
theorem joining_of_run (run : Relation.ReflTransGen (Step c) s t)
    (joining : ∃ i, s.main = .join i) :
    (∃ i, t.main = .join i) ∨ t.main = .returned := by
  induction run with
  | refl => exact .inl joining
  | tail _ step ih =>
      cases step with
      | prepare b head _ _ => rcases ih with ⟨i, other⟩ | other <;> cases head.symm.trans other
      | make make => rcases ih with ⟨i, other⟩ | other <;> cases make.symm.trans other
      | fail make => rcases ih with ⟨i, other⟩ | other <;> cases make.symm.trans other
      | made head _ => rcases ih with ⟨i, other⟩ | other <;> cases head.symm.trans other
      | join i w _ _ _ => exact .inl ⟨i + 1, rfl⟩
      | joined _ => exact .inr rfl
      | act i w w' b _ _ _ => exact ih

/-- There is a run that ends behind the last worker, returned or waiting for one that cannot act. -/
theorem exists_end {μ : State σ ω → Nat} (descends : (c.machine shared).Descends μ)
    (ready : ∀ i, c.prepare i shared shared) :
    ∃ s, (c.machine shared).Reachable s ∧ (c.machine shared).Stuck s ∧
      ((∃ i, s.main = .join i) ∨ s.main = .returned) := by
  obtain ⟨s, run, reached, stuck⟩ := descends.exists_stuck (reachable_made ready)
  exact ⟨s, reached, stuck, joining_of_run run ⟨0, rfl⟩⟩

end Crew

end Alnp
