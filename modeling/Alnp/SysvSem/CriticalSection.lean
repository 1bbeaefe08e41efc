import Alnp.Kernel.SysvSem
import Alnp.Lib.Machine

/-!
# Permits of `sysv_sem.c` and `sysv_sem_zwait.c`

Both programs start a semaphore at `sem_value` and fork children that run `handle_criticalsect`;
`sysv_sem_zwait.c` first forks one that runs `handle_waitforzero`.  The live children form a list:
a step moves one of them, a fork appends one, the end of a process removes it and applies its
adjustment.  A child may be killed wherever it is.

`permits_conserved`: the value of the semaphore plus the number of children inside is `sem_value`
in every reachable state.
-/

namespace Alnp.SysvSem

/-- The two programs. -/
inductive Program
  | sysvSem
  | sysvSemZwait

/-- The `sem_value` that `main` passes to `sysv_semget`. -/
def Program.semValue : Program → Int
  | sysvSem => 1
  | sysvSemZwait => 2

/-- The operation of `sysv_semwait`. -/
def semwaitBuf : Sembuf := ⟨-1, true⟩

/-- The operation of `sysv_sempost`. -/
def sempostBuf : Sembuf := ⟨1, true⟩

/-- The operation of `sysv_semzwait`. -/
def semzwaitBuf : Sembuf := ⟨0, false⟩

/-- Where a child is. -/
inductive At
  /-- `handle_criticalsect` at `sysv_semwait`, called with `idx_child` -/
  | semwait (idxChild : Nat)
  /-- at the test `idx_child == 2`, which aborts -/
  | test (idxChild : Nat)
  /-- behind the test, at `sleep` or at `sysv_sempost` -/
  | sempost (idxChild : Nat)
  /-- at the error message for a `sysv_sempost` that failed -/
  | unposted (idxChild : Nat)
  /-- `handle_waitforzero` at `sysv_semzwait` -/
  | semzwait
  /-- at `exit` -/
  | exit

/-- A live child with its adjustment. -/
structure Child where
  pc : At
  semadj : Int

structure System where
  semval : Int
  /-- The live children. -/
  children : List Child
  /-- The number of children forked by the loop of `main`, its `i`. -/
  forked : Nat

/-- The child has passed `sysv_semwait` and not yet `sysv_sempost`. -/
def Child.inside (c : Child) : Bool :=
  match c.pc with
  | .test _ | .sempost _ | .unposted _ => true
  | _ => false

/-- How many children are inside. -/
def System.inside (s : System) : Nat :=
  s.children.countP Child.inside

/-- One action of a live child that it survives, from and to a value of the semaphore and a state
of the child. -/
inductive ChildStep : Int → Child → Int → Child → Prop
  | semwait {semval semadj semval' semadj' : Int} {idx : Nat} :
      semop semwaitBuf semval semadj = .done semval' semadj' →
      ChildStep semval ⟨.semwait idx, semadj⟩ semval' ⟨.test idx, semadj'⟩
  | semwaitFailed {semval semadj : Int} {idx : Nat} :
      ChildStep semval ⟨.semwait idx, semadj⟩ semval ⟨.exit, semadj⟩
  | test {semval semadj : Int} {idx : Nat} :
      idx ≠ 2 → ChildStep semval ⟨.test idx, semadj⟩ semval ⟨.sempost idx, semadj⟩
  | sempost {semval semadj semval' semadj' : Int} {idx : Nat} :
      semop sempostBuf semval semadj = .done semval' semadj' →
      ChildStep semval ⟨.sempost idx, semadj⟩ semval' ⟨.exit, semadj'⟩
  | sempostFailed {semval semadj : Int} {idx : Nat} :
      ChildStep semval ⟨.sempost idx, semadj⟩ semval ⟨.unposted idx, semadj⟩
  | semzwait {semval semadj semval' semadj' : Int} :
      semop semzwaitBuf semval semadj = .done semval' semadj' →
      ChildStep semval ⟨.semzwait, semadj⟩ semval' ⟨.exit, semadj'⟩
  | semzwaitFailed {semval semadj : Int} :
      ChildStep semval ⟨.semzwait, semadj⟩ semval ⟨.exit, semadj⟩

inductive SystemStep : System → System → Prop
  /-- `fork` in the loop of `main`; the child inherits no adjustment. -/
  | fork (s : System) :
      SystemStep s
        { s with children := s.children ++ [⟨.semwait s.forked, 0⟩], forked := s.forked + 1 }
  | move (semval semval' : Int) (before after : List Child) (c c' : Child) (forked : Nat) :
      ChildStep semval c semval' c' →
      SystemStep ⟨semval, before ++ c :: after, forked⟩ ⟨semval', before ++ c' :: after, forked⟩
  /-- The end of a process wherever it is: `exit`, the `abort` of the child with index 2, or a
  signal from outside. -/
  | terminate (semval : Int) (before after : List Child) (c : Child) (forked : Nat) :
      SystemStep ⟨semval, before ++ c :: after, forked⟩
        ⟨exitSem c.semadj semval, before ++ after, forked⟩

/-- The program once `sysv_semget` has set the value, with any number of forks. -/
def machine (p : Program) : Machine System where
  init s := s = ⟨p.semValue, [], 0⟩ ∨ p = .sysvSemZwait ∧ s = ⟨p.semValue, [⟨.semzwait, 0⟩], 0⟩
  step := SystemStep

/-! ## The invariant -/

/-- A child owes exactly the permit it holds. -/
def Child.Owes (c : Child) : Prop :=
  c.semadj = if c.inside then 1 else 0

/-- The permits are with the semaphore or with the children, and every child owes what it holds. -/
structure Conserved (n : Int) (s : System) : Prop where
  nonneg : 0 ≤ s.semval
  total : s.semval + s.inside = n
  owes : ∀ c ∈ s.children, c.Owes

/-- An action of a child moves a permit between it and the semaphore, or none. -/
theorem ChildStep.conserves {semval semval' : Int} {c c' : Child}
    (step : ChildStep semval c semval' c') (owes : c.Owes) (nonneg : 0 ≤ semval) :
    c'.Owes ∧ 0 ≤ semval' ∧
      semval' + (if c'.inside then 1 else 0 : Int) = semval + (if c.inside then 1 else 0) := by
  cases step with
  | semwait done =>
      obtain ⟨rfl, rfl, nonneg'⟩ := semop_undo_done done
      simp only [Child.Owes, Child.inside, Bool.false_eq_true, ↓reduceIte] at owes ⊢
      exact ⟨by omega, nonneg', by omega⟩
  | semwaitFailed => exact ⟨owes, nonneg, rfl⟩
  | test ordinary => exact ⟨owes, nonneg, rfl⟩
  | sempost done =>
      obtain ⟨rfl, rfl, nonneg'⟩ := semop_undo_done done
      simp only [Child.Owes, Child.inside, Bool.false_eq_true, ↓reduceIte] at owes ⊢
      exact ⟨by omega, nonneg', by omega⟩
  | sempostFailed => exact ⟨owes, nonneg, rfl⟩
  | semzwait done =>
      obtain rfl := semop_zero_done done
      cases done
      exact ⟨owes, nonneg, rfl⟩
  | semzwaitFailed => exact ⟨owes, nonneg, rfl⟩

/-- The children inside, with one of them set apart. -/
theorem inside_split (semval : Int) (before after : List Child) (c : Child) (forked : Nat) :
    ((System.mk semval (before ++ c :: after) forked).inside : Int) =
      (System.mk semval (before ++ after) forked).inside + (if c.inside then 1 else 0) := by
  simp only [System.inside, List.countP_append, List.countP_cons]
  split <;> omega

theorem Conserved.step {n : Int} {s t : System} (inv : Conserved n s) (range : n ≤ semvmx)
    (step : SystemStep s t) : Conserved n t := by
  obtain ⟨nonneg, total, owes⟩ := inv
  cases step with
  | fork =>
      refine ⟨nonneg, ?_, ?_⟩
      · simpa [System.inside, List.countP_append, Child.inside] using total
      · refine List.forall_mem_append.mpr ⟨owes, ?_⟩
        simp [Child.Owes, Child.inside]
  | move semval semval' before after c c' forked moved =>
      have owesC : c.Owes := owes c (by simp)
      obtain ⟨owesC', nonneg', balance⟩ := moved.conserves owesC nonneg
      have split := inside_split semval before after c forked
      have split' := inside_split semval' before after c' forked
      refine ⟨nonneg', ?_, ?_⟩
      · simp only [System.inside] at total split split' ⊢
        omega
      · simp only [List.mem_append, List.mem_cons] at owes ⊢
        intro d place
        rcases place with early | rfl | late
        · exact owes d (.inl early)
        · exact owesC'
        · exact owes d (.inr (.inr late))
  | terminate semval before after c forked =>
      have debt : c.semadj = if c.inside then 1 else 0 := owes c (by simp)
      have split := inside_split semval before after c forked
      rw [← debt] at split
      have owed : 0 ≤ c.semadj := by
        rw [debt]
        split <;> decide
      -- The adjustment is the permit that the dead child held, so it fits.
      have returned : exitSem c.semadj semval = semval + c.semadj := by
        refine exitSem_eq_add ?_ ?_
        · simp only at nonneg
          omega
        · simp only at total
          omega
      simp only [System.inside] at nonneg total split
      refine ⟨?_, ?_, ?_⟩
      · simp only [returned]
        omega
      · simp only [returned, System.inside]
        omega
      · intro d member
        refine owes d ?_
        simp only [List.mem_append, List.mem_cons] at member ⊢
        exact member.imp_right .inr

theorem Program.semValue_range (p : Program) : 0 ≤ p.semValue ∧ p.semValue ≤ semvmx := by
  cases p <;> decide

theorem conserved_of_reachable {p : Program} {s : System} (reached : (machine p).Reachable s) :
    Conserved p.semValue s := by
  refine reached.invariant (P := Conserved p.semValue) ?_ fun _ _ _ inv step =>
    inv.step p.semValue_range.2 step
  intro s start
  rcases start with rfl | ⟨-, rfl⟩
  · exact ⟨p.semValue_range.1, Int.add_zero _, by simp⟩
  · exact ⟨p.semValue_range.1, Int.add_zero _, by simp [Child.Owes, Child.inside]⟩

/-- No crash leaks or creates a permit: the value of the semaphore plus the number of children
inside is `sem_value`, so at most that many are inside, and `sysv_semzwait` passes only when
exactly that many are. -/
theorem permits_conserved {p : Program} {s : System} (reached : (machine p).Reachable s) :
    s.semval + s.inside = p.semValue ∧ s.inside ≤ p.semValue ∧
      ∀ semadj semval' semadj', semop semzwaitBuf s.semval semadj = .done semval' semadj' →
        s.inside = p.semValue := by
  obtain ⟨nonneg, total, -⟩ := conserved_of_reachable reached
  refine ⟨total, by omega, fun semadj semval' semadj' passed => ?_⟩
  have zero := semop_zero_done passed
  omega

/-- Two children of `sysv_sem_zwait.c` are inside, and the child that waits for zero may pass. -/
theorem permits_conserved_full :
    let full : System := ⟨0, [⟨.semzwait, 0⟩, ⟨.sempost 0, 1⟩, ⟨.test 1, 1⟩], 2⟩
    (machine .sysvSemZwait).Reachable full ∧ (full.inside : Int) = 2 := by
  intro full
  have zwait : (machine .sysvSemZwait).Reachable ⟨2, [⟨.semzwait, 0⟩], 0⟩ :=
    .of_init (.inr ⟨rfl, rfl⟩)
  have forked := (zwait.tail (SystemStep.fork _)).tail (SystemStep.fork _)
  have first := forked.tail (SystemStep.move 2 1 [⟨.semzwait, 0⟩] [⟨.semwait 1, 0⟩]
    ⟨.semwait 0, 0⟩ ⟨.test 0, 1⟩ 2 (.semwait rfl))
  have second := first.tail (SystemStep.move 1 0 [⟨.semzwait, 0⟩, ⟨.test 0, 1⟩] []
    ⟨.semwait 1, 0⟩ ⟨.test 1, 1⟩ 2 (.semwait rfl))
  have reached : (machine .sysvSemZwait).Reachable full :=
    second.tail (SystemStep.move 0 0 [⟨.semzwait, 0⟩] [⟨.test 1, 1⟩] _ _ 2 (.test (by decide)))
  exact ⟨reached, (permits_conserved reached).2.2 0 0 0 rfl⟩

end Alnp.SysvSem
