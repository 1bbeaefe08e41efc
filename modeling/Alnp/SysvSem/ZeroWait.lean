import Alnp.Lib.Parts
import Alnp.Lib.Progress
import Alnp.SysvSem.CriticalSection

/-!
# The permits of `sysv_sem_zwait.c`

`main` of `Chapter05/sysv_sem_zwait.c` forks a child that waits for the semaphore to become zero and
then `n_child` children that each hold a permit for a while; it waits for `n_child + 1` children and
removes the set.  `sysv_semget` may have made the set, with the value 2, or have found one of any
value under the key, or have failed.  No other program uses the set meanwhile, nobody is killed from
outside, and `semop` and `sysv_semrm` fail only where the set is not there; `fork` may fail, for the
first child without being noticed.

`Inv.step`: no permit is lost, also where the set is removed under a child that waits for zero.
-/

namespace Alnp.SysvSem.ZeroWait

/-- Where `main` is. -/
inductive Main
  /-- at the head of the loop that forks -/
  | head
  /-- at the head of the loop that waits -/
  | wait (i : Nat)
  /-- behind `sysv_semrm` -/
  | removed
  /-- `sysv_semrm` has failed. -/
  | unremoved
  /-- `fork` has failed in the loop. -/
  | failed
deriving DecidableEq

structure State where
  sys : System
  main : Main
  /-- Children that have ended and not been waited for. -/
  zombies : Nat

/-- What a run of the program meets. -/
structure Start where
  /-- The first `fork` has succeeded. -/
  zwait : Bool
  nChild : Int
  /-- The value in the set that `sysv_semget` has returned; nothing where it has failed. -/
  set : Option Int
  range : ∀ v ∈ set, 0 ≤ v ∧ v ≤ semvmx

/-- The set is there. -/
def Start.there (p : Start) (main : Main) : Bool := p.set.isSome && main ≠ .removed

/-- An action of a child.  `semop` succeeds if the set is there, and fails at once if it is not. -/
inductive Acts : Bool → Int → Child → Int → Child → Prop
  | semwait {semval semadj semval' semadj' : Int} {idx : Nat} :
      semop semwaitBuf semval semadj = .done semval' semadj' →
      Acts true semval ⟨.semwait idx, semadj⟩ semval' ⟨.test idx, semadj'⟩
  | semwaitFailed {semval semadj : Int} {idx : Nat} :
      Acts false semval ⟨.semwait idx, semadj⟩ semval ⟨.exit, semadj⟩
  | test {there : Bool} {semval semadj : Int} {idx : Nat} :
      idx ≠ 2 → Acts there semval ⟨.test idx, semadj⟩ semval ⟨.sempost idx, semadj⟩
  | sempost {semval semadj semval' semadj' : Int} {idx : Nat} :
      semop sempostBuf semval semadj = .done semval' semadj' →
      Acts true semval ⟨.sempost idx, semadj⟩ semval' ⟨.exit, semadj'⟩
  | sempostFailed {semval semadj : Int} {idx : Nat} :
      Acts false semval ⟨.sempost idx, semadj⟩ semval ⟨.unposted idx, semadj⟩
  | semzwait {semval semadj semval' semadj' : Int} :
      semop semzwaitBuf semval semadj = .done semval' semadj' →
      Acts true semval ⟨.semzwait, semadj⟩ semval' ⟨.exit, semadj'⟩
  /-- Also where the child has waited: `EIDRM`. -/
  | semzwaitFailed {semval semadj : Int} :
      Acts false semval ⟨.semzwait, semadj⟩ semval ⟨.exit, semadj⟩

/-- The process ends: `exit`, or the `abort` of the child with index 2. -/
def Ends (c : Child) : Prop :=
  match c.pc with
  | .exit | .unposted _ => True
  | .test idx => idx = 2
  | .semwait _ | .sempost _ | .semzwait => False

/-- The semaphore behind the end of a child. -/
def Start.behind (p : Start) (main : Main) (c : Child) (semval : Int) : Int :=
  if p.there main then exitSem c.semadj semval else semval

inductive Step (p : Start) : State → State → Prop
  | fork (s : State) :
      s.main = .head → (s.sys.forked : Int) < p.nChild →
      Step p s { s with sys := { s.sys with
        children := s.sys.children ++ [⟨.semwait s.sys.forked, 0⟩], forked := s.sys.forked + 1 } }
  | forkFailed (s : State) :
      s.main = .head → (s.sys.forked : Int) < p.nChild → Step p s { s with main := .failed }
  | forked (s : State) :
      s.main = .head → p.nChild ≤ s.sys.forked → Step p s { s with main := .wait 0 }
  | act (semval semval' : Int) (before after : List Child) (c c' : Child) (forked : Nat)
      (main : Main) (zombies : Nat) :
      Acts (p.there main) semval c semval' c' →
      Step p ⟨⟨semval, before ++ c :: after, forked⟩, main, zombies⟩
        ⟨⟨semval', before ++ c' :: after, forked⟩, main, zombies⟩
  | ends (semval : Int) (before after : List Child) (c : Child) (forked : Nat) (main : Main)
      (zombies : Nat) :
      Ends c →
      Step p ⟨⟨semval, before ++ c :: after, forked⟩, main, zombies⟩
        ⟨⟨p.behind main c semval, before ++ after, forked⟩, main, zombies + 1⟩
  | waitpid (sys : System) (i zombies : Nat) :
      (i : Int) < p.nChild + 1 → Step p ⟨sys, .wait i, zombies + 1⟩ ⟨sys, .wait (i + 1), zombies⟩
  /-- `waitpid` fails: there is no child. -/
  | echild (sys : System) (i : Nat) :
      (i : Int) < p.nChild + 1 → sys.children = [] →
      Step p ⟨sys, .wait i, 0⟩ ⟨sys, .wait (i + 1), 0⟩
  | semrm (s : State) (i : Nat) :
      s.main = .wait i → p.nChild + 1 ≤ i → p.set ≠ none → Step p s { s with main := .removed }
  | semrmFailed (s : State) (i : Nat) :
      s.main = .wait i → p.nChild + 1 ≤ i → p.set = none → Step p s { s with main := .unremoved }

/-- The child that runs `handle_waitforzero`. -/
def zwaiter : Child := ⟨.semzwait, 0⟩

/-- The value of the semaphore at the start. -/
def Start.value (p : Start) : Int := p.set.getD 0

/-- The program behind its first `fork`. -/
def machine (p : Start) : Machine State where
  init s := s = ⟨⟨p.value, if p.zwait then [zwaiter] else [], 0⟩, .head, 0⟩
  step := Step p

variable {p : Start} {s t : State} {semval semval' : Int} {c c' : Child} {there : Bool}

theorem Start.value_range (p : Start) : 0 ≤ p.value ∧ p.value ≤ semvmx := by
  unfold Start.value
  cases set : p.set with
  | none => exact ⟨le_rfl, by decide⟩
  | some v => exact p.range v set

/-! ## The children -/

/-- The child waits for zero. -/
def Zwaits (c : Child) : Bool :=
  match c.pc with
  | .semzwait => true
  | _ => false

/-- The child runs `handle_criticalsect`. -/
def Critical (c : Child) : Bool :=
  match c.pc with
  | .semwait _ | .test _ | .sempost _ | .unposted _ => true
  | .semzwait | .exit => false

theorem Acts.childStep (acts : Acts there semval c semval' c') : ChildStep semval c semval' c' := by
  cases acts with
  | semwait done => exact .semwait done
  | semwaitFailed => exact .semwaitFailed
  | test ordinary => exact .test ordinary
  | sempost done => exact .sempost done
  | sempostFailed => exact .sempostFailed
  | semzwait done => exact .semzwait done
  | semzwaitFailed => exact .semzwaitFailed

theorem Acts.not_zwaits (acts : Acts there semval c semval' c') : Zwaits c' = false := by
  cases acts <;> rfl

theorem Acts.critical (acts : Acts there semval c semval' c') (critical : Critical c' = true) :
    Critical c = true := by
  cases acts <;> first | rfl | exact critical

/-- Without the set nobody gets inside. -/
theorem Acts.outside (acts : Acts false semval c semval' c') (outside : c.inside = false) :
    c'.inside = false := by
  cases acts with
  | semwaitFailed => rfl
  | test ordinary => exact outside
  | sempostFailed => exact outside
  | semzwaitFailed => rfl

theorem critical_of_inside (inside : c.inside = true) : Critical c = true := by
  obtain ⟨pc, semadj⟩ := c
  cases pc with
  | test idx => rfl
  | sempost idx => rfl
  | unposted idx => rfl
  | semwait idx => cases inside
  | semzwait => cases inside
  | exit => cases inside

theorem inside_le_critical (children : List Child) :
    children.countP Child.inside ≤ children.countP Critical :=
  List.countP_mono_left fun _ _ => critical_of_inside

/-- The end of a child that is not inside changes nothing. -/
theorem exitSem_of_outside (owes : c.Owes) (outside : c.inside = false) :
    exitSem c.semadj semval = semval := by
  rw [Child.Owes, outside] at owes
  exact if_pos owes

/-! ## The invariant -/

/-- How many children the loop forks when it comes to its end. -/
def Start.turns (p : Start) : Nat := p.nChild.toNat

/-- How many times `main` waits. -/
def Start.waits (p : Start) : Nat := (p.nChild + 1).toNat

/-- How many children there have been behind `n` forks of the loop. -/
def made (zwait : Bool) (n : Nat) : Nat := if zwait then n + 1 else n

/-- What is known where `main` is. -/
def At (p : Start) (s : State) : Prop :=
  match s.main with
  | .head => s.sys.children.length + s.zombies = made p.zwait s.sys.forked
  | .wait i => s.sys.forked = p.turns ∧ i ≤ p.waits ∧
      (s.sys.children = [] ∧ s.zombies = 0 ∨
        s.sys.children.length + s.zombies + i = made p.zwait p.turns)
  | .removed => p.set ≠ none ∧ (0 ≤ p.nChild → s.sys.children = []) ∧
      ∀ c ∈ s.sys.children, c.inside = false
  | .unremoved => p.set = none
  | .failed => True

structure Inv (p : Start) (s : State) : Prop where
  place : At p s
  /-- At most one child waits for zero. -/
  one : s.sys.children.countP Zwaits ≤ if p.zwait then 1 else 0
  few : s.sys.children.countP Critical ≤ s.sys.forked
  most : s.sys.forked ≤ p.turns
  kept : Conserved p.value s.sys

theorem made_le (zwait : Bool) (n : Nat) : made zwait n ≤ n + 1 := by
  cases zwait
  · exact Nat.le_succ n
  · exact le_rfl

theorem made_succ (zwait : Bool) (n : Nat) : made zwait (n + 1) = made zwait n + 1 := by
  cases zwait <;> rfl

theorem there_iff {main : Main} : p.there main = true ↔ p.set ≠ none ∧ main ≠ .removed := by
  rw [Start.there, Bool.and_eq_true, decide_eq_true_iff, Option.isSome_iff_ne_none]

/-- Where the set is not there, nobody is inside. -/
theorem Inv.outside (inv : Inv p s) (gone : p.there s.main = false) :
    ∀ c ∈ s.sys.children, c.inside = false := by
  by_cases removed : s.main = .removed
  · have place := inv.place
    rw [At, removed] at place
    exact place.2.2
  · have none : p.set = none := by
      by_contra some
      rw [there_iff.mpr ⟨some, removed⟩] at gone
      cases gone
    have value : p.value = 0 := by rw [Start.value, none]; rfl
    have total := inv.kept.total
    have nonneg := inv.kept.nonneg
    have nobody : s.sys.inside = 0 := by omega
    exact fun c member => Bool.not_eq_true _ ▸ List.countP_eq_zero.mp nobody c member

/-- With the loop of `waitpid` at its end, there is no child, or only the one that waits for
zero. -/
theorem Inv.waited (inv : Inv p s) {i : Nat} (wait : s.main = .wait i) (all : p.nChild + 1 ≤ i) :
    (0 ≤ p.nChild → s.sys.children = []) ∧ ∀ c ∈ s.sys.children, c.inside = false := by
  have place := inv.place
  rw [At, wait] at place
  obtain ⟨-, -, counted⟩ := place
  have most := made_le p.zwait p.turns
  have few := inv.few
  have less := inv.most
  have inside := inside_le_critical s.sys.children
  unfold Start.turns at counted most less
  have empty : 0 ≤ p.nChild → s.sys.children = [] := by
    intro nonneg
    rcases counted with ⟨none, -⟩ | sum
    · exact none
    · exact List.eq_nil_of_length_eq_zero (by omega)
  refine ⟨empty, fun c member => ?_⟩
  by_cases nonneg : 0 ≤ p.nChild
  · rw [empty nonneg] at member
    cases member
  · have nobody : s.sys.children.countP Child.inside = 0 := by omega
    exact Bool.not_eq_true _ ▸ List.countP_eq_zero.mp nobody c member

/-- An action of a child. -/
theorem Inv.act {before after : List Child} {forked zombies : Nat} {main : Main}
    (inv : Inv p ⟨⟨semval, before ++ c :: after, forked⟩, main, zombies⟩)
    (acts : Acts (p.there main) semval c semval' c') :
    Inv p ⟨⟨semval', before ++ c' :: after, forked⟩, main, zombies⟩ := by
  obtain ⟨place, one, few, most, kept⟩ := inv
  refine ⟨?_, ?_, ?_, most, ?_⟩
  · cases main with
    | head => simpa [At] using place
    | wait i => simpa [At] using place
    | removed =>
        obtain ⟨some, empty, outside⟩ := place
        have gone : p.there .removed = false := by simp [Start.there]
        rw [gone] at acts
        have still : c'.inside = false := acts.outside (outside c (by simp))
        exact ⟨some, fun nonneg => by simpa using empty nonneg, forall_mem_replace outside still⟩
    | unremoved => exact place
    | failed => trivial
  · simp only [List.countP_append, List.countP_cons, acts.not_zwaits, Bool.false_eq_true,
      ↓reduceIte] at one ⊢
    omega
  · simp only [List.countP_append, List.countP_cons] at few ⊢
    by_cases critical : Critical c' = true
    · rw [acts.critical critical] at few
      rw [critical]
      exact few
    · rw [if_neg critical]
      omega
  · exact kept.step p.value_range.2 (.move semval semval' before after c c' forked acts.childStep)

/-- The end of a child. -/
theorem Inv.ends {before after : List Child} {forked zombies : Nat} {main : Main}
    (inv : Inv p ⟨⟨semval, before ++ c :: after, forked⟩, main, zombies⟩) :
    Inv p ⟨⟨p.behind main c semval, before ++ after, forked⟩, main, zombies + 1⟩ := by
  have member : c ∈ before ++ c :: after := List.mem_append_right _ List.mem_cons_self
  have behind : p.behind main c semval = exitSem c.semadj semval := by
    unfold Start.behind
    split
    · rfl
    · next gone =>
        have outside := inv.outside (Bool.not_eq_true _ ▸ gone) c member
        exact (exitSem_of_outside (inv.kept.owes c member) outside).symm
  obtain ⟨place, one, few, most, kept⟩ := inv
  refine ⟨?_, ?_, ?_, most, ?_⟩
  · unfold At at place ⊢
    cases main with
    | head =>
        simp only [List.length_append, List.length_cons] at place ⊢
        omega
    | wait i =>
        simp only [List.length_append, List.length_cons] at place ⊢
        refine ⟨place.1, place.2.1, .inr ?_⟩
        rcases place.2.2 with ⟨none, -⟩ | sum
        · simp at none
        · omega
    | removed =>
        obtain ⟨some, empty, outside⟩ := place
        exact ⟨some, fun nonneg => by simpa using empty nonneg, forall_mem_remove outside⟩
    | unremoved => exact place
    | failed => trivial
  · simp only [List.countP_append, List.countP_cons] at one ⊢
    omega
  · simp only [List.countP_append, List.countP_cons] at few ⊢
    omega
  · rw [behind]
    exact kept.step p.value_range.2 (.terminate semval before after c forked)

theorem Inv.step (inv : Inv p s) (step : Step p s t) : Inv p t := by
  cases step with
  | fork _ head less =>
      have place := inv.place
      rw [At, head] at place
      refine ⟨?_, ?_, ?_, ?_, inv.kept.step p.value_range.2 (.fork s.sys)⟩
      · simp only [At, head, List.length_append, List.length_singleton, made_succ]
        omega
      · rw [List.countP_append]
        exact inv.one
      · rw [List.countP_append]
        exact Nat.succ_le_succ inv.few
      · unfold Start.turns
        dsimp only
        omega
  | forkFailed _ head less => exact { inv with place := trivial }
  | forked _ head all =>
      have place := inv.place
      have most := inv.most
      rw [At, head] at place
      have same : s.sys.forked = p.turns := by
        unfold Start.turns at most ⊢
        omega
      exact { inv with place := ⟨same, Nat.zero_le _, .inr (same ▸ place)⟩ }
  | act semval semval' before after c c' forked main zombies acts => exact inv.act acts
  | ends semval before after c forked main zombies ends => exact inv.ends
  | waitpid sys i zombies less =>
      obtain ⟨same, -, counted⟩ := inv.place
      refine { inv with place := ⟨same, by unfold Start.waits; omega, .inr ?_⟩ }
      rcases counted with ⟨-, none⟩ | sum
      · cases none
      · dsimp only at sum ⊢
        omega
  | echild sys i less none =>
      obtain ⟨same, -, -⟩ := inv.place
      exact { inv with place := ⟨same, by unfold Start.waits; omega, .inl ⟨none, rfl⟩⟩ }
  | semrm _ i wait all some => exact { inv with place := ⟨some, inv.waited wait all⟩ }
  | semrmFailed _ i wait all none => exact { inv with place := none }

theorem inv_of_reachable (reached : (machine p).Reachable s) : Inv p s := by
  apply reached.invariant (P := Inv p)
  · rintro s rfl
    obtain ⟨zwait, nChild, set, range⟩ := p
    have nonneg := (Start.mk zwait nChild set range).value_range.1
    cases zwait with
    | true =>
        exact ⟨rfl, le_rfl, le_rfl, Nat.zero_le _, nonneg, Int.add_zero _,
          fun c member => by rw [List.mem_singleton.mp member]; rfl⟩
    | false => exact ⟨rfl, le_rfl, le_rfl, Nat.zero_le _, nonneg, Int.add_zero _, nofun⟩
  · exact fun s t _ inv step => inv.step step

end Alnp.SysvSem.ZeroWait
