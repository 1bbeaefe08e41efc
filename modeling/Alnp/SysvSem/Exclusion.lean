import Alnp.SysvSem.Instances

/-!
# Mutual exclusion across the instances of `sysv_sem.c`

`exclusive_of_reachable`: on one and the same set at most one child of all instances is inside, and
an instance removes the set when its own children have ended.  After a removal under a child of
another instance there may be two inside on two sets (`exists_two_sets`); where no set is removed
under a child inside, at most one is inside altogether.
-/

namespace Alnp.SysvSem.Instances

variable {ι : Type} [DecidableEq ι] {nChild : ι → Nat} {s t : System ι}

/-! ## The children inside -/

def Process.insideOf (id : Nat) (p : Process ι) : Bool := p.semId = some id && p.child.inside

/-- How many of the children that use the set `id` are inside. -/
def System.insideOf (s : System ι) (id : Nat) : Nat := s.children.countP (Process.insideOf id)

/-- How many children are inside, on whatever set. -/
def System.inside (s : System ι) : Nat := s.children.countP fun p => p.child.inside

/-- On each set at most one child is inside, and on one that has not been initialised none. -/
structure Permits (s : System ι) : Prop where
  owes : ∀ p ∈ s.children, p.child.Owes
  one : ∀ id, s.insideOf id ≤ 1
  live : ∀ id semval, s.Live id semval → 0 ≤ semval ∧ semval + s.insideOf id ≤ 1
  unset : ∀ i id semval, s.main i = .setval id → s.Live id semval → semval + s.insideOf id ≤ 0

omit [DecidableEq ι] in
/-- A step that initialises nothing and adds no permit. -/
theorem Permits.of_le (permits : Permits s) (owes : ∀ p ∈ t.children, p.child.Owes)
    (gone : ∀ id, (∀ v, ¬ t.Live id v) → t.insideOf id ≤ s.insideOf id)
    (live : ∀ id v', t.Live id v' →
      0 ≤ v' ∧ ∃ v, s.Live id v ∧ v' + t.insideOf id ≤ v + s.insideOf id)
    (unset : ∀ i id, t.main i = .setval id → s.main i = .setval id) : Permits t := by
  have total : ∀ id v', t.Live id v' → 0 ≤ v' ∧ v' + t.insideOf id ≤ 1 := by
    intro id v' now
    obtain ⟨nonneg, v, was, le⟩ := live id v' now
    exact ⟨nonneg, Int.le_trans le (permits.live id v was).2⟩
  refine ⟨owes, fun id => ?_, total, fun i id v' at' now => ?_⟩
  · by_cases there : ∃ v', t.Live id v'
    · obtain ⟨v', now⟩ := there
      have both := total id v' now
      omega
    · exact Nat.le_trans (gone id fun v now => there ⟨v, now⟩) (permits.one id)
  · obtain ⟨-, v, was, le⟩ := live id v' now
    exact Int.le_trans le (permits.unset i id v (unset i id at') was)

omit [DecidableEq ι] in
theorem insideOf_replaced {p : Process ι} {before after : List (Process ι)}
    (rest : List (Process ι)) (was : s.children = before ++ p :: after)
    (now : t.children = before ++ (rest ++ after)) (id : Nat) :
    t.insideOf id + (if p.insideOf id then 1 else 0) =
      s.insideOf id + rest.countP (Process.insideOf id) := by
  simp only [System.insideOf, was, now, List.countP_append, List.countP_cons]
  omega

omit [DecidableEq ι] in
/-- A child goes on or ends on a set that is there: permits move between it and the set. -/
theorem Permits.of_live (permits : Permits s) {p : Process ι} {before after : List (Process ι)}
    {id : Nat} {v v' : Int} (rest : List (Process ι)) (was : s.children = before ++ p :: after)
    (now : t.children = before ++ (rest ++ after)) (main : t.main = s.main) (live : s.Live id v)
    (live' : t.Live id v') (nonneg : 0 ≤ v') (owes : ∀ q ∈ rest, q.child.Owes)
    (others : ∀ id', id' ≠ id → rest.countP (Process.insideOf id') = 0)
    (balance : v' + rest.countP (Process.insideOf id) ≤ v + if p.insideOf id then 1 else 0) :
    Permits t := by
  have replaced := insideOf_replaced rest was now
  refine permits.of_le ?_ (fun id' away => ?_) (fun id' w here => ?_) ?_
  · intro q member
    exact (mem_replaced rest was (now ▸ member)).elim (owes q) (permits.owes q)
  · have other : id' ≠ id := fun same => away v' (same ▸ live')
    have count := replaced id'
    have none := others id' other
    omega
  · obtain ⟨rfl, rfl⟩ := live_unique here live'
    have count := replaced id'
    refine ⟨nonneg, v, live, ?_⟩
    split at balance
    · rename_i inside
      rw [if_pos inside] at count
      omega
    · rename_i outside
      rw [if_neg outside] at count
      omega
  · rw [main]
    exact fun _ _ at' => at'

omit [DecidableEq ι] in
/-- A child goes on or ends on a set that is gone. -/
theorem Permits.of_gone (permits : Permits s) {p : Process ι} {before after : List (Process ι)}
    (rest : List (Process ι)) (was : s.children = before ++ p :: after)
    (now : t.children = before ++ (rest ++ after)) (main : t.main = s.main) (set : t.set = s.set)
    (owes : ∀ q ∈ rest, q.child.Owes)
    (fewer : ∀ id, rest.countP (Process.insideOf id) ≤ if p.insideOf id then 1 else 0) :
    Permits t := by
  have le : ∀ id, t.insideOf id ≤ s.insideOf id := by
    intro id
    have count := insideOf_replaced rest was now id
    have few := fewer id
    omega
  refine permits.of_le ?_ (fun id _ => le id) (fun id v here => ?_) ?_
  · intro q member
    exact (mem_replaced rest was (now ▸ member)).elim (owes q) (permits.owes q)
  · have there : s.Live id v := set.symm.trans here
    have more := le id
    exact ⟨(permits.live id v there).1, v, there, by omega⟩
  · rw [main]
    exact fun _ _ at' => at'

omit [DecidableEq ι] in
theorem insideOf_new (fresh : Fresh s) : s.insideOf s.created = 0 := by
  refine List.countP_eq_zero.mpr fun p member inside => ?_
  have uses : p.semId = some s.created := by
    unfold Process.insideOf at inside
    simp only [Bool.and_eq_true, decide_eq_true_eq] at inside
    exact inside.1
  exact Nat.lt_irrefl _ (fresh.children p member _ uses)

omit [DecidableEq ι] in
theorem clear_inside (id : Nat) (p : Process ι) : (p.clear id).child.inside = p.child.inside := by
  unfold Process.clear
  split <;> rfl

omit [DecidableEq ι] in
theorem insideOf_clear (ps : List (Process ι)) (id id' : Nat) :
    (ps.map (Process.clear id)).countP (Process.insideOf id') =
      ps.countP (Process.insideOf id') := by
  rw [List.countP_map]
  congr 1
  funext p
  simp only [Function.comp, Process.insideOf, clear_semId, clear_inside]

omit [DecidableEq ι] in
/-- A child that is outside owes nothing, and `SETVAL` takes nothing from it. -/
theorem owes_clear {id : Nat} {p : Process ι} (owes : p.child.Owes)
    (outside : p.semId = some id → p.child.inside = false) : (p.clear id).child.Owes := by
  unfold Child.Owes
  rw [clear_inside]
  unfold Process.clear
  split
  · rename_i uses
    rw [outside uses]
    rfl
  · exact owes

omit [DecidableEq ι] in
theorem insideOf_own (i : ι) (id : Nat) (c : Child) :
    Process.insideOf id ⟨i, some id, c⟩ = c.inside := by
  simp [Process.insideOf]

/-- An action that does not depend on the value neither enters nor leaves. -/
theorem inside_of_gone {c c' : Child} (act : ∀ semval, ChildStep semval c semval c') :
    c'.inside = c.inside := by
  cases act 0 with
  | semwait done | sempost done => exact absurd (semop_undo_done done).1 (by decide)
  | semwaitFailed | test | sempostFailed | semzwait | semzwaitFailed => rfl

omit [DecidableEq ι] in
/-- A child that ends gives back what it holds. -/
theorem Permits.exitSem_eq (permits : Permits s) {p : Process ι} (member : p ∈ s.children)
    {id : Nat} {v : Int} (uses : p.semId = some id) (live : s.Live id v) :
    exitSem p.child.semadj v = v + if p.insideOf id then 1 else 0 := by
  have owes : p.child.semadj = _ := permits.owes p member
  obtain ⟨nonneg, total⟩ := permits.live id v live
  by_cases inside : p.child.inside = true
  · have of : p.insideOf id = true := by simp [Process.insideOf, uses, inside]
    have some : 0 < s.insideOf id := List.countP_pos_iff.mpr ⟨p, member, of⟩
    rw [owes, if_pos inside, if_pos of]
    have small : v + 1 ≤ semvmx := Int.le_trans (by omega : v + 1 ≤ 1) (by decide)
    exact exitSem_eq_add (by omega) small
  · have of : ¬ p.insideOf id = true := by simp [Process.insideOf, uses, inside]
    rw [owes, if_neg inside, if_neg of, Int.add_zero]
    exact if_pos rfl

theorem Permits.step (permits : Permits s) (fresh : Fresh s) (step : SystemStep nChild s t) :
    Permits t := by
  cases step with
  | main i pc moves =>
      refine permits.of_le permits.owes (fun _ _ => Nat.le_refl _) (fun id v live => ?_) ?_
      · exact ⟨(permits.live id v live).1, v, live, Int.le_refl _⟩
      · exact fun j id at' => (main_setval rfl moves.not_setval at').2
  | create i at' none =>
      have empty := insideOf_new fresh
      refine ⟨permits.owes, permits.one, fun id v live => ?_, fun j id v at' live => ?_⟩
      · cases live
        exact ⟨Int.le_refl _, by change (0 : Int) + s.insideOf s.created ≤ 1; omega⟩
      · cases live
        change (0 : Int) + s.insideOf s.created ≤ 0
        omega
  | setval i id v at' live =>
      have nonneg := (permits.live id v live).1
      have used := permits.unset i id v at' live
      have empty : s.insideOf id = 0 := by omega
      have kept := insideOf_clear s.children id
      refine ⟨fun q member => ?_, fun id' => ?_, fun id' v' now => ?_, fun j id' v' at'' now => ?_⟩
      · obtain ⟨p, member', rfl⟩ := List.mem_map.mp member
        refine owes_clear (permits.owes p member') fun uses => ?_
        refine Bool.eq_false_iff.mpr fun inside => ?_
        exact List.countP_eq_zero.mp empty p member' (by simp [Process.insideOf, uses, inside])
      · exact Nat.le_trans (Nat.le_of_eq (kept id')) (permits.one id')
      · cases now
        refine ⟨by decide, ?_⟩
        have none := (kept id).trans empty
        refine Int.add_le_of_le_sub_left ?_
        exact Int.ofNat_le.mpr (Nat.le_of_eq none)
      · cases now
        obtain ⟨other, there⟩ := main_setval (s := s) (i := i) rfl (by nofun) at''
        exact absurd (fresh.single j i id there at') other
  | fork i semId k at' more =>
      have outside : ∀ id, Process.insideOf id ⟨i, semId, ⟨.semwait k, 0⟩⟩ = false := fun id =>
        Bool.and_false _
      have same : ∀ id, (s.children ++ [(⟨i, semId, ⟨.semwait k, 0⟩⟩ : Process ι)]).countP
          (Process.insideOf id) = s.insideOf id := by
        intro id
        rw [List.countP_append, List.countP_singleton, outside id]
        rfl
      refine permits.of_le ?_ (fun id _ => Nat.le_of_eq (same id)) (fun id v live => ?_) ?_
      · refine List.forall_mem_append.mpr ⟨permits.owes, fun p member => ?_⟩
        rw [List.mem_singleton.mp member]
        rfl
      · refine ⟨(permits.live id v live).1, v, live, ?_⟩
        exact Int.add_le_add_left (Int.ofNat_le.mpr (Nat.le_of_eq (same id))) v
      · exact fun j id at' => (main_setval rfl (by nofun) at').2
  | waitpid i semId k n at' | waitpidFails i semId k at' =>
      refine permits.of_le permits.owes (fun _ _ => Nat.le_refl _) (fun id v live => ?_) ?_
      · exact ⟨(permits.live id v live).1, v, live, Int.le_refl _⟩
      · exact fun j id at' => (main_setval rfl (by nofun) at').2
  | semrm i id v at' live =>
      refine permits.of_le permits.owes (fun _ _ => Nat.le_refl _) (fun _ _ none => ?_) ?_
      · cases none
      · exact fun j id at' => (main_setval rfl (by nofun) at').2
  | child before after i id v v' c c' out live act =>
      have owes := permits.owes ⟨i, some id, c⟩ (by simp [out])
      obtain ⟨owes', nonneg, balance⟩ := act.conserves owes (permits.live id v live).1
      refine permits.of_live [⟨i, some id, c'⟩] out rfl rfl live rfl nonneg ?_ ?_ ?_
      · exact List.forall_mem_singleton.mpr owes'
      · exact fun id' other => by simp [Process.insideOf, other.symm]
      · have cast : ((if c'.inside then 1 else 0 : Nat) : Int) = if c'.inside then 1 else 0 := by
          split <;> rfl
        rw [List.countP_singleton, insideOf_own, insideOf_own, cast]
        exact Int.le_of_eq balance
  | childGone before after i semId c c' out gone act =>
      have owes := permits.owes ⟨i, semId, c⟩ (by simp [out])
      obtain ⟨owes', -, -⟩ := (act 0).conserves owes (Int.le_refl _)
      refine permits.of_gone [⟨i, semId, c'⟩] out rfl rfl rfl ?_ fun id => ?_
      · exact List.forall_mem_singleton.mpr owes'
      · simp only [Process.insideOf, List.countP_singleton, inside_of_gone act]
        exact Nat.le_refl _
  | terminate before after i id v c out live =>
      have member : ⟨i, some id, c⟩ ∈ s.children := by simp [out]
      have given := permits.exitSem_eq member rfl live
      have nonneg := (permits.live id v live).1
      refine permits.of_live [] out rfl rfl live rfl ?_ nofun (fun _ _ => rfl) (Int.le_of_eq ?_)
      · dsimp only at given
        rw [given]
        split <;> omega
      · exact (Int.add_zero _).trans given
  | terminateGone before after i semId c out gone =>
      exact permits.of_gone [] out rfl rfl rfl nofun fun id => Nat.zero_le _

/-! ## Removals under a child -/

/-- The set is only removed while no child is inside. -/
def Quiet (s t : System ι) : Prop :=
  s.set ≠ none → t.set = none → ∀ p ∈ s.children, p.child.inside = false

/-- Every child inside is inside on the set that is there. -/
def OnLive (s : System ι) : Prop :=
  ∀ p ∈ s.children, p.child.inside = true → ∃ id v, p.semId = some id ∧ s.Live id v

omit [DecidableEq ι] in
theorem OnLive.nobody (onLive : OnLive s) (none : s.set = none) :
    ∀ p ∈ s.children, p.child.inside = false := by
  intro p member
  refine Bool.eq_false_iff.mpr fun inside => ?_
  obtain ⟨id, v, -, live⟩ := onLive p member inside
  cases none.symm.trans live

omit [DecidableEq ι] in
/-- The set stays, with whatever value, and who is inside was so before on the same set. -/
theorem OnLive.of_stays (onLive : OnLive s)
    (live : ∀ id v, s.Live id v → ∃ v', t.Live id v')
    (children : ∀ q ∈ t.children, q.child.inside = true →
      q ∈ s.children ∨ ∃ id v, q.semId = some id ∧ s.Live id v) : OnLive t := by
  intro q member inside
  have before : ∃ id v, q.semId = some id ∧ s.Live id v :=
    (children q member inside).elim (fun old => onLive q old inside) id
  obtain ⟨id, v, uses, there⟩ := before
  obtain ⟨v', here⟩ := live id v there
  exact ⟨id, v', uses, here⟩

theorem OnLive.step (onLive : OnLive s) (step : SystemStep nChild s t) (quiet : Quiet s t) :
    OnLive t := by
  have stays : ∀ {id v v'}, s.Live id v → t.set = some ⟨id, v'⟩ →
      ∀ id' w, s.Live id' w → ∃ w', t.Live id' w' := by
    intro id v v' live set id' w live'
    obtain ⟨rfl, -⟩ := live_unique live live'
    exact ⟨v', set⟩
  cases step with
  | main | waitpid | waitpidFails => exact onLive
  | create i at' none =>
      intro p member inside
      exact absurd inside (Bool.eq_false_iff.mp (onLive.nobody none p member))
  | setval i id v at' live =>
      refine onLive.of_stays (stays live rfl) fun q member inside => ?_
      obtain ⟨p, member', rfl⟩ := List.mem_map.mp member
      rw [clear_inside] at inside
      rw [clear_semId]
      exact .inr (onLive p member' inside)
  | fork i semId k at' more =>
      refine onLive.of_stays (fun _ v live => ⟨v, live⟩) fun q member inside => .inl ?_
      refine (List.mem_append.mp member).resolve_right fun new => ?_
      rw [List.mem_singleton.mp new] at inside
      cases inside
  | semrm i id v at' live =>
      intro p member inside
      have nobody := quiet (fun none => (by cases none.symm.trans live)) rfl p member
      exact absurd inside (Bool.eq_false_iff.mp nobody)
  | child before after i id v v' c c' out live act =>
      refine onLive.of_stays (stays live rfl) fun q member _ => ?_
      refine (mem_replaced [⟨i, some id, c'⟩] out member).symm.imp_right fun new => ?_
      rw [List.mem_singleton.mp new]
      exact ⟨id, v, rfl, live⟩
  | childGone before after i semId c c' out gone act =>
      refine onLive.of_stays (fun _ v live => ⟨v, live⟩) fun q member inside => ?_
      refine (mem_replaced [⟨i, semId, c'⟩] out member).symm.imp_right fun new => ?_
      rw [List.mem_singleton.mp new] at inside ⊢
      have was : c.inside = true := (inside_of_gone act).symm.trans inside
      exact onLive ⟨i, semId, c⟩ (by simp [out]) was
  | terminate before after i id v c out live =>
      refine onLive.of_stays (stays live rfl) fun q member _ => .inl ?_
      exact (mem_replaced [] out member).resolve_left List.not_mem_nil
  | terminateGone before after i semId c out gone =>
      refine onLive.of_stays (fun _ v live => ⟨v, live⟩) fun q member _ => .inl ?_
      exact (mem_replaced [] out member).resolve_left List.not_mem_nil

omit [DecidableEq ι] in
/-- The children inside are all on one set. -/
theorem inside_le_one (permits : Permits s) (onLive : OnLive s) : s.inside ≤ 1 := by
  cases set : s.set with
  | none =>
      have nobody : s.inside = 0 := by
        refine List.countP_eq_zero.mpr fun p member => ?_
        exact Bool.eq_false_iff.mp (onLive.nobody set p member)
      omega
  | some sem =>
      have le : s.inside ≤ s.insideOf sem.id := by
        refine List.countP_mono_left fun p member inside => ?_
        obtain ⟨id, v, uses, live⟩ := onLive p member inside
        cases set.symm.trans live
        simp only [Process.insideOf, uses, inside, decide_true, Bool.and_self]
      exact Nat.le_trans le (permits.one sem.id)

/-! ## Runs -/

theorem fresh_of_reachable (reached : (machine nChild).Reachable s) : Fresh s := by
  refine reached.invariant ?_ fun s t _ fresh step => fresh.step step
  intro s start
  subst start
  exact ⟨nofun, nofun, nofun, nofun⟩

theorem permits_of_reachable (reached : (machine nChild).Reachable s) : Permits s := by
  refine reached.invariant ?_ fun s t before permits step =>
    permits.step (fresh_of_reachable before) step
  intro s start
  subst start
  exact ⟨nofun, fun _ => Nat.zero_le _, nofun, nofun⟩

theorem counts_of_reachable (reached : (machine nChild).Reachable s) : Counts nChild s := by
  refine reached.invariant ?_ fun s t _ counts step => counts.step step
  intro s start
  subst start
  exact fun _ => rfl

theorem onLive_of_reachable (reached : ((machine nChild).guarded Quiet).Reachable s) :
    OnLive s := by
  refine reached.invariant ?_ fun s t _ onLive step => onLive.step step.1 step.2
  intro s start
  subst start
  nofun

/-- What holds of the instances whatever they do: on one and the same set at most one child is
inside, and an instance at `sysv_semrm` has no child that is alive. -/
structure Exclusive (s : System ι) : Prop where
  one : ∀ id, s.insideOf id ≤ 1
  waited : ∀ i semId, s.main i = .semrm semId → ∀ p ∈ s.children, p.owner ≠ i

/-- **Mutual exclusion across instances.**  In every run at most one child of all instances is
inside on one and the same set, and an instance removes the set after its own children have ended;
in a run in which no set is removed under a child inside, at most one child is inside altogether. -/
theorem exclusive_of_reachable (reached : (machine nChild).Reachable s) :
    Exclusive s ∧ (((machine nChild).guarded Quiet).Reachable s → s.inside ≤ 1) := by
  have permits := permits_of_reachable reached
  refine ⟨⟨permits.one, fun i semId at' p member own => ?_⟩, fun quiet => ?_⟩
  · have none : s.alive i + s.zombies i = 0 := by
      have counted := counts_of_reachable reached i
      rw [at'] at counted
      exact counted
    have some : 0 < s.alive i := List.countP_pos_iff.mpr ⟨p, member, by simp [own]⟩
    omega
  · exact inside_le_one permits (onLive_of_reachable quiet)

/-- A child of the second instance is inside, on the set of the first. -/
theorem exclusive_second : ∃ s : System Nat, s.inside = 1 ∧ s.insideOf 0 = 1 ∧
    Exclusive s ∧ s.inside ≤ 1 := by
  have start := Machine.Reachable.of_init (M := (machine fun _ : Nat => 1).guarded Quiet) rfl
  have created := start.tail ⟨.create _ 0 rfl rfl, fun some _ => absurd rfl some⟩
  have ready := created.tail ⟨.setval _ 0 0 0 rfl rfl, nofun⟩
  have there := ready.tail ⟨.main _ 1 _ (.exists (Option.some_ne_none _)), nofun⟩
  have attached := there.tail ⟨.main _ 1 _ (.attach 0 1 rfl), nofun⟩
  have forked := attached.tail ⟨.fork _ 1 (some 0) 0 rfl (by decide), nofun⟩
  have inside := forked.tail
    ⟨.child _ [] [] 1 0 1 0 ⟨.semwait 0, 0⟩ ⟨.test 0, 1⟩ rfl rfl (.semwait rfl), nofun⟩
  obtain ⟨exclusive, one⟩ := exclusive_of_reachable inside.of_guarded
  exact ⟨_, rfl, rfl, exclusive, one inside⟩

/-! ## Three instances -/

/-- An instance at `sysv_semrm` finds no child of another instance inside or waiting. -/
def Spared (s : System ι) : Prop :=
  ∀ i id v, s.main i = .semrm (some id) → s.Live id v →
    ∀ p ∈ s.children, p.owner ≠ i → p.semId = some id →
      p.child.inside = false ∧
      ∀ k, p.child.pc = .semwait k → semop semwaitBuf v p.child.semadj ≠ .blocks

/-- Instance 0, which has no children, is about to remove the set on which the child of instance 1
is inside. -/
theorem reachable_removal : ∃ s : System Nat, (machine id).Reachable s ∧
    s.main 0 = .semrm (some 0) ∧ s.main 2 = .semget ∧ s.created = 1 ∧ s.Live 0 0 ∧
    s.children = [⟨1, some 0, ⟨.test 0, 1⟩⟩] := by
  have start := Machine.Reachable.of_init (M := machine (id : Nat → Nat)) rfl
  have created := start.tail (.create _ 0 rfl rfl)
  have ready := created.tail (.setval _ 0 0 0 rfl rfl)
  have there := ready.tail (.main _ 1 _ (.exists (Option.some_ne_none _)))
  have attached := there.tail (.main _ 1 _ (.attach 0 1 rfl))
  have forked := attached.tail (.fork _ 1 (some 0) 0 rfl (by decide))
  have done := forked.tail (.main _ 0 _ (.forked (some 0) 0 (Nat.le_refl _)))
  have waited := done.tail (.main _ 0 _ (.waited (some 0) 0 (Nat.le_refl _)))
  have inside := waited.tail
    (.child _ [] [] 1 0 1 0 ⟨.semwait 0, 0⟩ ⟨.test 0, 1⟩ rfl rfl (.semwait rfl))
  exact ⟨_, inside, rfl, rfl, rfl, rfl, rfl⟩

/-- Then instance 2 creates the set again, and its child is inside as well. -/
theorem exists_two_sets : ∃ s : System Nat, (machine id).Reachable s ∧ s.inside = 2 := by
  obtain ⟨⟨set, n, main, ps, zombies⟩, reached, removes, waits, created, live, children⟩ :=
    reachable_removal
  dsimp only at removes waits created children
  subst created children
  have gone := reached.tail (.semrm _ 0 0 0 removes live)
  have «again» := gone.tail (.create _ 2 waits rfl)
  have ready := «again».tail (.setval _ 2 1 0 rfl rfl)
  have forked := ready.tail (.fork _ 2 (some 1) 0 rfl (by decide))
  have inside := forked.tail
    (.child _ [⟨1, some 0, ⟨.test 0, 1⟩⟩] [] 2 1 1 0 ⟨.semwait 0, 0⟩ ⟨.test 0, 1⟩ rfl rfl
      (.semwait rfl))
  exact ⟨_, inside, rfl⟩

theorem not_forall_together :
    (¬ ∀ (nChild : Nat → Nat) (s : System Nat), (machine nChild).Reachable s → s.inside ≤ 1) ∧
    ¬ ∀ (nChild : Nat → Nat) (s : System Nat), (machine nChild).Reachable s → Spared s := by
  constructor
  · intro always
    obtain ⟨s, reached, two⟩ := exists_two_sets
    have one := always id s reached
    omega
  · intro always
    obtain ⟨s, reached, removes, -, -, live, children⟩ := reachable_removal
    have spared := always id s reached 0 0 0 removes live ⟨1, some 0, ⟨.test 0, 1⟩⟩
      (children ▸ List.mem_singleton_self _) (by decide) rfl
    cases spared.1

end Alnp.SysvSem.Instances
