import Mathlib.Data.List.Basic
import Mathlib.Logic.Function.Basic
import Alnp.SysvSem.CriticalSection

/-!
# Instances of `sysv_sem.c`

Any number of instances of `Chapter05/sysv_sem.c` create the semaphore set with the program's key or
attach to the one that is there, fork their children, wait for these and remove the set, whoever
else uses it.  The set and its value come in two steps: a new set has the value 0, and `SETVAL`
follows.

`Fresh.step`: identifiers are given out once, and the instance that has created a set is the only
one to initialise it.  `Counts.step`: an instance that has left the loop of `waitpid` has no child.
-/

namespace Alnp.SysvSem.Instances

/-- The set with the key of the program. -/
structure SemSet where
  /-- The identifier: sets are numbered in the order of their creation. -/
  id : Nat
  semval : Int

/-- Where `main` is, with its `sem_id`, which is `none` for -1. -/
inductive MainAt
  /-- at `semget` with `IPC_CREAT | IPC_EXCL` -/
  | semget
  /-- at `semget` behind `EEXIST` -/
  | attach
  /-- at `semctl` with `SETVAL` -/
  | setval (id : Nat)
  /-- in the loop that forks, with its `i` -/
  | fork (semId : Option Nat) (i : Nat)
  /-- in the loop that waits, with its `i` -/
  | wait (semId : Option Nat) (i : Nat)
  /-- at `sysv_semrm` -/
  | semrm (semId : Option Nat)
  | exited

/-- A live child: the instance that has forked it, the set it uses, and where it is. -/
structure Process (ι : Type) where
  owner : ι
  semId : Option Nat
  child : Child

structure System (ι : Type) where
  set : Option SemSet
  /-- How many sets have been created. -/
  created : Nat
  main : ι → MainAt
  /-- The live children of all instances. -/
  children : List (Process ι)
  /-- How many children of an instance have ended and not been waited for. -/
  zombies : ι → Nat

variable {ι : Type}

/-- The set `id` is there, with this value. -/
def System.Live (s : System ι) (id : Nat) (semval : Int) : Prop := s.set = some ⟨id, semval⟩

/-- `sem_id` is not the identifier of a set that is there. -/
def System.Gone (s : System ι) (semId : Option Nat) : Prop :=
  ∀ id semval, semId = some id → ¬ s.Live id semval

/-- `SETVAL` on the set `id` clears the adjustments of all processes to it. -/
def Process.clear (id : Nat) (p : Process ι) : Process ι :=
  if p.semId = some id then { p with child := ⟨p.child.pc, 0⟩ } else p

/-- The actions of a `main` that change nothing else. -/
inductive Moves (nChild : Nat) (s : System ι) : MainAt → MainAt → Prop
  | exists : s.set ≠ none → Moves nChild s .semget .attach
  /-- `semget` has failed for another reason than `EEXIST`. -/
  | semgetFails : Moves nChild s .semget (.fork none 0)
  | attach (id : Nat) (semval : Int) : s.Live id semval → Moves nChild s .attach (.fork (some id) 0)
  | attachFails : s.set = none → Moves nChild s .attach (.fork none 0)
  | setvalFails (id : Nat) : s.Gone (some id) → Moves nChild s (.setval id) (.fork none 0)
  | forkFails (semId : Option Nat) (i : Nat) :
      i < nChild → Moves nChild s (.fork semId i) .exited
  | forked (semId : Option Nat) (i : Nat) :
      nChild ≤ i → Moves nChild s (.fork semId i) (.wait semId 0)
  | waited (semId : Option Nat) (i : Nat) :
      nChild ≤ i → Moves nChild s (.wait semId i) (.semrm semId)
  | semrmFails (semId : Option Nat) : s.Gone semId → Moves nChild s (.semrm semId) .exited
  /-- A signal from outside. -/
  | killed (pc : MainAt) : Moves nChild s pc .exited

variable [DecidableEq ι]

def System.setMain (s : System ι) (i : ι) (pc : MainAt) : System ι :=
  { s with main := Function.update s.main i pc }

/-- How many children of `i` are alive. -/
def System.alive (s : System ι) (i : ι) : Nat := s.children.countP (·.owner = i)

/-- A step of the system; `nChild i` is the number of turns that the loops of instance `i` make, 0
where `n_child` is negative. -/
inductive SystemStep (nChild : ι → Nat) : System ι → System ι → Prop
  | main (s : System ι) (i : ι) (pc : MainAt) :
      Moves (nChild i) s (s.main i) pc → SystemStep nChild s (s.setMain i pc)
  | create (s : System ι) (i : ι) :
      s.main i = .semget → s.set = none →
      SystemStep nChild s
        { s.setMain i (.setval s.created) with
          set := some ⟨s.created, 0⟩, created := s.created + 1 }
  | setval (s : System ι) (i : ι) (id : Nat) (semval : Int) :
      s.main i = .setval id → s.Live id semval →
      SystemStep nChild s
        { s.setMain i (.fork (some id) 0) with
          set := some ⟨id, Program.sysvSem.semValue⟩
          children := s.children.map (Process.clear id) }
  | fork (s : System ι) (i : ι) (semId : Option Nat) (k : Nat) :
      s.main i = .fork semId k → k < nChild i →
      SystemStep nChild s
        { s.setMain i (.fork semId (k + 1)) with
          children := s.children ++ [⟨i, semId, ⟨.semwait k, 0⟩⟩] }
  | waitpid (s : System ι) (i : ι) (semId : Option Nat) (k n : Nat) :
      s.main i = .wait semId k → k < nChild i → s.zombies i = n + 1 →
      SystemStep nChild s
        { s.setMain i (.wait semId (k + 1)) with zombies := Function.update s.zombies i n }
  /-- The instance has no child. -/
  | waitpidFails (s : System ι) (i : ι) (semId : Option Nat) (k : Nat) :
      s.main i = .wait semId k → k < nChild i → s.alive i = 0 → s.zombies i = 0 →
      SystemStep nChild s (s.setMain i (.wait semId (k + 1)))
  | semrm (s : System ι) (i : ι) (id : Nat) (semval : Int) :
      s.main i = .semrm (some id) → s.Live id semval →
      SystemStep nChild s { s.setMain i .exited with set := none }
  | child (s : System ι) (before after : List (Process ι)) (i : ι) (id : Nat)
      (semval semval' : Int) (c c' : Child) :
      s.children = before ++ ⟨i, some id, c⟩ :: after → s.Live id semval →
      ChildStep semval c semval' c' →
      SystemStep nChild s
        { s with
          set := some ⟨id, semval'⟩
          children := before ++ ⟨i, some id, c'⟩ :: after }
  /-- The set is gone and `semop` fails: what a child can still do does not depend on a value and
  changes none. -/
  | childGone (s : System ι) (before after : List (Process ι)) (i : ι) (semId : Option Nat)
      (c c' : Child) :
      s.children = before ++ ⟨i, semId, c⟩ :: after → s.Gone semId →
      (∀ semval, ChildStep semval c semval c') →
      SystemStep nChild s { s with children := before ++ ⟨i, semId, c'⟩ :: after }
  /-- The end of a child wherever it is. -/
  | terminate (s : System ι) (before after : List (Process ι)) (i : ι) (id : Nat) (semval : Int)
      (c : Child) :
      s.children = before ++ ⟨i, some id, c⟩ :: after → s.Live id semval →
      SystemStep nChild s
        { s with
          set := some ⟨id, exitSem c.semadj semval⟩
          children := before ++ after
          zombies := Function.update s.zombies i (s.zombies i + 1) }
  | terminateGone (s : System ι) (before after : List (Process ι)) (i : ι) (semId : Option Nat)
      (c : Child) :
      s.children = before ++ ⟨i, semId, c⟩ :: after → s.Gone semId →
      SystemStep nChild s
        { s with
          children := before ++ after
          zombies := Function.update s.zombies i (s.zombies i + 1) }

/-- No instance has been started, and there is no set with the key. -/
def System.start : System ι := ⟨none, 0, fun _ => .semget, [], fun _ => 0⟩

def machine (nChild : ι → Nat) : Machine (System ι) where
  init s := s = .start
  step := SystemStep nChild

/-! ## Identifiers -/

variable {nChild : ι → Nat} {s t : System ι} {i : ι} {pc pc' : MainAt} {n : Nat}

def MainAt.semId : MainAt → Option Nat
  | .setval id => some id
  | .fork semId _ | .wait semId _ | .semrm semId => semId
  | _ => none

/-- Nobody has an identifier that has not been given out, and a set is initialised by the one
instance that has created it. -/
structure Fresh (s : System ι) : Prop where
  set : ∀ id semval, s.Live id semval → id < s.created
  main : ∀ i id, (s.main i).semId = some id → id < s.created
  children : ∀ p ∈ s.children, ∀ id, p.semId = some id → id < s.created
  single : ∀ i j id, s.main i = .setval id → s.main j = .setval id → i = j

omit [DecidableEq ι] in
theorem live_unique {id id' : Nat} {v v' : Int} (live : s.Live id v) (live' : s.Live id' v') :
    id = id' ∧ v = v' := by
  cases live.symm.trans live'
  exact ⟨rfl, rfl⟩

omit [DecidableEq ι] in
/-- An identifier of `main` is one that it had before or that of the set. -/
theorem Moves.semId (moves : Moves n s pc pc') {id : Nat} (has : pc'.semId = some id) :
    pc.semId = some id ∨ ∃ v, s.Live id v := by
  cases moves with
  | «exists» | semgetFails | attachFails | setvalFails => cases has
  | forkFails | semrmFails | killed => cases has
  | attach id' v live =>
      cases has
      exact .inr ⟨v, live⟩
  | forked | waited => exact .inl has

omit [DecidableEq ι] in
theorem Moves.not_setval (moves : Moves n s pc pc') (id : Nat) : pc' ≠ .setval id := by
  cases moves <;> nofun

theorem setMain_of_ne {j : ι} (other : j ≠ i) : (s.setMain i pc).main j = s.main j :=
  Function.update_of_ne other ..

theorem setMain_self : (s.setMain i pc).main i = pc := Function.update_self ..

theorem main_setval (main : t.main = (s.setMain i pc).main) (moved : ∀ id, pc ≠ .setval id)
    {j : ι} {id : Nat} (at' : t.main j = .setval id) : j ≠ i ∧ s.main j = .setval id := by
  rw [main] at at'
  by_cases same : j = i
  · subst same
    exact absurd (setMain_self.symm.trans at') (moved id)
  · exact ⟨same, (setMain_of_ne same).symm.trans at'⟩

/-- A step of a `main` that creates no set. -/
theorem Fresh.of_main (fresh : Fresh s) (main : t.main = (s.setMain i pc).main)
    (created : t.created = s.created) (set : ∀ id v, t.Live id v → ∃ v', s.Live id v')
    (semId : ∀ id, pc.semId = some id → id < s.created) (moved : ∀ id, pc ≠ .setval id)
    (children : ∀ p ∈ t.children, ∀ id, p.semId = some id → id < s.created) : Fresh t := by
  refine ⟨fun id v live => ?_, ?_, ?_, fun j k id at' at'' => ?_⟩
  · obtain ⟨v', live'⟩ := set id v live
    exact created ▸ fresh.set id v' live'
  · rw [main, created]
    exact (Function.forall_update_iff s.main fun _ pc => ∀ id, pc.semId = some id →
      id < s.created).mpr ⟨semId, fun j _ => fresh.main j⟩
  · exact created ▸ children
  · exact fresh.single j k id (main_setval main moved at').2 (main_setval main moved at'').2

omit [DecidableEq ι] in
/-- A step of a child. -/
theorem Fresh.of_child (fresh : Fresh s) (main : t.main = s.main) (created : t.created = s.created)
    (set : ∀ id v, t.Live id v → ∃ v', s.Live id v')
    (children : ∀ p ∈ t.children, ∃ q ∈ s.children, p.semId = q.semId) : Fresh t := by
  refine ⟨fun id v live => ?_, ?_, fun p member id has => ?_, ?_⟩
  · obtain ⟨v', live'⟩ := set id v live
    exact created ▸ fresh.set id v' live'
  · rw [main, created]
    exact fresh.main
  · obtain ⟨q, member', same⟩ := children p member
    exact created ▸ fresh.children q member' id (same ▸ has)
  · rw [main]
    exact fresh.single

omit [DecidableEq ι] in
theorem clear_semId (id : Nat) (p : Process ι) : (p.clear id).semId = p.semId := by
  unfold Process.clear
  split <;> rfl

omit [DecidableEq ι] in
/-- The children when `p` has made room for `rest`, which is what has become of it. -/
theorem mem_replaced {p q : Process ι} {before after : List (Process ι)} (rest : List (Process ι))
    (was : s.children = before ++ p :: after) (member : q ∈ before ++ (rest ++ after)) :
    q ∈ rest ∨ q ∈ s.children := by
  rw [was]
  simp only [List.mem_append, List.mem_cons] at member ⊢
  tauto

omit [DecidableEq ι] in
theorem clear_owner (id : Nat) (p : Process ι) : (p.clear id).owner = p.owner := by
  unfold Process.clear
  split <;> rfl

theorem Fresh.step (fresh : Fresh s) (step : SystemStep nChild s t) : Fresh t := by
  cases step with
  | main i pc moves =>
      refine fresh.of_main rfl rfl (fun _ v live => ⟨v, live⟩) ?_ moves.not_setval fresh.children
      intro id has
      rcases moves.semId has with old | ⟨v, live⟩
      · exact fresh.main i id old
      · exact fresh.set id v live
  | create i at' none =>
      refine ⟨fun id v live => ?_, fun j id has => ?_, fun p member id has => ?_,
        fun j k id at' at'' => ?_⟩
      · cases live
        exact Nat.lt_succ_self _
      · by_cases same : j = i
        · subst same
          have here : (s.setMain j (.setval s.created)).main j = .setval s.created := setMain_self
          dsimp only at has
          rw [here] at has
          cases has
          exact Nat.lt_succ_self _
        · have there : (s.setMain i (.setval s.created)).main j = s.main j := setMain_of_ne same
          dsimp only at has
          rw [there] at has
          exact Nat.lt_succ_of_lt (fresh.main j id has)
      · exact Nat.lt_succ_of_lt (fresh.children p member id has)
      · have old : ∀ l, (s.setMain i (.setval s.created)).main l = .setval id →
            l = i ∧ id = s.created ∨ s.main l = .setval id := by
          intro l at'
          by_cases same : l = i
          · subst same
            cases setMain_self.symm.trans at'
            exact .inl ⟨rfl, rfl⟩
          · exact .inr ((setMain_of_ne same).symm.trans at')
        have new : ∀ l, s.main l ≠ .setval s.created := fun l at' =>
          Nat.lt_irrefl _ (fresh.main l s.created (congrArg MainAt.semId at'))
        rcases old j at' with ⟨one, rfl⟩ | one
        · rcases old k at'' with ⟨two, -⟩ | two
          · exact one.trans two.symm
          · exact absurd two (new k)
        · rcases old k at'' with ⟨-, rfl⟩ | two
          · exact absurd one (new j)
          · exact fresh.single j k id one two
  | setval i id v at' live =>
      refine fresh.of_main rfl rfl ?_ ?_ nofun ?_
      · intro id' v' live'
        cases live'
        exact ⟨v, live⟩
      · intro id' has
        cases has
        exact fresh.set id v live
      · intro p member id' has
        obtain ⟨q, member', rfl⟩ := List.mem_map.mp member
        rw [clear_semId] at has
        exact fresh.children q member' id' has
  | fork i semId k at' more =>
      have own : ∀ id, semId = some id → id < s.created := by
        intro id has
        refine fresh.main i id ?_
        rw [at']
        exact has
      refine fresh.of_main rfl rfl (fun _ v live => ⟨v, live⟩) own nofun ?_
      refine List.forall_mem_append.mpr ⟨fresh.children, fun p member => ?_⟩
      rw [List.mem_singleton.mp member]
      exact own
  | waitpid i semId k n at' | waitpidFails i semId k at' =>
      refine fresh.of_main rfl rfl (fun _ v live => ⟨v, live⟩) ?_ nofun fresh.children
      intro id has
      refine fresh.main i id ?_
      rw [at']
      exact has
  | semrm i id v at' live =>
      refine fresh.of_main rfl rfl (fun _ _ none => (by cases none)) nofun nofun fresh.children
  | child before after i id v v' c c' out live act =>
      refine fresh.of_child rfl rfl ?_ fun q member => ?_
      · intro id' v' live'
        cases live'
        exact ⟨v, live⟩
      · rcases mem_replaced [⟨i, some id, c'⟩] out member with new | old
        · rw [List.mem_singleton.mp new]
          exact ⟨⟨i, some id, c⟩, by simp [out], rfl⟩
        · exact ⟨q, old, rfl⟩
  | childGone before after i semId c c' out gone act =>
      refine fresh.of_child rfl rfl (fun _ v live => ⟨v, live⟩) fun q member => ?_
      rcases mem_replaced [⟨i, semId, c'⟩] out member with new | old
      · rw [List.mem_singleton.mp new]
        exact ⟨⟨i, semId, c⟩, by simp [out], rfl⟩
      · exact ⟨q, old, rfl⟩
  | terminate before after i id v c out live =>
      refine fresh.of_child rfl rfl ?_ fun q member => ?_
      · intro id' v' live'
        cases live'
        exact ⟨v, live⟩
      · exact ⟨q, (mem_replaced [] out member).resolve_left List.not_mem_nil, rfl⟩
  | terminateGone before after i semId c out gone =>
      refine fresh.of_child rfl rfl (fun _ v live => ⟨v, live⟩) fun q member => ?_
      exact ⟨q, (mem_replaced [] out member).resolve_left List.not_mem_nil, rfl⟩

/-! ## The children of an instance -/

/-- How many children `i` has that are alive or have not been waited for. -/
def System.present (s : System ι) (i : ι) : Nat := s.alive i + s.zombies i

/-- An instance that has left the loop of `waitpid` has no child. -/
def MainAt.Counts (n present : Nat) : MainAt → Prop
  | .semget | .attach | .setval _ | .semrm _ => present = 0
  | .fork _ k => present = k ∧ k ≤ n
  | .wait _ k => present + k = n
  | .exited => True

def Counts (nChild : ι → Nat) (s : System ι) : Prop :=
  ∀ i, (s.main i).Counts (nChild i) (s.present i)

omit [DecidableEq ι] in
theorem Moves.counts {present : Nat} (moves : Moves n s pc pc') (counts : pc.Counts n present) :
    pc'.Counts n present := by
  cases moves with
  | «exists» => exact counts
  | semgetFails | attach | attachFails | setvalFails => exact ⟨counts, Nat.zero_le _⟩
  | forked semId k left =>
      obtain ⟨rfl, le⟩ := counts
      exact Nat.le_antisymm le left
  | waited semId k left =>
      change present + k = n at counts
      change present = 0
      omega
  | forkFails | semrmFails | killed => trivial

theorem Counts.of_main (counts : Counts nChild s) (main : t.main = (s.setMain i pc).main)
    (here : pc.Counts (nChild i) (t.present i))
    (others : ∀ j, j ≠ i → t.present j = s.present j) : Counts nChild t := by
  unfold Counts
  rw [main]
  refine (Function.forall_update_iff s.main fun j pc => pc.Counts (nChild j) (t.present j)).mpr ?_
  exact ⟨here, fun j other => (others j other).symm ▸ counts j⟩

theorem alive_replaced {p : Process ι} {before after : List (Process ι)} (rest : List (Process ι))
    (was : s.children = before ++ p :: after) (now : t.children = before ++ (rest ++ after))
    (j : ι) :
    t.alive j + (if p.owner = j then 1 else 0) = s.alive j + rest.countP (·.owner = j) := by
  simp only [System.alive, was, now, List.countP_append, List.countP_cons, decide_eq_true_eq]
  omega

theorem Counts.of_child (counts : Counts nChild s) (main : t.main = s.main)
    (same : ∀ j, t.present j = s.present j) : Counts nChild t := by
  intro j
  rw [main, same]
  exact counts j

/-- A child has ended. -/
theorem present_terminate {j : ι} {p : Process ι} {before after : List (Process ι)}
    (was : s.children = before ++ p :: after) (now : t.children = before ++ after)
    (zombies : t.zombies = Function.update s.zombies p.owner (s.zombies p.owner + 1)) :
    t.present j = s.present j := by
  have alive := alive_replaced [] was now j
  unfold System.present
  rw [zombies]
  by_cases own : j = p.owner
  · subst own
    rw [if_pos rfl, List.countP_nil] at alive
    rw [Function.update_self]
    omega
  · rw [if_neg (Ne.symm own), List.countP_nil] at alive
    rw [Function.update_of_ne own]
    omega

/-- A child has gone on. -/
theorem present_child {j : ι} {p q : Process ι} {before after : List (Process ι)}
    (was : s.children = before ++ p :: after) (now : t.children = before ++ q :: after)
    (owner : q.owner = p.owner) (zombies : t.zombies = s.zombies) :
    t.present j = s.present j := by
  have alive := alive_replaced [q] was now j
  rw [List.countP_singleton, owner] at alive
  simp only [decide_eq_true_eq] at alive
  unfold System.present
  rw [zombies]
  omega

theorem Counts.step (counts : Counts nChild s) (step : SystemStep nChild s t) :
    Counts nChild t := by
  cases step with
  | main i pc moves => exact counts.of_main rfl (moves.counts (counts i)) fun _ _ => rfl
  | create i at' none =>
      have here := counts i
      rw [at'] at here
      exact counts.of_main rfl here fun _ _ => rfl
  | setval i id v at' live =>
      have here := counts i
      rw [at'] at here
      have same : ∀ j, (s.children.map (Process.clear id)).countP (·.owner = j) = s.alive j := by
        intro j
        rw [List.countP_map]
        congr 1
        funext p
        simp only [Function.comp, clear_owner]
      refine counts.of_main rfl ⟨?_, Nat.zero_le _⟩ fun j _ => ?_
      · exact (congrArg (· + s.zombies i) (same i)).trans here
      · exact congrArg (· + s.zombies j) (same j)
  | fork i semId k at' more =>
      have here := counts i
      rw [at'] at here
      have added : ∀ j, (s.children ++ [(⟨i, semId, ⟨.semwait k, 0⟩⟩ : Process ι)]).countP
          (·.owner = j) = s.alive j + if i = j then 1 else 0 := by
        intro j
        rw [List.countP_append, List.countP_singleton]
        simp only [decide_eq_true_eq]
        rfl
      refine counts.of_main rfl ⟨?_, more⟩ fun j other => ?_
      · have one := added i
        rw [if_pos rfl] at one
        have count : s.alive i + s.zombies i = k := here.1
        refine (congrArg (· + s.zombies i) one).trans ?_
        omega
      · have none := added j
        rw [if_neg (Ne.symm other)] at none
        exact congrArg (· + s.zombies j) none
  | waitpid i semId k n at' more some =>
      have here : s.alive i + s.zombies i + k = nChild i := by
        have counted := counts i
        rw [at'] at counted
        exact counted
      refine counts.of_main rfl ?_ fun j other => ?_
      · have fewer : Function.update s.zombies i n i = n := Function.update_self ..
        change s.alive i + Function.update s.zombies i n i + (k + 1) = nChild i
        omega
      · exact congrArg (s.alive j + ·) (Function.update_of_ne other ..)
  | waitpidFails i semId k at' more dead waited =>
      have here : s.alive i + s.zombies i + k = nChild i := by
        have counted := counts i
        rw [at'] at counted
        exact counted
      omega
  | semrm i id v at' live => exact counts.of_main rfl trivial fun _ _ => rfl
  | child before after i id v v' c c' out =>
      exact counts.of_child rfl fun _ => present_child out rfl rfl rfl
  | childGone before after i semId c c' out =>
      exact counts.of_child rfl fun _ => present_child out rfl rfl rfl
  | terminate before after i id v c out =>
      exact counts.of_child rfl fun _ => present_terminate out rfl rfl
  | terminateGone before after i semId c out =>
      exact counts.of_child rfl fun _ => present_terminate out rfl rfl

end Alnp.SysvSem.Instances
