import Alnp.Shm.MutexPshared

/-!
# The hand-over of the record in `mutex_pshared.c`

A thread that has locked the mutex prints the pair of the record, which the thread that held the
mutex before has left, and leaves its own.  A process with the argument `c` breaks this chain where
it clears the record or initialises the mutex under a thread that is inside
(`exists_overlap`); `handOver_of_reachable` says that nothing else does.
-/

namespace Alnp.MutexPshared

variable {ι : Type}

/-- The thread is between `pthread_mutex_lock` and `pthread_mutex_unlock`. -/
def ThreadAt.inside : ThreadAt → Bool
  | .prOut | .sleep | .storePid | .storeIdx | .unlock => true
  | _ => false

def System.Inside (s : System ι) (t : Tid ι) : Prop := (s.thread t).inside = true

/-- The pair that a thread leaves, or that of a cleared record. -/
def pair (pid : ι → Int) : Option (Tid ι) → Int × Int
  | none => (0, 0)
  | some t => (pid t.1, t.2.val)

/-- The critical sections do not overlap, and every thread has printed the pair of the thread that
held the mutex before it, or (0, 0) if it was the first. -/
structure HandOver (pid : ι → Int) (s : System ι) : Prop where
  exclusive : ∀ t u, s.Inside t → s.Inside u → t = u
  chain : ∀ l ∈ s.printed, (l.prevPid, l.prevIdx) = pair pid l.before

/-- The record is cleared and the mutex initialised while no thread is inside. -/
def Calm (s t : System ι) : Prop :=
  ∀ i, (s.main i = .memset ∧ t.main i = .mutexInit ∨ s.main i = .mutexInit ∧ t.main i = .create 0) →
    ∀ u, ¬ s.Inside u

/-! ## The threads that have not been created -/

/-- How many threads `main` has created; the count does not matter any more when it has ended. -/
def MainAt.created : MainAt → Nat
  | .create i => i
  | .exited | .killed => numThreads
  | _ => 0

def System.Fresh (s : System ι) : Prop :=
  ∀ i (k : Fin numThreads), (s.main i).created ≤ k → s.thread (i, k) = .absent

section

variable [DecidableEq ι] {s s' : System ι} {i : ι} {t : Tid ι} {pc : MainAt} {pc' : ThreadAt}
  {pid : ι → Int} {c : ι → Bool}

theorem System.Fresh.main (fresh : s.Fresh) (moved : s'.main = Function.update s.main i pc)
    (thread : s'.thread = s.thread)
    (more : ∀ k : Fin numThreads, pc.created ≤ k → (s.main i).created ≤ k) : s'.Fresh := by
  unfold System.Fresh
  rw [moved, thread]
  refine (Function.forall_update_iff s.main fun j pc => ∀ k : Fin numThreads,
    pc.created ≤ k → s.thread (j, k) = .absent).mpr ⟨fun k early => ?_, fun j _ => fresh j⟩
  exact fresh i k (more k early)

theorem System.Fresh.thread (fresh : s.Fresh) (main : s'.main = s.main)
    (moved : s'.thread = Function.update s.thread t pc') (was : s.thread t ≠ .absent) :
    s'.Fresh := by
  intro i k early
  rw [main] at early
  have absent := fresh i k early
  have other : (i, k) ≠ t := fun same => was (same ▸ absent)
  rw [moved, Function.update_of_ne other]
  exact absent

theorem System.Fresh.step (fresh : s.Fresh) (step : SystemStep pid c s s') : s'.Fresh := by
  cases step with
  | create i at' | «exists» i at' | shmOpen i at' | mmap i at' | testC i at' | memset i o at'
  | mutexInit i o at' | ftruncate i o at' =>
      have none : (s.main i).created = 0 := congrArg MainAt.created at'
      exact fresh.main rfl rfl fun k _ => none.le.trans (Nat.zero_le _)
  | pthreadCreate i k at' =>
      have count : (s.main i).created = k := congrArg MainAt.created at'
      have kept : (s.setMain i (.create (k + 1))).Fresh :=
        fresh.main rfl rfl fun l early => count.le.trans (Nat.le_of_succ_le early)
      intro j l early
      have other : (j, l) ≠ (i, k) := by
        intro same
        cases same
        have moved : ((s.setThread (i, k) .sleepIdx).setMain i (.create (k + 1))).main i =
          .create (k + 1) := Function.update_self ..
        rw [moved] at early
        exact Nat.not_succ_le_self _ early
      have stays : ((s.setThread (i, k) .sleepIdx).setMain i (.create (k + 1))).thread (j, l) =
        s.thread (j, l) := Function.update_of_ne other ..
      exact stays.trans (kept j l early)
  | joined i at' | sigbus i o alive =>
      exact fresh.main rfl rfl fun k late => absurd k.isLt (Nat.not_lt.mpr late)
  | sleepIdx t alive at' | sleep t alive at' | lock t o alive at' | prOut t o alive at'
  | storePid t o alive at' | storeIdx t o alive at' | unlock t o alive at' =>
      refine fresh.thread rfl rfl ?_
      rw [at']
      nofun

end

/-! ## The record and the thread inside -/

/-- The object, or what it will be when it has been created. -/
def System.shared (s : System ι) : Object ι := s.object.getD .new

def Object.record (o : Object ι) : Int × Int := (o.prevPid, o.prevIdx)

/-- What the record `o` holds while thread `t` is inside, which has taken the mutex over from
`before`. -/
def ThreadAt.Placed (pid : ι → Int) (last before : Option (Tid ι)) (o : Object ι) (t : Tid ι) :
    ThreadAt → Prop
  | .prOut | .sleep | .storePid => last = some t ∧ o.record = pair pid before
  | .storeIdx => last = some t ∧ o.prevPid = pid t.1
  | .unlock => last = some t ∧ o.record = pair pid (some t)
  | _ => True

def System.Placed (pid : ι → Int) (s : System ι) (t : Tid ι) : Prop :=
  (s.thread t).Placed pid s.last (s.before t) s.shared t

structure Inv (pid : ι → Int) (s : System ι) : Prop where
  guards : s.shared.mutex.Guards s.Inside
  idle : (∀ t, ¬ s.Inside t) → s.shared.record = pair pid s.last
  placed : ∀ t, s.Placed pid t
  printed : ∀ l ∈ s.printed, (l.prevPid, l.prevIdx) = pair pid l.before

variable {pid : ι → Int} {c : ι → Bool} {s s' : System ι} {t u : Tid ι} {pc : ThreadAt}
  {o : Object ι}

theorem shared_eq (out : s.object = some o) : s.shared = o := by
  unfold System.shared
  rw [out, Option.getD_some]

theorem placed_of_outside (outside : ¬ s.Inside t) : s.Placed pid t := by
  unfold System.Inside at outside
  unfold System.Placed
  cases pc : s.thread t with
  | absent | sleepIdx | lock | ended => trivial
  | prOut | sleep | storePid | storeIdx | unlock => exact absurd (pc ▸ rfl) outside

/-- A thread is inside: what has to be known is where it has come to. -/
theorem Inv.of_inside (guards : s.shared.mutex.Guards s.Inside) (inside : s.Inside t)
    (placed : s.Placed pid t)
    (printed : ∀ l ∈ s.printed, (l.prevPid, l.prevIdx) = pair pid l.before) : Inv pid s := by
  refine ⟨guards, fun nobody => absurd inside (nobody t), fun u => ?_, printed⟩
  by_cases here : s.Inside u
  · rw [guards.unique here inside]
    exact placed
  · exact placed_of_outside here

/-- Nobody is inside: what has to be known is the record. -/
theorem Inv.of_idle (guards : s.shared.mutex.Guards s.Inside) (nobody : ∀ t, ¬ s.Inside t)
    (record : s.shared.record = pair pid s.last)
    (printed : ∀ l ∈ s.printed, (l.prevPid, l.prevIdx) = pair pid l.before) : Inv pid s :=
  ⟨guards, fun _ => record, fun t => placed_of_outside (nobody t), printed⟩

/-- A step of a `main` that changes neither the record nor the mutex. -/
theorem Inv.main (inv : Inv pid s) (thread : s'.thread = s.thread)
    (mutex : s'.shared.mutex = s.shared.mutex) (record : s'.shared.record = s.shared.record)
    (last : s'.last = s.last) (before : s'.before = s.before) (printed : s'.printed = s.printed) :
    Inv pid s' := by
  have inside : s'.Inside = s.Inside := by
    unfold System.Inside
    rw [thread]
  have same : s'.Placed pid = s.Placed pid := by
    funext t
    have prevPid : s'.shared.prevPid = s.shared.prevPid := congrArg Prod.fst record
    unfold System.Placed
    rw [thread, last, before]
    cases s.thread t with
    | absent | sleepIdx | lock | ended => rfl
    | prOut | sleep | storePid | unlock => simp only [ThreadAt.Placed, record]
    | storeIdx => simp only [ThreadAt.Placed, prevPid]
  refine ⟨?_, ?_, ?_, ?_⟩
  · rw [mutex, inside]
    exact inv.guards
  · rw [inside, record, last]
    exact inv.idle
  · rw [same]
    exact inv.placed
  · rw [printed]
    exact inv.printed

variable [DecidableEq ι]

theorem inside_self (moved : s'.thread = Function.update s.thread t pc) :
    s'.Inside t ↔ pc.inside = true := by
  unfold System.Inside
  rw [moved, Function.update_self]

theorem inside_other (moved : s'.thread = Function.update s.thread t pc) (other : u ≠ t) :
    s'.Inside u ↔ s.Inside u := by
  unfold System.Inside
  rw [moved, Function.update_of_ne other]

/-- A thread that is outside goes on and stays outside. -/
theorem Inv.outside (inv : Inv pid s) (was : (s.thread t).inside = false)
    (now : pc.inside = false) : Inv pid (s.setThread t pc) := by
  have same : ∀ u, (s.setThread t pc).Inside u ↔ s.Inside u := by
    intro u
    by_cases here : u = t
    · rw [here, inside_self rfl]
      unfold System.Inside
      rw [was, now]
    · exact inside_other rfl here
  refine ⟨inv.guards.keep same rfl, fun nobody => inv.idle fun u => ?_, fun u => ?_, inv.printed⟩
  · exact fun inside => nobody u ((same u).mpr inside)
  · by_cases inside : (s.setThread t pc).Inside u
    · have other : u ≠ t := by
        intro here
        subst here
        unfold System.Inside at inside
        exact absurd ((inside_self rfl).mp inside) (by rw [now]; exact Bool.false_ne_true)
      have placed := inv.placed u
      have stays : (s.setThread t pc).thread u = s.thread u := Function.update_of_ne other ..
      unfold System.Placed
      rw [stays]
      exact placed
    · exact placed_of_outside inside

/-- The thread inside goes on: it still has the mutex. -/
theorem Inv.guards_inside (inv : Inv pid s) (was : s.Inside t) (now : pc.inside = true)
    (moved : s'.thread = Function.update s.thread t pc)
    (owner : s'.shared.mutex.owner = s.shared.mutex.owner) :
    s'.shared.mutex.Guards s'.Inside := by
  refine inv.guards.keep (fun u => ?_) owner
  by_cases here : u = t
  · rw [here]
    exact iff_of_true ((inside_self moved).mpr now) was
  · exact inside_other moved here

theorem placed_self (moved : s'.thread = Function.update s.thread t pc)
    (placed : pc.Placed pid s'.last (s'.before t) s'.shared t) : s'.Placed pid t := by
  unfold System.Placed
  rw [moved, Function.update_self]
  exact placed

omit [DecidableEq ι] in
theorem Inv.placed_at (inv : Inv pid s) (at' : s.thread t = pc) :
    pc.Placed pid s.last (s.before t) s.shared t :=
  at' ▸ inv.placed t

theorem unlock_eq (owner : o.mutex.owner = some t) :
    o.unlock t = { o with mutex := o.mutex.release } :=
  if_neg fun other => other.2 owner

theorem Inv.step (inv : Inv pid s) (fresh : s.Fresh) (step : SystemStep pid c s s')
    (calm : Calm s s') :
    Inv pid s' := by
  cases step with
  | create i at' none =>
      have same : s.shared = .new := by rw [System.shared, none, Option.getD_none]
      refine inv.main rfl ?_ ?_ rfl rfl rfl
      · rw [same]; rfl
      · rw [same]; rfl
  | «exists» | shmOpen | mmap | testC | joined | sigbus =>
      exact inv.main rfl rfl rfl rfl rfl rfl
  | ftruncate i o at' out =>
      have same := shared_eq out
      refine inv.main rfl ?_ ?_ rfl rfl rfl
      · rw [same]; rfl
      · rw [same]; rfl
  | memset i o at' out =>
      have moved : Function.update s.main i .mutexInit i = .mutexInit := Function.update_self ..
      have nobody := calm i (.inl ⟨at', moved⟩)
      exact .of_idle (Monitor.guards_idle nobody) nobody rfl inv.printed
  | mutexInit i o at' out =>
      have moved : Function.update s.main i (.create 0) i = .create 0 := Function.update_self ..
      have nobody := calm i (.inr ⟨at', moved⟩)
      have record := inv.idle nobody
      rw [shared_eq out] at record
      exact .of_idle (Monitor.guards_idle nobody) nobody record inv.printed
  | pthreadCreate i k at' =>
      have count : (s.main i).created = k := congrArg MainAt.created at'
      have absent := fresh i k count.le
      have started : Inv pid (s.setThread (i, k) .sleepIdx) := by
        refine inv.outside ?_ rfl
        rw [absent]; rfl
      exact started.main rfl rfl rfl rfl rfl rfl
  | sleepIdx t alive at' =>
      refine inv.outside ?_ rfl
      rw [at']; rfl
  | lock t o alive at' out long free =>
      have guards := inv.guards
      have record := inv.idle
      rw [shared_eq out] at guards record
      have nobody : ∀ u, ¬ s.Inside u := by
        intro u inside
        have owner := (guards u).mp inside
        cases free.symm.trans owner
      refine .of_inside (t := t) ?_ ((inside_self rfl).mpr rfl) ?_ inv.printed
      · exact guards.acquire free ((inside_self rfl).mpr rfl) fun u other => inside_other rfl other
      · have saved : Function.update s.before t s.last t = s.last := Function.update_self ..
        exact placed_self rfl ⟨rfl, (record nobody).trans (congrArg (pair pid) saved.symm)⟩
  | prOut t o alive at' out =>
      have placed := inv.placed_at at'
      have inside : s.Inside t := congrArg ThreadAt.inside at'
      refine .of_inside (t := t) ?_ ((inside_self rfl).mpr rfl) (placed_self rfl placed) ?_
      · exact inv.guards_inside inside rfl rfl rfl
      · refine List.forall_mem_append.mpr ⟨inv.printed, fun l member => ?_⟩
        rw [List.mem_singleton.mp member]
        rw [shared_eq out] at placed
        exact placed.2
  | sleep t alive at' =>
      have placed := inv.placed_at at'
      have inside : s.Inside t := congrArg ThreadAt.inside at'
      refine .of_inside (t := t) ?_ ((inside_self rfl).mpr rfl) (placed_self rfl placed) inv.printed
      exact inv.guards_inside inside rfl rfl rfl
  | storePid t o alive at' out =>
      have placed := inv.placed_at at'
      have inside : s.Inside t := congrArg ThreadAt.inside at'
      refine .of_inside (t := t) ?_ ((inside_self rfl).mpr rfl) ?_ inv.printed
      · refine inv.guards_inside inside rfl rfl ?_
        rw [shared_eq out]; rfl
      · exact placed_self rfl ⟨placed.1, rfl⟩
  | storeIdx t o alive at' out =>
      have placed := inv.placed_at at'
      have inside : s.Inside t := congrArg ThreadAt.inside at'
      refine .of_inside (t := t) ?_ ((inside_self rfl).mpr rfl) ?_ inv.printed
      · refine inv.guards_inside inside rfl rfl ?_
        rw [shared_eq out]; rfl
      · rw [shared_eq out] at placed
        exact placed_self rfl ⟨placed.1, congrArg (·, _) placed.2⟩
  | unlock t o alive at' out =>
      have placed := inv.placed_at at'
      have inside : s.Inside t := congrArg ThreadAt.inside at'
      have guards := inv.guards
      rw [shared_eq out] at placed guards
      have released := unlock_eq ((guards t).mp inside)
      have ended : (s.setThread t .ended).Inside t ↔ ThreadAt.ended.inside = true := inside_self rfl
      have left : ¬ (s.setThread t .ended).Inside t := ended.not.mpr Bool.false_ne_true
      have nobody : ∀ u, ¬ (s.setThread t .ended).Inside u := by
        intro u still
        have other : u ≠ t := fun same => left (same ▸ still)
        exact other (guards.unique ((inside_other rfl other).mp still) inside)
      rw [released]
      refine .of_idle ?_ nobody ?_ inv.printed
      · exact guards.free inside left (fun u other => inside_other rfl other) rfl
      · exact placed.2.trans (congrArg (pair pid) placed.1.symm)

/-! ## Runs -/

theorem fresh_of_reachable (reached : (machine pid c).Reachable s) : s.Fresh := by
  refine reached.invariant ?_ fun s t _ fresh step => fresh.step step
  intro s start
  subst start
  exact fun _ _ _ => rfl

theorem inv_of_reachable (reached : ((machine pid c).guarded Calm).Reachable s) : Inv pid s := by
  refine reached.invariant ?_ fun s t before inv step => ?_
  · intro s start
    subst start
    have nobody : ∀ t, ¬ (System.start : System ι).Inside t := fun _ => Bool.false_ne_true
    exact .of_idle (Monitor.guards_idle nobody) nobody rfl fun _ none => (by cases none)
  · exact inv.step (fresh_of_reachable before.of_guarded) step.1 step.2

/-- **Hand-over.**  In every run in which the record is cleared and the mutex initialised only while
no thread is inside, the critical sections do not overlap and every thread prints the pair of the
thread before it. -/
theorem handOver_of_reachable (reached : ((machine pid c).guarded Calm).Reachable s) :
    HandOver pid s := by
  have inv := inv_of_reachable reached
  exact ⟨fun _ _ => inv.guards.unique, inv.printed⟩

/-! ## Two processes -/

omit [DecidableEq ι] in
theorem calm_of_nobody (nobody : ∀ t, ¬ s.Inside t) : Calm s s' := fun _ _ => nobody

/-- A `main` that stays where it is neither clears nor initialises anything. -/
theorem not_used (pc : MainAt) :
    ¬ (pc = .memset ∧ pc = .mutexInit ∨ pc = .mutexInit ∧ pc = .create 0) := by
  rintro (⟨memset, init⟩ | ⟨init, create⟩)
  · cases memset.symm.trans init
  · cases init.symm.trans create

omit [DecidableEq ι] in
theorem calm_of_thread (same : s'.main = s.main) : Calm s s' := by
  intro i used
  rw [same] at used
  exact absurd used (not_used _)

theorem calm_of_create {i : ι} {k : Nat}
    (moved : s'.main = Function.update s.main i (.create (k + 1))) : Calm s s' := by
  intro j used
  rw [moved] at used
  by_cases same : j = i
  · rw [same, Function.update_self] at used
    rcases used with ⟨-, init⟩ | ⟨-, create⟩
    · cases init
    · cases create
  · rw [Function.update_of_ne same] at used
    exact absurd used (not_used _)

/-- The second process clears the record and initialises the mutex, and two of its threads take the
mutex one after the other. -/
theorem handOver_second : ∃ s : System Nat,
    s.printed = [⟨(1, 0), 0, 0, none⟩, ⟨(1, 1), 1, 0, some (1, 0)⟩] ∧ HandOver Int.ofNat s := by
  have quiet : ∀ t : Tid Nat, ¬ (ThreadAt.absent.inside = true) := fun _ => Bool.false_ne_true
  have start := Machine.Reachable.of_init
    (M := (machine Int.ofNat fun _ : Nat => true).guarded Calm) rfl
  have created := start.tail ⟨.create _ 0 rfl rfl, calm_of_nobody quiet⟩
  have there := created.tail ⟨.exists _ 1 rfl (Option.some_ne_none _), calm_of_nobody quiet⟩
  have opened := there.tail ⟨.shmOpen _ 1 rfl, calm_of_nobody quiet⟩
  have sized := opened.tail ⟨.ftruncate _ 1 _ rfl rfl, calm_of_nobody quiet⟩
  have mapped := sized.tail ⟨.mmap _ 1 rfl, calm_of_nobody quiet⟩
  have tested := mapped.tail ⟨.testC _ 1 rfl, calm_of_nobody quiet⟩
  have cleared := tested.tail ⟨.memset _ 1 _ rfl rfl (Nat.le_refl _), calm_of_nobody quiet⟩
  have ready := cleared.tail ⟨.mutexInit _ 1 _ rfl rfl (Nat.le_refl _), calm_of_nobody quiet⟩
  have one := ready.tail ⟨.pthreadCreate _ 1 0 rfl, calm_of_create rfl⟩
  have two := one.tail ⟨.pthreadCreate _ 1 1 rfl, calm_of_create rfl⟩
  have awake := two.tail ⟨.sleepIdx _ (1, 0) rfl rfl, calm_of_thread rfl⟩
  have locked := awake.tail
    ⟨.lock _ (1, 0) _ rfl rfl rfl (Nat.le_refl _) rfl, calm_of_thread rfl⟩
  have printed := locked.tail ⟨.prOut _ (1, 0) _ rfl rfl rfl (Nat.le_refl _), calm_of_thread rfl⟩
  have slept := printed.tail ⟨.sleep _ (1, 0) rfl rfl, calm_of_thread rfl⟩
  have pid := slept.tail ⟨.storePid _ (1, 0) _ rfl rfl rfl (Nat.le_refl _), calm_of_thread rfl⟩
  have idx := pid.tail ⟨.storeIdx _ (1, 0) _ rfl rfl rfl (Nat.le_refl _), calm_of_thread rfl⟩
  have free := idx.tail ⟨.unlock _ (1, 0) _ rfl rfl rfl (Nat.le_refl _), calm_of_thread rfl⟩
  have awake' := free.tail ⟨.sleepIdx _ (1, 1) rfl rfl, calm_of_thread rfl⟩
  have locked' := awake'.tail
    ⟨.lock _ (1, 1) _ rfl rfl rfl (Nat.le_refl _) rfl, calm_of_thread rfl⟩
  have printed' := locked'.tail
    ⟨.prOut _ (1, 1) _ rfl rfl rfl (Nat.le_refl _), calm_of_thread rfl⟩
  exact ⟨_, rfl, handOver_of_reachable printed'⟩

/-- A second process clears the record and initialises the mutex while a thread is inside. -/
theorem exists_overlap : ∃ s : System Nat,
    (machine Int.ofNat fun _ => true).Reachable s ∧ s.Inside (1, 0) ∧ s.Inside (0, 0) := by
  have start := Machine.Reachable.of_init (M := machine Int.ofNat fun _ : Nat => true) rfl
  have created := start.tail (.create _ 0 rfl rfl)
  have there := created.tail (.exists _ 1 rfl (Option.some_ne_none _))
  have opened := there.tail (.shmOpen _ 1 rfl)
  have sized := opened.tail (.ftruncate _ 1 _ rfl rfl)
  have mapped := sized.tail (.mmap _ 1 rfl)
  have tested := mapped.tail (.testC _ 1 rfl)
  have cleared := tested.tail (.memset _ 1 _ rfl rfl (Nat.le_refl _))
  have ready := cleared.tail (.mutexInit _ 1 _ rfl rfl (Nat.le_refl _))
  have one := ready.tail (.pthreadCreate _ 1 0 rfl)
  have awake := one.tail (.sleepIdx _ (1, 0) rfl rfl)
  have locked := awake.tail (.lock _ (1, 0) _ rfl rfl rfl (Nat.le_refl _) rfl)
  have mapped' := locked.tail (.mmap _ 0 rfl)
  have tested' := mapped'.tail (.testC _ 0 rfl)
  have cleared' := tested'.tail (.memset _ 0 _ rfl rfl (Nat.le_refl _))
  have ready' := cleared'.tail (.mutexInit _ 0 _ rfl rfl (Nat.le_refl _))
  have one' := ready'.tail (.pthreadCreate _ 0 0 rfl)
  have awake' := one'.tail (.sleepIdx _ (0, 0) rfl rfl)
  have locked' := awake'.tail (.lock _ (0, 0) _ rfl rfl rfl (Nat.le_refl _) rfl)
  exact ⟨_, locked', rfl, rfl⟩

theorem not_forall_handOver :
    ¬ ∀ (pid : Nat → Int) (s : System Nat), (machine pid fun _ => true).Reachable s →
      HandOver pid s := by
  intro always
  obtain ⟨s, reached, one, zero⟩ := exists_overlap
  cases (always _ s reached).exclusive _ _ one zero

end Alnp.MutexPshared
