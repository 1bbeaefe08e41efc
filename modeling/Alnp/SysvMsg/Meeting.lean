import Alnp.Kernel.SysvMsg
import Alnp.Lib.Machine

/-!
# Sender and receiver of `sysv_msg.c`

Any number of processes of `Chapter05/sysv_msg.c` get the message queue with the program's key and
then send to it or receive from it.  `sysv_msgget` is the same in `sysv_msg_regex.c`.  It finds the
identifier of the queue in its own variable `msg_id`, but returns 0 (its sibling `sysv_semget`
returns the identifier), and `main` keeps that 0 for the calls of `msgsnd` and `msgrcv`.

`meet_iff_of_reachable` gives the runs in which this is right: those in which the queue happens to
have the identifier 0.
-/

namespace Alnp.SysvMsg

def projId : Nat := 1234

/-- Where a process is. -/
inductive At
  /-- in `sysv_msgget`, at `ftok` -/
  | ftok
  /-- at `msgget` with `IPC_CREAT | IPC_EXCL` -/
  | create
  /-- at `msgget` without flags -/
  | attach
  /-- behind them, with the variable `msg_id` -/
  | check (msgId : Int)
  /-- in `main`, at the test of the result of `sysv_msgget` -/
  | test
  /-- in `start_msq_sender` or `start_msq_receiver` -/
  | started
  | exited

structure Proc where
  pc : At
  /-- the result of `ftok` -/
  ftok : Option Int
  /-- the results of the calls of `msgget` -/
  msgget : List Int
  /-- What `sysv_msgget` has returned, which is the global `msg_id`. -/
  msgId : Option Int

structure System (ι : Type) where
  queues : MsgTable
  proc : ι → Proc
  /-- For each call of `msgsnd` and `msgrcv`, who made it and the key of the queue it went to. -/
  used : List (ι × Option Int)

variable {ι : Type} [DecidableEq ι]

def System.set (s : System ι) (i : ι) (p : Proc) : System ι :=
  { s with proc := Function.update s.proc i p }

/-- The branch on the result of the first `msgget` and on `errno`. -/
def afterCreate (msgId : Int) (errno : Option Errno) : At :=
  if msgId = -1 then
    if errno = some eexist then .attach else .check msgId
  else .check msgId

/-- A step of the system, with the key of the program. -/
inductive SystemStep (key : Int) : System ι → System ι → Prop
  /-- `ftok(argv[0], 1234)` cannot find the file, and `sysv_msgget` returns -1. -/
  | ftokFails (s : System ι) (i : ι) :
      (s.proc i).pc = .ftok →
      SystemStep key s
        (s.set i { s.proc i with pc := .test, ftok := some (-1), msgId := some (-1) })
  | ftok (s : System ι) (i : ι) :
      (s.proc i).pc = .ftok →
      SystemStep key s (s.set i { s.proc i with pc := .create, ftok := some key })
  | create (s : System ι) (i : ι) (msgId : Int) (errno : Option Errno) (queues : MsgTable) :
      (s.proc i).pc = .create → s.queues.MsggetExcl key msgId errno queues →
      SystemStep key s
        { s.set i { s.proc i with
            pc := afterCreate msgId errno, msgget := (s.proc i).msgget ++ [msgId] } with
          queues := queues }
  | attach (s : System ι) (i : ι) (msgId : Int) :
      (s.proc i).pc = .attach → s.queues.Msgget key msgId →
      SystemStep key s
        (s.set i { s.proc i with
          pc := .check msgId, msgget := (s.proc i).msgget ++ [msgId] })
  /-- Where `msg_id` is -1, a message is printed; `sysv_msgget` returns 0. -/
  | check (s : System ι) (i : ι) (msgId : Int) :
      (s.proc i).pc = .check msgId →
      SystemStep key s (s.set i { s.proc i with pc := .test, msgId := some 0 })
  | test (s : System ι) (i : ι) :
      (s.proc i).pc = .test →
      SystemStep key s
        (s.set i { s.proc i with
          pc := if (s.proc i).msgId = some (-1) then .exited else .started })
  /-- `msgsnd` or `msgrcv`. -/
  | use (s : System ι) (i : ι) (msgId : Int) :
      (s.proc i).pc = .started → (s.proc i).msgId = some msgId →
      SystemStep key s { s with used := s.used ++ [(i, s.queues.keyOf msgId)] }
  | exit (s : System ι) (i : ι) :
      (s.proc i).pc = .started → SystemStep key s (s.set i { s.proc i with pc := .exited })
  /-- Other programs do what they like with the queues of other keys. -/
  | others (s : System ι) (queues : MsgTable) :
      (∀ id, queues.keyOf id = some key ↔ s.queues.keyOf id = some key) →
      SystemStep key s { s with queues := queues }

/-- The program in a file with these numbers. -/
def machine (ι : Type) [DecidableEq ι] (ino dev : Nat) : Machine (System ι) where
  init s := ∃ queues, s = ⟨queues, fun _ => ⟨.ftok, none, [], none⟩, []⟩
  step := SystemStep (ftok ino dev projId)

/-! ## The exact condition -/

/-- `ftok` has failed, or every call of `msgget` has. -/
def Proc.Failed (p : Proc) : Prop := p.ftok = some (-1) ∨ ∀ msgId ∈ p.msgget, msgId = -1

/-- `sysv_msgget` has returned -1 exactly where it failed and otherwise the identifier of the queue
with the key, and every message has gone to that queue. -/
structure Meet (key : Int) (s : System ι) : Prop where
  failed : ∀ i msgId, (s.proc i).msgId = some msgId → (msgId = -1 ↔ (s.proc i).Failed)
  found : ∀ i msgId, (s.proc i).msgId = some msgId → msgId ≠ -1 →
    s.queues.keyOf msgId = some key
  used : ∀ u ∈ s.used, u.2 = some key

/-- `ftok` has failed, or a call of `msgget` has found the queue with the identifier 0. -/
def Proc.Lucky (p : Proc) : Prop := p.ftok = some (-1) ∨ 0 ∈ p.msgget

/-! ## The invariant -/

/-- What the place of a process says about its calls so far. -/
def Proc.Placed (key : Int) (p : Proc) : Prop :=
  match p.pc with
  | .ftok => p.ftok = none ∧ p.msgget = [] ∧ p.msgId = none
  | .create | .attach | .check _ => p.ftok = some key ∧ p.msgId = none
  | .started => p.ftok = some key ∧ p.msgId = some 0
  | _ => p.ftok = some (-1) ∧ p.msgId = some (-1) ∨ p.ftok = some key ∧ p.msgId = some 0

structure Inv (key : Int) (s : System ι) : Prop where
  placed : ∀ i, (s.proc i).Placed key
  /-- A call of `msgget` that has succeeded has found the queue with the key. -/
  found : ∀ i, ∀ msgId ∈ (s.proc i).msgget, msgId ≠ -1 → s.queues.keyOf msgId = some key
  /-- The messages go to the queue 0. -/
  used : ∀ u ∈ s.used, (s.proc u.1).msgId = some 0 ∧ (0 ∈ (s.proc u.1).msgget → u.2 = some key)

variable {key : Int} {s s' : System ι} {i j : ι} {p : Proc}

theorem proc_set_of_ne (other : j ≠ i) : (s.set i p).proc j = s.proc j :=
  Function.update_of_ne other ..

/-- Before `sysv_msgget` has returned. -/
def At.Inside : At → Prop
  | .ftok | .create | .attach | .check _ => True
  | _ => False

theorem Proc.Placed.msgId_of_inside (placed : p.Placed key) (inside : p.pc.Inside) :
    p.msgId = none := by
  unfold Proc.Placed at placed
  cases at' : p.pc with
  | ftok =>
      rw [at'] at placed
      exact placed.2.2
  | create | attach | check msgId =>
      rw [at'] at placed
      exact placed.2
  | test | started | exited =>
      rw [at'] at inside
      cases inside

omit [DecidableEq ι] in
theorem inside_at {pc : At} (at' : (s.proc i).pc = pc) (inside : pc.Inside) :
    (s.proc i).pc.Inside :=
  at' ▸ inside

omit [DecidableEq ι] in
theorem Inv.placed_at (inv : Inv key s) {pc : At} (at' : (s.proc i).pc = pc) :
    ({ s.proc i with pc := pc } : Proc).Placed key := by
  subst at'
  exact inv.placed i

/-- A step of process `i` inside `sysv_msgget`. -/
theorem Inv.of_inside (inv : Inv key s) (inside : (s.proc i).pc.Inside) (placed : p.Placed key)
    (queues : MsgTable)
    (keep : ∀ msgId, s.queues.keyOf msgId = some key → queues.keyOf msgId = some key)
    (found : ∀ msgId ∈ p.msgget, msgId ≠ -1 → queues.keyOf msgId = some key) :
    Inv key { s.set i p with queues := queues } := by
  refine ⟨?_, ?_, fun u member => ?_⟩
  · exact (Function.forall_update_iff s.proc fun _ p => p.Placed key).mpr
      ⟨placed, fun j _ => inv.placed j⟩
  · refine (Function.forall_update_iff s.proc fun _ p => ∀ msgId ∈ p.msgget, msgId ≠ -1 →
      queues.keyOf msgId = some key).mpr ⟨found, fun j _ msgId member ok => ?_⟩
    exact keep msgId (inv.found j msgId member ok)
  · -- A process that has sent or received is past `sysv_msgget`.
    have used := inv.used u member
    have other : u.1 ≠ i := by
      intro same
      rw [same, (inv.placed i).msgId_of_inside inside] at used
      cases used.1
    have there : ({ s.set i p with queues := queues } : System ι).proc u.1 = s.proc u.1 :=
      proc_set_of_ne other
    rw [there]
    exact used

/-- A step of process `i` that only moves it. -/
theorem Inv.of_moved (inv : Inv key s) {pc : At}
    (placed : ({ s.proc i with pc := pc } : Proc).Placed key) :
    Inv key (s.set i { s.proc i with pc := pc }) := by
  have kept : ∀ j, ((s.set i { s.proc i with pc := pc }).proc j).msgget = (s.proc j).msgget ∧
      ((s.set i { s.proc i with pc := pc }).proc j).msgId = (s.proc j).msgId := by
    refine (Function.forall_update_iff s.proc fun j p => p.msgget = (s.proc j).msgget ∧
      p.msgId = (s.proc j).msgId).mpr ⟨?_, fun _ _ => ⟨rfl, rfl⟩⟩
    exact ⟨rfl, rfl⟩
  refine ⟨fun j => ?_, fun j msgId member => ?_, fun u member => ?_⟩
  · exact (Function.forall_update_iff s.proc fun _ p => p.Placed key).mpr
      ⟨placed, fun j _ => inv.placed j⟩ j
  · exact inv.found j msgId ((kept j).1 ▸ member)
  · rw [(kept u.1).1, (kept u.1).2]
    exact inv.used u member

theorem Inv.create (inv : Inv key s) {msgId : Int} {errno : Option Errno} {queues : MsgTable}
    (at' : (s.proc i).pc = .create) (call : s.queues.MsggetExcl key msgId errno queues) :
    Inv key { s.set i { s.proc i with
      pc := afterCreate msgId errno, msgget := (s.proc i).msgget ++ [msgId] } with
        queues := queues } := by
  have placed := inv.placed_at at'
  have inside := inside_at at' trivial
  have next : ({ s.proc i with
      pc := afterCreate msgId errno, msgget := (s.proc i).msgget ++ [msgId] } : Proc).Placed
        key := by
    unfold Proc.Placed afterCreate
    dsimp only
    split_ifs
    · exact placed
    · exact placed
    · exact placed
  cases call with
  | created id nonneg absent free =>
      refine inv.of_inside inside next _ (fun msgId out => absurd out (absent msgId)) ?_
      refine List.forall_mem_append.mpr ⟨fun msgId member ok => ?_, fun msgId member _ => ?_⟩
      · exact absurd (inv.found i msgId member ok) (absent msgId)
      · rw [List.mem_singleton.mp member]
        exact Function.update_self ..
  | «exists» id out =>
      refine inv.of_inside inside next _ (fun _ out => out) ?_
      refine List.forall_mem_append.mpr ⟨inv.found i, fun msgId member ok => ?_⟩
      exact absurd (List.mem_singleton.mp member) ok
  | failed errno other =>
      refine inv.of_inside inside next _ (fun _ out => out) ?_
      refine List.forall_mem_append.mpr ⟨inv.found i, fun msgId member ok => ?_⟩
      exact absurd (List.mem_singleton.mp member) ok

theorem Inv.attach (inv : Inv key s) {msgId : Int} (at' : (s.proc i).pc = .attach)
    (call : s.queues.Msgget key msgId) :
    Inv key (s.set i { s.proc i with
      pc := .check msgId, msgget := (s.proc i).msgget ++ [msgId] }) := by
  have placed := inv.placed_at at'
  have inside := inside_at at' trivial
  refine inv.of_inside inside ?_ s.queues (fun _ out => out) ?_
  · exact placed
  refine List.forall_mem_append.mpr ⟨inv.found i, fun id member ok => ?_⟩
  rw [List.mem_singleton.mp member] at ok ⊢
  cases call with
  | found id out => exact out
  | failed => exact absurd rfl ok

theorem Inv.step (inv : Inv key s) (step : SystemStep key s s') : Inv key s' := by
  cases step with
  | ftokFails i at' =>
      refine inv.of_inside (inside_at at' trivial) ?_ s.queues (fun _ out => out) (inv.found i)
      exact .inl ⟨rfl, rfl⟩
  | ftok i at' =>
      have placed := inv.placed_at at'
      refine inv.of_inside (inside_at at' trivial) ?_ s.queues (fun _ out => out) (inv.found i)
      exact ⟨rfl, placed.2.2⟩
  | create i msgId errno queues at' call => exact inv.create at' call
  | attach i msgId at' call => exact inv.attach at' call
  | check i msgId at' =>
      have placed := inv.placed_at at'
      refine inv.of_inside (inside_at at' trivial) ?_ s.queues (fun _ out => out) (inv.found i)
      exact .inr ⟨placed.1, rfl⟩
  | test i at' =>
      have placed := inv.placed_at at'
      refine inv.of_moved ?_
      rcases placed with ⟨failed, result⟩ | ⟨got, result⟩
      · rw [if_pos result]
        exact .inl ⟨failed, result⟩
      · rw [if_neg (by rw [result]; decide)]
        exact ⟨got, result⟩
  | use i msgId at' result =>
      refine ⟨inv.placed, inv.found, List.forall_mem_append.mpr ⟨inv.used, fun u member => ?_⟩⟩
      rw [List.mem_singleton.mp member]
      have placed := inv.placed_at at'
      refine ⟨placed.2, fun lucky => ?_⟩
      cases placed.2.symm.trans result
      exact inv.found i 0 lucky (by decide)
  | exit i at' =>
      have placed := inv.placed_at at'
      exact inv.of_moved (.inr placed)
  | others queues same =>
      exact ⟨inv.placed,
        fun i msgId member ok => (same msgId).mpr (inv.found i msgId member ok), inv.used⟩

/-! ## Runs -/

variable {ino dev : Nat}

theorem inv_of_reachable (reached : (machine ι ino dev).Reachable s) :
    Inv (Alnp.ftok ino dev projId) s := by
  refine reached.invariant ?_ fun s t _ inv step => inv.step step
  rintro s ⟨queues, rfl⟩
  exact ⟨fun _ => ⟨rfl, rfl, rfl⟩, nofun, nofun⟩

omit [DecidableEq ι] in
/-- What `sysv_msgget` has returned: -1 where `ftok` failed and 0 everywhere else. -/
theorem Inv.returned (inv : Inv key s) {msgId : Int} (result : (s.proc i).msgId = some msgId) :
    (s.proc i).ftok = some (-1) ∧ msgId = -1 ∨ (s.proc i).ftok = some key ∧ msgId = 0 := by
  have placed := inv.placed i
  unfold Proc.Placed at placed
  split at placed
  · cases placed.2.2.symm.trans result
  · cases placed.2.symm.trans result
  · cases placed.2.symm.trans result
  · cases placed.2.symm.trans result
  · cases placed.2.symm.trans result
    exact .inr ⟨placed.1, rfl⟩
  · rcases placed with ⟨failed, returned⟩ | ⟨got, returned⟩
    · cases returned.symm.trans result
      exact .inl ⟨failed, rfl⟩
    · cases returned.symm.trans result
      exact .inr ⟨got, rfl⟩

/-- **Meeting on the queue.**  In every state of every run, the processes have met on the queue of
the program exactly if for each one that is past `sysv_msgget` the call of `ftok` has failed or a
call of `msgget` has found the queue under the identifier 0. -/
theorem meet_iff_of_reachable (reached : (machine ι ino dev).Reachable s) :
    Meet (Alnp.ftok ino dev projId) s ↔
      ∀ i, (s.proc i).msgId ≠ none → (s.proc i).Lucky := by
  have inv := inv_of_reachable reached
  obtain ⟨shared, valid⟩ := ftok_ne ino dev
  constructor
  · intro meet i past
    obtain ⟨msgId, result⟩ := Option.ne_none_iff_exists'.mp past
    rcases inv.returned result with ⟨failed, -⟩ | ⟨got, rfl⟩
    · exact .inl failed
    · have succeeded : ¬ (s.proc i).Failed := fun failed =>
        absurd ((meet.failed i 0 result).mpr failed) (by decide)
      unfold Proc.Failed at succeeded
      push Not at succeeded
      obtain ⟨id, member, ok⟩ := succeeded.2
      have zero := s.queues.unique id 0 _ shared (inv.found i id member ok)
        (meet.found i 0 result (by decide))
      exact .inr (zero ▸ member)
  · intro lucky
    have past : ∀ i msgId, (s.proc i).msgId = some msgId → (s.proc i).Lucky := fun i msgId result =>
      lucky i (result.symm ▸ Option.some_ne_none msgId)
    have found : ∀ i, (s.proc i).ftok = some (Alnp.ftok ino dev projId) → (s.proc i).Lucky →
        0 ∈ (s.proc i).msgget := by
      intro i got luck
      refine luck.resolve_left fun failed => valid ?_
      exact Option.some.inj (got.symm.trans failed)
    refine ⟨fun i msgId result => ?_, fun i msgId result ok => ?_, fun u member => ?_⟩
    · rcases inv.returned result with ⟨failed, rfl⟩ | ⟨got, rfl⟩
      · exact iff_of_true rfl (.inl failed)
      · refine iff_of_false (by decide) fun failed => ?_
        have zero := found i got (past i 0 result)
        rcases failed with failed | none
        · exact valid (Option.some.inj (got.symm.trans failed))
        · exact absurd (none 0 zero) (by decide)
    · rcases inv.returned result with ⟨-, rfl⟩ | ⟨got, rfl⟩
      · exact absurd rfl ok
      · exact inv.found i 0 (found i got (past i 0 result)) (by decide)
    · obtain ⟨result, hit⟩ := inv.used u member
      rcases inv.returned result with ⟨-, wrong⟩ | ⟨got, -⟩
      · cases wrong
      · exact hit (found u.1 got (past u.1 0 result))

/-- The queue of the program is the first of the system. -/
theorem meet_iff_first : ∃ s : System Nat, (s.proc 0).msgget = [0] ∧
    s.used = [(0, some (Alnp.ftok 0 0 projId))] ∧ (Meet (Alnp.ftok 0 0 projId) s ↔
      ∀ i, (s.proc i).msgId ≠ none → (s.proc i).Lucky) := by
  have start := Machine.Reachable.of_init (M := machine Nat 0 0) ⟨.empty, rfl⟩
  have absent : ∀ i, MsgTable.empty.keyOf i ≠ some (Alnp.ftok 0 0 projId) :=
    fun _ out => (by cases out)
  have found := start.tail (.ftok _ 0 rfl)
  have created := found.tail (.create _ 0 0 none _ rfl (.created 0 (by decide) absent rfl))
  have checked := created.tail (.check _ 0 0 rfl)
  have tested := checked.tail (.test _ 0 rfl)
  have used := tested.tail (.use _ 0 0 rfl rfl)
  exact ⟨_, rfl, rfl, meet_iff_of_reachable used⟩

/-! ## A foreign queue -/

/-- Another program has the queue 0, with the key 77. -/
def foreign : MsgTable where
  keyOf id := if id = 0 then some 77 else none
  nonneg id key out := by
    split at out
    · omega
    · cases out
  unique id id' key _ out out' := by
    split at out
    · split at out'
      · omega
      · cases out'
    · cases out

/-- The queue of the program gets the identifier 1, and the sender sends to the queue 0. -/
theorem reachable_foreign : ∃ s : System Nat, (machine Nat 0 0).Reachable s ∧
    (s.proc 0).msgId = some 0 ∧ (s.proc 0).msgget = [1] ∧ s.used = [(0, some 77)] := by
  have start := Machine.Reachable.of_init (M := machine Nat 0 0) ⟨foreign, rfl⟩
  have absent : ∀ i, foreign.keyOf i ≠ some (Alnp.ftok 0 0 projId) := by
    intro i out
    change (if i = 0 then some 77 else none) = _ at out
    split at out
    · exact absurd (Option.some.inj out) (by decide)
    · cases out
  have found := start.tail (.ftok _ 0 rfl)
  have created := found.tail (.create _ 0 1 none _ rfl (.created 1 (by decide) absent rfl))
  have checked := created.tail (.check _ 0 1 rfl)
  have tested := checked.tail (.test _ 0 rfl)
  have used := tested.tail (.use _ 0 0 rfl rfl)
  exact ⟨_, used, rfl, rfl, rfl⟩

theorem not_forall_meet :
    ¬ ∀ (ino dev : Nat) (s : System Nat), (machine Nat ino dev).Reachable s →
      Meet (Alnp.ftok ino dev projId) s := by
  intro always
  obtain ⟨s, reached, -, -, used⟩ := reachable_foreign
  have key := (always 0 0 s reached).used (0, some 77) (used ▸ List.mem_singleton_self _)
  exact absurd (Option.some.inj key) (by decide)

end Alnp.SysvMsg
