import Mathlib.Data.Finset.Basic
import Mathlib.Data.Finset.Dedup
import Alnp.EpollTimerfd.Model

/-!
# The session list as a finite map

The list functions of `Chapter11/epoll_timerfd.c` without the rest of the server: any calls of
`fds_new_timerfd`, `fds_deletebytimerfd` and the two finds.  Beside the list goes the set of
sessions that have been made and not been deleted (`SessionMap.live`); `IsMap` says that the list
is this set, and that each function answers what the set says.
-/

namespace Alnp.EpollTimerfd

/-! ## `fds_new_timerfd` on the list -/

/-- `fds_new_timerfd` with the answers of `realloc` and `timerfd_create`. -/
def newTimerfd (realloc : Except Errno (Vector Fdsession 16)) (timerfdCreate : Except Errno Int)
    (socketfd timeout : Int) (l : FdsList) : Access (Except Errno Nat × FdsList) :=
  match reserve realloc l with
  | .error e => pure (.error e, l)
  | .ok l =>
      match timerfdCreate with
      | .error e => pure (.error e, l)
      | .ok fd => do
          let (i, l) ← store socketfd fd timeout l
          pure (.ok i, l)

/-- It is what the function of the server does to the server's list. -/
theorem fdsNewTimerfd_eq_newTimerfd (answers : AddAnswers) (socketfd timeout : Int) (s : Server) :
    let created := (s.kernel.timerfdCreate answers.timerfdCreate).map Prod.fst
    let list := (newTimerfd answers.realloc created socketfd timeout s.fdsList).value
    let server := fdsNewTimerfd answers socketfd timeout s
    server.1 = list.1 ∧ server.2.fdsList = list.2 := by
  unfold fdsNewTimerfd newTimerfd
  cases reserve answers.realloc s.fdsList with
  | error e => exact ⟨rfl, rfl⟩
  | ok l =>
      cases s.kernel.timerfdCreate answers.timerfdCreate with
      | error e => exact ⟨rfl, rfl⟩
      | ok created => exact ⟨rfl, rfl⟩

/-! ## Any calls -/

/-- The list, and the sessions made and not deleted. -/
structure SessionMap where
  fdsList : FdsList
  live : Finset Fdsession

/-- A call of `fds_new_timerfd`; the session is made when it returns 0. -/
def SessionMap.new (realloc : Except Errno (Vector Fdsession 16)) (timerfdCreate : Except Errno Int)
    (socketfd timeout : Int) (s : SessionMap) : SessionMap :=
  let (ret, fdsList) := (newTimerfd realloc timerfdCreate socketfd timeout s.fdsList).value
  match ret, timerfdCreate with
  | .ok _, .ok fd => ⟨fdsList, insert ⟨socketfd, fd, timeout⟩ s.live⟩
  | _, _ => ⟨fdsList, s.live⟩

/-- A call of `fds_deletebytimerfd`. -/
def SessionMap.delete (timerfd : Int) (s : SessionMap) : SessionMap where
  fdsList := (fdsDeletebytimerfd timerfd s.fdsList).value.2
  live := s.live.filter fun x => x.timerfd ≠ timerfd

/-- One call.  A new session's descriptors are no descriptors of a live session. -/
inductive SessionMap.Step : SessionMap → SessionMap → Prop
  | new (s : SessionMap) (realloc : Except Errno (Vector Fdsession 16))
      (timerfdCreate : Except Errno Int) (socketfd timeout : Int) :
      (∀ x ∈ s.live, x.socketfd ≠ socketfd) →
      (∀ fd, timerfdCreate = .ok fd → ∀ x ∈ s.live, x.timerfd ≠ fd) →
      Step s (s.new realloc timerfdCreate socketfd timeout)
  | delete (s : SessionMap) (timerfd : Int) : Step s (s.delete timerfd)
  | findbysocketfd (s : SessionMap) (fd : Int) : Step s s
  | findbytimerfd (s : SessionMap) (fd : Int) : Step s s

/-- The list from its empty state on. -/
def sessionMap : Machine SessionMap where
  init s := s = ⟨.empty, ∅⟩
  step := SessionMap.Step

/-! ## The list holds the live sessions -/

/-- `sessions` lists `live`, each session once, with no key twice. -/
structure Lists (sessions : List Fdsession) (live : Finset Fdsession) : Prop where
  mem : ∀ x, x ∈ sessions ↔ x ∈ live
  socketfd : (sessions.map Fdsession.socketfd).Nodup
  timerfd : (sessions.map Fdsession.timerfd).Nodup

namespace Lists

variable {sessions : List Fdsession} {live : Finset Fdsession} {x : Fdsession} {i : Nat}

theorem nodup (lists : Lists sessions live) : sessions.Nodup := lists.timerfd.of_map

theorem mem_map_iff (lists : Lists sessions live) (f : Fdsession → Int) (fd : Int) :
    fd ∈ sessions.map f ↔ ∃ x ∈ live, f x = fd := by
  simp only [List.mem_map, lists.mem]

/-- A session with new keys goes behind the others. -/
theorem append (lists : Lists sessions live) (socketfd : ∀ y ∈ live, y.socketfd ≠ x.socketfd)
    (timerfd : ∀ y ∈ live, y.timerfd ≠ x.timerfd) : Lists (sessions ++ [x]) (insert x live) := by
  have absent {f : Fdsession → Int} (new : ∀ y ∈ live, f y ≠ f x) : f x ∉ sessions.map f := by
    intro member
    obtain ⟨y, alive, same⟩ := (lists.mem_map_iff f (f x)).mp member
    exact new y alive same
  refine ⟨?_, ?_, ?_⟩
  · intro y
    rw [List.mem_append, List.mem_singleton, lists.mem, Finset.mem_insert, or_comm]
  · rw [List.map_append, List.map_singleton, ← List.concat_eq_append]
    exact lists.socketfd.concat (absent socketfd)
  · rw [List.map_append, List.map_singleton, ← List.concat_eq_append]
    exact lists.timerfd.concat (absent timerfd)

/-- The removal of an entry removes the session with its timer. -/
theorem remove (lists : Lists sessions live) (entry : sessions[i]? = some x) :
    Lists (swapRemove sessions i) (live.filter fun y => y.timerfd ≠ x.timerfd) := by
  obtain ⟨lt, rfl⟩ := List.getElem?_eq_some_iff.mp entry
  refine ⟨?_, (nodup_map_swapRemove lt lists.socketfd).1, (nodup_map_swapRemove lt lists.timerfd).1⟩
  intro y
  rw [mem_swapRemove_iff lt lists.timerfd, lists.mem, Finset.mem_filter]

end Lists

/-- What every call keeps. -/
structure Kept (s : SessionMap) : Prop where
  lists : Lists s.fdsList.sessions s.live
  le : s.fdsList.nUsed ≤ s.fdsList.nAllocated
  multiple : 16 ∣ s.fdsList.nAllocated

variable {s t : SessionMap} {l : FdsList}

/-! ## One call -/

theorem reserve_multiple {realloc : Except Errno (Vector Fdsession 16)} {l' : FdsList}
    (multiple : 16 ∣ l.nAllocated) (room : reserve realloc l = .ok l') : 16 ∣ l'.nAllocated := by
  unfold reserve at room
  split at room
  · cases realloc with
    | error e => cases room
    | ok entries =>
        cases room
        exact Nat.dvd_add multiple (Nat.dvd_refl 16)
  · cases room
    exact multiple

theorem Kept.new {realloc : Except Errno (Vector Fdsession 16)} {timerfdCreate : Except Errno Int}
    {socketfd timeout : Int} (kept : Kept s) (socketNew : ∀ x ∈ s.live, x.socketfd ≠ socketfd)
    (timerNew : ∀ fd, timerfdCreate = .ok fd → ∀ x ∈ s.live, x.timerfd ≠ fd) :
    Kept (s.new realloc timerfdCreate socketfd timeout) := by
  obtain ⟨lists, le, multiple⟩ := kept
  unfold SessionMap.new newTimerfd
  cases room : reserve realloc s.fdsList with
  | error e => exact ⟨lists, le, multiple⟩
  | ok l =>
      obtain ⟨sessions, used, free⟩ := sessions_reserve le room
      have multiple' := reserve_multiple multiple room
      cases timerfdCreate with
      | error e => exact ⟨sessions.symm ▸ lists, Nat.le_of_lt free, multiple'⟩
      | ok fd =>
          obtain ⟨-, used', allocated, sessions'⟩ := sessions_store socketfd fd timeout free
          refine ⟨?_, ?_, ?_⟩
          · simp only [Access.value_bind, Access.value_pure]
            rw [sessions', sessions]
            exact lists.append socketNew (timerNew fd rfl)
          · simp only [Access.value_bind, Access.value_pure]
            rw [used', allocated]
            exact free
          · simp only [Access.value_bind, Access.value_pure]
            rw [allocated]
            exact multiple'

theorem Kept.delete (kept : Kept s) (timerfd : Int) : Kept (s.delete timerfd) := by
  obtain ⟨lists, le, multiple⟩ := kept
  unfold SessionMap.delete
  by_cases present : timerfd ∈ s.fdsList.sessions.map Fdsession.timerfd
  · obtain ⟨i, x, entry, rfl, deleted, sessions⟩ := delete_some present le
    rw [deleted]
    refine ⟨?_, ?_, multiple⟩
    · rw [sessions]
      exact lists.remove entry
    · exact Nat.le_trans (Nat.sub_le _ _) le
  · rw [delete_none present le]
    have all : s.live.filter (fun x => x.timerfd ≠ timerfd) = s.live := by
      rw [Finset.filter_eq_self]
      intro x alive same
      exact present ((lists.mem_map_iff Fdsession.timerfd timerfd).mpr ⟨x, alive, same⟩)
    exact ⟨all.symm ▸ lists, le, multiple⟩

theorem kept_of_reachable (reached : sessionMap.Reachable s) : Kept s := by
  apply reached.invariant (P := Kept)
  · intro s start
    cases start
    exact ⟨⟨fun x => by simp [FdsList.sessions, FdsList.empty, live], List.nodup_nil,
      List.nodup_nil⟩, Nat.le_refl 0, Nat.dvd_zero 16⟩
  · intro s t _ kept step
    cases step with
    | new realloc timerfdCreate socketfd timeout socketNew timerNew =>
        exact kept.new socketNew timerNew
    | delete timerfd => exact kept.delete timerfd
    | findbysocketfd fd => exact kept
    | findbytimerfd fd => exact kept

/-! ## The slots that are used -/

theorem newTimerfd_within (realloc : Except Errno (Vector Fdsession 16))
    (timerfdCreate : Except Errno Int) (socketfd timeout : Int) (le : l.nUsed ≤ l.nAllocated) :
    (newTimerfd realloc timerfdCreate socketfd timeout l).Within
      (newTimerfd realloc timerfdCreate socketfd timeout l).value.2.nAllocated := by
  unfold newTimerfd
  cases room : reserve realloc l with
  | error e => exact Access.within_pure _
  | ok l' =>
      obtain ⟨-, -, free⟩ := sessions_reserve le room
      cases timerfdCreate with
      | error e => exact Access.within_pure _
      | ok fd =>
          have slot : 0 ≤ (l'.nUsed : Int) ∧ (l'.nUsed : Int) < l'.nAllocated := by omega
          refine Access.within_bind.mpr ⟨?_, Access.within_pure _⟩
          refine Access.within_bind.mpr ⟨(Access.within_modify _ _ _).mpr slot, ?_⟩
          refine Access.within_bind.mpr ⟨(Access.within_modify _ _ _).mpr slot, ?_⟩
          exact Access.within_bind.mpr ⟨(Access.within_modify _ _ _).mpr slot, Access.within_pure _⟩

theorem fdsDeletebytimerfd_within (timerfd : Int) (le : l.nUsed ≤ l.nAllocated) :
    (fdsDeletebytimerfd timerfd l).Within l.nAllocated := by
  unfold fdsDeletebytimerfd
  refine Access.within_bind.mpr ⟨Access.search_within _ _ le, ?_⟩
  cases found : (Access.search (fun x => x.timerfd == timerfd) l.list l.nUsed).value with
  | none => exact Access.within_pure _
  | some i =>
      obtain ⟨lt, -⟩ := of_search_eq_some l.list le found
      have last : 0 ≤ (l.nUsed : Int) - 1 ∧ (l.nUsed : Int) - 1 < l.nAllocated := by omega
      refine Access.within_bind.mpr ⟨moveLast_within _ lt le, ?_⟩
      refine Access.within_bind.mpr ⟨(Access.within_modify _ _ _).mpr last, ?_⟩
      exact Access.within_bind.mpr ⟨(Access.within_modify _ _ _).mpr last, Access.within_pure _⟩

/-! ## The list is the map -/

/-- `find` looks the live sessions up by the key `f`: it finds nothing where no session has the key,
and otherwise the slot of the session that has it. -/
structure Finds (s : SessionMap) (f : Fdsession → Int)
    (find : Int → FdsList → Access (Option Nat)) : Prop where
  none : ∀ fd, (find fd s.fdsList).value = none ↔ ∀ x ∈ s.live, f x ≠ fd
  some : ∀ fd i, (find fd s.fdsList).value = some i →
    ∃ x ∈ s.live, f x = fd ∧ s.fdsList.sessions[i]? = some x ∧ ∀ y ∈ s.live, f y = fd → y = x
  within : ∀ fd, (find fd s.fdsList).Within s.fdsList.nAllocated

/-- What `fds_deletebytimerfd` does. -/
structure Deletes (s : SessionMap) (timerfd : Int) : Prop where
  /-- It returns `ENOENT` exactly when no live session has the timer. -/
  enoent : (fdsDeletebytimerfd timerfd s.fdsList).value.1 = enoent ↔
    ∀ x ∈ s.live, x.timerfd ≠ timerfd
  unchanged : (∀ x ∈ s.live, x.timerfd ≠ timerfd) →
    (fdsDeletebytimerfd timerfd s.fdsList).value.2 = s.fdsList
  removed : (∃ x ∈ s.live, x.timerfd = timerfd) →
    (fdsDeletebytimerfd timerfd s.fdsList).value.1 = 0 ∧
      Lists (fdsDeletebytimerfd timerfd s.fdsList).value.2.sessions
        (s.live.filter fun x => x.timerfd ≠ timerfd)
  within : (fdsDeletebytimerfd timerfd s.fdsList).Within s.fdsList.nAllocated

/-- What `fds_new_timerfd` does whatever the kernel answers: a failure changes no session. -/
structure News (s : SessionMap) (realloc : Except Errno (Vector Fdsession 16))
    (timerfdCreate : Except Errno Int) (socketfd timeout : Int) : Prop where
  failed : ∀ e, (newTimerfd realloc timerfdCreate socketfd timeout s.fdsList).value.1 = .error e →
    (newTimerfd realloc timerfdCreate socketfd timeout s.fdsList).value.2.sessions =
      s.fdsList.sessions
  within : (newTimerfd realloc timerfdCreate socketfd timeout s.fdsList).Within
    (newTimerfd realloc timerfdCreate socketfd timeout s.fdsList).value.2.nAllocated

/-- The list is the finite map `live`. -/
structure IsMap (s : SessionMap) : Prop where
  lists : Lists s.fdsList.sessions s.live
  length : s.fdsList.sessions.length = s.fdsList.nUsed
  nUsed_le : s.fdsList.nUsed ≤ s.fdsList.nAllocated
  multiple : 16 ∣ s.fdsList.nAllocated
  findbysocketfd : Finds s Fdsession.socketfd fdsFindbysocketfd
  findbytimerfd : Finds s Fdsession.timerfd fdsFindbytimerfd
  delete : ∀ timerfd, Deletes s timerfd
  new : ∀ realloc timerfdCreate socketfd timeout, News s realloc timerfdCreate socketfd timeout

/-- A scan for a key that no two sessions share. -/
theorem Kept.finds (kept : Kept s) (f : Fdsession → Int)
    (distinct : (s.fdsList.sessions.map f).Nodup) :
    Finds s f fun fd l => Access.search (fun x => f x == fd) l.list l.nUsed where
  none fd := by
    rw [findby_none f kept.le, kept.lists.mem_map_iff f fd]
    simp
  some fd i found := by
    obtain ⟨x, entry, hit⟩ := findby_some f kept.le found
    have listed := List.mem_of_getElem? entry
    refine ⟨x, (kept.lists.mem x).mp listed, hit, entry, fun y alive same => ?_⟩
    exact List.inj_on_of_nodup_map distinct ((kept.lists.mem y).mpr alive) listed
      (same.trans hit.symm)
  within fd := Access.search_within _ _ kept.le

theorem Kept.deletes (kept : Kept s) (timerfd : Int) : Deletes s timerfd := by
  have within := fdsDeletebytimerfd_within timerfd kept.le
  by_cases present : timerfd ∈ s.fdsList.sessions.map Fdsession.timerfd
  · have alive := (kept.lists.mem_map_iff Fdsession.timerfd timerfd).mp present
    have some : ¬ ∀ x ∈ s.live, x.timerfd ≠ timerfd := by
      obtain ⟨x, member, same⟩ := alive
      exact fun none => none x member same
    have lists := (kept.delete timerfd).lists
    obtain ⟨i, x, -, -, deleted, -⟩ := delete_some present kept.le
    refine ⟨?_, fun none => absurd none some, fun _ => ⟨?_, lists⟩, within⟩
    · rw [deleted]
      have ne : (0 : Int) ≠ EpollTimerfd.enoent := by decide
      exact ⟨fun same => absurd same ne, fun none => absurd none some⟩
    · rw [deleted]
  · have none : ∀ x ∈ s.live, x.timerfd ≠ timerfd := fun x alive same =>
      present ((kept.lists.mem_map_iff Fdsession.timerfd timerfd).mpr ⟨x, alive, same⟩)
    have kept' := delete_none present kept.le
    refine ⟨?_, fun _ => congrArg Prod.snd kept', ?_, within⟩
    · rw [kept']
      exact ⟨fun _ => none, fun _ => rfl⟩
    · rintro ⟨x, alive, same⟩
      exact absurd same (none x alive)

theorem Kept.news (kept : Kept s) (realloc : Except Errno (Vector Fdsession 16))
    (timerfdCreate : Except Errno Int) (socketfd timeout : Int) :
    News s realloc timerfdCreate socketfd timeout := by
  refine ⟨?_, newTimerfd_within realloc timerfdCreate socketfd timeout kept.le⟩
  intro e failed
  unfold newTimerfd at failed ⊢
  cases room : reserve realloc s.fdsList with
  | error e => rfl
  | ok l =>
      rw [room] at failed
      cases timerfdCreate with
      | error e => exact (sessions_reserve kept.le room).1
      | ok fd => cases failed

/-- After any calls the session list is a finite map. -/
theorem isMap_of_reachable (reached : sessionMap.Reachable s) : IsMap s := by
  have kept := kept_of_reachable reached
  refine ⟨kept.lists, length_live _ kept.le, kept.le, kept.multiple, ?_, ?_, kept.deletes,
    kept.news⟩
  · exact kept.finds Fdsession.socketfd kept.lists.socketfd
  · exact kept.finds Fdsession.timerfd kept.lists.timerfd

/-- Of two sessions one is deleted; in between, `timerfd_create` fails once. -/
theorem isMap_after_calls :
    ∃ s, sessionMap.Reachable s ∧ s.live = {⟨7, 8, 60⟩} ∧ IsMap s := by
  let room : Except Errno (Vector Fdsession 16) := .ok (Vector.replicate 16 default)
  have start : sessionMap.Reachable ⟨.empty, ∅⟩ := .of_init rfl
  have one := start.tail (.new _ room (.ok 6) 5 30 nofun (fun _ _ => nofun))
  have two := one.tail (.new _ room (.ok 8) 7 60 (by decide) (by rintro fd ⟨⟩; decide))
  have failed := two.tail (.new _ room (.error Epoll.emfile) 9 30 (by decide) nofun)
  have deleted := failed.tail (.delete _ 6)
  exact ⟨_, deleted, by decide, isMap_of_reachable deleted⟩

end Alnp.EpollTimerfd
