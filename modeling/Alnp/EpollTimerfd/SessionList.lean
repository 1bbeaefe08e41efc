import Alnp.Lib.Descriptor
import Alnp.Lib.PrefixTable

/-!
# The session list of `epoll_timerfd.c`

`fds_list` is an array of sessions that grows by 16 entries, of which the first `n_used` are in
use.  A session is added behind the last one and removed by moving the last one into its place; it
is looked up by its socket or by its timer.

Each function comes with its effect on `FdsList.sessions`, the entries in use: `findby_none` and
`findby_some`, `sessions_reserve`, `reserve_isOk`,
`sessions_store`, `delete_none` and `delete_some`.
-/

namespace Alnp.EpollTimerfd

/-- `FDSESSION` -/
structure Fdsession where
  socketfd : Int
  timerfd : Int
  timeout : Int
  deriving Inhabited, DecidableEq

/-- `FDSESSIONLIST` -/
structure FdsList where
  nAllocated : Nat
  nUsed : Nat
  list : Vector Fdsession nAllocated

/-- The list before the first session. -/
def FdsList.empty : FdsList := ⟨0, 0, #v[]⟩

/-- The sessions in use. -/
def FdsList.sessions (l : FdsList) : List Fdsession :=
  live l.list l.nUsed

/-- `ENOENT` -/
def enoent : Int := 2

/-- `fds_findbysocketfd`: the index of the session, or nothing for a return value of -1. -/
def fdsFindbysocketfd (fd : Int) (l : FdsList) : Access (Option Nat) :=
  Access.search (fun x => x.socketfd == fd) l.list l.nUsed

/-- `fds_findbytimerfd`: the index of the session, or nothing for a return value of -1. -/
def fdsFindbytimerfd (fd : Int) (l : FdsList) : Access (Option Nat) :=
  Access.search (fun x => x.timerfd == fd) l.list l.nUsed

/-- The first part of `fds_new_timerfd`: make room for one more session.  `realloc` keeps the
entries and leaves the new ones with any content, or it fails. -/
def reserve (realloc : Except Errno (Vector Fdsession 16)) (l : FdsList) : Except Errno FdsList :=
  if l.nAllocated = l.nUsed then
    match realloc with
    | .error e => .error e
    | .ok rest => .ok ⟨l.nAllocated + 16, l.nUsed, l.list ++ rest⟩
  else .ok l

/-- The last part of `fds_new_timerfd`: fill the next entry.  The index is what `*fds` points to. -/
def store (socketfd timerfd timeout : Int) (l : FdsList) : Access (Nat × FdsList) := do
  let list ← Access.modify l.list l.nUsed fun x => { x with socketfd := socketfd }
  let list ← Access.modify list l.nUsed fun x => { x with timerfd := timerfd }
  let list ← Access.modify list l.nUsed fun x => { x with timeout := timeout }
  pure (l.nUsed, { l with nUsed := l.nUsed + 1, list := list })

/-- `fds_deletebytimerfd` -/
def fdsDeletebytimerfd (timerfd : Int) (l : FdsList) : Access (Int × FdsList) := do
  match ← Access.search (fun x => x.timerfd == timerfd) l.list l.nUsed with
  | none => pure (enoent, l)
  | some i =>
      let list ← moveLast l.list i l.nUsed
      let list ← Access.modify list ((l.nUsed : Int) - 1) fun x => { x with socketfd := -1 }
      let list ← Access.modify list ((l.nUsed : Int) - 1) fun x => { x with timerfd := -1 }
      pure (0, { l with nUsed := l.nUsed - 1, list := list })

/-! ## Looking a session up -/

variable {l : FdsList} {i : Nat} {fd : Int} {x : Fdsession}

theorem getElem_of_sessions (entry : l.sessions[i]? = some x) :
    (Access.read l.list i).value = x := by
  have lt : i < l.nUsed := by
    have inside := (List.getElem?_eq_some_iff.mp entry).1
    exact Nat.lt_of_lt_of_le inside (List.length_take_le _ _)
  rw [FdsList.sessions, getElem?_live _ lt] at entry
  rw [Access.value_read_nat, entry]
  rfl

/-- A scan for a key that no session has finds nothing. -/
theorem findby_none (f : Fdsession → Int) (le : l.nUsed ≤ l.nAllocated) :
    (Access.search (fun x => f x == fd) l.list l.nUsed).value = none ↔
      fd ∉ l.sessions.map f :=
  search_eq_none_iff f fd l.list le

/-- A scan that finds something finds a session with the key. -/
theorem findby_some (f : Fdsession → Int) (le : l.nUsed ≤ l.nAllocated)
    (found : (Access.search (fun x => f x == fd) l.list l.nUsed).value = some i) :
    ∃ x, l.sessions[i]? = some x ∧ f x = fd := by
  rcases of_search_eq_some l.list le found with ⟨lt, hit⟩
  refine ⟨l.list[i], ?_, hit⟩
  rw [FdsList.sessions, getElem?_live _ lt, Vector.getElem?_eq_getElem (by omega)]

/-! ## Adding a session -/

/-- Making room changes no session. -/
theorem sessions_reserve {realloc : Except Errno (Vector Fdsession 16)} {l' : FdsList}
    (le : l.nUsed ≤ l.nAllocated) (room : reserve realloc l = .ok l') :
    l'.sessions = l.sessions ∧ l'.nUsed = l.nUsed ∧ l'.nUsed < l'.nAllocated := by
  unfold reserve at room
  split at room
  · rename_i full
    cases realloc with
    | error e => cases room
    | ok rest =>
        cases room
        refine ⟨?_, rfl, by simp only; omega⟩
        simp only [FdsList.sessions, live, Vector.toList_append]
        exact List.take_append_of_le_length (by simp [full])
  · cases room
    exact ⟨rfl, rfl, by omega⟩

/-- Making room succeeds unless `realloc` is needed and fails. -/
theorem reserve_isOk {realloc : Except Errno (Vector Fdsession 16)} :
    (∃ l', reserve realloc l = .ok l') ↔
      (l.nAllocated = l.nUsed → ∃ entries, realloc = .ok entries) := by
  unfold reserve
  split
  · rename_i full
    cases realloc with
    | error e => simp [full]
    | ok entries => simp
  · rename_i room
    simp [room]

/-- With room, the new session goes behind the last one. -/
theorem sessions_store (socketfd timerfd timeout : Int) (room : l.nUsed < l.nAllocated) :
    (store socketfd timerfd timeout l).value.1 = l.nUsed ∧
      (store socketfd timerfd timeout l).value.2.nUsed = l.nUsed + 1 ∧
      (store socketfd timerfd timeout l).value.2.nAllocated = l.nAllocated ∧
      (store socketfd timerfd timeout l).value.2.sessions =
        l.sessions ++ [⟨socketfd, timerfd, timeout⟩] := by
  refine ⟨rfl, rfl, rfl, ?_⟩
  simp only [store, FdsList.sessions, Access.value_bind, Access.value_pure,
    Access.value_modify_nat _ _ room, Vector.getElem_setIfInBounds_self,
    Vector.setIfInBounds_setIfInBounds]
  exact live_append l.list _ room

/-! ## Removing a session -/

theorem delete_none (absent : fd ∉ l.sessions.map Fdsession.timerfd)
    (le : l.nUsed ≤ l.nAllocated) : (fdsDeletebytimerfd fd l).value = (enoent, l) := by
  have none := (findby_none Fdsession.timerfd le).mpr absent
  simp [fdsDeletebytimerfd, none]

/-- The list that `fds_deletebytimerfd` leaves when its scan ends at entry `i`. -/
def FdsList.removed (l : FdsList) (i : Nat) : FdsList :=
  { l with
    nUsed := l.nUsed - 1
    list :=
      let list := (moveLast l.list i l.nUsed).value
      let last : Int := (l.nUsed : Int) - 1
      let list := (Access.modify list last fun x => { x with socketfd := -1 }).value
      (Access.modify list last fun x => { x with timerfd := -1 }).value }

/-- The last session takes the place of the removed one; the stores behind it change no session. -/
theorem sessions_removed (lt : i < l.nUsed) (le : l.nUsed ≤ l.nAllocated) :
    (l.removed i).sessions = swapRemove l.sessions i := by
  have last : (l.nUsed : Int) - 1 = (l.nUsed - 1 : Nat) := by omega
  have inside : l.nUsed - 1 < l.nAllocated := by omega
  simp only [FdsList.removed, FdsList.sessions, last, Access.value_modify_nat _ _ inside]
  rw [live_store_of_le _ _ (Nat.le_refl _), live_store_of_le _ _ (Nat.le_refl _)]
  exact live_moveLast l.list lt le

theorem delete_some (present : fd ∈ l.sessions.map Fdsession.timerfd)
    (le : l.nUsed ≤ l.nAllocated) :
    ∃ i x, l.sessions[i]? = some x ∧ x.timerfd = fd ∧
      (fdsDeletebytimerfd fd l).value = (0, l.removed i) ∧
      (l.removed i).sessions = swapRemove l.sessions i := by
  cases found : (Access.search (fun x => x.timerfd == fd) l.list l.nUsed).value with
  | none => exact absurd present ((findby_none Fdsession.timerfd le).mp found)
  | some i =>
      rcases of_search_eq_some l.list le found with ⟨lt, hit⟩
      refine ⟨i, l.list[i], ?_, hit, ?_, sessions_removed lt le⟩
      · rw [FdsList.sessions, getElem?_live _ lt, Vector.getElem?_eq_getElem (by omega)]
      · simp only [fdsDeletebytimerfd, Access.value_bind, found]
        rfl

end Alnp.EpollTimerfd
