import Alnp.IoPoll.Model

/-!
# The socket table of the `poll` server

What one call of each table function does, in terms of the list `Server.table` of entries in use.
As a list the table changes as it does in `Alnp.IoSelect`; the difference is in the slots.
`del_socket` leaves the slot that falls out of use as it was and stores its `-1` one place further
(`Deleted.vacated`), which is outside the array exactly when the table was full
(`delSocket_within_iff`).
-/

namespace Alnp.IoPoll

variable {s : Server} {fd : Int}

@[simp] theorem cntFdSocket_accept : (s.accept fd).cntFdSocket = s.cntFdSocket := rfl

@[simp] theorem sockets_accept : (s.accept fd).sockets = s.sockets.accept fd := rfl

/-- Closing a connection that has just been accepted undoes the `accept`. -/
theorem close_accept (new : fd ∉ s.sockets.opened) : (s.accept fd).close fd = s := by
  simp [Server.accept, Server.close, Sockets.close_accept new]

/-! ## Adding an entry -/

theorem addSocket_of_lt (s : Server) (fd : Int) (room : s.cntFdSocket < maxFdSocket) :
    (addSocket fd s).value.1 = s.cntFdSocket + 1 ∧
      (addSocket fd s).value.2.cntFdSocket = s.cntFdSocket + 1 ∧
      (addSocket fd s).value.2.sockets = s.sockets ∧
      (addSocket fd s).value.2.fds = s.fds ++ [fd] := by
  simp only [addSocket, room, ↓reduceIte, Access.value_bind, Access.value_pure,
    Access.value_modify_nat _ _ room, Vector.getElem_setIfInBounds_self,
    Vector.setIfInBounds_setIfInBounds, Server.fds, Server.table]
  refine ⟨by simp, trivial, trivial, ?_⟩
  rw [live_append _ _ room, List.map_append]
  rfl

theorem addSocket_of_full (s : Server) (fd : Int) (full : maxFdSocket ≤ s.cntFdSocket) :
    addSocket fd s = pure (-1, s) := by
  simp [addSocket, Nat.not_lt.mpr full]

/-- `add_socket` returns `-1` exactly when the table is full. -/
theorem addSocket_eq_neg_one_iff :
    (addSocket fd s).value.1 = -1 ↔ maxFdSocket ≤ s.cntFdSocket := by
  rcases Nat.lt_or_ge s.cntFdSocket maxFdSocket with room | full
  · rw [(addSocket_of_lt s fd room).1]
    omega
  · simp [addSocket_of_full s fd full, full]

theorem addSocket_within : (addSocket fd s).Within maxFdSocket := by
  unfold addSocket
  split
  · exact Access.within_bind.mpr ⟨(Access.within_modify _ _ _).mpr (by omega),
      Access.within_bind.mpr ⟨(Access.within_modify _ _ _).mpr (by omega), Access.within_pure _⟩⟩
  · exact Access.within_pure _

/-! ## Removing an entry -/

/-- `t` is `s` after entry `i`, which held `fd`, has been closed and removed. -/
structure Deleted (fd : Int) (i : Nat) (s t : Server) : Prop where
  lt : i < s.cntFdSocket
  entry : s.fds[i]? = some fd
  cntFdSocket : t.cntFdSocket = s.cntFdSocket - 1
  sockets : t.sockets = s.sockets.close fd
  table : t.table = swapRemove s.table i
  /-- The slot that fell out of use still holds the entry that was moved out of it. -/
  vacated : t.pollfds[s.cntFdSocket - 1]? = s.pollfds[s.cntFdSocket - 1]?

/-- The result of the scan of `del_socket`: a place that holds `fd`. -/
theorem search_of_mem (le : s.cntFdSocket ≤ maxFdSocket) (present : fd ∈ s.fds) :
    ∃ i, ∃ lt : i < s.cntFdSocket,
      (Access.search (fun e => e.fd == fd) s.pollfds s.cntFdSocket).value = some i ∧
        s.pollfds[i].fd = fd := by
  cases found : (Access.search (fun e => e.fd == fd) s.pollfds s.cntFdSocket).value with
  | none => exact absurd present ((search_eq_none_iff Pollfd.fd fd s.pollfds le).mp found)
  | some i =>
      obtain ⟨lt, hit⟩ := of_search_eq_some s.pollfds le found
      exact ⟨i, lt, rfl, hit⟩

theorem delSocket_of_mem (le : s.cntFdSocket ≤ maxFdSocket) (present : fd ∈ s.fds) :
    ∃ i : Nat, (delSocket fd s).value.1 = i ∧ Deleted fd i s (delSocket fd s).value.2 := by
  obtain ⟨i, lt, found, hit⟩ := search_of_mem le present
  refine ⟨i, by simp [delSocket, Server.close, found], ?_⟩
  simp only [delSocket, Server.close, Access.value_bind, found, Access.value_pure]
  have past : ∀ k : Nat, k < s.cntFdSocket →
      (Access.modify (moveLast s.pollfds i s.cntFdSocket).value s.cntFdSocket
        fun e => { e with fd := -1 }).value[k]? =
          (moveLast s.pollfds i s.cntFdSocket).value[k]? := by
    intro k below
    exact Access.getElem?_value_modify _ _ (by omega)
  refine ⟨lt, ?_, rfl, rfl, ?_, ?_⟩
  · rw [Server.fds, Server.table, List.getElem?_map, getElem?_live _ lt,
      Vector.getElem?_eq_getElem (by omega)]
    exact congrArg some hit
  · refine Eq.trans ?_ (live_moveLast s.pollfds lt le)
    exact live_congr fun k below => past k (Nat.lt_of_lt_of_le below (Nat.sub_le _ _))
  · have inside : s.cntFdSocket - 1 < maxFdSocket := by omega
    rw [past _ (by omega), Vector.getElem?_eq_getElem inside, Vector.getElem?_eq_getElem inside,
      getElem_moveLast s.pollfds lt inside (by omega)]

/-- Removing an entry stays inside the array exactly when the table is not full. -/
theorem delSocket_within_iff (le : s.cntFdSocket ≤ maxFdSocket) (present : fd ∈ s.fds) :
    (delSocket fd s).Within maxFdSocket ↔ s.cntFdSocket < maxFdSocket := by
  obtain ⟨i, lt, found, -⟩ := search_of_mem le present
  have found' : (Access.search (fun e => e.fd == fd) (s.close fd).pollfds
      (s.close fd).cntFdSocket).value = some i := found
  unfold delSocket
  rw [Access.within_bind, found']
  simp only [Access.within_bind, Access.within_modify, Access.within_pure, and_true]
  constructor
  · intro within
    have := within.2.2.2
    simp only [Server.close] at this
    omega
  · intro room
    refine ⟨Access.search_within _ _ le, moveLast_within _ lt le, by omega, ?_⟩
    simp only [Server.close]
    omega

end Alnp.IoPoll
