import Alnp.IoPoll.Table

/-!
# Whole runs of the `poll` server

The table keeps track of the open connections throughout (`Consistent`).  The slots do not fare as
well: every removal leaves its vacated slot uncleared, so a run is `Safe` exactly as long as no
`recv` on a client has returned 0 (`safe_iff_of_reachable`).
-/

namespace Alnp.IoPoll

variable {b : Boot} {s : State} {fd : Int} {server : Server}

/-! ## The table and the open descriptors -/

/-- The table tracks the open connections. -/
structure Consistent (b : Boot) (s : Server) : Prop where
  le : s.cntFdSocket ≤ maxFdSocket
  tracks : Tracks b s.fds s.sockets

theorem Consistent.length_fds (ok : Consistent b server) :
    server.fds.length = server.cntFdSocket := by
  rw [Server.fds, List.length_map]
  exact length_live _ ok.le

theorem Consistent.pos (ok : Consistent b server) : 1 ≤ server.cntFdSocket :=
  ok.length_fds ▸ ok.tracks.pos

/-- `poll` changes no descriptor. -/
theorem fds_poll (revents : Nat → BitVec 16) : (poll revents server).fds = server.fds := by
  rw [Server.fds, Server.fds, Server.table, Server.table, map_live, map_live]
  refine live_congr fun k below => ?_
  simp only [IoPoll.poll, Vector.getElem?_map, Vector.getElem?_mapIdx, Option.map_map]
  congr 1
  funext e
  simp only [Function.comp_apply]
  split <;> rfl

theorem Consistent.poll (ok : Consistent b server) (revents : Nat → BitVec 16) :
    Consistent b (poll revents server) :=
  ⟨ok.le, (fds_poll revents).symm ▸ ok.tracks⟩

/-- A fresh connection goes behind the last entry. -/
theorem Consistent.addSocket (ok : Consistent b server)
    (room : server.cntFdSocket < maxFdSocket) (new : Fresh server.sockets.opened fd) :
    Consistent b (addSocket fd (server.accept fd)).value.2 := by
  obtain ⟨-, count, sockets, fds⟩ := addSocket_of_lt (server.accept fd) fd room
  refine ⟨?_, ?_⟩
  · rw [count]
    exact room
  · rw [fds, sockets]
    exact ok.tracks.add new

/-- Closing and removing a client keeps the rest of the table, whatever its place. -/
theorem Consistent.of_deleted (ok : Consistent b server) {i : Nat} {after : Server}
    (deleted : Deleted fd i server after) (client : fd ≠ b.listener) : Consistent b after := by
  refine ⟨?_, ?_⟩
  · rw [deleted.cntFdSocket]
    exact (Nat.sub_le _ _).trans ok.le
  · rw [Server.fds, deleted.table, map_swapRemove, deleted.sockets]
    exact ok.tracks.remove deleted.entry client

theorem consistent_boot (b : Boot) : Consistent b (bootState b).server := by
  have room : (bootCleared b).cntFdSocket < maxFdSocket := show 0 < maxFdSocket by decide
  obtain ⟨-, count, sockets, fds⟩ := addSocket_of_lt (bootCleared b) b.listener room
  change Consistent b (IoPoll.addSocket b.listener (bootCleared b)).value.2
  refine ⟨?_, ?_⟩
  · rw [count]
    exact room
  · rw [fds, sockets]
    exact Tracks.boot b

/-! ## Safety of the stores -/

/-- Every index used is inside `pollfds`, and every slot that `del_socket` vacated was cleared. -/
structure Safe (s : State) : Prop where
  indices : ∀ i ∈ s.used, 0 ≤ i ∧ i < maxFdSocket
  cleared : ∀ e ∈ s.vacated, e.fd = -1

/-- What every reachable state satisfies. -/
structure Inv (b : Boot) (s : State) : Prop where
  consistent : Consistent b s.server
  /-- The scan starts behind the listener. -/
  scan : ∀ i ret, s.pc = .scan i ret → 1 ≤ i
  /-- The stores were safe exactly as long as no client closed its connection. -/
  safe : Safe s ↔ 0 ∉ s.recvs

/-- A step that reads and writes inside the array, vacates nothing and sees no end of stream. -/
theorem Inv.safe_of_within {t : State} (inv : Inv b s) {indices : List Int}
    (within : ∀ i ∈ indices, 0 ≤ i ∧ i < maxFdSocket) (used : t.used = s.used ++ indices)
    (recvs : 0 ∈ t.recvs ↔ 0 ∈ s.recvs) (vacated : t.vacated = s.vacated) :
    Safe t ↔ 0 ∉ t.recvs := by
  rw [recvs, ← inv.safe]
  constructor
  · intro safe
    refine ⟨fun i member => safe.indices i ?_, vacated ▸ safe.cleared⟩
    rw [used]
    exact List.mem_append_left indices member
  · intro safe
    refine ⟨?_, vacated ▸ safe.cleared⟩
    rw [used]
    exact List.forall_mem_append.mpr ⟨safe.indices, within⟩

theorem inv_boot (b : Boot) : Inv b (bootState b) := by
  refine ⟨consistent_boot b, fun _ _ atTop => (by cases atTop), ?_⟩
  refine ⟨fun _ none => (by cases none), fun _ => ⟨addSocket_within, ?_⟩⟩
  intro e none
  cases none

/-- The accept branch and the start of the scan. -/
theorem Inv.acceptOrScan (inv : Inv b s) (revents : Nat → BitVec 16)
    (answer : fd = -1 ∨ Fresh s.server.sockets.opened fd) :
    Inv b (acceptOrScan revents fd s) := by
  have polled := inv.consistent.poll revents
  have front : ∀ i ∈ ([0] : List Int), 0 ≤ i ∧ i < (maxFdSocket : Int) := by decide
  have atTop : ∀ i ret, Pc.top = .scan i ret → 1 ≤ i := fun _ _ scanning => by cases scanning
  have withFront : ∀ i ∈ [0] ++ (IoPoll.addSocket fd ((poll revents s.server).accept fd)).indices,
      0 ≤ i ∧ i < (maxFdSocket : Int) :=
    List.forall_mem_append.mpr ⟨front, addSocket_within⟩
  unfold IoPoll.acceptOrScan
  dsimp only
  split_ifs with listening failed rejected
  · exact ⟨polled, atTop, inv.safe_of_within front rfl Iff.rfl rfl⟩
  · -- the table was full: `fd` is closed again
    have full := addSocket_eq_neg_one_iff.mp rejected
    refine ⟨?_, atTop,
      inv.safe_of_within withFront (List.append_assoc _ _ _) Iff.rfl rfl⟩
    rw [addSocket_of_full _ _ full]
    have undone := close_accept (s := poll revents s.server) (answer.resolve_left failed).2
    simpa only [Access.value_pure, undone] using polled
  · have room := Nat.lt_of_not_le fun full => rejected (addSocket_eq_neg_one_iff.mpr full)
    exact ⟨polled.addSocket room (answer.resolve_left failed), atTop,
      inv.safe_of_within withFront (List.append_assoc _ _ _) Iff.rfl rfl⟩
  · refine ⟨polled, ?_, inv.safe_of_within front rfl Iff.rfl rfl⟩
    intro i ret started
    cases started
    exact Int.le_refl 1

/-- A removal leaves the vacated slot as it was: no longer safe. -/
theorem Inv.delSocket {t : State} (inv : Inv b s) {i : Nat} {after : Server}
    (deleted : Deleted fd i s.server after) (server : t.server = after)
    (client : fd ≠ b.listener) (scan : ∀ i ret, t.pc = .scan i ret → 1 ≤ i)
    (closed : 0 ∈ t.recvs)
    (vacated : t.vacated = s.vacated ++ (after.pollfds[after.cntFdSocket]?).toList) :
    Inv b t := by
  refine ⟨server ▸ inv.consistent.of_deleted deleted client, scan,
    fun safe => ?_, fun none => absurd closed none⟩
  have lt := deleted.lt
  have le := inv.consistent.le
  have inside : s.server.cntFdSocket - 1 < maxFdSocket := by omega
  have slot : after.pollfds[after.cntFdSocket]? =
      some s.server.pollfds[s.server.cntFdSocket - 1] := by
    rw [deleted.cntFdSocket, deleted.vacated, Vector.getElem?_eq_getElem inside]
  have cleared := safe.cleared s.server.pollfds[s.server.cntFdSocket - 1] (by
    rw [vacated, slot]
    simp)
  have last : s.server.fds[s.server.cntFdSocket - 1]? =
      some s.server.pollfds[s.server.cntFdSocket - 1].fd := by
    rw [Server.fds, Server.table, List.getElem?_map, getElem?_live _ (by omega),
      Vector.getElem?_eq_getElem inside]
    rfl
  have nonneg := inv.consistent.tracks.nonneg (List.mem_of_getElem? last)
  omega

/-- One turn of the scan. -/
theorem Inv.scanEntry (inv : Inv b s) {i ret : Int} (retRecv : Int)
    (scanning : s.pc = .scan i ret) : Inv b (scanEntry i ret retRecv s) := by
  have ok := inv.consistent
  have first := inv.scan i ret scanning
  unfold IoPoll.scanEntry
  by_cases serving : i < s.server.cntFdSocket ∧ ret > 0
  · obtain ⟨k, rfl⟩ : ∃ k : Nat, i = k := ⟨i.toNat, by omega⟩
    have inTable : k < s.server.cntFdSocket := by omega
    have inside : k < maxFdSocket := Nat.lt_of_lt_of_le inTable ok.le
    have within : ∀ j ∈ [(k : Int)], 0 ≤ j ∧ j < (maxFdSocket : Int) := by
      intro j member
      rw [List.mem_singleton.mp member]
      omega
    have next : ∀ n j r, Pc.scan (k + 1) n = .scan j r → 1 ≤ j := by
      intro n j r moved
      cases moved
      omega
    have entry : (Access.read s.server.pollfds k).value = s.server.pollfds[k] := by
      simp [inside]
    have listedAt : s.server.fds[k]? = some s.server.pollfds[k].fd := by
      rw [Server.fds, Server.table, List.getElem?_map, getElem?_live _ inTable,
        Vector.getElem?_eq_getElem inside]
      rfl
    have client := ok.tracks.ne_listener listedAt (by omega)
    rw [if_pos serving]
    dsimp only
    rw [entry]
    split
    · split
      · rename_i failed
        refine ⟨ok, next _, inv.safe_of_within within rfl ?_ rfl⟩
        simp [failed]
      · split
        · rename_i closed
          obtain ⟨j, -, deleted⟩ := delSocket_of_mem ok.le (List.mem_of_getElem? listedAt)
          refine inv.delSocket deleted rfl client ?_ ?_ rfl
          · intro j r moved
            cases moved
            omega
          · simp [closed]
        · rename_i data
          refine ⟨ok, next _, inv.safe_of_within within rfl ?_ rfl⟩
          simp [Ne.symm data]
    · split
      · exact ⟨ok, next _, inv.safe_of_within within rfl Iff.rfl rfl⟩
      · split
        · exact ⟨ok, next _, inv.safe_of_within within rfl Iff.rfl rfl⟩
        · exact ⟨ok, next _, inv.safe_of_within within rfl Iff.rfl rfl⟩
  · rw [if_neg serving]
    exact ⟨ok, fun _ _ atTop => (by cases atTop), ⟨fun safe => inv.safe.mp ⟨safe.1, safe.2⟩,
      fun none => ⟨(inv.safe.mpr none).1, (inv.safe.mpr none).2⟩⟩⟩

theorem reachable_inv (reached : (machine b).Reachable s) : Inv b s := by
  refine reached.invariant ?_ ?_
  · intro s start
    subst start
    exact inv_boot b
  · intro s t _ inv step
    cases step with
    | pollFails atTop =>
        exact ⟨inv.consistent, fun _ _ gone => (by cases gone),
          ⟨fun safe => inv.safe.mp ⟨safe.1, safe.2⟩,
            fun none => ⟨(inv.safe.mpr none).1, (inv.safe.mpr none).2⟩⟩⟩
    | acceptOrScan revents fd atTop answer => exact inv.acceptOrScan revents answer
    | scanEntry retRecv scanning => exact inv.scanEntry retRecv scanning

/-! ## The exact condition -/

/-- A run stays inside `pollfds` and clears the slots it vacates exactly as long as no `recv` on a
ready client has returned 0, so that `del_socket` has never been called. -/
theorem safe_iff_of_reachable (reached : (machine b).Reachable s) :
    Safe s ↔ 0 ∉ s.recvs :=
  (reachable_inv reached).safe

/-- A connection on descriptor 4 is accepted, ... -/
def accepted : State := acceptOrScan (fun _ => pollIn) 4 (bootState stdBoot)

/-- ... becomes readable, ... -/
def readable : State := acceptOrScan (fun i => if i = 1 then pollIn else 0) (-1) accepted

/-- ... and is at end of stream. -/
def closed : State := scanEntry 1 1 0 readable

theorem reachable_closed : (machine stdBoot).Reachable closed := by
  have boot : (machine stdBoot).Reachable (bootState stdBoot) := .of_init rfl
  have top : accepted.pc = .top := by decide +kernel
  have scanning : readable.pc = .scan 1 1 := by decide +kernel
  have first : (machine stdBoot).Reachable accepted :=
    boot.tail (.acceptOrScan _ 4 rfl (.inr (by decide)))
  have second : (machine stdBoot).Reachable readable :=
    first.tail (.acceptOrScan _ (-1) top (.inl rfl))
  exact second.tail (.scanEntry 0 scanning)

theorem safe_iff_closed : Safe closed ↔ 0 ∉ closed.recvs :=
  safe_iff_of_reachable reachable_closed

/-- When the connection on descriptor 4 closes, its slot 1 falls out of use and still says 4; the
`-1` went to slot 2. -/
theorem not_forall_safe : ¬ ∀ (b : Boot) (s : State), (machine b).Reachable s → Safe s := by
  intro always
  have vacated : closed.vacated = [⟨4, pollIn, pollIn⟩] := by decide +kernel
  have cleared := (always stdBoot closed reachable_closed).cleared ⟨4, pollIn, pollIn⟩
    (vacated ▸ List.mem_singleton_self _)
  cases cleared

end Alnp.IoPoll
