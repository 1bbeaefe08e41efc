import Alnp.IoSelect.Table

/-!
# Whole runs of the `select` server

`Consistent` ties the table to the open descriptors of the process.  Adding a fresh descriptor and
removing a client keep it (`Consistent.addSocket`, `Consistent.delSocket`), so every step of the
loop does, also a removal from inside the scan of the same table; `Inv` adds the indices used and
the position of the scan.
-/

namespace Alnp.IoSelect

variable {b : Boot} {s t : State} {fd : Int}

/-! ## The table and the open descriptors -/

/-- The table tracks the open connections, and the slots behind it are cleared. -/
structure Consistent (b : Boot) (s : Server) : Prop where
  le : s.cntFdSocket ≤ maxFdSocket
  tracks : Tracks b s.table s.sockets
  cleared : ∀ k, s.cntFdSocket ≤ k → k < maxFdSocket → s.fdSocket[k]? = some (-1)

variable {server : Server}

theorem Consistent.length_table (ok : Consistent b server) :
    server.table.length = server.cntFdSocket :=
  length_live _ ok.le

/-- A fresh connection goes behind the last entry. -/
theorem Consistent.addSocket (ok : Consistent b server)
    (room : server.cntFdSocket < maxFdSocket) (new : Fresh server.sockets.opened fd) :
    Consistent b (addSocket fd (server.accept fd)).value.2 := by
  have added := (addSocket_of_lt (server.accept fd) fd room).2
  generalize (IoSelect.addSocket fd (server.accept fd)).value.2 = after at added ⊢
  obtain ⟨count, sockets, table, -, frame⟩ := added
  rw [table_accept] at table
  simp only [cntFdSocket_accept, sockets_accept, fdSocket_accept] at count sockets frame
  refine ⟨by omega, ?_, ?_⟩
  · rw [table, sockets]
    exact ok.tracks.add new
  · intro k past inside
    rw [frame k (by omega)]
    exact ok.cleared k (by omega) inside

/-- Closing and removing a client keeps the rest of the table, whatever its place. -/
theorem Consistent.delSocket (ok : Consistent b server) (member : fd ∈ server.table)
    (client : fd ≠ b.listener) : Consistent b (delSocket fd server).value.2 := by
  obtain ⟨i, -, deleted⟩ := delSocket_of_mem ok.le member
  generalize (IoSelect.delSocket fd server).value.2 = after at deleted ⊢
  obtain ⟨lt, entry, count, sockets, table, vacated, frame⟩ := deleted
  have le := ok.le
  refine ⟨by omega, ?_, ?_⟩
  · rw [table, sockets]
    exact ok.tracks.remove ((getElem?_live _ lt).trans entry) client
  · intro k past small
    rcases Nat.eq_or_lt_of_le past with rfl | beyond
    · rw [count]
      exact vacated
    · rw [frame k (by omega) (by omega)]
      exact ok.cleared k (by omega) small

/-! ## The invariant of the loop -/

/-- What every reachable state satisfies. -/
structure Inv (b : Boot) (s : State) : Prop where
  consistent : Consistent b s.server
  /-- Every index of `fd_socket` used so far is inside the array. -/
  used : ∀ i ∈ s.used, 0 ≤ i ∧ i < maxFdSocket
  /-- The scan starts behind the listener. -/
  scan : ∀ i fdsRead, s.pc = .scan i fdsRead → 1 ≤ i

theorem consistent_boot (b : Boot) : Consistent b (bootState b).server := by
  have room : (bootCleared b).cntFdSocket < maxFdSocket := show 0 < maxFdSocket by decide
  have added := (addSocket_of_lt (bootCleared b) b.listener room).2
  change Consistent b (addSocket b.listener (bootCleared b)).value.2
  generalize (addSocket b.listener (bootCleared b)).value.2 = after at added ⊢
  obtain ⟨count, sockets, table, -, frame⟩ := added
  refine ⟨by omega, ?_, ?_⟩
  · rw [sockets, table]
    exact Tracks.boot b
  · intro k past inside
    rw [frame k (by omega)]
    simp [bootCleared, inside]

theorem inv_boot (b : Boot) : Inv b (bootState b) :=
  ⟨consistent_boot b, addSocket_within, fun _ _ atTop => by cases atTop⟩

/-- The accept branch and the start of the scan. -/
theorem Inv.acceptOrScan (inv : Inv b s) (ready : Int → Bool)
    (answer : fd = -1 ∨ Fresh s.server.sockets.opened fd) :
    Inv b (acceptOrScan b.listener ready fd s) := by
  obtain ⟨ok, used, -⟩ := inv
  have listed := List.forall_mem_append.mpr ⟨used, mkFds_within ok.le⟩
  unfold IoSelect.acceptOrScan
  dsimp only
  split_ifs with listening failed rejected
  · exact ⟨ok, listed, fun _ _ atTop => by cases atTop⟩
  · -- the table was full: `fd` is closed again
    have full := addSocket_eq_neg_one_iff.mp rejected
    refine ⟨?_, List.forall_mem_append.mpr ⟨listed, addSocket_within⟩,
      fun _ _ atTop => by cases atTop⟩
    rw [addSocket_of_full _ _ full]
    simpa only [Access.value_pure, close_accept (answer.resolve_left failed).2] using ok
  · have room := Nat.lt_of_not_le fun full => rejected (addSocket_eq_neg_one_iff.mpr full)
    exact ⟨ok.addSocket room (answer.resolve_left failed),
      List.forall_mem_append.mpr ⟨listed, addSocket_within⟩, fun _ _ atTop => by cases atTop⟩
  · refine ⟨ok, listed, ?_⟩
    intro i fdsRead started
    cases started
    exact Nat.le_refl 1

/-- One turn of the scan. -/
theorem Inv.scanEntry (inv : Inv b s) {i : Nat} {fdsRead : FdSet} (retRecv : Int)
    (scanning : s.pc = .scan i fdsRead) : Inv b (scanEntry i fdsRead retRecv s) := by
  obtain ⟨ok, used, scan⟩ := inv
  have first := scan i fdsRead scanning
  unfold IoSelect.scanEntry
  by_cases inTable : i < s.server.cntFdSocket
  · have inside : i < maxFdSocket := Nat.lt_of_lt_of_le inTable ok.le
    have read := List.forall_mem_append.mpr
      ⟨used, (Access.within_read (n := maxFdSocket) s.server.fdSocket i).mpr (by omega)⟩
    have next : ∀ j fds, Pc.scan (i + 1) fdsRead = .scan j fds → 1 ≤ j := by
      intro j fds moved
      cases moved
      omega
    have entry : (Access.read s.server.fdSocket i).value = s.server.fdSocket[i] := by
      simp [inside]
    have listedAt : s.server.table[i]? = some s.server.fdSocket[i] :=
      (getElem?_live _ inTable).trans (Vector.getElem?_eq_getElem inside)
    have client := ok.tracks.ne_listener listedAt first
    rw [if_pos inTable]
    dsimp only
    rw [entry]
    split
    · split
      · exact ⟨ok, read, next⟩
      · split
        · exact ⟨ok.delSocket (List.mem_of_getElem? listedAt) client,
            List.forall_mem_append.mpr ⟨read, delSocket_within ok.le⟩, next⟩
        · exact ⟨ok, read, next⟩
    · exact ⟨ok, read, next⟩
  · rw [if_neg inTable]
    exact ⟨ok, used, fun _ _ atTop => by cases atTop⟩

/-- Every reachable state of the server, for every rule that hands out fresh numbers. -/
theorem reachable_inv {alloc : Finset Int → Int → Prop}
    (allocFresh : ∀ opened fd, alloc opened fd → Fresh opened fd)
    (reached : (machine alloc b).Reachable s) : Inv b s := by
  refine reached.invariant ?_ ?_
  · intro s start
    subst start
    exact inv_boot b
  · intro s t _ inv step
    cases step with
    | selectFails atTop =>
        exact ⟨inv.consistent,
          List.forall_mem_append.mpr ⟨inv.used, mkFds_within inv.consistent.le⟩,
          fun _ _ gone => by cases gone⟩
    | acceptOrScan ready fd atTop answer =>
        exact inv.acceptOrScan ready (answer.imp_right (allocFresh _ fd))
    | scanEntry retRecv scanning => exact inv.scanEntry retRecv scanning

/-- A full table turns every new connection away: it is closed again and nothing else changes. -/
theorem acceptOrScan_full (full : s.server.cntFdSocket = maxFdSocket)
    (new : Fresh s.server.sockets.opened fd) (ready : Int → Bool) :
    (acceptOrScan b.listener ready fd s).server = s.server := by
  have turned := addSocket_of_full (s.server.accept fd) fd (Nat.le_of_eq full.symm)
  unfold acceptOrScan
  dsimp only
  rw [turned]
  split_ifs with listening failed rejected
  · rfl
  · simp only [Access.value_pure, close_accept new.2]
  · exact absurd rfl rejected
  · rfl

end Alnp.IoSelect
