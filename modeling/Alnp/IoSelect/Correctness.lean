import Alnp.IoSelect.Runs

/-!
# What the `select` server guarantees

* `socketTable_of_reachable`: over whole runs the table is the listener and exactly the open
  connections, within the array, and a connection that does not fit is closed.
* `mkFds_of_reachable`: under the lowest-free rule every descriptor `mk_fds` sees fits an `fd_set`,
  so `select` watches exactly the table.
-/

namespace Alnp.IoSelect

variable {b : Boot} {s : State} {fd : Int}

/-! ## The socket table -/

/-- The socket table of a state in which the server may find itself. -/
structure SocketTable (b : Boot) (s : State) : Prop where
  count : 1 ≤ s.server.cntFdSocket ∧ s.server.cntFdSocket ≤ maxFdSocket
  listener : s.server.fdSocket[0]? = some b.listener
  distinct : s.server.table.Nodup
  /-- The entries are the listener and the connections accepted and not yet closed. -/
  entries : ∀ fd, fd ∈ s.server.table ↔ fd = b.listener ∨ fd ∈ s.server.sockets.accepted
  cleared : ∀ k, s.server.cntFdSocket ≤ k → k < maxFdSocket → s.server.fdSocket[k]? = some (-1)
  indices : ∀ i ∈ s.used, 0 ≤ i ∧ i < maxFdSocket
  /-- When the table is full, a new connection is closed again and nothing else changes. -/
  rejects : s.server.cntFdSocket = maxFdSocket → ∀ fd ready,
    Fresh s.server.sockets.opened fd → (acceptOrScan b.listener ready fd s).server = s.server

/-- Every reachable state has a well-formed socket table, whatever `select`, `accept` and `recv`
return. -/
theorem socketTable_of_reachable (reached : (machine Fresh b).Reachable s) : SocketTable b s := by
  obtain ⟨ok, used, -⟩ := reachable_inv (fun _ _ fresh => fresh) reached
  have pos := ok.tracks.pos
  rw [ok.length_table] at pos
  have front := (getElem?_live s.server.fdSocket pos).symm.trans ok.tracks.head
  refine ⟨⟨pos, ok.le⟩, front, ok.tracks.nodup, ok.tracks.mem, ok.cleared, used, ?_⟩
  intro full fd ready new
  exact acceptOrScan_full full new ready

/-- Connections on descriptors 4 and 5 are accepted, ... -/
def accepted : State :=
  acceptOrScan stdBoot.listener (fun _ => true) 5
    (acceptOrScan stdBoot.listener (fun _ => true) 4 (bootState stdBoot))

/-- ... `select` reports the first, ... -/
def readable : State := acceptOrScan stdBoot.listener (· == 4) (-1) accepted

/-- What `select` has left in `fds_read`. -/
def readableSet : FdSet := selectRead 6 (· == 4) (mkFds accepted.server).value.1

/-- ... and that is at end of stream. -/
def closed : State := scanEntry 1 readableSet 0 readable

theorem pc_readable : readable.pc = .scan 1 readableSet := by
  have biggest : (mkFds accepted.server).value.2 + 1 = 6 := by decide +kernel
  have quiet : fdIsset stdBoot.listener readableSet ≠ true := by decide +kernel
  unfold readable acceptOrScan
  dsimp only
  rw [biggest]
  exact congrArg State.pc (if_neg quiet)

theorem reachable_closed : (machine Fresh stdBoot).Reachable closed := by
  have boot : (machine Fresh stdBoot).Reachable (bootState stdBoot) := .of_init rfl
  have one := boot.tail (.acceptOrScan (fun _ => true) 4 rfl (.inr (by decide)))
  have two : (machine Fresh stdBoot).Reachable accepted :=
    one.tail (.acceptOrScan (fun _ => true) 5 (by decide +kernel) (.inr (by decide +kernel)))
  have scanning : (machine Fresh stdBoot).Reachable readable :=
    two.tail (.acceptOrScan (· == 4) (-1) (by decide +kernel) (.inl rfl))
  exact scanning.tail (.scanEntry 0 pc_readable)

/-- The last entry has moved to the place of the one that has been removed. -/
theorem socketTable_closed :
    closed.server.table = [3, 5] ∧ SocketTable stdBoot closed :=
  ⟨by decide +kernel, socketTable_of_reachable reachable_closed⟩

/-! ## Descriptor sets under the lowest-free rule -/

theorem accepted_acceptOrScan {ready : Int → Bool} {x : Int}
    (member : x ∈ (acceptOrScan b.listener ready fd s).server.sockets.accepted) :
    x = fd ∨ x ∈ s.server.sockets.accepted := by
  have added : ∀ t : Server, (addSocket fd t).value.2.sockets = t.sockets := by
    intro t
    rcases Nat.lt_or_ge t.cntFdSocket maxFdSocket with room | full
    · exact (addSocket_of_lt _ _ room).2.sockets
    · rw [addSocket_of_full _ _ full]
      rfl
  unfold acceptOrScan at member
  dsimp only at member
  split_ifs at member
  · exact .inr member
  · simp only [Server.close, Sockets.mem_accepted_close, added, sockets_accept,
      Sockets.mem_accepted_accept] at member
    exact member.2
  · simp only [added, sockets_accept, Sockets.mem_accepted_accept] at member
    exact member
  · exact .inr member

theorem accepted_scanEntry (ok : Consistent b s.server) {i : Nat} {fdsRead : FdSet}
    {retRecv : Int} {x : Int}
    (member : x ∈ (scanEntry i fdsRead retRecv s).server.sockets.accepted) :
    x ∈ s.server.sockets.accepted := by
  have deleted : ∀ fd, x ∈ (delSocket fd s.server).value.2.sockets.accepted →
      x ∈ s.server.sockets.accepted := by
    intro fd left
    by_cases present : fd ∈ s.server.table
    · obtain ⟨i, -, gone⟩ := delSocket_of_mem ok.le present
      rw [gone.sockets] at left
      exact (Sockets.mem_accepted_close.mp left).2
    · rw [delSocket_of_not_mem ok.le present] at left
      exact (Sockets.mem_accepted_close.mp left).2
  unfold scanEntry at member
  dsimp only at member
  repeat' split at member
  all_goals first | exact member | exact deleted _ member

/-- The connections a consistent table has room for. -/
theorem Consistent.card_accepted (ok : Consistent b s.server) :
    s.server.sockets.accepted.card ≤ maxFdSocket :=
  calc s.server.sockets.accepted.card
      ≤ s.server.table.length := ok.tracks.card_accepted_le
    _ = s.server.cntFdSocket := ok.length_table
    _ ≤ maxFdSocket := ok.le

/-- Under the lowest-free rule no connection ever gets a number larger than the number of
descriptors that were open at the start plus the capacity of the table. -/
theorem accepted_le_of_reachable (reached : (machine LowestFree b).Reachable s)
    (accepted : fd ∈ s.server.sockets.accepted) : fd ≤ b.others.card + maxFdSocket := by
  refine reached.invariant (P := fun s => ∀ fd : Int, fd ∈ s.server.sockets.accepted →
    fd ≤ b.others.card + maxFdSocket) ?_ ?_ fd accepted
  · intro s start fd accepted
    subst start
    have none : (bootState b).server.sockets.accepted = ∅ := by
      change (addSocket b.listener (bootCleared b)).value.2.sockets.accepted = ∅
      have room : (bootCleared b).cntFdSocket < maxFdSocket := show 0 < maxFdSocket by decide
      rw [(addSocket_of_lt _ _ room).2.sockets]
      rfl
    rw [none] at accepted
    cases accepted
  · intro s t before bounded step fd accepted
    have ok := (reachable_inv (fun _ _ low => low.fresh) before).consistent
    cases step with
    | selectFails atTop => exact bounded fd accepted
    | scanEntry retRecv scanning => exact bounded fd (accepted_scanEntry ok accepted)
    | acceptOrScan ready new atTop answer =>
        rcases accepted_acceptOrScan accepted with rfl | old
        · rcases answer with rfl | low
          · omega
          · have counted := low.le_card
            have split := Finset.card_union_le s.server.sockets.others s.server.sockets.accepted
            have room := ok.card_accepted
            rw [ok.tracks.others] at split
            simp only [Sockets.opened, ok.tracks.others] at counted
            omega
        · exact bounded fd old

/-- When the server starts with the standard streams and the listener and the kernel hands out the
lowest free number, every descriptor in the table fits an `fd_set` at every call of `mk_fds`; the
set then holds exactly the table and `fd_biggest` is the maximum of the table. -/
theorem mkFds_of_reachable (std : b.others = insert b.listener {0, 1, 2})
    (low : LowestFree {0, 1, 2} b.listener) (reached : (machine LowestFree b).Reachable s) :
    (∀ fd ∈ s.server.table, InFdSet fd) ∧
      (∀ fd, fdIsset fd (mkFds s.server).value.1 = true ↔ fd ∈ s.server.table) ∧
      (mkFds s.server).value.2 ∈ s.server.table ∧
      ∀ fd ∈ s.server.table, fd ≤ (mkFds s.server).value.2 := by
  have ok := (reachable_inv (fun _ _ low => low.fresh) reached).consistent
  have fits : ∀ fd ∈ s.server.table, InFdSet fd := by
    intro fd member
    refine ⟨ok.tracks.nonneg member, ?_⟩
    rcases (ok.tracks.mem fd).mp member with rfl | accepted
    · have few := low.le_card
      have three : ({0, 1, 2} : Finset Int).card = 3 := rfl
      simp only [fdSetsize]
      omega
    · have bounded := accepted_le_of_reachable reached accepted
      have few : b.others.card ≤ 4 := by
        rw [std]
        exact Finset.card_insert_le _ _
      simp only [fdSetsize, maxFdSocket] at bounded ⊢
      omega
  have front : b.listener ∈ s.server.table := (ok.tracks.mem b.listener).mpr (.inl rfl)
  refine ⟨fits, fun fd => ?_, mkFds_biggest ok.le front b.listener_nonneg⟩
  rw [mem_mkFds ok.le]
  exact ⟨fun member => member.1, fun member => ⟨member, fits fd member⟩⟩

theorem lowestFree_listener : LowestFree {0, 1, 2} stdBoot.listener := by
  refine ⟨by decide, fun m nonneg below => ?_⟩
  have small : m = 0 ∨ m = 1 ∨ m = 2 := by
    simp only [stdBoot] at below
    omega
  rcases small with rfl | rfl | rfl <;> decide

theorem lowestFree_connection : LowestFree (bootState stdBoot).server.sockets.opened 4 := by
  have opened : (bootState stdBoot).server.sockets.opened = {0, 1, 2, 3} := by decide
  rw [opened]
  refine ⟨by decide, fun m nonneg below => ?_⟩
  have small : m = 0 ∨ m = 1 ∨ m = 2 ∨ m = 3 := by omega
  rcases small with rfl | rfl | rfl | rfl <;> decide

/-- With the listener on 3 and one connection on 4, `mk_fds` sets exactly these two bits. -/
theorem mkFds_stdBoot :
    let s := acceptOrScan stdBoot.listener (fun _ => true) 4 (bootState stdBoot)
    (∀ fd ∈ s.server.table, InFdSet fd) ∧
      (∀ fd, fdIsset fd (mkFds s.server).value.1 = true ↔ fd ∈ s.server.table) ∧
      (mkFds s.server).value.2 ∈ s.server.table ∧
      ∀ fd ∈ s.server.table, fd ≤ (mkFds s.server).value.2 :=
  mkFds_of_reachable (by decide) lowestFree_listener
    (.tail (.of_init rfl) (.acceptOrScan _ 4 rfl (.inr lowestFree_connection)))

end Alnp.IoSelect
