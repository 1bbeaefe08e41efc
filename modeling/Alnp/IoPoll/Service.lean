import Alnp.IoPoll.Dispatch
import Alnp.Lib.Scan

/-!
# The `poll` server and its clients

`Chapter07/io_poll.c` with any number of clients, each with what it sends before it closes its
connection or resets it.  `poll` waits until the listener or a client has something, and finds
`POLLIN` for those that have; `accept` takes the first connection of the backlog (the limit on open
descriptors is larger than the table), and `recv` what has come, at most the size of `buf`.

A removal from a full table stores behind `pollfds`.  What becomes of the process then is not known,
and the run ends there.

`pollServer_terminates`: every run ends, with the server in `poll` and no client left, each of them
received from in full, or up to its reset, or turned away from a full table; or at such a store, for
which there have to be as many clients at once as the table has room for.
-/

namespace Alnp.PollService

open IoPoll Service

/-- `sizeof(buf)` -/
def lenBuf : Nat := 1024

structure System where
  process : State
  net : Net Char

/-- What `poll` finds: `POLLIN` where `accept` or `recv` would not wait, and other flags (`POLLERR`,
`POLLHUP`) only with it. -/
structure Finds (s : System) (revents : Nat → BitVec 16) : Prop where
  listener : (revents 0 &&& pollIn != 0) = !s.net.backlog.isEmpty
  clients : ∀ k fd, s.process.server.fds[k + 1]? = some fd →
    (revents (k + 1) &&& pollIn != 0) = s.net.ready fd
  silent : ∀ k, revents k &&& pollIn = 0 → revents k = 0

inductive Step (resets : Bool) : System → System → Prop
  | client (s : System) (net : Net Char) :
      Net.Env resets s.net net → Step resets s { s with net := net }
  /-- A connection that the table has no room for is closed at once. -/
  | accept (s : System) (revents : Nat → BitVec 16) (fd : Int) (i : Nat) (c : Client Char)
      (rest : List Nat) :
      s.process.pc = .top → s.net.backlog = i :: rest → s.net.clients[i]? = some c →
      Finds s revents → Fresh s.process.server.sockets.opened fd →
      Step resets s
        { process := acceptOrScan revents fd s.process
          net := s.net.take i c
            (if s.process.server.cntFdSocket < maxFdSocket then .opened fd else .refused) }
  | poll (s : System) (revents : Nat → BitVec 16) (fd : Int) :
      s.process.pc = .top → s.net.backlog = [] → s.net.ready fd = true → Finds s revents →
      Step resets s { s with process := acceptOrScan revents (-1) s.process }
  /-- A turn of the scan that does not call `recv`. -/
  | turn (s : System) (i ret : Int) :
      s.process.pc = .scan i ret → recvCall i ret 0 s.process = [] →
      Step resets s { s with process := scanEntry i ret 0 s.process }
  | recv (s : System) (i ret fd retRecv : Int) (net : Net Char) :
      s.process.pc = .scan i ret → recvCall i ret retRecv s.process = [(fd, retRecv)] →
      Net.Receive lenBuf fd retRecv s.net net →
      Step resets s { process := scanEntry i ret retRecv s.process, net := net }

/-- The process has read and written `pollfds` inside only. -/
def Inside (p : State) : Prop := ∀ i ∈ p.used, 0 ≤ i ∧ i < maxFdSocket

/-- The server behind `add_socket(fd_listener)`, and clients with these inputs, up to a store behind
`pollfds`. -/
def machine (b : Boot) (resets : Bool) (inputs : List (List Char)) : Machine System where
  init s := s = ⟨bootState b, ⟨inputs.map Client.start, []⟩⟩
  step s t := Inside s.process ∧ Step resets s t

/-! ## The server by itself -/

variable {b : Boot} {resets : Bool} {inputs : List (List Char)} {s t : System} {k : Nat}

/-- What the process does is what it does by itself. -/
theorem reachable_process (reached : (machine b resets inputs).Reachable s) :
    (IoPoll.machine b).Reachable s.process := by
  apply reached.invariant (P := fun s => (IoPoll.machine b).Reachable s.process)
  · rintro s rfl
    exact .of_init rfl
  · rintro s t _ before ⟨-, step⟩
    cases step with
    | client net env => exact before
    | accept revents fd i c rest top front here finds fresh =>
        exact before.tail (.acceptOrScan revents fd top (.inr fresh))
    | poll revents fd top empty ready finds =>
        exact before.tail (.acceptOrScan revents (-1) top (.inl rfl))
    | turn i ret scan quiet => exact before.tail (.scanEntry 0 scan)
    | recv i ret fd retRecv net scan call receive => exact before.tail (.scanEntry retRecv scan)

theorem consistent_of_reachable (reached : (machine b resets inputs).Reachable s) :
    Consistent b s.process.server :=
  (reachable_inv (reachable_process reached)).consistent

/-- An entry of the table behind `poll`. -/
theorem table_poll {server : Server} (le : server.cntFdSocket ≤ maxFdSocket)
    {revents : Nat → BitVec 16} {e : Pollfd}
    (at' : (IoPoll.poll revents server).table[k]? = some e) :
    k < server.cntFdSocket ∧ e.revents = revents k ∧ server.fds[k]? = some e.fd := by
  have inside := (List.getElem?_eq_some_iff.mp at').1
  have le' : (IoPoll.poll revents server).cntFdSocket ≤ maxFdSocket := le
  rw [length_table le'] at inside
  have lt : k < server.cntFdSocket := inside
  have fds : (IoPoll.poll revents server).fds[k]? = some e.fd := by
    rw [Server.fds, List.getElem?_map, at']
    rfl
  refine ⟨lt, ?_, fds_poll revents ▸ fds⟩
  rw [Server.table, getElem?_live _ inside] at at'
  have here : k < maxFdSocket := Nat.lt_of_lt_of_le lt le
  simp [IoPoll.poll, lt, Vector.getElem?_eq_getElem here] at at'
  rw [← at']

/-! ## What `poll` leads to -/

/-- What is found for the listener. -/
theorem reports_front {server : Server} (pos : 0 < server.cntFdSocket)
    (revents : Nat → BitVec 16) :
    (Access.read (IoPoll.poll revents server).pollfds 0).value.reports pollIn =
      (revents 0 &&& pollIn != 0) := by
  have inside : 0 < maxFdSocket := by decide
  rw [show (0 : Int) = (0 : Nat) from rfl, Access.value_read_nat,
    Vector.getElem?_eq_getElem inside]
  simp [IoPoll.poll, Pollfd.reports, pos]

/-- With nothing to accept, the scan begins. -/
theorem acceptOrScan_idle {p : State} (pos : 0 < p.server.cntFdSocket) {revents : Nat → BitVec 16}
    (fd : Int) (silent : (revents 0 &&& pollIn != 0) = false) :
    (acceptOrScan revents fd p).server = IoPoll.poll revents p.server ∧
      (acceptOrScan revents fd p).pc = .scan 1 (retPoll (IoPoll.poll revents p.server)) := by
  have front := (reports_front pos revents).trans silent
  unfold acceptOrScan
  dsimp only
  rw [front]
  exact ⟨rfl, rfl⟩

/-- A connection is accepted, and added to the table if there is room. -/
theorem acceptOrScan_accept {p : State} (pos : 0 < p.server.cntFdSocket)
    {revents : Nat → BitVec 16} {fd : Int} (fresh : Fresh p.server.sockets.opened fd)
    (reports : (revents 0 &&& pollIn != 0) = true) :
    (acceptOrScan revents fd p).pc = .top ∧
      (acceptOrScan revents fd p).server.fds =
        p.server.fds ++ if p.server.cntFdSocket < maxFdSocket then [fd] else [] := by
  have front := (reports_front pos revents).trans reports
  have valid : fd ≠ -1 := fun same => absurd (same ▸ fresh.1) (by decide)
  unfold acceptOrScan
  dsimp only
  rw [front, if_pos rfl, if_neg valid]
  by_cases room : p.server.cntFdSocket < maxFdSocket
  · obtain ⟨added, -, -, fds⟩ :=
      addSocket_of_lt ((IoPoll.poll revents p.server).accept fd) fd room
    rw [if_neg (by rw [added]; omega), if_pos room]
    refine ⟨rfl, fds.trans ?_⟩
    exact congrArg (· ++ [fd]) (fds_poll revents)
  · have full := addSocket_of_full ((IoPoll.poll revents p.server).accept fd) fd
      (Nat.le_of_not_lt room)
    have undone : ((IoPoll.poll revents p.server).accept fd).close fd =
        IoPoll.poll revents p.server := close_accept fresh.2
    rw [if_neg room, full, List.append_nil]
    exact ⟨rfl, (congrArg Server.fds undone).trans (fds_poll revents)⟩

/-! ## The scan -/

/-- The scan is at entry `k`, and has still to come to the entries that report something. -/
def Scan (k : Nat) (ret : Int) (server : Server) : Prop := foundFrom k server ≤ ret

theorem mem_readyFrom {server : Server} {fd : Int} :
    fd ∈ readyFrom k server ↔
      ∃ e ∈ server.table.drop k, e.reports pollIn = true ∧ e.fd = fd := by
  simp [readyFrom, and_assoc]

/-- Where the loop ends, nothing is left to receive. -/
theorem readyFrom_eq_nil {server : Server} (le : server.cntFdSocket ≤ maxFdSocket) {ret : Int}
    (scan : Scan k ret server)
    (past : ¬ ((k : Int) < server.cntFdSocket ∧ ret > 0)) : readyFrom k server = [] := by
  rw [readyFrom, List.map_eq_nil_iff, List.filter_eq_nil_iff]
  intro e member ready
  have behind : k < server.table.length := by
    by_contra past
    rw [List.drop_eq_nil_of_le (Nat.not_lt.mp past)] at member
    cases member
  rw [length_table le] at behind
  have some : 0 < foundFrom k server := by
    refine List.length_pos_of_mem (a := e) (List.mem_filter.mpr ⟨member, ?_⟩)
    exact bne_iff_ne.mpr (Pollfd.revents_ne_zero ready)
  unfold Scan at scan
  omega

/-! ### A turn of the scan -/

/-- What a turn does: it comes to the end of the loop, to an entry that reports no input, or to one
that does and whose client has something to receive. -/
inductive Turned (k : Nat) (ret retRecv : Int) (p : State) : Prop
  | past : readyFrom k p.server = [] → recvCall k ret retRecv p = [] →
      (scanEntry k ret retRecv p).pc = .top → (scanEntry k ret retRecv p).server = p.server →
      Turned k ret retRecv p
  | passed (ret' : Int) : recvCall k ret retRecv p = [] → k < maxFdSocket →
      (scanEntry k ret retRecv p).pc = .scan (k + 1 : Nat) ret' →
      (scanEntry k ret retRecv p).server = p.server →
      readyFrom (k + 1) p.server = readyFrom k p.server → Scan (k + 1) ret' p.server →
      Turned k ret retRecv p
  | called (fd : Int) (k' : Nat) (ret' : Int) : recvCall k ret retRecv p = [(fd, retRecv)] →
      k' ≤ maxFdSocket → (scanEntry k ret retRecv p).pc = .scan k' ret' →
      Scan k' ret' (scanEntry k ret retRecv p).server → fd ∈ readyFrom k p.server →
      (∀ other ∈ readyFrom k' (scanEntry k ret retRecv p).server,
        other ∈ readyFrom k p.server ∧ other ≠ fd) →
      (if retRecv = 0 then (fd :: (scanEntry k ret retRecv p).server.fds).Perm p.server.fds
      else (scanEntry k ret retRecv p).server.fds = p.server.fds) →
      Turned k ret retRecv p

/-- The entries behind entry `k` have other descriptors. -/
theorem ne_of_mem_readyFrom {server : Server} {fd other : Int} (distinct : server.fds.Nodup)
    (at' : server.fds[k]? = some fd) (behind : other ∈ readyFrom (k + 1) server) : other ≠ fd := by
  obtain ⟨e, member, -, rfl⟩ := mem_readyFrom.mp behind
  have among : e.fd ∈ server.fds.drop (k + 1) := by
    rw [Server.fds, ← List.map_drop]
    exact List.mem_map_of_mem member
  obtain ⟨lt, here⟩ := List.getElem?_eq_some_iff.mp at'
  have nodup := distinct.sublist (List.drop_sublist k server.fds)
  rw [List.drop_eq_getElem_cons lt, here] at nodup
  exact fun same => (List.nodup_cons.mp nodup).1 (same ▸ among)

/-- What `del_socket` leaves of a table without repetition. -/
theorem table_delSocket {server : Server} {fd : Int} (le : server.cntFdSocket ≤ maxFdSocket)
    (distinct : server.fds.Nodup) (at' : server.fds[k]? = some fd) :
    (delSocket fd server).value.2.table = swapRemove server.table k := by
  obtain ⟨j, -, deleted⟩ := delSocket_of_mem le (List.mem_of_getElem? at')
  have same : j = k :=
    (List.getElem?_inj (List.getElem?_eq_some_iff.mp deleted.entry).1 distinct).mp
      (deleted.entry.trans at'.symm)
  exact same ▸ deleted.table

theorem Scan.turned {p : State} {ret : Int} (scan : Scan k ret p.server)
    (le : p.server.cntFdSocket ≤ maxFdSocket) (distinct : p.server.fds.Nodup) (retRecv : Int) :
    Turned k ret retRecv p := by
  by_cases on : (k : Int) < p.server.cntFdSocket ∧ ret > 0
  · have lt : k < p.server.cntFdSocket := by omega
    obtain ⟨e, at', scanned, call⟩ := scanned_scanEntry le lt on.2 retRecv
    have inTable := (List.getElem?_eq_some_iff.mp at').1
    have less : k < maxFdSocket := Nat.lt_of_lt_of_le lt le
    have fdAt : p.server.fds[k]? = some e.fd := by
      rw [Server.fds, List.getElem?_map, at']
      rfl
    have front := readyFrom_eq at'
    have found := foundFrom_eq at'
    unfold Scan at scan
    cases scanned with
    | removed reports ended server pc =>
        have table := table_delSocket le distinct fdAt
        rw [← server] at table
        -- The place now holds an entry from behind, so the same entries are ahead as behind it.
        have left := drop_swapRemove_perm inTable
        rw [← table] at left
        have fewer : (readyFrom k (scanEntry k ret retRecv p).server).Perm
            (readyFrom (k + 1) p.server) := (left.filter _).map _
        have counted : foundFrom k (scanEntry k ret retRecv p).server =
            foundFrom (k + 1) p.server := (left.filter _).length_eq
        rw [if_pos reports] at call front
        rw [if_neg (Pollfd.revents_ne_zero reports)] at found
        refine .called e.fd k (ret - 1) call (Nat.le_of_lt less) pc ?_
          (front ▸ List.mem_cons_self) (fun other member => ?_) ?_
        · unfold Scan
          omega
        · have behind := fewer.mem_iff.mp member
          exact ⟨front ▸ List.mem_cons_of_mem _ behind, ne_of_mem_readyFrom distinct fdAt behind⟩
        · have fds : (scanEntry k ret retRecv p).server.fds = swapRemove p.server.fds k := by
            rw [Server.fds, table, map_swapRemove]
            rfl
          obtain ⟨inside, here⟩ := List.getElem?_eq_some_iff.mp fdAt
          rw [if_pos ended, fds, ← here]
          exact cons_swapRemove_perm inside
    | read reports goes server pc =>
        rw [if_pos reports] at call front
        rw [if_neg (Pollfd.revents_ne_zero reports)] at found
        refine .called e.fd (k + 1) (ret - 1) call less pc ?_ (front ▸ List.mem_cons_self)
          (fun other member => ?_) ?_
        · unfold Scan
          rw [server]
          omega
        · rw [server] at member
          exact ⟨front ▸ List.mem_cons_of_mem _ member, ne_of_mem_readyFrom distinct fdAt member⟩
        · rw [if_neg goes, server]
    | passed ret' quiet server pc fewer =>
        rw [if_neg (Bool.eq_false_iff.mp quiet)] at call front
        refine .passed ret' call less pc server front.symm ?_
        unfold Scan
        rcases fewer with rfl | ⟨less, nonzero⟩
        · omega
        · rw [if_neg nonzero] at found
          omega
  · refine .past (readyFrom_eq_nil le scan on) ?_ ?_ ?_
    · exact if_neg fun both => on both.1
    · rw [scanEntry, if_neg on]
    · rw [scanEntry, if_neg on]

/-- Where the scan begins, all clients that are ready are ahead. -/
theorem mem_readyFrom_one (ok : Consistent b s.process.server) {revents : Nat → BitVec 16}
    (finds : Finds s revents) {fd : Int} :
    fd ∈ readyFrom 1 (IoPoll.poll revents s.process.server) ↔
      fd ∈ s.process.server.fds ∧ fd ≠ b.listener ∧ s.net.ready fd = true := by
  have place {k : Nat} {e : Pollfd}
      (at' : (IoPoll.poll revents s.process.server).table[k + 1]? = some e) :
      e.reports pollIn = s.net.ready e.fd := by
    obtain ⟨-, same, fdAt⟩ := table_poll ok.le at'
    rw [← finds.clients k e.fd fdAt, ← same]
    rfl
  rw [mem_readyFrom, ← and_assoc, ← mem_drop_one ok.tracks.head ok.tracks.nodup, ← fds_poll revents,
    Server.fds, ← List.map_drop, List.mem_map]
  constructor
  · rintro ⟨e, among, reports, rfl⟩
    obtain ⟨k, at'⟩ := List.mem_iff_getElem?.mp among
    rw [List.getElem?_drop, Nat.add_comm] at at'
    exact ⟨⟨e, among, rfl⟩, (place at').symm.trans reports⟩
  · rintro ⟨⟨e, among, rfl⟩, ready⟩
    obtain ⟨k, at'⟩ := List.mem_iff_getElem?.mp among
    rw [List.getElem?_drop, Nat.add_comm] at at'
    exact ⟨e, among, (place at').trans ready, rfl⟩

/-! ## Service -/

/-- How many connections there is room for beside the listener. -/
def capacity : Nat := maxFdSocket - 1

/-- More than the scan can be long. -/
def most : Nat := maxFdSocket + 2

def System.view (s : System) : View where
  table := s.process.server.fds
  scan := match s.process.pc with
    | .scan i _ => some (i.toNat, readyFrom i.toNat s.process.server)
    | .top | .exited => none

variable {ret : Int}

theorem view_scan (scan : s.process.pc = .scan k ret) :
    s.view = ⟨s.process.server.fds, some (k, readyFrom k s.process.server)⟩ := by
  simp only [System.view, scan, Int.toNat_natCast]

theorem view_top (top : s.process.pc = .top) : s.view = ⟨s.process.server.fds, none⟩ := by
  simp only [System.view, top]

theorem view_boot (b : Boot) (net : Net Char) :
    System.view ⟨bootState b, net⟩ = ⟨[b.listener], none⟩ := by
  have room : (bootCleared b).cntFdSocket < maxFdSocket := show 0 < maxFdSocket by decide
  obtain ⟨-, -, -, fds⟩ := addSocket_of_lt (bootCleared b) b.listener room
  exact congrArg (View.mk · none) fds

/-- The server goes on, and its scan is where it has still to come to what `poll` found. -/
structure Inv (p : State) : Prop where
  running : p.pc ≠ .exited
  scan : ∀ i ret, p.pc = .scan i ret → ∃ k : Nat, i = k ∧ Scan k ret p.server

theorem Inv.of_top {p : State} (top : p.pc = .top) : Inv p := by
  refine ⟨?_, fun i ret at' => ?_⟩
  · rw [top]
    nofun
  · cases top.symm.trans at'

theorem Inv.of_scan {p : State} (at' : p.pc = .scan k ret) (scan : Scan k ret p.server) :
    Inv p := by
  refine ⟨?_, fun i ret' at'' => ?_⟩
  · rw [at']
    nofun
  · cases at'.symm.trans at''
    exact ⟨k, rfl, scan⟩

theorem Inv.scanEntry {p : State} (inv : Inv p) (le : p.server.cntFdSocket ≤ maxFdSocket)
    (distinct : p.server.fds.Nodup) {i : Int} (at' : p.pc = .scan i ret) (retRecv : Int) :
    Inv (scanEntry i ret retRecv p) := by
  obtain ⟨k, rfl, scan⟩ := inv.scan i ret at'
  cases scan.turned le distinct retRecv with
  | past _ _ pc => exact .of_top pc
  | passed ret' _ _ pc server _ next => exact .of_scan pc (server ▸ next)
  | called fd k' ret' _ _ pc next => exact .of_scan pc next

/-- Nothing to accept is what `poll` finds for the listener. -/
theorem Finds.silent_of_nil {revents : Nat → BitVec 16} (finds : Finds s revents)
    (empty : s.net.backlog = []) : (revents 0 &&& pollIn != 0) = false := by
  rw [finds.listener, empty]
  rfl

theorem Finds.reports_of_cons {revents : Nat → BitVec 16} (finds : Finds s revents) {i : Nat}
    {rest : List Nat} (front : s.net.backlog = i :: rest) :
    (revents 0 &&& pollIn != 0) = true := by
  rw [finds.listener, front]
  rfl

theorem Inv.step (ok : Consistent b s.process.server) (inv : Inv s.process)
    (step : Step resets s t) : Inv t.process := by
  cases step with
  | client net env => exact inv
  | accept revents fd i c rest top front here finds fresh =>
      exact .of_top (acceptOrScan_accept ok.pos fresh (finds.reports_of_cons front)).1
  | poll revents fd top empty ready finds =>
      obtain ⟨server, pc⟩ := acceptOrScan_idle ok.pos (-1) (finds.silent_of_nil empty)
      refine .of_scan (k := 1) pc ?_
      rw [server]
      exact Int.ofNat_le.mpr ((List.drop_sublist 1 _).filter _).length_le
  | turn i ret at' quiet => exact inv.scanEntry ok.le ok.tracks.nodup at' 0
  | recv i ret fd retRecv net at' call receive =>
      exact inv.scanEntry ok.le ok.tracks.nodup at' retRecv

theorem inv_of_reachable (reached : (machine b resets inputs).Reachable s) : Inv s.process := by
  apply reached.invariant (P := fun s => Inv s.process)
  · rintro s rfl
    exact .of_top rfl
  · exact fun s t before inv step => inv.step (consistent_of_reachable before) step.2

/-- What the server does is what a server with a scan may do. -/
theorem move (ok : Consistent b s.process.server) (inv : Inv s.process)
    (step : Step resets s t) :
    Move lenBuf capacity most resets b.listener s.view s.net t.view t.net := by
  have length := ok.length_fds
  cases step with
  | client net env => exact .client s.view s.net net env
  | accept revents fd i c rest top front here finds fresh =>
      obtain ⟨pc, fds⟩ := acceptOrScan_accept ok.pos fresh (finds.reports_of_cons front)
      rw [view_top top, view_top pc, fds]
      split
      · next room =>
          refine .accept _ _ i c rest fd rfl front here (ok.tracks.not_mem_of_fresh fresh) ?_
          dsimp only [capacity]
          omega
      · next full =>
          rw [List.append_nil]
          refine .refuse _ _ i c rest rfl front here ?_
          have some : 0 < maxFdSocket := by decide
          dsimp only [capacity]
          omega
  | poll revents fd top empty ready finds =>
      obtain ⟨server, pc⟩ := acceptOrScan_idle ok.pos (-1) (finds.silent_of_nil empty)
      rw [view_top top, view_scan (k := 1) pc, server, fds_poll]
      exact .start _ _ _ rfl ⟨fd, ready⟩ fun other => mem_readyFrom_one ok finds
  | turn i ret at' quiet =>
      obtain ⟨k, rfl, scan⟩ := inv.scan i ret at'
      rw [view_scan at']
      cases scan.turned ok.le ok.tracks.nodup 0 with
      | past none _ pc server =>
          rw [view_top pc, server, none]
          exact .finish _ _ k rfl
      | passed ret' _ less pc server same =>
          rw [view_scan pc, server, same]
          exact .pass _ _ k _ rfl (Nat.succ_lt_succ (Nat.lt_succ_of_lt less))
      | called fd k' ret' call => cases quiet.symm.trans call
  | recv i ret fd retRecv net at' call receive =>
      obtain ⟨k, rfl, scan⟩ := inv.scan i ret at'
      rw [view_scan at']
      cases scan.turned ok.le ok.tracks.nodup retRecv with
      | past _ none => cases none.symm.trans call
      | passed _ none => cases none.symm.trans call
      | called fd' k' ret' call' le pc next ahead fewer table =>
          cases call'.symm.trans call
          rw [view_scan pc]
          exact .receive _ _ _ k k' _ _ _ fd retRecv rfl receive
            (Nat.lt_succ_of_lt (Nat.lt_succ_of_le le)) fewer table

/-! ## Where the server waits -/

/-- What `poll` could find. -/
theorem exists_finds (s : System) : ∃ revents, Finds s revents := by
  let found (ready : Bool) : BitVec 16 := if ready then pollIn else 0
  have here (ready : Bool) : (found ready &&& pollIn != 0) = ready := by
    cases ready <;> decide
  have zero (ready : Bool) (silent : found ready &&& pollIn = 0) : found ready = 0 := by
    cases ready with
    | false => rfl
    | true => exact absurd silent (by decide)
  let ready (k : Nat) : Bool :=
    if k = 0 then !s.net.backlog.isEmpty else (s.process.server.fds[k]?).elim false s.net.ready
  refine ⟨fun k => found (ready k), here (ready 0), fun k fd at' => ?_, fun k => zero (ready k)⟩
  refine (here (ready (k + 1))).trans ?_
  simp only [ready, Nat.succ_ne_zero, if_false, at', Option.elim_some]

/-- Which entry a turn calls `recv` for does not depend on the result. -/
theorem recvCall_eq (i ret retRecv : Int) (p : State) :
    recvCall i ret retRecv p = (recvCall i ret 0 p).map fun call => (call.1, retRecv) := by
  unfold recvCall
  dsimp only
  split <;> rfl

theorem exists_turn (ok : Consistent b s.process.server) (at' : s.process.pc = .scan k ret)
    (scan : Scan k ret s.process.server)
    (ready : ∀ fd ∈ readyFrom k s.process.server, s.net.ready fd = true) :
    ∃ t, Step resets s t := by
  cases scan.turned ok.le ok.tracks.nodup 0 with
  | past _ none => exact ⟨_, .turn s k ret at' none⟩
  | passed _ none => exact ⟨_, .turn s k ret at' none⟩
  | called fd k' ret' call _ _ _ ahead =>
      obtain ⟨retRecv, net, receive⟩ := exists_receive (ready fd ahead) (show 0 < lenBuf by decide)
      have call' : recvCall k ret retRecv s.process = [(fd, retRecv)] := by
        rw [recvCall_eq, call]
        rfl
      exact ⟨_, .recv s k ret fd retRecv net at' call' receive⟩

/-- Out of a scan the server is at the top of its loop. -/
theorem Inv.pc_eq_top (inv : Inv s.process) (none : s.view.scan = none) : s.process.pc = .top := by
  cases pc : s.process.pc with
  | top => rfl
  | scan i ret =>
      simp only [System.view, pc] at none
      cases none
  | exited => exact absurd pc inv.running

theorem scans (b : Boot) (resets : Bool) (inputs : List (List Char)) :
    Scans (machine b resets inputs) (fun s => ¬ Inside s.process) System.view System.net lenBuf
      capacity most resets b.listener inputs where
  room := by decide
  init s start := by
    subst start
    exact ⟨view_boot b _, rfl⟩
  distinct s reached := (consistent_of_reachable reached).tracks.nodup
  move s t reached step := move (consistent_of_reachable reached) (inv_of_reachable reached) step.2
  client s net alive env := ⟨_, not_not.mp alive, .client s net env⟩
  accepts s i c rest reached alive none front here := by
    obtain ⟨revents, finds⟩ := exists_finds s
    obtain ⟨fd, low⟩ := exists_lowestFree s.process.server.sockets.opened
    have top := (inv_of_reachable reached).pc_eq_top none
    exact ⟨_, not_not.mp alive, .accept s revents fd i c rest top front here finds low.fresh⟩
  starts s fd reached alive none empty ready := by
    obtain ⟨revents, finds⟩ := exists_finds s
    have top := (inv_of_reachable reached).pc_eq_top none
    exact ⟨_, not_not.mp alive, .poll s revents fd top empty ready finds⟩
  turns s k ahead reached alive at' ready := by
    have inv := inv_of_reachable reached
    cases pc : s.process.pc with
    | top =>
        rw [view_top pc] at at'
        cases at'
    | scan i ret =>
        obtain ⟨k', rfl, scan⟩ := inv.scan i ret pc
        rw [view_scan pc] at at'
        cases at'
        obtain ⟨t, step⟩ := exists_turn (consistent_of_reachable reached) pc scan ready
        exact ⟨t, not_not.mp alive, step⟩
    | exited => exact absurd pc inv.running

/-! ## Where the server has stored behind `pollfds` -/

theorem Inside.append {p q : State} (inside : Inside p) {indices : List Int}
    (used : q.used = p.used ++ indices) (within : ∀ i ∈ indices, 0 ≤ i ∧ i < maxFdSocket) :
    Inside q := by
  rw [Inside, used]
  exact List.forall_mem_append.mpr ⟨inside, within⟩

theorem Inside.acceptOrScan {p : State} (inside : Inside p) (revents : Nat → BitVec 16) (fd : Int) :
    Inside (acceptOrScan revents fd p) := by
  have front : ∀ i ∈ ([0] : List Int), 0 ≤ i ∧ i < (maxFdSocket : Int) := by decide
  have both : ∀ i ∈ [0] ++ (addSocket fd ((IoPoll.poll revents p.server).accept fd)).indices,
      0 ≤ i ∧ i < (maxFdSocket : Int) :=
    List.forall_mem_append.mpr ⟨front, addSocket_within⟩
  unfold IoPoll.acceptOrScan
  dsimp only
  split_ifs
  · exact inside.append rfl front
  · exact inside.append (List.append_assoc _ _ _) both
  · exact inside.append (List.append_assoc _ _ _) both
  · exact inside.append rfl front

/-- Only a removal from a full table stores outside. -/
theorem Inside.scanEntry {p : State} (inside : Inside p) (le : p.server.cntFdSocket ≤ maxFdSocket)
    (retRecv : Int)
    (room : ∀ fd, recvCall k ret retRecv p = [(fd, 0)] → p.server.cntFdSocket < maxFdSocket) :
    Inside (scanEntry k ret retRecv p) := by
  unfold IoPoll.scanEntry
  by_cases serving : (k : Int) < p.server.cntFdSocket ∧ ret > 0
  · have inTable : k < p.server.cntFdSocket := by omega
    have here : k < maxFdSocket := Nat.lt_of_lt_of_le inTable le
    have entry : (Access.read p.server.pollfds k).value = p.server.pollfds[k] := by
      simp [here]
    have within : ∀ i ∈ [(k : Int)], 0 ≤ i ∧ i < (maxFdSocket : Int) := by
      intro i member
      rw [List.mem_singleton.mp member]
      omega
    rw [if_pos serving]
    dsimp only
    rw [entry]
    split_ifs with reports failed ended
    · exact inside.append rfl within
    · have listed : p.server.pollfds[k].fd ∈ p.server.fds := by
        refine List.mem_map.mpr ⟨p.server.pollfds[k], ?_, rfl⟩
        refine List.mem_of_getElem? (i := k) ?_
        rw [Server.table, getElem?_live _ inTable, Vector.getElem?_eq_getElem here]
      have call : recvCall k ret retRecv p = [(p.server.pollfds[k].fd, 0)] := by
        unfold recvCall
        dsimp only
        rw [entry, if_pos ⟨serving, reports⟩, ended]
      have deleted := (delSocket_within_iff le listed).mpr (room _ call)
      exact inside.append (List.append_assoc _ _ _) (List.forall_mem_append.mpr ⟨within, deleted⟩)
    · exact inside.append rfl within
    · exact inside.append rfl within
    · exact inside.append rfl within
    · exact inside.append rfl within
  · rw [if_neg serving]
    exact inside.append (List.append_nil _).symm (List.forall_mem_nil _)

/-- Behind the store the table has lost one of the connections that it had room for. -/
def Overrun (inputs : List (List Char)) (s : System) : Prop :=
  s.net.fds.length + 1 = capacity ∧ capacity ≤ inputs.length

theorem inside_or_overrun (reached : (machine b resets inputs).Reachable s) :
    Inside s.process ∨ Overrun inputs s := by
  apply reached.invariant (P := fun s => Inside s.process ∨ Overrun inputs s)
  · rintro s rfl
    exact .inl addSocket_within
  · rintro s t before - ⟨inside, step⟩
    have ok := consistent_of_reachable before
    have inv := inv_of_reachable before
    cases step with
    | client net env => exact .inl inside
    | accept revents fd i c rest top front here finds fresh =>
        exact .inl (inside.acceptOrScan revents fd)
    | poll revents fd top empty ready finds => exact .inl (inside.acceptOrScan revents (-1))
    | turn i ret at' quiet =>
        obtain ⟨k, rfl, scan⟩ := inv.scan i ret at'
        refine .inl (inside.scanEntry ok.le 0 fun fd call => ?_)
        cases quiet.symm.trans call
    | recv i ret fd retRecv net at' call receive =>
        obtain ⟨k, rfl, scan⟩ := inv.scan i ret at'
        by_cases full : retRecv = 0 ∧ s.process.server.cntFdSocket = maxFdSocket
        · right
          have attends := (scans b resets inputs).attends before
          have table := attends.length_table
          have length := ok.length_fds
          have many : s.net.fds.length = capacity := by
            have same : s.view.table = s.process.server.fds := rfl
            rw [same, length, full.2] at table
            exact Nat.succ.inj table.symm
          have clients : s.net.fds.length ≤ s.net.clients.length := List.length_filterMap_le _ _
          rw [attends.fits.many, many] at clients
          refine ⟨?_, clients⟩
          rcases fds_receive receive with ⟨-, perm⟩ | ⟨goes, -⟩
          · rw [← many]
            exact perm.length_eq
          · exact absurd full.1 goes
        · refine .inl (inside.scanEntry ok.le retRecv fun fd' call' => ?_)
          cases call.symm.trans call'
          exact Nat.lt_of_le_of_ne ok.le fun same => full ⟨rfl, same⟩

/-! ## Every run ends -/

/-- The server waits, and no connection is open. -/
structure Idle (b : Boot) (s : System) : Prop where
  top : s.process.pc = .top
  table : s.process.server.fds = [b.listener]
  accepted : s.process.server.sockets.accepted = ∅

/-- **Service.**  Every run ends, with the server in `poll` and every client served, or at a store
behind `pollfds`, behind which there is a connection less than the table has room for. -/
theorem pollServer_terminates (b : Boot) (resets : Bool) (inputs : List (List Char)) :
    (machine b resets inputs).Terminates fun s =>
      Inside s.process ∧ Idle b s ∧ Service.Served capacity inputs s.net ∨
        ¬ Inside s.process ∧ Overrun inputs s := by
  have terminates := (scans b resets inputs).terminates
  refine ⟨terminates.finite, fun s reached stuck => ?_⟩
  by_cases inside : Inside s.process
  · obtain ⟨none, table, served⟩ := terminates.ends s reached stuck (not_not.mpr inside)
    have ok := consistent_of_reachable reached
    have alone : s.process.server.fds = [b.listener] := table
    refine .inl ⟨inside, ⟨(inv_of_reachable reached).pc_eq_top none, alone, ?_⟩, served⟩
    refine Finset.eq_empty_of_forall_notMem fun fd accepted => ?_
    have listed := (ok.tracks.mem fd).mpr (.inr accepted)
    rw [alone] at listed
    exact (ok.tracks.fresh fd accepted).2 (List.mem_singleton.mp listed ▸ b.listener_open)
  · exact .inr ⟨inside, (inside_or_overrun reached).resolve_left inside⟩

end Alnp.PollService
