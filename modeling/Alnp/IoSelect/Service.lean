import Alnp.IoSelect.Correctness
import Alnp.IoSelect.Dispatch
import Alnp.Lib.Scan

/-!
# The `select` server and its clients

`Chapter07/io_select.c` with any number of clients and more descriptors than the table has room for,
as in `Alnp.PollService`.  When a client is removed, the one that takes its place is passed over in
this round; as it is still ready, `select` finds it again.

`selectServer_terminates`: under the lowest-free rule every run ends, with the server in `select`
and every client served.
-/

namespace Alnp.SelectService

open IoSelect Service

/-- `sizeof(buf)` -/
def lenBuf : Nat := 1024

structure System where
  process : State
  net : Net Char

/-- Where `accept` or `recv` would not wait. -/
def System.found (b : Boot) (s : System) (fd : Int) : Bool :=
  if fd = b.listener then !s.net.backlog.isEmpty else s.net.ready fd

/-- The descriptor for which a turn of the scan calls `recv`. -/
def called (i : Nat) (fdsRead : FdSet) (p : State) : Option Int :=
  let fd := (Access.read p.server.fdSocket i).value
  if i < p.server.cntFdSocket ∧ fdIsset fd fdsRead then some fd else none

inductive Step (b : Boot) (resets : Bool) : System → System → Prop
  | client (s : System) (net : Net Char) :
      Net.Env resets s.net net → Step b resets s { s with net := net }
  /-- A connection that the table has no room for is closed at once. -/
  | accept (s : System) (fd : Int) (i : Nat) (c : Client Char) (rest : List Nat) :
      s.process.pc = .top → s.net.backlog = i :: rest → s.net.clients[i]? = some c →
      LowestFree s.process.server.sockets.opened fd →
      Step b resets s
        { process := acceptOrScan b.listener (s.found b) fd s.process
          net := s.net.take i c
            (if s.process.server.cntFdSocket < maxFdSocket then .opened fd else .refused) }
  | select (s : System) (fd : Int) :
      s.process.pc = .top → s.net.backlog = [] → s.net.ready fd = true →
      Step b resets s
        { s with process := acceptOrScan b.listener (s.found b) (-1) s.process }
  /-- A turn of the scan that does not call `recv`. -/
  | turn (s : System) (i : Nat) (fdsRead : FdSet) :
      s.process.pc = .scan i fdsRead → called i fdsRead s.process = none →
      Step b resets s { s with process := scanEntry i fdsRead 0 s.process }
  | recv (s : System) (i : Nat) (fdsRead : FdSet) (fd retRecv : Int) (net : Net Char) :
      s.process.pc = .scan i fdsRead → called i fdsRead s.process = some fd →
      Net.Receive lenBuf fd retRecv s.net net →
      Step b resets s { process := scanEntry i fdsRead retRecv s.process, net := net }

/-- The server behind `add_socket(fd_listener)`, and clients with these inputs. -/
def machine (b : Boot) (resets : Bool) (inputs : List (List Char)) : Machine System where
  init s := s = ⟨bootState b, ⟨inputs.map Client.start, []⟩⟩
  step := Step b resets

/-! ## The server by itself -/

variable {b : Boot} {resets : Bool} {inputs : List (List Char)} {s t : System} {k : Nat}
  {fd : Int}

/-- What the process does is what it does by itself. -/
theorem reachable_process (reached : (machine b resets inputs).Reachable s) :
    (IoSelect.machine LowestFree b).Reachable s.process := by
  apply reached.invariant (P := fun s => (IoSelect.machine LowestFree b).Reachable s.process)
  · rintro s rfl
    exact .of_init rfl
  · intro s t _ before step
    cases step with
    | client net env => exact before
    | accept fd i c rest top front here low =>
        exact before.tail (.acceptOrScan _ fd top (.inr low))
    | select fd top empty ready => exact before.tail (.acceptOrScan _ (-1) top (.inl rfl))
    | turn i fdsRead scan quiet => exact before.tail (.scanEntry 0 scan)
    | recv i fdsRead fd retRecv net scan call receive =>
        exact before.tail (.scanEntry retRecv scan)

/-- The table is in order, and its descriptors fit an `fd_set`. -/
structure Sound (b : Boot) (server : Server) : Prop extends Consistent b server where
  small : ∀ fd ∈ server.table, InFdSet fd

theorem sound_of_reachable (std : b.others = insert b.listener {0, 1, 2})
    (low : LowestFree {0, 1, 2} b.listener) (reached : (machine b resets inputs).Reachable s) :
    Sound b s.process.server := by
  have process := reachable_process reached
  have ok := (reachable_inv (fun _ _ low => low.fresh) process).consistent
  refine ⟨ok, fun fd member => ⟨ok.tracks.nonneg member, ?_⟩⟩
  rcases (ok.tracks.mem fd).mp member with rfl | accepted
  · have few := low.le_card
    have three : ({0, 1, 2} : Finset Int).card = 3 := rfl
    simp only [fdSetsize]
    omega
  · have bounded := accepted_le_of_reachable process accepted
    have few : b.others.card ≤ 4 := by
      rw [std]
      exact Finset.card_insert_le _ _
    simp only [fdSetsize, maxFdSocket] at bounded ⊢
    omega

/-! ## What `select` leads to -/

theorem fdIsset_selectRead (nfds : Int) (ready : Int → Bool) (fds : FdSet) :
    fdIsset fd (selectRead nfds ready fds) =
      (fdIsset fd fds && (decide (nfds ≤ fd) || ready fd)) := by
  unfold fdIsset selectRead
  split
  · next nonneg =>
      have same : ((fd.toNat : Nat) : Int) = fd := Int.toNat_of_nonneg nonneg
      rw [Vector.getElem?_mapIdx]
      cases fds[fd.toNat]? with
      | none => rfl
      | some bit =>
          simp [same]
  · rfl

/-- `select` leaves the entries of the table that are ready. -/
theorem isset_found (ok : Sound b s.process.server) (ready : Int → Bool) :
    fdIsset fd (selectRead ((mkFds s.process.server).value.2 + 1) ready
      (mkFds s.process.server).value.1) = true ↔ fd ∈ s.process.server.table ∧ ready fd = true := by
  rw [fdIsset_selectRead, Bool.and_eq_true, mem_mkFds ok.le]
  constructor
  · rintro ⟨⟨member, -⟩, found⟩
    have le := (mkFds_biggest ok.le member (ok.tracks.nonneg member)).2 fd member
    have inside : decide ((mkFds s.process.server).value.2 + 1 ≤ fd) = false :=
      decide_eq_false (by omega)
    rw [inside] at found
    exact ⟨member, found⟩
  · rintro ⟨member, found⟩
    exact ⟨⟨member, ok.small fd member⟩, by rw [found, Bool.or_true]⟩

/-- What `select` leaves of the set. -/
def System.fdsRead (b : Boot) (s : System) : FdSet :=
  selectRead ((mkFds s.process.server).value.2 + 1) (s.found b) (mkFds s.process.server).value.1

/-- The ready clients from entry `k` on. -/
def readyFrom (k : Nat) (fdsRead : FdSet) (server : Server) : List Int :=
  (server.table.drop k).filter fun fd => fdIsset fd fdsRead

theorem isset_listener (ok : Sound b s.process.server) :
    fdIsset b.listener (s.fdsRead b) = !s.net.backlog.isEmpty := by
  have front : b.listener ∈ s.process.server.table := (ok.tracks.mem _).mpr (.inl rfl)
  have found : s.found b b.listener = !s.net.backlog.isEmpty := if_pos rfl
  rw [Bool.eq_iff_iff]
  unfold System.fdsRead
  rw [isset_found ok, found]
  exact and_iff_right front

/-- Where the scan begins, all clients that are ready are ahead. -/
theorem mem_readyFrom_one (ok : Sound b s.process.server) :
    fd ∈ readyFrom 1 (s.fdsRead b) s.process.server ↔
      fd ∈ s.process.server.table ∧ fd ≠ b.listener ∧ s.net.ready fd = true := by
  unfold System.fdsRead
  rw [readyFrom, List.mem_filter, mem_drop_one ok.tracks.head ok.tracks.nodup, isset_found ok]
  constructor
  · rintro ⟨⟨member, other⟩, -, found⟩
    rw [System.found, if_neg other] at found
    exact ⟨member, other, found⟩
  · rintro ⟨member, other, ready⟩
    refine ⟨⟨member, other⟩, member, ?_⟩
    rw [System.found, if_neg other]
    exact ready

/-- With nothing to accept, the scan begins. -/
theorem acceptOrScan_idle (ok : Sound b s.process.server) (empty : s.net.backlog = []) (fd : Int) :
    (acceptOrScan b.listener (s.found b) fd s.process).server = s.process.server ∧
      (acceptOrScan b.listener (s.found b) fd s.process).pc = .scan 1 (s.fdsRead b) := by
  have listener := isset_listener ok
  rw [empty] at listener
  unfold System.fdsRead at listener
  unfold acceptOrScan
  dsimp only
  rw [listener]
  exact ⟨rfl, rfl⟩

/-- A connection is accepted, and added to the table if there is room. -/
theorem acceptOrScan_accept (ok : Sound b s.process.server) (some : s.net.backlog ≠ [])
    (fresh : Fresh s.process.server.sockets.opened fd) :
    (acceptOrScan b.listener (s.found b) fd s.process).pc = .top ∧
      (acceptOrScan b.listener (s.found b) fd s.process).server.table =
        s.process.server.table ++
          if s.process.server.cntFdSocket < maxFdSocket then [fd] else [] := by
  have listener := isset_listener ok
  rw [List.isEmpty_eq_false_iff.mpr some, Bool.not_false] at listener
  unfold System.fdsRead at listener
  have valid : fd ≠ -1 := fun same => absurd (same ▸ fresh.1) (by decide)
  unfold acceptOrScan
  dsimp only
  rw [listener, if_pos rfl, if_neg valid]
  by_cases room : s.process.server.cntFdSocket < maxFdSocket
  · obtain ⟨added, more⟩ := addSocket_of_lt (s.process.server.accept fd) fd room
    rw [if_neg (by rw [added]; omega), if_pos room]
    exact ⟨rfl, more.table⟩
  · have full := addSocket_of_full (s.process.server.accept fd) fd (Nat.le_of_not_lt room)
    have undone : (s.process.server.accept fd).close fd = s.process.server := close_accept fresh.2
    rw [if_neg room, full, List.append_nil]
    exact ⟨rfl, congrArg Server.table undone⟩

/-! ### A turn of the scan -/

/-- What a turn does: it comes to the end of the loop, to a client that is not ready, or to one that
has something to receive. -/
inductive Turned (k : Nat) (fdsRead : FdSet) (retRecv : Int) (p : State) : Prop
  | past : readyFrom k fdsRead p.server = [] → called k fdsRead p = none →
      (scanEntry k fdsRead retRecv p).pc = .top →
      (scanEntry k fdsRead retRecv p).server = p.server → Turned k fdsRead retRecv p
  | passed : called k fdsRead p = none → k < maxFdSocket →
      (scanEntry k fdsRead retRecv p).pc = .scan (k + 1) fdsRead →
      (scanEntry k fdsRead retRecv p).server = p.server →
      readyFrom (k + 1) fdsRead p.server = readyFrom k fdsRead p.server →
      Turned k fdsRead retRecv p
  | called (fd : Int) : called k fdsRead p = some fd → k < maxFdSocket →
      (scanEntry k fdsRead retRecv p).pc = .scan (k + 1) fdsRead →
      fd ∈ readyFrom k fdsRead p.server →
      (∀ other ∈ readyFrom (k + 1) fdsRead (scanEntry k fdsRead retRecv p).server,
        other ∈ readyFrom k fdsRead p.server ∧ other ≠ fd) →
      (if retRecv = 0 then (fd :: (scanEntry k fdsRead retRecv p).server.table).Perm p.server.table
      else (scanEntry k fdsRead retRecv p).server.table = p.server.table) →
      Turned k fdsRead retRecv p

/-- The entries from `k` on begin with the one at `k`. -/
theorem readyFrom_eq {server : Server} (at' : server.table[k]? = some fd) (fdsRead : FdSet) :
    readyFrom k fdsRead server =
      (if fdIsset fd fdsRead then [fd] else []) ++ readyFrom (k + 1) fdsRead server := by
  obtain ⟨lt, rfl⟩ := List.getElem?_eq_some_iff.mp at'
  rw [readyFrom, List.drop_eq_getElem_cons lt, List.filter_cons]
  split <;> rfl

/-- The entries behind entry `k` are others. -/
theorem ne_of_mem_readyFrom {server : Server} {fdsRead : FdSet} {other : Int}
    (distinct : server.table.Nodup) (at' : server.table[k]? = some fd)
    (behind : other ∈ readyFrom (k + 1) fdsRead server) : other ≠ fd := by
  have among := (List.mem_filter.mp behind).1
  obtain ⟨lt, here⟩ := List.getElem?_eq_some_iff.mp at'
  have nodup := distinct.sublist (List.drop_sublist k server.table)
  rw [List.drop_eq_getElem_cons lt, here] at nodup
  exact fun same => (List.nodup_cons.mp nodup).1 (same ▸ among)

/-- What `del_socket` leaves of a table without repetition. -/
theorem table_delSocket {server : Server} (le : server.cntFdSocket ≤ maxFdSocket)
    (distinct : server.table.Nodup) (at' : server.table[k]? = some fd) :
    (delSocket fd server).value.2.table = swapRemove server.table k := by
  obtain ⟨j, -, deleted⟩ := delSocket_of_mem le (List.mem_of_getElem? at')
  have entry : server.table[j]? = some fd := (getElem?_live _ deleted.lt).trans deleted.entry
  have same : j = k :=
    (List.getElem?_inj (List.getElem?_eq_some_iff.mp entry).1 distinct).mp (entry.trans at'.symm)
  exact same ▸ deleted.table

theorem turned_of_called {p : State} {fdsRead : FdSet} (le : p.server.cntFdSocket ≤ maxFdSocket)
    (distinct : p.server.table.Nodup) (at' : p.server.table[k]? = some fd)
    (isset : fdIsset fd fdsRead = true) (call : called k fdsRead p = some fd) (retRecv : Int) :
    Turned k fdsRead retRecv p := by
  obtain ⟨-, pc, server⟩ := scanEntry_of_entry at' le fdsRead retRecv
  obtain ⟨inTable, here⟩ := List.getElem?_eq_some_iff.mp at'
  have less : k < maxFdSocket := by
    rw [Server.table, length_live _ le] at inTable
    exact Nat.lt_of_lt_of_le inTable le
  have front := readyFrom_eq at' fdsRead
  rw [isset] at front server
  have ahead : ∀ other ∈ readyFrom (k + 1) fdsRead p.server,
      other ∈ readyFrom k fdsRead p.server ∧ other ≠ fd := fun other behind =>
    ⟨front ▸ List.mem_cons_of_mem _ behind, ne_of_mem_readyFrom distinct at' behind⟩
  refine .called fd call less pc (front ▸ List.mem_cons_self)
    (fun other member => ahead other ?_) ?_
  · by_cases ended : retRecv = 0
    · -- The entry that has taken the place is passed over.
      rw [if_pos (by simp [ended])] at server
      rw [readyFrom, server, table_delSocket le distinct at',
        drop_succ_swapRemove inTable] at member
      exact List.filter_subset _ (List.dropLast_subset _) member
    · rw [if_neg (by simp [ended])] at server
      exact server ▸ member
  · by_cases ended : retRecv = 0
    · rw [if_pos (by simp [ended])] at server
      rw [if_pos ended, server, table_delSocket le distinct at', ← here]
      exact cons_swapRemove_perm inTable
    · rw [if_neg (by simp [ended])] at server
      rw [if_neg ended, server]

theorem turned {p : State} (le : p.server.cntFdSocket ≤ maxFdSocket)
    (distinct : p.server.table.Nodup) (k : Nat) (fdsRead : FdSet) (retRecv : Int) :
    Turned k fdsRead retRecv p := by
  by_cases lt : k < p.server.cntFdSocket
  · have inTable : k < p.server.table.length := by
      rwa [Server.table, length_live _ le]
    have at' : p.server.table[k]? = some p.server.table[k] := List.getElem?_eq_getElem inTable
    generalize p.server.table[k] = fd at at'
    obtain ⟨read, pc, server⟩ := scanEntry_of_entry at' le fdsRead retRecv
    have call : SelectService.called k fdsRead p =
        if fdIsset fd fdsRead then some fd else none := by
      simp only [SelectService.called, read, lt, true_and]
    cases isset : fdIsset fd fdsRead with
    | false =>
        have front := readyFrom_eq at' fdsRead
        rw [isset] at call front server
        exact .passed call (Nat.lt_of_lt_of_le lt le) pc server front.symm
    | true =>
        rw [isset] at call
        exact turned_of_called le distinct at' isset call retRecv
  · have past : p.server.table.drop k = [] := by
      refine List.drop_eq_nil_of_le ?_
      rw [Server.table, length_live _ le]
      exact Nat.le_of_not_lt lt
    refine .past ?_ ?_ ?_ ?_
    · rw [readyFrom, past, List.filter_nil]
    · exact if_neg fun both => lt both.1
    · rw [scanEntry, if_neg lt]
    · rw [scanEntry, if_neg lt]

/-! ## Service -/

/-- How many connections there is room for beside the listener. -/
def capacity : Nat := maxFdSocket - 1

/-- More than the scan can be long. -/
def most : Nat := maxFdSocket + 2

def System.view (s : System) : View where
  table := s.process.server.table
  scan := match s.process.pc with
    | .scan i fdsRead => some (i, readyFrom i fdsRead s.process.server)
    | .top | .exited => none

variable {i : Nat} {fdsRead : FdSet}

theorem view_scan (scan : s.process.pc = .scan i fdsRead) :
    s.view = ⟨s.process.server.table, some (i, readyFrom i fdsRead s.process.server)⟩ := by
  simp only [System.view, scan]

theorem view_top (top : s.process.pc = .top) : s.view = ⟨s.process.server.table, none⟩ := by
  simp only [System.view, top]

theorem view_boot (b : Boot) (net : Net Char) :
    System.view ⟨bootState b, net⟩ = ⟨[b.listener], none⟩ := by
  have room : (bootCleared b).cntFdSocket < maxFdSocket := show 0 < maxFdSocket by decide
  obtain ⟨-, added⟩ := addSocket_of_lt (bootCleared b) b.listener room
  exact congrArg (View.mk · none) added.table

/-- The server goes on. -/
theorem pc_ne_exited (sound : Sound b s.process.server) (running : s.process.pc ≠ .exited)
    (step : Step b resets s t) : t.process.pc ≠ .exited := by
  cases step with
  | client net env => exact running
  | accept fd i c rest top front here low =>
      obtain ⟨pc, -⟩ := acceptOrScan_accept sound (front ▸ List.cons_ne_nil i rest) low.fresh
      rw [pc]
      nofun
  | select fd top empty ready =>
      rw [(acceptOrScan_idle sound empty (-1)).2]
      nofun
  | turn i fdsRead scan quiet =>
      dsimp only
      cases turned sound.le sound.tracks.nodup i fdsRead 0 with
      | past _ _ pc => exact pc ▸ nofun
      | passed _ _ pc => exact pc ▸ nofun
      | called _ _ _ pc => exact pc ▸ nofun
  | recv i fdsRead fd retRecv net scan call receive =>
      dsimp only
      cases turned sound.le sound.tracks.nodup i fdsRead retRecv with
      | past _ _ pc => exact pc ▸ nofun
      | passed _ _ pc => exact pc ▸ nofun
      | called _ _ _ pc => exact pc ▸ nofun

/-- What the server does is what a server with a scan may do. -/
theorem move (sound : Sound b s.process.server) (step : Step b resets s t) :
    Move lenBuf capacity most resets b.listener s.view s.net t.view t.net := by
  have length : s.process.server.table.length = s.process.server.cntFdSocket :=
    length_live _ sound.le
  cases step with
  | client net env => exact .client s.view s.net net env
  | accept fd i c rest top front here low =>
      have some : s.net.backlog ≠ [] := front ▸ List.cons_ne_nil i rest
      obtain ⟨pc, table⟩ := acceptOrScan_accept sound some low.fresh
      rw [view_top top, view_top pc, table]
      split
      · next room =>
          refine .accept _ _ i c rest fd rfl front here (sound.tracks.not_mem_of_fresh low.fresh) ?_
          dsimp only [capacity]
          omega
      · next full =>
          rw [List.append_nil]
          refine .refuse _ _ i c rest rfl front here ?_
          have some : 0 < maxFdSocket := by decide
          dsimp only [capacity]
          omega
  | select fd top empty ready =>
      obtain ⟨server, pc⟩ := acceptOrScan_idle sound empty (-1)
      rw [view_top top, view_scan pc, server]
      exact .start _ _ _ rfl ⟨fd, ready⟩ fun other => mem_readyFrom_one sound
  | turn i fdsRead scan quiet =>
      rw [view_scan scan]
      cases turned sound.le sound.tracks.nodup i fdsRead 0 with
      | past none _ pc server =>
          rw [view_top pc, server, none]
          exact .finish _ _ i rfl
      | passed _ less pc server same =>
          rw [view_scan pc, server, same]
          exact .pass _ _ i _ rfl (Nat.succ_lt_succ (Nat.lt_succ_of_lt less))
      | called fd call => cases quiet.symm.trans call
  | recv i fdsRead fd retRecv net scan call receive =>
      rw [view_scan scan]
      cases turned sound.le sound.tracks.nodup i fdsRead retRecv with
      | past _ none => cases none.symm.trans call
      | passed none => cases none.symm.trans call
      | called fd' call' less pc ahead fewer table =>
          cases call'.symm.trans call
          rw [view_scan pc]
          exact .receive _ _ _ i (i + 1) _ _ _ fd retRecv rfl receive
            (Nat.succ_lt_succ (Nat.lt_succ_of_lt less)) fewer table

theorem exists_turn (sound : Sound b s.process.server) (scan : s.process.pc = .scan i fdsRead)
    (ready : ∀ fd ∈ readyFrom i fdsRead s.process.server, s.net.ready fd = true) :
    ∃ t, Step b resets s t := by
  cases turned sound.le sound.tracks.nodup i fdsRead 0 with
  | past _ none => exact ⟨_, .turn s i fdsRead scan none⟩
  | passed none => exact ⟨_, .turn s i fdsRead scan none⟩
  | called fd call _ _ ahead =>
      obtain ⟨retRecv, net, receive⟩ := exists_receive (ready fd ahead) (show 0 < lenBuf by decide)
      exact ⟨_, .recv s i fdsRead fd retRecv net scan call receive⟩

theorem running_of_reachable (std : b.others = insert b.listener {0, 1, 2})
    (low : LowestFree {0, 1, 2} b.listener) (reached : (machine b resets inputs).Reachable s) :
    s.process.pc ≠ .exited := by
  apply reached.invariant (P := fun s => s.process.pc ≠ .exited)
  · rintro s rfl
    nofun
  · exact fun s t before running step =>
      pc_ne_exited (sound_of_reachable std low before) running step

/-- Out of a scan the server is at the top of its loop. -/
theorem pc_eq_top (running : s.process.pc ≠ .exited) (none : s.view.scan = none) :
    s.process.pc = .top := by
  cases pc : s.process.pc with
  | top => rfl
  | scan i fdsRead =>
      rw [view_scan pc] at none
      cases none
  | exited => exact absurd pc running

theorem scans (resets : Bool) (inputs : List (List Char))
    (std : b.others = insert b.listener {0, 1, 2}) (low : LowestFree {0, 1, 2} b.listener) :
    Scans (machine b resets inputs) (fun _ => False) System.view System.net lenBuf capacity most
      resets b.listener inputs where
  room := by decide
  init s start := by
    subst start
    exact ⟨view_boot b _, rfl⟩
  distinct s reached := (sound_of_reachable std low reached).tracks.nodup
  move s t reached step := move (sound_of_reachable std low reached) step
  client s net _ env := ⟨_, .client s net env⟩
  accepts s i c rest reached _ none front here := by
    obtain ⟨fd, lowest⟩ := exists_lowestFree s.process.server.sockets.opened
    have top := pc_eq_top (running_of_reachable std low reached) none
    exact ⟨_, .accept s fd i c rest top front here lowest⟩
  starts s fd reached _ none empty ready :=
    ⟨_, .select s fd (pc_eq_top (running_of_reachable std low reached) none) empty ready⟩
  turns s k ahead reached _ at' ready := by
    cases pc : s.process.pc with
    | top =>
        rw [view_top pc] at at'
        cases at'
    | scan i fdsRead =>
        rw [view_scan pc] at at'
        cases at'
        exact exists_turn (sound_of_reachable std low reached) pc ready
    | exited => exact absurd pc (running_of_reachable std low reached)

/-- The server waits, and no connection is open. -/
structure Idle (b : Boot) (s : System) : Prop where
  top : s.process.pc = .top
  table : s.process.server.table = [b.listener]
  accepted : s.process.server.sockets.accepted = ∅

end Alnp.SelectService
