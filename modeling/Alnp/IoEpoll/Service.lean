import Alnp.IoEpoll.EventBuffer
import Alnp.Lib.Service

/-!
# The `epoll` server and its clients

`Chapter07/io_epoll.c` with any number of clients, each with what it sends before it closes its
connection.  No client resets its connection: that would end the process.  The turns of a batch are
steps of their own, and so are the calls of `accept` in the listener's, so that clients go on in
between.  The limit on open descriptors is what the server takes for the size of `ep_events`, too:
`accept` fails where all numbers below it are taken, and `epoll_wait` where it is too large.

* `reachable_server`: in front of `epoll_wait`, the server has done what `dispatch` does with
  batches of turns.
* `epollServer_terminates`: with descriptors for all clients every run ends, with the server in
  `epoll_wait` and every client served, and the events of every batch have been inside `ep_events`.
-/

namespace Alnp.EpollService

open IoEpoll Service

/-- `sizeof(buf)` -/
def lenBuf : Nat := 1024

/-- The largest `maxevents` that `epoll_wait` takes: `INT_MAX / sizeof(struct epoll_event)`. -/
def epMaxEvents : Nat := 178956970

/-- Without events, the server is in front of `epoll_wait`, and otherwise in the turn of the first;
with the listener's event, it is in the loop over `accept`. -/
structure System where
  server : Server
  events : List IoEpoll.Event
  net : Net Char

/-- `accept` or `recv` would not wait. -/
def System.found (b : Boot) (s : System) (fd : Int) : Bool :=
  if fd = b.listener then !s.net.backlog.isEmpty else s.net.ready fd

/-- What `epoll_wait` with room for `limit` events reports. -/
structure Reports (b : Boot) (limit : Nat) (s : System) (events : List IoEpoll.Event) :
    Prop where
  some : events ≠ []
  le : events.length ≤ limit
  nodup : (events.map IoEpoll.Event.fd).Nodup
  registered : ∀ e ∈ events, e.fd ∈ s.server.interest
  input : ∀ e ∈ events, e.epollin = true
  found : ∀ e ∈ events, s.found b e.fd = true

/-- `accept` returns `fd`, which is registered. -/
def acceptOne (fd : Int) (s : Server) : Option Server :=
  addEv fd
    { s with opened := insert fd s.opened, fd := fd, accepted := s.accepted ++ [fd] }

/-- A step with `max_open_files = limit`.  A process that exits goes no further. -/
inductive Step (b : Boot) (limit : Nat) : System → System → Prop
  | client (s : System) (net : Net Char) :
      Net.Env false s.net net → Step b limit s { s with net := net }
  | wait (s : System) (events : List IoEpoll.Event) :
      s.events = [] → limit ≤ epMaxEvents → Reports b limit s events →
      Step b limit s { s with events := events }
  /-- `epoll_wait` fails with `EINVAL`. -/
  | einval (s : System) :
      s.events = [] → limit = 0 ∨ epMaxEvents < limit → Step b limit s s
  | accept (s : System) (e : IoEpoll.Event) (events : List IoEpoll.Event) (fd : Int) (i : Nat)
      (c : Client Char) (rest : List Nat) (server : Server) :
      s.events = e :: events → e.fd = b.listener → s.net.backlog = i :: rest →
      s.net.clients[i]? = some c → Fresh s.server.opened fd → fd < limit →
      acceptOne fd s.server = some server →
      Step b limit s { s with server := server, net := s.net.take i c (.opened fd) }
  /-- `accept` fails with `EAGAIN`. -/
  | again (s : System) (e : IoEpoll.Event) (events : List IoEpoll.Event) :
      s.events = e :: events → e.fd = b.listener → s.net.backlog = [] →
      Step b limit s { s with server := { s.server with fd := -1 }, events := events }
  /-- `accept` fails with `EMFILE`. -/
  | emfile (s : System) (e : IoEpoll.Event) (events : List IoEpoll.Event) :
      s.events = e :: events → e.fd = b.listener → s.net.backlog ≠ [] →
      (∀ fd : Int, 0 ≤ fd → fd < limit → fd ∈ s.server.opened) →
      Step b limit s { s with server := { s.server with fd := -1 }, events := events }
  | recv (s : System) (e : IoEpoll.Event) (events : List IoEpoll.Event) (retRecv : Int)
      (server : Server) (net : Net Char) :
      s.events = e :: events → e.fd ≠ b.listener → Net.Receive lenBuf e.fd retRecv s.net net →
      turn b.listener ⟨e, [], retRecv⟩ s.server = some server →
      Step b limit s ⟨server, events, net⟩

/-- The server behind `ADD_EV(epoll_fd, fd_listener)`, and clients with these inputs. -/
def machine (b : Boot) (limit : Nat) (inputs : List (List Char)) : Machine System where
  init s := ∃ fd, s = ⟨⟨b.others, {b.listener}, fd, [], []⟩, [], ⟨inputs.map Client.start, []⟩⟩
  step := Step b limit

variable {b : Boot} {limit : Nat} {inputs : List (List Char)} {s t : System}
  {server : Server} {fds fds' : List Int} {fd : Int} {e : IoEpoll.Event}
  {events : List IoEpoll.Event}

/-! ## The server by itself -/

theorem acceptLoop_cons (fresh : Fresh server.opened fd) (more : List Int) :
    acceptLoop (fd :: more) server = (acceptOne fd server).bind (acceptLoop more) :=
  if_pos fresh

theorem dispatch_concat {listener : Int} {handled : List Turn} {s₀ s₁ : Server}
    (before : dispatch listener handled s₀ = some s₁) (t : Turn) :
    dispatch listener (handled ++ [t]) s₀ = turn listener t s₁ := by
  induction handled generalizing s₀ with
  | nil =>
      cases before
      exact Option.bind_fun_some _
  | cons u handled ih =>
      rw [dispatch] at before
      obtain ⟨s', first, rest⟩ := Option.bind_eq_some_iff.mp before
      rw [List.cons_append, dispatch, first]
      exact ih rest

/-- Where the server stands in its batch.  It has handled some of the turns, and of the calls of
`accept` in the listener's some have been made. -/
inductive Traced (b : Boot) (s : System) : Prop
  | wait : s.events = [] → (IoEpoll.machine b).Reachable s.server → Traced b s
  | turn (s₀ s₁ : Server) (handled : List Turn) (e : IoEpoll.Event) (events : List IoEpoll.Event) :
      s.events = e :: events → (IoEpoll.machine b).Reachable s₀ →
      (handled.map (fun t => t.event.fd) ++ s.events.map IoEpoll.Event.fd).Nodup →
      (∀ fd ∈ handled.map (fun t => t.event.fd) ++ s.events.map IoEpoll.Event.fd,
        fd ∈ s₀.interest) →
      dispatch b.listener handled s₀ = some s₁ →
      (s.server = s₁ ∨ e.fd = b.listener ∧
        ∃ accepts, ∀ more, acceptLoop (accepts ++ more) s₁ = acceptLoop more s.server) →
      Traced b s

/-- A turn has come to its end. -/
theorem Traced.next {s₀ s₁ : Server} {handled : List Turn} (t : Turn) (net : Net Char)
    (reached : (IoEpoll.machine b).Reachable s₀)
    (nodup : (handled.map (fun t => t.event.fd) ++ (t.event :: events).map IoEpoll.Event.fd).Nodup)
    (registered : ∀ fd ∈
      handled.map (fun t => t.event.fd) ++ (t.event :: events).map IoEpoll.Event.fd,
      fd ∈ s₀.interest)
    (before : dispatch b.listener handled s₀ = some s₁)
    (done : IoEpoll.turn b.listener t s₁ = some server) : Traced b ⟨server, events, net⟩ := by
  have after : dispatch b.listener (handled ++ [t]) s₀ = some server :=
    (dispatch_concat before t).trans done
  have fds : handled.map (fun t => t.event.fd) ++ (t.event :: events).map IoEpoll.Event.fd =
      (handled ++ [t]).map (fun t => t.event.fd) ++ events.map IoEpoll.Event.fd := by
    simp
  rw [fds] at nodup registered
  cases events with
  | nil =>
      rw [List.map_nil, List.append_nil] at nodup registered
      refine .wait rfl (reached.tail ⟨handled ++ [t], ⟨nodup, fun u member => ?_⟩, after⟩)
      exact registered u.event.fd (List.mem_map_of_mem member)
  | cons e events => exact .turn s₀ server _ e events rfl reached nodup registered after (.inl rfl)

/-! ## The server and its connections -/

/-- The descriptors of the server, with these connections. -/
structure Holds (b : Boot) (server : Server) (fds : List Int) : Prop where
  opened : ∀ x, x ∈ server.opened ↔ x ∈ b.others ∨ x ∈ fds
  interest : ∀ x, x ∈ server.interest ↔ x = b.listener ∨ x ∈ fds
  fresh : ∀ x ∈ fds, Fresh b.others x

theorem Holds.ne_listener (holds : Holds b server fds) (member : fd ∈ fds) : fd ≠ b.listener :=
  fun same => (holds.fresh fd member).2 (same ▸ b.listener_open)

/-- Only open descriptors are registered. -/
theorem Holds.subset (holds : Holds b server fds) : server.interest ⊆ server.opened := by
  intro x registered
  refine (holds.opened x).mpr ?_
  rcases (holds.interest x).mp registered with rfl | member
  · exact .inl b.listener_open
  · exact .inr member

theorem Holds.accept (holds : Holds b server fds) (new : Fresh server.opened fd)
    (perm : fds'.Perm (fd :: fds)) :
    ∃ server', acceptOne fd server = some server' ∧ Holds b server' fds' := by
  have absent : fd ∉ server.interest := fun registered => new.2 (holds.subset registered)
  have opened : fd ∈ insert fd server.opened := Finset.mem_insert_self fd _
  refine ⟨_, if_pos ⟨opened, absent⟩, fun x => ?_, fun x => ?_, fun x member => ?_⟩
  · rw [Finset.mem_insert, holds.opened, perm.mem_iff, List.mem_cons]
    exact or_left_comm
  · rw [Finset.mem_insert, holds.interest, perm.mem_iff, List.mem_cons]
    exact or_left_comm
  · rcases List.mem_cons.mp (perm.mem_iff.mp member) with rfl | old
    · exact ⟨new.1, fun taken => new.2 ((holds.opened x).mpr (.inl taken))⟩
    · exact holds.fresh x old

theorem Holds.delEv (holds : Holds b server fds) (nodup : fds.Nodup)
    (perm : (fd :: fds').Perm fds) :
    ∃ server', delEv fd server = some server' ∧ Holds b server' fds' := by
  have member : fd ∈ fds := perm.mem_iff.mp List.mem_cons_self
  have absent : fd ∉ fds' := (List.nodup_cons.mp (perm.nodup_iff.mpr nodup)).1
  have opened := (holds.opened fd).mpr (.inr member)
  have registered := (holds.interest fd).mpr (.inr member)
  have others : ∀ x, x ∈ fds' ↔ x ≠ fd ∧ x ∈ fds := by
    intro x
    rw [← perm.mem_iff, List.mem_cons]
    constructor
    · exact fun left => ⟨fun same => absent (same ▸ left), .inr left⟩
    · exact fun ⟨ne, among⟩ => among.resolve_left ne
  refine ⟨_, if_pos ⟨opened, registered⟩, fun x => ?_, fun x => ?_, fun x left => ?_⟩
  · rw [Finset.mem_erase, holds.opened, others]
    have apart : x ∈ b.others → x ≠ fd := fun taken same =>
      (holds.fresh fd member).2 (same ▸ taken)
    rw [and_or_left, and_iff_right_of_imp apart]
  · rw [Finset.mem_erase, holds.interest, others]
    have apart : x = b.listener → x ≠ fd := fun same same' =>
      holds.ne_listener member (same' ▸ same)
    rw [and_or_left, and_iff_right_of_imp apart]
  · exact holds.fresh x ((others x).mp left).2

/-- A client's turn. -/
theorem turn_client {retRecv : Int} (input : e.epollin = true) (client : e.fd ≠ b.listener)
    (healthy : retRecv ≠ -1) :
    turn b.listener ⟨e, [], retRecv⟩ server =
      if retRecv = 0 then IoEpoll.delEv e.fd server else some server := by
  simp only [turn, Turn.received, input, client, healthy, if_true, if_false]

/-! ## The invariant -/

/-- The events that are left report something, still, but for the listener's in whose turn the
server is. -/
structure Pending (b : Boot) (limit : Nat) (s : System) : Prop where
  le : s.events.length ≤ limit
  nodup : (s.events.map IoEpoll.Event.fd).Nodup
  input : ∀ e ∈ s.events, e.epollin = true
  found : ∀ e ∈ s.events, e.fd = b.listener ∨ s.net.ready e.fd = true
  accepts : ∀ e ∈ s.events.tail, e.fd = b.listener → s.net.backlog ≠ []

structure Inv (b : Boot) (limit : Nat) (inputs : List (List Char)) (s : System) : Prop where
  fits : Fits false inputs.length inputs s.net
  holds : Holds b s.server s.net.fds
  pending : Pending b limit s
  traced : Traced b s

/-- A turn has come to its end, and what the others are about is still there. -/
theorem Pending.next (pending : Pending b limit s) (front : s.events = e :: events)
    {net : Net Char} (ready : ∀ fd, fd ≠ e.fd → s.net.ready fd = true → net.ready fd = true)
    (waits : s.net.backlog ≠ [] → net.backlog ≠ []) :
    Pending b limit ⟨server, events, net⟩ := by
  obtain ⟨le, nodup, input, found, accepts⟩ := pending
  rw [front] at le nodup input found accepts
  obtain ⟨absent, nodup⟩ := List.nodup_cons.mp nodup
  refine ⟨Nat.le_of_succ_le le, nodup, fun e' member => input e' (List.mem_cons_of_mem _ member),
    fun e' member => ?_, fun e' member listener => ?_⟩
  · have other : e'.fd ≠ e.fd := fun same => absent (same ▸ List.mem_map_of_mem member)
    exact (found e' (List.mem_cons_of_mem _ member)).imp_right (ready e'.fd other)
  · exact waits (accepts e' (List.mem_of_mem_tail member) listener)

theorem Pending.client {net : Net Char} (pending : Pending b limit s)
    (env : Net.Env false s.net net) : Pending b limit { s with net := net } := by
  refine ⟨pending.le, pending.nodup, pending.input, fun e member => ?_, fun e member listener => ?_⟩
  · exact (pending.found e member).imp_right (ready_env env)
  · have waits := pending.accepts e member listener
    cases env with
    | connect i c here outside => exact List.append_ne_nil_of_left_ne_nil waits _
    | act i c c' here act => exact waits

/-- In the loop over `accept`. -/
theorem Pending.accept (pending : Pending b limit s) (front : s.events = e :: events)
    (listener : e.fd = b.listener) {net : Net Char}
    (ready : ∀ fd, s.net.ready fd = true → net.ready fd = true) :
    Pending b limit ⟨server, s.events, net⟩ := by
  have nodup := pending.nodup
  rw [front] at nodup
  have absent := (List.nodup_cons.mp nodup).1
  refine ⟨pending.le, pending.nodup, pending.input, fun e' member => ?_,
    fun e' member listener' => ?_⟩
  · exact (pending.found e' member).imp_right (ready e'.fd)
  · rw [front] at member
    exact absurd (List.mem_map_of_mem member) (listener'.trans listener.symm ▸ absent)

theorem Traced.client (traced : Traced b s) (net : Net Char) : Traced b { s with net := net } := by
  cases traced with
  | wait none reached => exact .wait none reached
  | turn s₀ s₁ handled e events front reached nodup registered before doing =>
      exact .turn s₀ s₁ handled e events front reached nodup registered before doing

theorem Traced.accept (traced : Traced b s) (front : s.events = e :: events)
    (listener : e.fd = b.listener) (new : Fresh s.server.opened fd)
    (accepted : acceptOne fd s.server = some server) (net : Net Char) :
    Traced b ⟨server, s.events, net⟩ := by
  cases traced with
  | wait none reached => cases none.symm.trans front
  | turn s₀ s₁ handled e' events' front' reached nodup registered before doing =>
      refine .turn s₀ s₁ handled e events front reached nodup registered before
        (.inr ⟨listener, ?_⟩)
      have goes (more : List Int) : acceptLoop (fd :: more) s.server = acceptLoop more server := by
        rw [acceptLoop_cons new, accepted]
        rfl
      rcases doing with rfl | ⟨-, accepts, so⟩
      · exact ⟨[fd], goes⟩
      · refine ⟨accepts ++ [fd], fun more => ?_⟩
        rw [List.append_assoc]
        exact (so (fd :: more)).trans (goes more)

theorem Traced.again (traced : Traced b s) (front : s.events = e :: events)
    (input : e.epollin = true) (listener : e.fd = b.listener) (net : Net Char) :
    Traced b ⟨{ s.server with fd := -1 }, events, net⟩ := by
  cases traced with
  | wait none reached => cases none.symm.trans front
  | turn s₀ s₁ handled e' events' front' reached nodup registered before doing =>
      cases front'.symm.trans front
      rw [front] at nodup registered
      have loop (accepts : List Int) :
          IoEpoll.turn b.listener ⟨e, accepts, 0⟩ s₁ = acceptLoop accepts s₁ := by
        simp only [IoEpoll.turn, input, listener, if_true]
      rcases doing with rfl | ⟨-, accepts, so⟩
      · exact .next ⟨e, [], 0⟩ net reached nodup registered before (loop [])
      · refine .next ⟨e, accepts, 0⟩ net reached nodup registered before ((loop accepts).trans ?_)
        have done := so []
        rwa [List.append_nil] at done

theorem Traced.recv (traced : Traced b s) (front : s.events = e :: events)
    (client : e.fd ≠ b.listener) {retRecv : Int}
    (done : IoEpoll.turn b.listener ⟨e, [], retRecv⟩ s.server = some server) (net : Net Char) :
    Traced b ⟨server, events, net⟩ := by
  cases traced with
  | wait none reached => cases none.symm.trans front
  | turn s₀ s₁ handled e' events' front' reached nodup registered before doing =>
      cases front'.symm.trans front
      rw [front] at nodup registered
      obtain rfl := doing.resolve_right fun both => client both.1
      exact .next ⟨e, [], retRecv⟩ net reached nodup registered before done

/-- What a client's turn does to the server, and to what it has. -/
theorem Holds.recv (holds : Holds b server fds) (nodup : fds.Nodup) {retRecv : Int}
    (input : e.epollin = true) (client : e.fd ≠ b.listener) (healthy : retRecv ≠ -1)
    (after : retRecv = 0 ∧ (e.fd :: fds').Perm fds ∨ retRecv ≠ 0 ∧ fds' = fds) :
    ∃ server', turn b.listener ⟨e, [], retRecv⟩ server = some server' ∧ Holds b server' fds' := by
  rw [turn_client input client healthy]
  rcases after with ⟨ended, perm⟩ | ⟨goes, rfl⟩
  · rw [if_pos ended]
    exact holds.delEv nodup perm
  · rw [if_neg goes]
    exact ⟨server, rfl, holds⟩

/-- An accepted connection is one as a server with room for all accepts it. -/
theorem Inv.matched_accept (inv : Inv b limit inputs s) {i : Nat} {c : Client Char}
    {rest : List Nat} (front : s.net.backlog = i :: rest) (here : s.net.clients[i]? = some c)
    (new : Fresh s.server.opened fd) :
    Service.Step lenBuf inputs.length false s.net (s.net.take i c (.opened fd)) := by
  have absent : fd ∉ s.net.fds := fun member =>
    new.2 ((inv.holds.opened fd).mpr (.inr member))
  exact .accept s.net i c rest fd front here absent (inv.fits.length_fds_lt front here)

theorem Inv.step (inv : Inv b limit inputs s) (step : Step b limit s t) :
    Inv b limit inputs t := by
  obtain ⟨fits, holds, pending, traced⟩ := inv
  cases step with
  | client net env =>
      have same : net.fds = s.net.fds := fds_env env
      have served : Service.Step lenBuf inputs.length false s.net net := .env s.net net env
      exact ⟨fits.step served, same ▸ holds, pending.client env, traced.client net⟩
  | wait events none _ reports =>
      refine ⟨fits, holds, ⟨reports.le, reports.nodup, reports.input, fun e member => ?_,
        fun e member listener => ?_⟩, ?_⟩
      · by_cases listener : e.fd = b.listener
        · exact .inl listener
        · have found := reports.found e member
          rw [System.found, if_neg listener] at found
          exact .inr found
      · have found := reports.found e (List.mem_of_mem_tail member)
        rw [System.found, if_pos listener, Bool.not_eq_true', List.isEmpty_eq_false_iff] at found
        exact found
      · cases traced with
        | turn s₀ s₁ handled e events front => cases none.symm.trans front
        | wait _ reached =>
            cases events with
            | nil => exact absurd rfl reports.some
            | cons e events =>
                refine .turn s.server s.server [] e events rfl reached reports.nodup
                  (fun fd member => ?_) rfl (.inl rfl)
                obtain ⟨e', among, rfl⟩ := List.mem_map.mp member
                exact reports.registered e' among
  | einval _ _ => exact ⟨fits, holds, pending, traced⟩
  | accept e events fd i c rest server front listener backlog here new _ accepted =>
      have waits := fits.place_eq backlog here
      obtain ⟨server', accepted', holds'⟩ := holds.accept new (fds_take here waits)
      cases accepted.symm.trans accepted'
      have served := Inv.matched_accept ⟨fits, holds, pending, traced⟩ backlog here new
      refine ⟨fits.step served, holds', ?_, traced.accept front listener new accepted _⟩
      exact pending.accept front listener fun fd' ready => ready_take here waits ready
  | again e events front listener empty =>
      have input := pending.input e (front ▸ List.mem_cons_self)
      exact ⟨fits, ⟨holds.opened, holds.interest, holds.fresh⟩,
        pending.next front (fun _ _ ready => ready) id, traced.again front input listener s.net⟩
  | emfile e events front listener _ _ =>
      have input := pending.input e (front ▸ List.mem_cons_self)
      exact ⟨fits, ⟨holds.opened, holds.interest, holds.fresh⟩,
        pending.next front (fun _ _ ready => ready) id, traced.again front input listener s.net⟩
  | recv e events retRecv server net front client receive done =>
      have input := pending.input e (front ▸ List.mem_cons_self)
      obtain ⟨server', done', holds'⟩ :=
        holds.recv fits.nodup input client (fits.ret_ne receive) (fds_receive receive)
      cases done.symm.trans done'
      refine ⟨fits.step (.receive s.net net e.fd retRecv receive), holds', ?_,
        traced.recv front client done net⟩
      refine pending.next front (fun fd ne ready => ready_receive receive ne ready) fun waits => ?_
      rw [receive.backlog_eq]
      exact waits

theorem inv_of_reachable (reached : (machine b limit inputs).Reachable s) :
    Inv b limit inputs s := by
  apply reached.invariant (P := Inv b limit inputs)
  · rintro s ⟨fd, rfl⟩
    refine ⟨fits_start inputs, ⟨fun x => ?_, fun x => ?_, fun x member => ?_⟩,
      ⟨Nat.zero_le _, List.nodup_nil, nofun, nofun, nofun⟩, .wait rfl (.of_init ⟨fd, rfl⟩)⟩
    · rw [fds_start]
      exact (or_iff_left List.not_mem_nil).symm
    · rw [fds_start, Finset.mem_singleton]
      exact (or_iff_left List.not_mem_nil).symm
    · rw [fds_start] at member
      cases member
  · exact fun s t _ inv step => inv.step step

/-- In front of `epoll_wait` the server is where batches of turns have taken it. -/
theorem reachable_server (reached : (machine b limit inputs).Reachable s)
    (none : s.events = []) : (IoEpoll.machine b).Reachable s.server := by
  cases (inv_of_reachable reached).traced with
  | wait _ reached => exact reached
  | turn s₀ s₁ handled e events front => cases none.symm.trans front

/-! ## Service -/

/-- How far it is to the next `accept` or `recv`. -/
def System.rank (b : Boot) (limit : Nat) (s : System) : Nat :=
  match s.events with
  | [] => limit + 1
  | [e] => if e.fd = b.listener ∧ s.net.backlog = [] then limit + 2 else 1
  | events => events.length

theorem Inv.rank_le (inv : Inv b limit inputs s) : s.rank b limit ≤ limit + 2 := by
  have le := inv.pending.le
  unfold System.rank
  split
  · omega
  · split <;> omega
  · omega

/-- The server has come nearer to `epoll_wait` unless events are left of which it has no news. -/
theorem Inv.rank_again (inv : Inv b limit inputs s) (front : s.events = e :: events)
    (listener : e.fd = b.listener) (empty : s.net.backlog = []) (server : Server) :
    System.rank b limit ⟨server, events, s.net⟩ < s.rank b limit := by
  have accepts := inv.pending.accepts
  rw [front, List.tail_cons] at accepts
  unfold System.rank
  rw [front]
  match events with
  | [] =>
      dsimp only
      rw [if_pos ⟨listener, empty⟩]
      exact Nat.lt_succ_self _
  | [e'] =>
      have other : ¬ (e'.fd = b.listener ∧ s.net.backlog = []) := fun both =>
        accepts e' List.mem_cons_self both.1 both.2
      dsimp only
      rw [if_neg other]
      exact Nat.one_lt_two
  | e' :: e'' :: events => exact Nat.lt_succ_self _

theorem rank_wait (none : s.events = []) (reports : Reports b limit s events) :
    System.rank b limit { s with events := events } < s.rank b limit := by
  have le := reports.le
  unfold System.rank
  rw [none]
  match events with
  | [] => exact absurd rfl reports.some
  | [e] =>
      have busy : ¬ (e.fd = b.listener ∧ s.net.backlog = []) := by
        rintro ⟨listener, empty⟩
        have found := reports.found e List.mem_cons_self
        rw [System.found, if_pos listener, empty] at found
        cases found
      dsimp only
      rw [if_neg busy]
      rw [List.length_singleton] at le
      omega
  | e :: e' :: events => exact Nat.lt_succ_of_le le

/-- There is a descriptor for a client that waits. -/
theorem Inv.exists_free (inv : Inv b limit inputs s)
    (enough : b.others.card + inputs.length ≤ limit) (waits : s.net.backlog ≠ []) :
    ∃ fd : Int, Fresh s.server.opened fd ∧ fd < limit := by
  obtain ⟨i, rest, front⟩ := List.exists_cons_of_ne_nil waits
  obtain ⟨c, here, -⟩ := (inv.fits.waits i).mp (front ▸ List.mem_cons_self)
  have fewer := inv.fits.length_fds_lt front here
  have opened : s.server.opened = b.others ∪ s.net.fds.toFinset := by
    ext x
    rw [inv.holds.opened, Finset.mem_union, List.mem_toFinset]
  have taken : s.server.opened.card < limit := by
    have union := Finset.card_union_le b.others s.net.fds.toFinset
    have connections := s.net.fds.toFinset_card_le
    rw [opened]
    omega
  obtain ⟨fd, low⟩ := exists_lowestFree s.server.opened
  have le := low.le_card
  exact ⟨fd, low.fresh, by omega⟩

theorem Inv.matched (inv : Inv b limit inputs s) (enough : b.others.card + inputs.length ≤ limit)
    (pos : 0 < limit) (low : limit ≤ epMaxEvents) (step : Step b limit s t) :
    Service.Step lenBuf inputs.length false s.net t.net ∨
      t.net = s.net ∧ t.rank b limit < s.rank b limit := by
  cases step with
  | client net env => exact .inl (.env s.net net env)
  | wait events none _ reports => exact .inr ⟨rfl, rank_wait none reports⟩
  | einval _ high => omega
  | accept e events fd i c rest server front listener backlog here new _ accepted =>
      exact .inl (inv.matched_accept backlog here new)
  | again e events front listener empty =>
      exact .inr ⟨rfl, inv.rank_again front listener empty _⟩
  | emfile e events front listener waits all =>
      obtain ⟨fd, fresh, less⟩ := inv.exists_free enough waits
      exact absurd (all fd fresh.1 less) fresh.2
  | recv e events retRecv server net front client receive done =>
      exact .inl (.receive s.net net e.fd retRecv receive)

/-- In the turn of an event the server can go on. -/
theorem Inv.exists_turn (inv : Inv b limit inputs s)
    (enough : b.others.card + inputs.length ≤ limit) (front : s.events = e :: events) :
    ∃ t, Step b limit s t := by
  have among : e ∈ s.events := front ▸ List.mem_cons_self
  by_cases listener : e.fd = b.listener
  · cases backlog : s.net.backlog with
    | nil => exact ⟨_, .again s e events front listener backlog⟩
    | cons i rest =>
        obtain ⟨c, here, waits⟩ := (inv.fits.waits i).mp (backlog ▸ List.mem_cons_self)
        obtain ⟨fd, fresh, less⟩ := inv.exists_free enough (backlog ▸ List.cons_ne_nil i rest)
        obtain ⟨server, accepted, -⟩ := inv.holds.accept fresh (fds_take here waits)
        exact ⟨_, .accept s e events fd i c rest server front listener backlog here fresh less
          accepted⟩
  · have ready := (inv.pending.found e among).resolve_left listener
    obtain ⟨retRecv, net, receive⟩ := exists_receive ready (show 0 < lenBuf by decide)
    obtain ⟨server, done, -⟩ := inv.holds.recv inv.fits.nodup (inv.pending.input e among) listener
      (inv.fits.ret_ne receive) (fds_receive receive)
    exact ⟨_, .recv s e events retRecv server net front listener receive done⟩

/-- `epoll_wait` returns where there is something to report. -/
theorem exists_wait (pos : 0 < limit) (low : limit ≤ epMaxEvents) (none : s.events = [])
    (registered : fd ∈ s.server.interest) (found : s.found b fd = true) :
    ∃ t, Step b limit s t := by
  refine ⟨_, .wait s [⟨fd, true, false, false⟩] none low
    ⟨List.cons_ne_nil _ _, pos, List.nodup_singleton _, ?_, ?_, ?_⟩⟩
  · exact fun e member => List.mem_singleton.mp member ▸ registered
  · exact fun e member => List.mem_singleton.mp member ▸ rfl
  · exact fun e member => List.mem_singleton.mp member ▸ found

theorem Inv.blocked (inv : Inv b limit inputs s) (enough : b.others.card + inputs.length ≤ limit)
    (pos : 0 < limit) (low : limit ≤ epMaxEvents) (stuck : (machine b limit inputs).Stuck s) :
    s.events = [] ∧ s.net.backlog = [] ∧ ∀ fd, s.net.ready fd = false := by
  have none : s.events = [] := by
    cases front : s.events with
    | nil => rfl
    | cons e events =>
        obtain ⟨t, step⟩ := inv.exists_turn enough front
        exact absurd step (stuck t)
  have waits {fd : Int} (registered : fd ∈ s.server.interest) : s.found b fd = false := by
    refine Bool.eq_false_iff.mpr fun found => ?_
    obtain ⟨t, step⟩ := exists_wait pos low none registered found
    exact stuck t step
  refine ⟨none, ?_, fun fd => Bool.eq_false_iff.mpr fun ready => ?_⟩
  · have quiet := waits ((inv.holds.interest b.listener).mpr (.inl rfl))
    rw [System.found, if_pos rfl, Bool.not_eq_false', List.isEmpty_iff] at quiet
    exact quiet
  · obtain ⟨c, member, opened, -⟩ := ready_iff.mp ready
    have among : fd ∈ s.net.fds := mem_fds.mpr ⟨c, member, opened⟩
    have quiet := waits ((inv.holds.interest fd).mpr (.inr among))
    rw [System.found, if_neg (inv.holds.ne_listener among)] at quiet
    cases ready.symm.trans quiet

theorem implements (b : Boot) (inputs : List (List Char))
    (enough : b.others.card + inputs.length ≤ limit) (pos : 0 < limit)
    (low : limit ≤ epMaxEvents) :
    Implements (machine b limit inputs) (fun _ => False) System.net (System.rank b limit) lenBuf
      inputs.length false inputs where
  init s start := by
    obtain ⟨fd, rfl⟩ := start
    rfl
  step s t reached step := (inv_of_reachable reached).matched enough pos low step
  bounded := ⟨limit + 2, fun s reached => (inv_of_reachable reached).rank_le⟩
  client s net _ env := ⟨_, .client s net env⟩
  blocked s reached _ stuck := ((inv_of_reachable reached).blocked enough pos low stuck).2

/-- Every event is the listener's or a client's. -/
theorem Inv.length_events_le (inv : Inv b limit inputs s) :
    s.events.length ≤ inputs.length + 1 := by
  have within : s.events.map IoEpoll.Event.fd ⊆ b.listener :: s.net.fds := by
    intro fd member
    obtain ⟨e, among, rfl⟩ := List.mem_map.mp member
    rcases inv.pending.found e among with listener | ready
    · exact listener ▸ List.mem_cons_self
    · obtain ⟨c, member, opened, -⟩ := ready_iff.mp ready
      exact List.mem_cons_of_mem _ (mem_fds.mpr ⟨c, member, opened⟩)
  have short := (inv.pending.nodup.subperm within).length_le
  have clients : s.net.fds.length ≤ s.net.clients.length := List.length_filterMap_le _ _
  rw [List.length_map, List.length_cons] at short
  rw [inv.fits.many] at clients
  omega

/-- The server waits, and no connection is open. -/
structure Idle (b : Boot) (s : System) : Prop where
  events : s.events = []
  interest : s.server.interest = {b.listener}
  opened : s.server.opened = b.others

/-- **Service.**  With a descriptor for each client, and a limit that is not too large for
`epoll_wait`, the events of every batch are inside `ep_events`, and every run ends, with the server
in `epoll_wait` and every client served. -/
theorem epollServer_terminates (b : Boot) (limit : Nat) (inputs : List (List Char))
    (enough : b.others.card + inputs.length ≤ limit) (low : limit ≤ epMaxEvents)
    (few : limit ≤ maxEpEvents ∨ inputs.length < maxEpEvents) :
    (∀ s, (machine b limit inputs).Reachable s → s.events.length ≤ maxEpEvents) ∧
      (machine b limit inputs).Terminates fun s =>
        Idle b s ∧ Service.Served inputs.length inputs s.net := by
  have some : 0 < b.others.card := Finset.card_pos.mpr ⟨b.listener, b.listener_open⟩
  have pos : 0 < limit := by omega
  have terminates := (implements b inputs enough pos low).terminates
  refine ⟨fun s reached => ?_, terminates.finite, fun s reached stuck => ?_⟩
  · have inv := inv_of_reachable reached
    rcases few with few | few
    · exact Nat.le_trans inv.pending.le few
    · exact Nat.le_trans inv.length_events_le few
  · have inv := inv_of_reachable reached
    have served := (terminates.ends s reached stuck id).2
    have none := served.fds
    refine ⟨⟨(inv.blocked enough pos low stuck).1, ?_, ?_⟩, served⟩
    · ext x
      rw [inv.holds.interest, none, Finset.mem_singleton]
      exact or_iff_left List.not_mem_nil
    · ext x
      rw [inv.holds.opened, none]
      exact or_iff_left List.not_mem_nil

/-- Two clients, and a limit of 1024 open files. -/
theorem epollServer_two :
    (∀ s, (machine epollBoot 1024 [['a', 'b'], []]).Reachable s →
        s.events.length ≤ maxEpEvents) ∧
      (machine epollBoot 1024 [['a', 'b'], []]).Terminates fun s =>
        Idle epollBoot s ∧ Service.Served [['a', 'b'], []].length [['a', 'b'], []] s.net :=
  epollServer_terminates epollBoot 1024 [['a', 'b'], []] (by decide) (by decide) (by decide)

end Alnp.EpollService
