import Alnp.Lib.Progress
import Alnp.Prefork.Model

/-!
# `unix_tcp_clnt.c` with `unix_tcp_serv.c`

Any number of clients of `Chapter06/unix_tcp_clnt.c` at a server of `Chapter06/unix_tcp_serv.c`.  A
client connects and then sends the time and waits for an answer, over and over, until it is ended
from outside; the children of the server take the connections from the backlog and send back what
they receive.  The children are those of `Alnp.Prefork`; the sockets between them and the clients
decide what their calls return.

* `echoed_of_reachable`: the answers are the messages, one by one, and a client that waits in a
  session has its answer or a child that can give it.
* `ended_le_left`: a child ends only through a client that has left without its answer, and each
  such client ends at most one.
-/

namespace Alnp.Prefork.Echo

/-- What `ctime` returns, without its newline. -/
def lenCtime : Nat := 24

/-- `sizeof(rbuf)` -/
def sizeRbuf : Nat := 2048

/-- The second argument of `listen`. -/
def backlogMax : Nat := 10

def econnreset : Errno := ⟨104, by decide⟩

/-- Where a client is. -/
inductive Place
  | connect
  | send
  | recv
  /-- It has been ended from outside. -/
  | gone
deriving DecidableEq

structure Client where
  place : Place
  /-- The messages sent. -/
  sent : List (List Int8)
  /-- What `recv` has returned. -/
  got : List (List Int8)
  /-- The bytes in its socket on their way to the server. -/
  toServer : List Int8
  /-- The bytes on their way to it. -/
  toClient : List Int8

/-- A child of the server, and whose connection it has taken. -/
structure Server where
  child : Child
  peer : Option Nat

structure System where
  clients : List Client
  servers : List Server
  /-- The connections that nobody has taken yet. -/
  backlog : List Nat

/-- The child at the other end of a connection has ended. -/
def Broken (s : System) (i : Nat) : Prop :=
  ∃ sv ∈ s.servers, sv.peer = some i ∧ sv.child.pc = .exited

inductive Step : System → System → Prop
  | connect (s : System) (i : Nat) (c : Client) :
      s.clients[i]? = some c → c.place = .connect → s.backlog.length ≤ backlogMax →
      Step s
        { s with
          clients := s.clients.set i { c with place := .send }, backlog := s.backlog ++ [i] }
  | send (s : System) (i : Nat) (c : Client) (m : List Int8) :
      s.clients[i]? = some c → c.place = .send → ¬ Broken s i → m.length = lenCtime →
      Step s
        { s with
          clients := s.clients.set i
            { c with place := .recv, sent := c.sent ++ [m], toServer := c.toServer ++ m } }
  /-- `send` at a broken connection ends the client. -/
  | sendBroken (s : System) (i : Nat) (c : Client) :
      s.clients[i]? = some c → c.place = .send → Broken s i →
      Step s { s with clients := s.clients.set i { c with place := .gone } }
  | recv (s : System) (i : Nat) (c : Client) :
      s.clients[i]? = some c → c.place = .recv → c.toClient ≠ [] →
      Step s
        { s with
          clients := s.clients.set i
            { c with
              place := .send
              got := c.got ++ [c.toClient.take sizeRbuf]
              toClient := c.toClient.drop sizeRbuf } }
  /-- `recv` returns 0 or -1, and the loop goes on. -/
  | recvBroken (s : System) (i : Nat) (c : Client) :
      s.clients[i]? = some c → c.place = .recv → c.toClient = [] → Broken s i →
      Step s { s with clients := s.clients.set i { c with place := .send, got := c.got ++ [[]] } }
  | leave (s : System) (i : Nat) (c : Client) :
      s.clients[i]? = some c → c.place ≠ .gone →
      Step s { s with clients := s.clients.set i { c with place := .gone } }
  | accept (s : System) (k i : Nat) (rest : List Nat) (sv : Server) (cfd rcGai : Int)
      (child : Child) :
      s.servers[k]? = some sv → s.backlog = i :: rest →
      ChildStep .unixTcpServ sv.child (.accept (.fd cfd) rcGai) child →
      Step s { s with servers := s.servers.set k ⟨child, some i⟩, backlog := rest }
  /-- `recv` finds bytes, and `send` puts the answer into the socket. -/
  | answer (s : System) (k i : Nat) (sv : Server) (c : Client) (child : Child) (len : Nat)
      (reply : List Int8) :
      s.servers[k]? = some sv → sv.peer = some i → s.clients[i]? = some c →
      c.toServer ≠ [] → c.place ≠ .gone →
      ChildStep .unixTcpServ sv.child (.recv (.data (c.toServer.take sizeBuf)) (.sent len)) child →
      child.replies = sv.child.replies ++ [reply] →
      Step s
        { s with
          servers := s.servers.set k ⟨child, some i⟩
          clients := s.clients.set i
            { c with
              toServer := c.toServer.drop sizeBuf, toClient := c.toClient ++ reply } }
  /-- The client has left: `send` raises `SIGPIPE`. -/
  | sigpipe (s : System) (k i : Nat) (sv : Server) (c : Client) (child : Child) :
      s.servers[k]? = some sv → sv.peer = some i → s.clients[i]? = some c →
      c.toServer ≠ [] → c.place = .gone →
      ChildStep .unixTcpServ sv.child (.recv (.data (c.toServer.take sizeBuf)) .sigpipe) child →
      Step s
        { s with
          servers := s.servers.set k ⟨child, some i⟩
          clients := s.clients.set i { c with toServer := c.toServer.drop sizeBuf } }
  /-- The client has left, and there are no more bytes from it. -/
  | eof (s : System) (k i : Nat) (sv : Server) (c : Client) (child : Child) (sent : Sent) :
      s.servers[k]? = some sv → sv.peer = some i → s.clients[i]? = some c →
      c.toServer = [] → c.toClient = [] → c.place = .gone →
      ChildStep .unixTcpServ sv.child (.recv .eof sent) child →
      Step s { s with servers := s.servers.set k ⟨child, none⟩ }
  /-- It has left with an answer that it has not read. -/
  | reset (s : System) (k i : Nat) (sv : Server) (c : Client) (child : Child) (sent : Sent) :
      s.servers[k]? = some sv → sv.peer = some i → s.clients[i]? = some c →
      c.toServer = [] → c.toClient ≠ [] → c.place = .gone →
      ChildStep .unixTcpServ sv.child (.recv (.failed econnreset) sent) child →
      Step s { s with servers := s.servers.set k ⟨child, none⟩ }

/-- A client at its start. -/
def Client.start : Client := ⟨.connect, [], [], [], []⟩

/-- The server with all its children forked, and clients that have not connected. -/
def machine : Machine System where
  init s := (∀ c ∈ s.clients, c = Client.start) ∧ s.servers.length = maxPool ∧
    (∀ sv ∈ s.servers, sv.child.Started ∧ sv.peer = none) ∧ s.backlog = []
  step := Step

/-! ## The turns of a child -/

variable {c c' : Child} {cfd rcGai : Int} {bytes : List Int8} {len : Nat} {sent : Sent}

/-- The child is in a session. -/
structure InSession (c : Child) (cfd : Int) : Prop where
  pc : c.pc = .recv cfd
  out : c.sockets.Opened cfd

theorem child_accept (step : ChildStep .unixTcpServ c (.accept (.fd cfd) rcGai) c') :
    InSession c' cfd := by
  cases step with
  | accept _ _ pc possible => exact ⟨rfl, Ledger.opened_accept.mpr (.inl rfl)⟩

theorem child_data (step : ChildStep .unixTcpServ c (.recv (.data bytes) (.sent len)) c')
    (session : InSession c cfd) :
    InSession c' cfd ∧ c'.replies = c.replies ++ [bytes] := by
  cases step with
  | recv cfd' received sent pc possible =>
      cases session.pc.symm.trans pc
      refine ⟨⟨session.pc, ?_⟩, ?_⟩
      · exact Ledger.opened_use.mpr (Ledger.opened_use.mpr session.out)
      · change c.replies ++ [(bytes ++ c.memory.drop bytes.length).take bytes.length] = _
        rw [List.take_left]

theorem child_sigpipe (step : ChildStep .unixTcpServ c (.recv (.data bytes) .sigpipe) c') :
    c'.pc = .exited := by
  cases step
  rfl

theorem child_eof (step : ChildStep .unixTcpServ c (.recv .eof sent) c') : c'.pc = .accept := by
  cases step
  rfl

theorem child_reset (step : ChildStep .unixTcpServ c (.recv (.failed econnreset) sent) c') :
    c'.pc = .accept := by
  cases step with
  | recv cfd received sent pc possible =>
      have other : econnreset ≠ eintr := by decide
      change (UnixTcpServ.received cfd (.failed econnreset) sent c).pc = .accept
      rw [UnixTcpServ.received, if_neg other]
      rfl

/-- In a session the child can answer what it finds. -/
theorem exists_answer (session : InSession c cfd) (some : bytes ≠ [])
    (short : bytes.length ≤ sizeBuf) :
    ∃ c', ChildStep .unixTcpServ c (.recv (.data bytes) (.sent bytes.length)) c' :=
  ⟨_, .recv c cfd _ _ session.pc ⟨session.out, List.length_pos_iff.mpr some, short⟩⟩

/-! ## The invariant -/

/-- How a client and its connection may stand. -/
inductive Talk : Client → Prop
  /-- All messages have been answered. -/
  | even (place : Place) (got : List (List Int8)) :
      place ≠ .recv → Talk ⟨place, got, got, [], []⟩
  /-- The last message is on its way. -/
  | asked (place : Place) (got : List (List Int8)) (m : List Int8) :
      place = .recv ∨ place = .gone → m.length = lenCtime → Talk ⟨place, got ++ [m], got, m, []⟩
  /-- The answer is on its way. -/
  | answered (place : Place) (got : List (List Int8)) (m : List Int8) :
      place = .recv ∨ place = .gone → m.length = lenCtime → Talk ⟨place, got ++ [m], got, [], m⟩
  /-- The answer has come too late. -/
  | lost (got : List (List Int8)) (m : List Int8) : Talk ⟨.gone, got ++ [m], got, [], []⟩

/-- The client has left without its answer. -/
def Client.Left (c : Client) : Prop := c.place = .gone ∧ c.got.length < c.sent.length

instance (c : Client) : Decidable c.Left := inferInstanceAs (Decidable (_ ∧ _))

/-- The server has the connection. -/
def serves (i : Nat) (sv : Server) : Nat := if sv.peer = some i then 1 else 0

/-- How often a connection is in the backlog or taken. -/
def seats (s : System) (i : Nat) : Nat := s.backlog.count i + total (serves i) s.servers

/-- How a child may stand. -/
def Posted (clients : List Client) (sv : Server) : Prop :=
  match sv.child.pc with
  | .accept => sv.peer = none
  | .recv cfd => sv.child.sockets.Opened cfd ∧ sv.peer ≠ none
  | .exited => ∃ i c, sv.peer = some i ∧ clients[i]? = some c ∧ c.Left

structure Inv (s : System) : Prop where
  talk : ∀ c ∈ s.clients, Talk c
  /-- A connection is in one place. -/
  once : ∀ i, seats s i ≤ 1
  connected : ∀ i, 0 < seats s i → ∃ c, s.clients[i]? = some c ∧ c.place ≠ .connect
  seated : ∀ (i : Nat) (c : Client), s.clients[i]? = some c → c.place = .send ∨ c.place = .recv →
    0 < seats s i
  posted : ∀ sv ∈ s.servers, Posted s.clients sv
  pool : s.servers.length = maxPool

/-- What the rest of the system sees of a client that goes on. -/
structure Ages (c c' : Client) : Prop where
  connected : c.place ≠ .connect → c'.place ≠ .connect
  left : c.Left → c'.Left

theorem ages_of_place {c c' : Client} (before : c.place ≠ .gone) (behind : c'.place ≠ .connect) :
    Ages c c' :=
  ⟨fun _ => behind, fun left => absurd left.1 before⟩

section Clients

variable {s : System} {i : Nat} {c c' : Client}

theorem exists_of_set {P : Client → Prop} (here : s.clients[i]? = some c) (carry : P c → P c')
    {j : Nat} (found : ∃ d, s.clients[j]? = some d ∧ P d) :
    ∃ d, (s.clients.set i c')[j]? = some d ∧ P d := by
  obtain ⟨d, there, holds⟩ := found
  by_cases same : i = j
  · subst same
    cases here.symm.trans there
    exact ⟨c', List.getElem?_set_self (List.getElem?_eq_some_iff.mp here).1, carry holds⟩
  · exact ⟨d, (List.getElem?_set_ne same).trans there, holds⟩

theorem posted_set (here : s.clients[i]? = some c) (ages : Ages c c') {sv : Server}
    (posted : Posted s.clients sv) : Posted (s.clients.set i c') sv := by
  unfold Posted at posted ⊢
  split at posted
  · exact posted
  · exact posted
  · obtain ⟨j, d, peer, there, left⟩ := posted
    obtain ⟨d', there', left'⟩ := exists_of_set here ages.left ⟨d, there, left⟩
    exact ⟨j, d', peer, there', left'⟩

/-- A client goes on by itself. -/
theorem Inv.client (inv : Inv s) (here : s.clients[i]? = some c) (ages : Ages c c')
    (talk : Talk c') (waits : c'.place = .send ∨ c'.place = .recv → 0 < seats s i) :
    Inv { s with clients := s.clients.set i c' } := by
  refine ⟨fun d member => ?_, inv.once, fun j some => ?_, fun j d there place => ?_,
    fun sv member => posted_set here ages (inv.posted sv member), inv.pool⟩
  · rcases List.mem_or_eq_of_mem_set member with old | rfl
    · exact inv.talk d old
    · exact talk
  · exact exists_of_set (P := fun d => d.place ≠ .connect) here ages.connected
      (inv.connected j some)
  · by_cases same : i = j
    · subst same
      rw [List.getElem?_set_self (List.getElem?_eq_some_iff.mp here).1] at there
      cases there
      exact waits place
    · rw [List.getElem?_set_ne same] at there
      exact inv.seated j d there place

end Clients

section Servers

variable {s : System} {k : Nat} {sv sv' : Server} {backlog : List Nat}

/-- A child goes on. -/
theorem Inv.server (inv : Inv s) (posted : Posted s.clients sv')
    (fewer : ∀ j, seats { s with servers := s.servers.set k sv', backlog := backlog } j ≤ seats s j)
    (keeps : ∀ (j : Nat) (c : Client), s.clients[j]? = some c → c.place ≠ .gone →
      seats { s with servers := s.servers.set k sv', backlog := backlog } j = seats s j) :
    Inv { s with servers := s.servers.set k sv', backlog := backlog } := by
  refine ⟨inv.talk, fun j => le_trans (fewer j) (inv.once j),
    fun j some => inv.connected j (Nat.lt_of_lt_of_le some (fewer j)), fun j c there place => ?_,
    fun w member => ?_, List.length_set.trans inv.pool⟩
  · have stays : c.place ≠ .gone := by
      intro gone
      rcases place with place | place
      · cases place.symm.trans gone
      · cases place.symm.trans gone
    rw [keeps j c there stays]
    exact inv.seated j c there place
  · rcases List.mem_or_eq_of_mem_set member with old | rfl
    · exact inv.posted w old
    · exact posted

/-- The seats when the peer of a child changes. -/
theorem seats_set (sv' : Server) (backlog : List Nat) (there : s.servers[k]? = some sv)
    (j : Nat) :
    seats { s with servers := s.servers.set k sv', backlog := backlog } j + serves j sv +
        s.backlog.count j =
      seats s j + serves j sv' + backlog.count j := by
  have balance := total_set (serves j) sv' there
  unfold seats
  dsimp only
  omega

/-- It keeps its peer. -/
theorem seats_of_peer (sv' : Server) (there : s.servers[k]? = some sv)
    (same : sv'.peer = sv.peer) (j : Nat) :
    seats { s with servers := s.servers.set k sv' } j = seats s j := by
  have balance := seats_set sv' s.backlog there j
  have keeps : serves j sv' = serves j sv := by rw [serves, serves, same]
  omega

end Servers

variable {s t : System}

/-- A broken connection is that of a client that has left. -/
theorem gone_of_broken (inv : Inv s) {i : Nat} {c : Client} (here : s.clients[i]? = some c)
    (broken : Broken s i) : c.place = .gone := by
  obtain ⟨sv, member, peer, exited⟩ := broken
  have posted := inv.posted sv member
  rw [Posted, exited] at posted
  obtain ⟨j, d, peer', there, left⟩ := posted
  cases peer.symm.trans peer'
  cases here.symm.trans there
  exact left.1

/-- A child at `recv` is in a session, as it has taken no more than one turn since. -/
theorem Posted.session {clients : List Client} {sv : Server} (posted : Posted clients sv)
    {cfd : Int} (pc : sv.child.pc = .recv cfd) : InSession sv.child cfd := by
  rw [Posted, pc] at posted
  exact ⟨pc, posted.1⟩

theorem recv_of_step {received : Received} {sent : Sent} {c c' : Child}
    (step : ChildStep .unixTcpServ c (.recv received sent) c') : ∃ cfd, c.pc = .recv cfd := by
  cases step with
  | recv cfd received sent pc possible => exact ⟨cfd, pc⟩

/-- A new connection has not been in the backlog. -/
theorem Inv.connect (inv : Inv s) {i : Nat} {c : Client} (here : s.clients[i]? = some c)
    (place : c.place = .connect) :
    Inv { s with
      clients := s.clients.set i { c with place := .send }, backlog := s.backlog ++ [i] } := by
  have none : seats s i = 0 := by
    by_contra some
    obtain ⟨d, there, other⟩ := inv.connected i (Nat.pos_of_ne_zero some)
    cases here.symm.trans there
    exact other place
  have more (j : Nat) : seats { s with backlog := s.backlog ++ [i] } j =
      seats s j + if i = j then 1 else 0 := by
    unfold seats
    rw [List.count_append, List.count_singleton, Nat.add_right_comm]
    simp
  have self := List.getElem?_set_self (a := { c with place := Place.send })
    (List.getElem?_eq_some_iff.mp here).1
  have ages : Ages c { c with place := .send } := ages_of_place (by rw [place]; nofun) nofun
  refine ⟨fun d member => ?_, fun j => ?_, fun j some => ?_, fun j d there' waits => ?_,
    fun sv member => posted_set here ages (inv.posted sv member), inv.pool⟩
  · rcases List.mem_or_eq_of_mem_set member with old | rfl
    · exact inv.talk d old
    · have talk := inv.talk c (List.mem_of_getElem? here)
      cases talk with
      | even p got other => exact .even _ got nofun
      | asked p got m other length => cases place; rcases other with other | other <;> cases other
      | answered p got m other length =>
          cases place; rcases other with other | other <;> cases other
      | lost got m => cases place
  · have before := inv.once j
    have now := more j
    change seats { s with backlog := s.backlog ++ [i] } j ≤ 1
    by_cases same : i = j
    · subst same
      rw [if_pos rfl] at now
      omega
    · rw [if_neg same] at now
      omega
  · by_cases same : i = j
    · subst same
      exact ⟨_, self, nofun⟩
    · have now := more j
      rw [if_neg same] at now
      have old : 0 < seats s j := Nat.lt_of_lt_of_eq some now
      obtain ⟨d, there', other⟩ := inv.connected j old
      exact ⟨d, (List.getElem?_set_ne same).trans there', other⟩
  · have now := more j
    change 0 < seats { s with backlog := s.backlog ++ [i] } j
    by_cases same : i = j
    · rw [if_pos same] at now
      omega
    · rw [List.getElem?_set_ne same] at there'
      have old := inv.seated j d there' waits
      omega

/-- The first connection of the backlog goes to a child. -/
theorem Inv.accept (inv : Inv s) {k i : Nat} {rest : List Nat} {sv : Server} {child : Child}
    (there : s.servers[k]? = some sv) (queue : s.backlog = i :: rest)
    (step : ChildStep .unixTcpServ sv.child (.accept (.fd cfd) rcGai) child) :
    Inv { s with servers := s.servers.set k ⟨child, some i⟩, backlog := rest } := by
  have session := child_accept step
  have free : sv.peer = none := by
    have posted := inv.posted sv (List.mem_of_getElem? there)
    cases step with
    | accept _ _ pc _ =>
        rw [Posted, pc] at posted
        exact posted
  have same (j : Nat) :
      seats { s with servers := s.servers.set k ⟨child, some i⟩, backlog := rest } j =
        seats s j := by
    have balance := seats_set ⟨child, some i⟩ rest there j
    have before : serves j sv = 0 := by rw [serves, free]; rfl
    have behind : serves j ⟨child, some i⟩ = if i = j then 1 else 0 := by simp [serves]
    have first : s.backlog.count j = rest.count j + if i = j then 1 else 0 := by
      rw [queue, List.count_cons]
      simp
    omega
  refine inv.server ?_ (fun j => (same j).le) fun j _ _ _ => same j
  rw [Posted, session.pc]
  exact ⟨session.out, nofun⟩

theorem Inv.answer (inv : Inv s) {k i : Nat} {sv : Server} {c : Client} {child : Child}
    {reply : List Int8} (there : s.servers[k]? = some sv) (peer : sv.peer = some i)
    (here : s.clients[i]? = some c) (some : c.toServer ≠ []) (stays : c.place ≠ .gone)
    (step : ChildStep .unixTcpServ sv.child
      (.recv (.data (c.toServer.take sizeBuf)) (.sent len)) child)
    (added : child.replies = sv.child.replies ++ [reply]) :
    Inv { s with
      servers := s.servers.set k ⟨child, Option.some i⟩
      clients := s.clients.set i
        { c with toServer := c.toServer.drop sizeBuf, toClient := c.toClient ++ reply } } := by
  obtain ⟨cfd, pc⟩ := recv_of_step step
  have before := (inv.posted sv (List.mem_of_getElem? there)).session pc
  obtain ⟨session, replies⟩ := child_data step before
  have is : reply = c.toServer.take sizeBuf :=
    List.singleton_inj.mp (List.append_cancel_left (added.symm.trans replies))
  have same := seats_of_peer ⟨child, Option.some i⟩ there peer.symm
  have served : Inv { s with servers := s.servers.set k ⟨child, Option.some i⟩ } := by
    refine inv.server ?_ (fun j => (same j).le) fun j _ _ _ => same j
    rw [Posted, session.pc]
    exact ⟨session.out, nofun⟩
  refine served.client here ⟨id, fun left => absurd left.1 stays⟩ ?_ fun waits => ?_
  · have talk := inv.talk c (List.mem_of_getElem? here)
    cases talk with
    | even p got other => exact absurd rfl some
    | asked p got m other length =>
        have whole : m.take sizeBuf = m := List.take_of_length_le (by rw [length]; decide)
        have rest : m.drop sizeBuf = [] := List.drop_of_length_le (by rw [length]; decide)
        dsimp only at is ⊢
        rw [is, whole, rest]
        exact .answered p got m other length
    | answered p got m other length => exact absurd rfl some
    | lost got m => exact absurd rfl some
  · exact served.seated i c here waits

theorem Inv.sigpipe (inv : Inv s) {k i : Nat} {sv : Server} {c : Client} {child : Child}
    (there : s.servers[k]? = some sv) (peer : sv.peer = some i) (here : s.clients[i]? = some c)
    (some : c.toServer ≠ []) (gone : c.place = .gone)
    (step : ChildStep .unixTcpServ sv.child
      (.recv (.data (c.toServer.take sizeBuf)) .sigpipe) child) :
    Inv { s with
      servers := s.servers.set k ⟨child, Option.some i⟩
      clients := s.clients.set i { c with toServer := c.toServer.drop sizeBuf } } := by
  have talk := inv.talk c (List.mem_of_getElem? here)
  have same := seats_of_peer ⟨child, Option.some i⟩ there peer.symm
  have left : c.Left := by
    refine ⟨gone, ?_⟩
    cases talk with
    | even p got other => exact absurd rfl some
    | asked p got m other length => simp
    | answered p got m other length => exact absurd rfl some
    | lost got m => exact absurd rfl some
  have served : Inv { s with servers := s.servers.set k ⟨child, Option.some i⟩ } := by
    refine inv.server ?_ (fun j => (same j).le) fun j _ _ _ => same j
    rw [Posted, child_sigpipe step]
    exact ⟨i, c, rfl, here, left⟩
  refine served.client here ⟨id, id⟩ ?_ fun waits => ?_
  · cases talk with
    | even p got other => exact absurd rfl some
    | asked p got m other length =>
        cases gone
        have rest : m.drop sizeBuf = [] := List.drop_of_length_le (by rw [length]; decide)
        dsimp only
        rw [rest]
        exact .lost got m
    | answered p got m other length => exact absurd rfl some
    | lost got m => exact absurd rfl some
  · rcases waits with waits | waits <;> cases gone.symm.trans waits

/-- A session ends once its client has left. -/
theorem Inv.endSession (inv : Inv s) {k i : Nat} {sv : Server} {c : Client} {child : Child}
    (there : s.servers[k]? = some sv) (peer : sv.peer = some i) (here : s.clients[i]? = some c)
    (gone : c.place = .gone) (pc : child.pc = .accept) :
    Inv { s with servers := s.servers.set k ⟨child, none⟩ } := by
  have balance (j : Nat) := seats_set ⟨child, none⟩ s.backlog there j
  have nobody (j : Nat) : serves j ⟨child, none⟩ = 0 := rfl
  refine inv.server ?_ (fun j => ?_) fun j d other stays => ?_
  · rw [Posted, pc]
  · have balance := balance j
    rw [nobody] at balance
    omega
  · have balance := balance j
    have elsewhere : serves j sv = 0 := by
      rw [serves, peer, if_neg]
      intro same
      cases same
      cases here.symm.trans other
      exact stays gone
    rw [nobody] at balance
    omega

theorem Inv.step (inv : Inv s) (step : Step s t) : Inv t := by
  cases step with
  | connect i c here place room => exact inv.connect here place
  | send i c m here place whole length =>
      have talk := inv.talk c (List.mem_of_getElem? here)
      refine inv.client here (ages_of_place (by rw [place]; nofun) nofun) ?_
        fun _ => inv.seated i c here (.inl place)
      cases talk with
      | even p got other => exact .asked _ got m (.inl rfl) length
      | asked p got m' other length => cases place; rcases other with other | other <;> cases other
      | answered p got m' other length =>
          cases place; rcases other with other | other <;> cases other
      | lost got m' => cases place
  | sendBroken i c here place broken => cases place.symm.trans (gone_of_broken inv here broken)
  | recv i c here place some =>
      have talk := inv.talk c (List.mem_of_getElem? here)
      refine inv.client here (ages_of_place (by rw [place]; nofun) nofun) ?_
        fun _ => inv.seated i c here (.inr place)
      cases talk with
      | even p got other => exact absurd place other
      | asked p got m other length => exact absurd rfl some
      | answered p got m other length =>
          have whole : m.take sizeRbuf = m := List.take_of_length_le (by rw [length]; decide)
          have rest : m.drop sizeRbuf = [] := List.drop_of_length_le (by rw [length]; decide)
          dsimp only
          rw [whole, rest]
          exact .even _ _ nofun
      | lost got m => cases place
  | recvBroken i c here place none broken => cases place.symm.trans (gone_of_broken inv here broken)
  | leave i c here place =>
      have talk := inv.talk c (List.mem_of_getElem? here)
      refine inv.client here (ages_of_place place nofun) ?_ fun other => by
        rcases other with other | other <;> cases other
      cases talk with
      | even p got other => exact .even _ got nofun
      | asked p got m other length => exact .asked _ got m (.inr rfl) length
      | answered p got m other length => exact .answered _ got m (.inr rfl) length
      | lost got m => exact .lost got m
  | accept k i rest sv cfd rcGai child there queue step => exact inv.accept there queue step
  | answer k i sv c child len reply there peer here some stays step added =>
      exact inv.answer there peer here some stays step added
  | sigpipe k i sv c child there peer here some gone step =>
      exact inv.sigpipe there peer here some gone step
  | eof k i sv c child sent there peer here none none' gone step =>
      exact inv.endSession there peer here gone (child_eof step)
  | reset k i sv c child sent there peer here none some gone step =>
      exact inv.endSession there peer here gone (child_reset step)

theorem inv_of_reachable (reached : machine.Reachable s) : Inv s := by
  apply reached.invariant (P := Inv)
  · rintro s ⟨clients, pool, servers, backlog⟩
    have nobody (i : Nat) : seats s i = 0 := by
      rw [seats, backlog, List.count_nil, Nat.zero_add, total]
      refine List.sum_eq_zero fun n member => ?_
      obtain ⟨sv, among, rfl⟩ := List.mem_map.mp member
      rw [serves, (servers sv among).2]
      rfl
    refine ⟨fun c member => ?_, fun i => (nobody i).le.trans zero_le_one, fun i some => ?_,
      fun i c here place => ?_, fun sv member => ?_, pool⟩
    · rw [clients c member]
      exact .even .connect [] (by decide)
    · rw [nobody i] at some
      cases some
    · rw [clients c (List.mem_of_getElem? here)] at place
      rcases place with place | place <;> cases place
    · obtain ⟨⟨memory, -, started⟩, peer⟩ := servers sv member
      rw [Posted, started]
      exact peer
  · exact fun s t _ inv step => inv.step step

/-! ## The results -/

theorem Talk.exists_open {c : Client} (talk : Talk c) :
    ∃ unanswered, c.sent = c.got ++ unanswered ∧ unanswered.length ≤ 1 ∧
      (c.place = .send → unanswered = []) := by
  cases talk with
  | even place got other => exact ⟨[], (List.append_nil got).symm, Nat.zero_le 1, fun _ => rfl⟩
  | asked place got m waits length =>
      refine ⟨[m], rfl, le_rfl, fun sends => ?_⟩
      rcases waits with waits | waits <;> cases waits.symm.trans sends
  | answered place got m waits length =>
      refine ⟨[m], rfl, le_rfl, fun sends => ?_⟩
      rcases waits with waits | waits <;> cases waits.symm.trans sends
  | lost got m => exact ⟨[m], rfl, le_rfl, nofun⟩

/-- A client that waits has its answer, or its message is on its way. -/
theorem Talk.waiting {c : Client} (talk : Talk c) (waits : c.place = .recv) :
    c.toClient ≠ [] ∨ c.toServer ≠ [] ∧ (c.toServer.take sizeBuf).length ≤ sizeBuf ∧
      c.toServer.take sizeBuf ≠ [] := by
  have nonempty {m : List Int8} (length : m.length = lenCtime) : m ≠ [] := by
    rintro rfl
    cases length
  cases talk with
  | even place got other => exact absurd waits other
  | asked place got m either length =>
      have whole : m.take sizeBuf = m := List.take_of_length_le (by rw [length]; decide)
      refine .inr ⟨nonempty length, List.length_take_le .., ?_⟩
      rw [whole]
      exact nonempty length
  | answered place got m either length => exact .inl (nonempty length)
  | lost got m => cases waits

/-- The child of a client that waits can answer it. -/
theorem Inv.exists_answer (inv : Inv s) {i : Nat} {c : Client} {sv : Server}
    (here : s.clients[i]? = some c) (waits : c.place = .recv) (member : sv ∈ s.servers)
    (peer : sv.peer = some i) (asked : c.toServer ≠ [])
    (short : (c.toServer.take sizeBuf).length ≤ sizeBuf) (chunk : c.toServer.take sizeBuf ≠ []) :
    ∃ t c', Step s t ∧ t.clients[i]? = some c' ∧ c'.toClient ≠ [] := by
  have posted := inv.posted sv member
  obtain ⟨k, there⟩ := List.mem_iff_getElem?.mp member
  cases pc : sv.child.pc with
  | accept =>
      rw [Posted, pc] at posted
      cases peer.symm.trans posted
  | recv cfd =>
      obtain ⟨child, step⟩ := Echo.exists_answer (posted.session pc) chunk short
      obtain ⟨-, replies⟩ := child_data step (posted.session pc)
      have stays : c.place ≠ .gone := by
        rw [waits]
        nofun
      refine ⟨_, _, .answer s k i sv c child _ _ there peer here asked stays step replies,
        List.getElem?_set_self (List.getElem?_eq_some_iff.mp here).1, ?_⟩
      exact fun none => chunk (List.append_eq_nil_iff.mp none).2
  | exited =>
      have broken : Broken s i := ⟨sv, member, peer, pc⟩
      cases waits.symm.trans (gone_of_broken inv here broken)

/-- **Echo.**  What a client has received are the messages that it has sent, one by one, up to one
that is unanswered; and where it waits, its answer is there, or its connection is still in the
backlog, or a child can answer it. -/
theorem echoed_of_reachable (s : System) (reached : machine.Reachable s) (i : Nat) (c : Client)
    (here : s.clients[i]? = some c) :
    (∃ unanswered, c.sent = c.got ++ unanswered ∧ unanswered.length ≤ 1 ∧
      (c.place = .send → unanswered = [])) ∧
      (c.place = .recv → c.toClient ≠ [] ∨ i ∈ s.backlog ∨
        ∃ t c', Step s t ∧ t.clients[i]? = some c' ∧ c'.toClient ≠ []) := by
  have inv := inv_of_reachable reached
  have talk := inv.talk c (List.mem_of_getElem? here)
  refine ⟨talk.exists_open, fun waits => ?_⟩
  rcases talk.waiting waits with answered | ⟨asked, short, chunk⟩
  · exact .inl answered
  · refine .inr ?_
    have seated := inv.seated i c here (.inr waits)
    by_cases queued : i ∈ s.backlog
    · exact .inl queued
    · refine .inr ?_
      rw [seats, List.count_eq_zero_of_not_mem queued, Nat.zero_add] at seated
      obtain ⟨sv, member, serving⟩ : ∃ sv ∈ s.servers, serves i sv ≠ 0 := by
        by_contra nobody
        refine Nat.ne_of_gt seated (List.sum_eq_zero fun n member => ?_)
        obtain ⟨sv, among, rfl⟩ := List.mem_map.mp member
        exact by_contra fun some => nobody ⟨sv, among, some⟩
      have peer : sv.peer = some i := by
        by_contra other
        exact serving (if_neg other)
      exact inv.exists_answer here waits member peer asked short chunk

/-- No two children have one connection. -/
theorem Inv.peers_distinct (inv : Inv s) {k l i : Nat} {sv sw : Server}
    (there : s.servers[k]? = some sv) (there' : s.servers[l]? = some sw) (peer : sv.peer = some i)
    (peer' : sw.peer = some i) : k = l := by
  by_contra other
  have balance := total_set (serves i) ⟨sv.child, none⟩ there
  have one : serves i sv = 1 := if_pos peer
  have none : serves i ⟨sv.child, none⟩ = 0 := rfl
  -- Without the first of them the second still has it.
  have second : sw ∈ s.servers.set k ⟨sv.child, Option.none⟩ :=
    List.mem_of_getElem? ((List.getElem?_set_ne other).trans there')
  have left := le_total (serves i) second
  rw [show serves i sw = 1 from if_pos peer'] at left
  have once := inv.once i
  unfold seats at once
  omega

/-- **Ends of children.**  A child that has ended had a connection whose client left with a message
unanswered, and no two children had the same. -/
theorem ended_le_left (s : System) (reached : machine.Reachable s) :
    (∀ sv ∈ s.servers, sv.child.pc = .exited →
      ∃ i c, sv.peer = some i ∧ s.clients[i]? = some c ∧ c.Left) ∧
      ∀ (k l i : Nat) (sv sw : Server), s.servers[k]? = some sv → s.servers[l]? = some sw →
        sv.peer = some i → sw.peer = some i → k = l := by
  have inv := inv_of_reachable reached
  refine ⟨fun sv member exited => ?_, fun k l i sv sw there there' peer peer' =>
    inv.peers_distinct there there' peer peer'⟩
  have posted := inv.posted sv member
  rw [Posted, exited] at posted
  exact posted

/-! ## Two runs -/

def idle : Server := ⟨Child.zeroed, none⟩

/-- A client is in a session with the first child. -/
theorem exists_session :
    ∃ child cfd, InSession child cfd ∧ machine.Reachable
      ⟨[⟨.send, [], [], [], []⟩], [⟨child, some 0⟩, idle, idle], []⟩ := by
  have start : machine.Reachable ⟨[Client.start], [idle, idle, idle], []⟩ := by
    refine .of_init ⟨fun c member => List.mem_singleton.mp member, rfl, fun sv member => ?_, rfl⟩
    have only : sv = idle := by simpa using member
    rw [only]
    exact ⟨Child.zeroed_started, rfl⟩
  have connected := start.tail (.connect _ 0 _ rfl rfl (by decide))
  have step : ChildStep .unixTcpServ Child.zeroed (.accept (.fd 4) 0) _ :=
    .accept Child.zeroed (.fd 4) 0 rfl (by decide)
  exact ⟨_, 4, child_accept step, connected.tail (.accept _ 0 0 [] idle 4 0 _ rfl rfl step)⟩

/-- A message of 24 bytes. -/
def stamp : List Int8 := List.replicate lenCtime 65

/-- The client has sent its message. -/
theorem exists_asked :
    ∃ child cfd, InSession child cfd ∧ machine.Reachable
      ⟨[⟨.recv, [stamp], [], stamp, []⟩], [⟨child, some 0⟩, idle, idle], []⟩ := by
  obtain ⟨child, cfd, session, reached⟩ := exists_session
  have whole : ¬ Broken ⟨[⟨.send, [], [], [], []⟩], [⟨child, some 0⟩, idle, idle], []⟩ 0 :=
    fun broken => by cases gone_of_broken (inv_of_reachable reached) rfl broken
  have asked := reached.tail
    (.send _ 0 ⟨.send, [], [], [], []⟩ stamp rfl rfl whole (by decide))
  exact ⟨child, cfd, session, asked⟩

/-- The client sends a message, the child answers it and the client gets it back. -/
theorem echoed_once :
    ∃ (s : System) (c : Client), machine.Reachable s ∧ s.clients[0]? = some c ∧ c.got = [stamp] ∧
      ∃ unanswered, c.sent = c.got ++ unanswered ∧ unanswered.length ≤ 1 ∧
        (c.place = .send → unanswered = []) := by
  obtain ⟨child, cfd, session, reached⟩ := exists_asked
  have chunk : stamp.take sizeBuf ≠ [] := by decide
  obtain ⟨child', step⟩ := exists_answer session chunk (by decide)
  obtain ⟨-, replies⟩ := child_data step session
  have answered := reached.tail
    (.answer _ 0 0 _ _ child' _ _ rfl rfl rfl (by decide) (by decide) step replies)
  have got := answered.tail (.recv _ 0 _ rfl rfl (by decide))
  exact ⟨_, _, got, rfl, rfl, (echoed_of_reachable _ got 0 _ rfl).1⟩

/-- The client leaves without waiting for the answer, and the child ends. -/
theorem ended_once :
    ∃ s : System, machine.Reachable s ∧ (∃ sv ∈ s.servers, sv.child.pc = .exited) ∧
      ∀ sv ∈ s.servers, sv.child.pc = .exited →
        ∃ i c, sv.peer = some i ∧ s.clients[i]? = some c ∧ c.Left := by
  obtain ⟨child, cfd, session, reached⟩ := exists_asked
  have left := reached.tail (.leave _ 0 _ rfl (by decide))
  have step : ChildStep .unixTcpServ child (.recv (.data (stamp.take sizeBuf)) .sigpipe) _ :=
    .recv child cfd _ _ session.pc ⟨session.out, by decide, by decide⟩
  have ended := left.tail (.sigpipe _ 0 0 _ _ _ rfl rfl rfl (by decide) rfl step)
  exact ⟨_, ended, ⟨_, List.mem_cons_self, child_sigpipe step⟩, (ended_le_left _ ended).1⟩

end Alnp.Prefork.Echo
