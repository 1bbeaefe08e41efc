import Mathlib.Data.List.Nodup
import Alnp.Lib.Parts
import Alnp.Lib.Progress

/-!
# Clients and what serves them

Clients connect to a server, send what they have in pieces, and close their connections; they may
also reset them, behind what has come to the server till then.  A server accepts connections in the
order in which they come, unless it has as many as it can have, and receives what has come on each:
behind a reset it is told of it once, and then that nothing comes any more.

`Net` is what lies between them, `machine` a server that does nothing but serve, in any order.

* `Fits`: for each client, what it still has, what is under way and what has been received are what
  it had at the start.
* `Net.left`: everything that clients and server do makes it smaller.
* `Implements`: a machine each step of which is a step of such a server or brings one nearer, and
  which unless it is dead can go on while there is something to accept or to receive.  Its runs end,
  with every client served (`Implements.terminates`).
-/

namespace Alnp.Service

/-- Where a connection is. -/
inductive Place
  /-- not made yet -/
  | outside
  | backlog
  | opened (fd : Int)
  /-- closed by the server at its end -/
  | closed
  /-- closed by the server at once -/
  | refused
deriving DecidableEq

/-- The client has a connection that the server has not closed. -/
def Place.connected : Place → Bool
  | .backlog | .opened _ => true
  | _ => false

structure Client (α : Type) where
  /-- what has not come to the server's end of the connection; behind a reset it never will -/
  left : List α
  /-- what has come and has not been received -/
  inbox : List α
  got : List α
  /-- It sends nothing more. -/
  fin : Bool
  /-- It has reset the connection, and no `recv` has failed for it. -/
  fault : Bool
  aborted : Bool
  place : Place

variable {α : Type} {size cap : Nat} {resets : Bool}

/-- What a client with a connection does. -/
inductive Act (resets : Bool) : Client α → Client α → Prop
  /-- A piece comes to the server. -/
  | send (c : Client α) (piece rest : List α) :
      c.place.connected = true → c.fin = false → c.left = piece ++ rest → piece ≠ [] →
      Act resets c { c with left := rest, inbox := c.inbox ++ piece }
  | close (c : Client α) :
      c.place.connected = true → c.fin = false → c.left = [] → Act resets c { c with fin := true }
  /-- The connection is reset.  What has come stays to be received, and nothing more comes. -/
  | abort (c : Client α) :
      c.place.connected = true → c.fin = false → resets = true →
      Act resets c { c with fin := true, fault := true, aborted := true }

/-- The result of `recv` with room for `size` items: what has come, then -1 for a reset
(`ECONNRESET`, once), then 0, at which the server closes the connection. -/
inductive Recv (size : Nat) : Client α → Int → Client α → Prop
  | data (c : Client α) (n : Nat) :
      0 < n → n ≤ size → n ≤ c.inbox.length →
      Recv size c n { c with inbox := c.inbox.drop n, got := c.got ++ c.inbox.take n }
  | ended (c : Client α) :
      c.inbox = [] → c.fault = false → c.fin = true → Recv size c 0 { c with place := .closed }
  | fault (c : Client α) :
      c.inbox = [] → c.fault = true → Recv size c (-1) { c with fault := false }

/-- `recv` would not wait. -/
def Client.ready (c : Client α) : Bool := !c.inbox.isEmpty || c.fin

/-- The descriptor of the connection, if the server has it. -/
def Client.fd (c : Client α) : Option Int :=
  match c.place with
  | .opened fd => some fd
  | _ => none

/-- The clients, and which of them are to be accepted. -/
structure Net (α : Type) where
  clients : List (Client α)
  backlog : List Nat

namespace Net

/-- What a client does. -/
inductive Env (resets : Bool) : Net α → Net α → Prop
  | connect (net : Net α) (i : Nat) (c : Client α) :
      net.clients[i]? = some c → c.place = .outside →
      Env resets net
        { clients := net.clients.set i { c with place := .backlog }, backlog := net.backlog ++ [i] }
  | act (net : Net α) (i : Nat) (c c' : Client α) :
      net.clients[i]? = some c → Act resets c c' →
      Env resets net { net with clients := net.clients.set i c' }

/-- The client in front of the backlog comes to this place. -/
def take (net : Net α) (i : Nat) (c : Client α) (place : Place) : Net α where
  clients := net.clients.set i { c with place := place }
  backlog := net.backlog.tail

/-- `recv` on the descriptor. -/
inductive Receive (size : Nat) (fd ret : Int) : Net α → Net α → Prop
  | recv (net : Net α) (i : Nat) (c c' : Client α) :
      net.clients[i]? = some c → c.place = .opened fd → Recv size c ret c' →
      Receive size fd ret net { net with clients := net.clients.set i c' }

/-- The descriptors of the connections that the server has. -/
def fds (net : Net α) : List Int := net.clients.filterMap Client.fd

/-- `recv` on the descriptor would not wait. -/
def ready (net : Net α) (fd : Int) : Bool :=
  net.clients.any fun c => c.place = .opened fd && c.ready

end Net

open Net

/-- A server with room for `cap` connections. -/
inductive Step (size cap : Nat) (resets : Bool) : Net α → Net α → Prop
  | env (net net' : Net α) : Env resets net net' → Step size cap resets net net'
  | accept (net : Net α) (i : Nat) (c : Client α) (rest : List Nat) (fd : Int) :
      net.backlog = i :: rest → net.clients[i]? = some c → fd ∉ net.fds → net.fds.length < cap →
      Step size cap resets net (net.take i c (.opened fd))
  | refuse (net : Net α) (i : Nat) (c : Client α) (rest : List Nat) :
      net.backlog = i :: rest → net.clients[i]? = some c → cap ≤ net.fds.length →
      Step size cap resets net (net.take i c .refused)
  | receive (net net' : Net α) (fd ret : Int) :
      Receive size fd ret net net' → Step size cap resets net net'

def Client.start (input : List α) : Client α := ⟨input, [], [], false, false, false, .outside⟩

def machine (size cap : Nat) (resets : Bool) (inputs : List (List α)) : Machine (Net α) where
  init net := net = ⟨inputs.map Client.start, []⟩
  step := Step size cap resets

/-! ## The clients -/

variable {input : List α} {c c' : Client α} {net net' : Net α} {ret : Int}

/-- Where the items of a client are. -/
structure Client.Fits (resets : Bool) (input : List α) (c : Client α) : Prop where
  whole : c.got ++ c.inbox ++ c.left = input
  done : c.fin = true → c.aborted = false → c.left = []
  fault : c.fault = true → c.aborted = true
  aborted : c.aborted = true → resets = true ∧ c.fin = true
  closed : c.place = .closed → c.fin = true ∧ c.inbox = []

theorem Client.Fits.start (input : List α) : Client.Fits resets input (.start input) :=
  ⟨rfl, nofun, nofun, nofun, nofun⟩

theorem Client.Fits.act (fits : c.Fits resets input) (act : Act resets c c') :
    c'.Fits resets input := by
  cases act with
  | send piece rest connected more front some =>
      refine ⟨?_, fun fin => ?_, fits.fault, fits.aborted, fun closed => ?_⟩
      · rw [← fits.whole, front]
        simp only [List.append_assoc]
      · cases more.symm.trans fin
      · rw [closed] at connected
        cases connected
  | close connected more none =>
      refine ⟨fits.whole, fun _ _ => none, fits.fault, fun aborted => ?_, fun closed => ?_⟩
      · exact ⟨(fits.aborted aborted).1, rfl⟩
      · rw [closed] at connected
        cases connected
  | abort connected more may =>
      refine ⟨fits.whole, nofun, fun _ => rfl, fun _ => ⟨may, rfl⟩, fun closed => ?_⟩
      rw [closed] at connected
      cases connected

theorem Client.Fits.recv (fits : c.Fits resets input) (recv : Recv size c ret c') :
    c'.Fits resets input := by
  cases recv with
  | data n some fits' inside =>
      refine ⟨?_, fits.done, fits.fault, fits.aborted, fun closed => ?_⟩
      · rw [← fits.whole, List.append_assoc c.got, List.take_append_drop]
      · obtain ⟨fin, empty⟩ := fits.closed closed
        rw [empty, List.length_nil] at inside
        omega
  | ended empty fine fin =>
      exact ⟨fits.whole, fits.done, fits.fault, fits.aborted, fun _ => ⟨fin, empty⟩⟩
  | fault empty faulty =>
      exact ⟨fits.whole, fits.done, nofun, fits.aborted, fits.closed⟩

/-- A connection that is neither closed nor was comes to another place. -/
theorem Client.Fits.move (fits : c.Fits resets input) {place : Place} (open' : place ≠ .closed) :
    Client.Fits resets input { c with place := place } :=
  ⟨fits.whole, fits.done, fits.fault, fits.aborted, fun closed => absurd closed open'⟩

/-- A client that is ready is received from. -/
theorem exists_recv (c : Client α) (ready : c.ready = true) (room : 0 < size) :
    ∃ ret c', Recv size c ret c' := by
  by_cases empty : c.inbox = []
  · cases fault : c.fault with
    | true => exact ⟨_, _, .fault c empty fault⟩
    | false =>
        rw [Client.ready, empty] at ready
        exact ⟨_, _, .ended c empty fault ready⟩
  · exact ⟨_, _, .data c 1 Nat.one_pos room (List.length_pos_iff.mpr empty)⟩

theorem Act.place_eq (act : Act resets c c') : c'.place = c.place := by
  cases act <;> rfl

/-- Whatever a client does, there is something to receive. -/
theorem Act.ready (act : Act resets c c') : c'.ready = true := by
  cases act with
  | send piece rest connected more front some =>
      simp [Client.ready, some]
  | close connected more none => exact Bool.or_true _
  | abort connected more may => exact Bool.or_true _

/-! ## The connections -/

variable {fd : Int}

theorem Client.fd_eq_some : c.fd = some fd ↔ c.place = .opened fd := by
  unfold Client.fd
  split
  · next fd' place => simp [place]
  · next other => exact iff_of_false nofun (other fd)

theorem mem_fds : fd ∈ net.fds ↔ ∃ c ∈ net.clients, c.place = .opened fd := by
  simp only [Net.fds, List.mem_filterMap, Client.fd_eq_some]

theorem ready_iff : net.ready fd = true ↔
    ∃ c ∈ net.clients, c.place = .opened fd ∧ c.ready = true := by
  simp [Net.ready]

/-- A connection that is not opened and is not to be. -/
theorem fds_take_of_ne {i : Nat} {place : Place} (here : net.clients[i]? = some c)
    (waits : c.place = .backlog) (other : ∀ fd, place ≠ .opened fd) :
    (net.take i c place).fds = net.fds := by
  refine filterMap_set_of_eq _ here ?_
  rw [Client.fd, Client.fd, waits]
  split
  · next fd opened => exact absurd opened (other fd)
  · rfl

/-- An accepted connection. -/
theorem fds_take {i : Nat} (here : net.clients[i]? = some c) (waits : c.place = .backlog) :
    (net.take i c (.opened fd)).fds.Perm (fd :: net.fds) := by
  have perm := perm_filterMap_set Client.fd here { c with place := .opened fd }
  have before : c.fd = none := by rw [Client.fd, waits]
  rw [before] at perm
  exact perm

theorem fds_env (env : Env resets net net') : net'.fds = net.fds := by
  cases env with
  | connect i c here outside =>
      refine filterMap_set_of_eq _ here ?_
      rw [Client.fd, Client.fd, outside]
  | act i c c' here act =>
      refine filterMap_set_of_eq _ here ?_
      rw [Client.fd, Client.fd, act.place_eq]

theorem ready_env (env : Env resets net net') (ready : net.ready fd = true) :
    net'.ready fd = true := by
  rw [ready_iff] at ready ⊢
  cases env with
  | connect i c here outside =>
      refine exists_mem_set here ?_ ready
      rintro ⟨opened, -⟩
      cases outside.symm.trans opened
  | act i c c' here act =>
      refine exists_mem_set here ?_ ready
      rintro ⟨opened, -⟩
      exact ⟨act.place_eq.trans opened, act.ready⟩

/-- A connection comes out of the backlog. -/
theorem ready_take {i : Nat} {place : Place} (here : net.clients[i]? = some c)
    (waits : c.place = .backlog) (ready : net.ready fd = true) :
    (net.take i c place).ready fd = true := by
  rw [ready_iff] at ready ⊢
  refine exists_mem_set here ?_ ready
  rintro ⟨opened, -⟩
  cases waits.symm.trans opened

theorem Net.Receive.backlog_eq (receive : Receive size fd ret net net') :
    net'.backlog = net.backlog := by
  cases receive
  rfl

/-- At the end of its stream the connection is closed, and no other. -/
theorem fds_receive (receive : Receive size fd ret net net') :
    ret = 0 ∧ (fd :: net'.fds).Perm net.fds ∨ ret ≠ 0 ∧ net'.fds = net.fds := by
  cases receive with
  | recv i c c' here opened recv =>
      have before := Client.fd_eq_some.mpr opened
      cases recv with
      | data n some fits inside =>
          exact .inr ⟨by omega, filterMap_set_of_eq _ here rfl⟩
      | ended empty fine fin =>
          have perm := perm_filterMap_set Client.fd here { c with place := .closed }
          rw [before] at perm
          exact .inl ⟨rfl, perm⟩
      | fault empty faulty => exact .inr ⟨by decide, filterMap_set_of_eq _ here rfl⟩

theorem ready_receive {other : Int} (receive : Receive size fd ret net net') (ne : other ≠ fd)
    (ready : net.ready other = true) : net'.ready other = true := by
  rw [ready_iff] at ready ⊢
  cases receive with
  | recv i c c' here opened recv =>
      refine exists_mem_set here ?_ ready
      rintro ⟨opened', -⟩
      cases opened.symm.trans opened'
      exact absurd rfl ne

/-- What is ready can be received. -/
theorem exists_receive (ready : net.ready fd = true) (room : 0 < size) :
    ∃ ret net', Receive size fd ret net net' := by
  obtain ⟨c, member, opened, ready⟩ := ready_iff.mp ready
  obtain ⟨i, here⟩ := List.mem_iff_getElem?.mp member
  obtain ⟨ret, c', recv⟩ := exists_recv c ready room
  exact ⟨ret, _, .recv net i c c' here opened recv⟩

/-! ## What is kept -/

structure Fits (resets : Bool) (cap : Nat) (inputs : List (List α)) (net : Net α) : Prop where
  many : net.clients.length = inputs.length
  fits : ∀ (i : Nat) (c : Client α) (input : List α), net.clients[i]? = some c →
    inputs[i]? = some input → c.Fits resets input
  nodup : net.fds.Nodup
  /-- The backlog consists of the connections that wait, each once. -/
  waits : ∀ i, i ∈ net.backlog ↔ ∃ c, net.clients[i]? = some c ∧ c.place = .backlog
  once : net.backlog.Nodup
  /-- A connection is refused only when others take all the room. -/
  refused : ∀ c ∈ net.clients, c.place = .refused → cap < inputs.length

variable {inputs : List (List α)}

/-- A client changes that is not in the backlog. -/
theorem waits_set {clients : List (Client α)} {backlog : List Nat} {i : Nat}
    (waits : ∀ j, j ∈ backlog ↔ ∃ c, clients[j]? = some c ∧ c.place = .backlog)
    (here : clients[i]? = some c) (same : c'.place = .backlog ↔ c.place = .backlog) (j : Nat) :
    j ∈ backlog ↔ ∃ c, (clients.set i c')[j]? = some c ∧ c.place = .backlog := by
  rw [waits j]
  by_cases eq : i = j
  · subst eq
    rw [here, List.getElem?_set_self (List.getElem?_eq_some_iff.mp here).1]
    simp [same]
  · rw [List.getElem?_set_ne eq]

theorem fits_set {clients : List (Client α)} {i : Nat}
    (fits : ∀ (i : Nat) (c : Client α) (input : List α), clients[i]? = some c →
      inputs[i]? = some input → c.Fits resets input)
    (here : clients[i]? = some c) (keeps : ∀ input, c.Fits resets input → c'.Fits resets input) :
    ∀ (j : Nat) (d : Client α) (input : List α), (clients.set i c')[j]? = some d →
      inputs[j]? = some input → d.Fits resets input := by
  intro j d input there from'
  by_cases eq : i = j
  · subst eq
    rw [List.getElem?_set_self (List.getElem?_eq_some_iff.mp here).1] at there
    cases there
    exact keeps input (fits i c input here from')
  · rw [List.getElem?_set_ne eq] at there
    exact fits j d input there from'

/-- The client in front of the backlog waits. -/
theorem Fits.place_eq (fits : Fits resets cap inputs net) {i : Nat} {rest : List Nat}
    (front : net.backlog = i :: rest) (here : net.clients[i]? = some c) : c.place = .backlog := by
  have among : i ∈ net.backlog := front ▸ List.mem_cons_self
  obtain ⟨c', here', waits⟩ := (fits.waits i).mp among
  cases here.symm.trans here'
  exact waits

/-- A client that waits leaves room among the others. -/
theorem Fits.length_fds_lt (fits : Fits resets cap inputs net) {i : Nat} {rest : List Nat}
    (front : net.backlog = i :: rest) (here : net.clients[i]? = some c) :
    net.fds.length < inputs.length := by
  have none : c.fd = none := by rw [Client.fd, fits.place_eq front here]
  rw [← fits.many]
  exact length_filterMap_lt Client.fd (List.mem_of_getElem? here) none

/-- The connection in front of the backlog is accepted or refused. -/
theorem Fits.take (fits : Fits resets cap inputs net) {i : Nat} {rest : List Nat} {place : Place}
    (front : net.backlog = i :: rest) (here : net.clients[i]? = some c) (other : place ≠ .backlog)
    (open' : place ≠ .closed) (nodup : (net.take i c place).fds.Nodup)
    (refused : place = .refused → cap < inputs.length) :
    Fits resets cap inputs (net.take i c place) := by
  have once := fits.once
  rw [front, List.nodup_cons] at once
  have tail : (net.take i c place).backlog = rest := congrArg List.tail front
  refine ⟨List.length_set.trans fits.many, fits_set fits.fits here fun _ fits => fits.move open',
    nodup, fun j => ?_, tail ▸ once.2, forall_mem_set fits.refused refused⟩
  rw [tail]
  by_cases same : i = j
  · subst same
    refine iff_of_false once.1 ?_
    rintro ⟨d, there, waits⟩
    rw [Net.take, List.getElem?_set_self (List.getElem?_eq_some_iff.mp here).1] at there
    cases there
    exact other waits
  · rw [Net.take, List.getElem?_set_ne same, ← fits.waits j, front, List.mem_cons]
    exact (or_iff_right (Ne.symm same)).symm

theorem Fits.step (fits : Fits resets cap inputs net) (step : Step size cap resets net net') :
    Fits resets cap inputs net' := by
  cases step with
  | env net' env =>
      have nodup := (fds_env env).symm ▸ fits.nodup
      cases env with
      | connect i c here outside =>
          have fresh : i ∉ net.backlog := by
            intro among
            obtain ⟨c', here', waits⟩ := (fits.waits i).mp among
            cases here.symm.trans here'
            cases outside.symm.trans waits
          refine ⟨List.length_set.trans fits.many,
            fits_set fits.fits here fun _ fits => fits.move nofun, nodup, fun j => ?_, ?_,
            forall_mem_set fits.refused nofun⟩
          · rw [List.mem_append, List.mem_singleton]
            by_cases same : i = j
            · subst same
              rw [List.getElem?_set_self (List.getElem?_eq_some_iff.mp here).1]
              exact iff_of_true (.inr rfl) ⟨_, rfl, rfl⟩
            · rw [List.getElem?_set_ne same, ← fits.waits j]
              exact or_iff_left (Ne.symm same)
          · refine List.nodup_append.mpr ⟨fits.once, List.nodup_singleton i, ?_⟩
            intro j among k new same
            cases List.mem_singleton.mp new
            exact fresh (same ▸ among)
      | act i c c' here act =>
          refine ⟨List.length_set.trans fits.many,
            fits_set fits.fits here fun _ fits => fits.act act, nodup,
            waits_set fits.waits here (by rw [act.place_eq]), fits.once,
            forall_mem_set fits.refused fun refused => ?_⟩
          exact fits.refused c (List.mem_of_getElem? here) (act.place_eq ▸ refused)
  | accept i c rest fd front here new room =>
      refine fits.take front here nofun nofun ?_ nofun
      rw [(fds_take here (fits.place_eq front here)).nodup_iff]
      exact List.nodup_cons.mpr ⟨new, fits.nodup⟩
  | refuse i c rest front here full =>
      have waits := fits.place_eq front here
      refine fits.take front here nofun nofun ?_ fun _ => ?_
      · have same : (net.take i c .refused).fds = net.fds := fds_take_of_ne here waits nofun
        rw [same]
        exact fits.nodup
      · exact Nat.lt_of_le_of_lt full (fits.length_fds_lt front here)
  | receive net' fd ret receive =>
      have nodup : net'.fds.Nodup := by
        rcases fds_receive receive with ⟨-, perm⟩ | ⟨-, same⟩
        · exact (List.nodup_cons.mp (perm.nodup_iff.mpr fits.nodup)).2
        · exact same ▸ fits.nodup
      cases receive with
      | recv i c c' here opened recv =>
          have place : c'.place = .opened fd ∨ c'.place = .closed := by
            cases recv with
            | data n _ _ _ => exact .inl opened
            | ended _ _ _ => exact .inr rfl
            | fault _ _ => exact .inl opened
          refine ⟨List.length_set.trans fits.many,
            fits_set fits.fits here fun _ fits => fits.recv recv, nodup,
            waits_set fits.waits here ?_, fits.once, forall_mem_set fits.refused fun refused => ?_⟩
          · rcases place with eq | eq <;> simp [eq, opened]
          · rcases place with eq | eq <;> cases eq.symm.trans refused

theorem fds_start (inputs : List (List α)) : Net.fds ⟨inputs.map Client.start, []⟩ = [] := by
  rw [Net.fds, List.filterMap_map]
  exact List.filterMap_eq_nil_iff.mpr fun input _ => rfl

theorem fits_start (inputs : List (List α)) :
    Fits resets cap inputs ⟨inputs.map Client.start, []⟩ := by
  have outside {i : Nat} {c : Client α} (here : (inputs.map Client.start)[i]? = some c) :
      ∃ input, inputs[i]? = some input ∧ c = .start input := by
    rw [List.getElem?_map] at here
    obtain ⟨input, from', rfl⟩ := Option.map_eq_some_iff.mp here
    exact ⟨input, from', rfl⟩
  refine ⟨List.length_map _, fun i c input here from' => ?_, ?_, fun i => ?_, List.nodup_nil,
    fun c member refused => ?_⟩
  · obtain ⟨input', same, rfl⟩ := outside here
    cases same.symm.trans from'
    exact .start input
  · rw [fds_start]
    exact List.nodup_nil
  · refine iff_of_false List.not_mem_nil ?_
    rintro ⟨c, here, waits⟩
    obtain ⟨input, -, rfl⟩ := outside here
    cases waits
  · obtain ⟨input, -, rfl⟩ := List.mem_map.mp member
    cases refused

theorem fits_of_reachable (reached : (machine size cap resets inputs).Reachable net) :
    Fits resets cap inputs net := by
  apply reached.invariant (P := Fits resets cap inputs)
  · rintro net rfl
    exact fits_start inputs
  · exact fun net net' _ fits step => fits.step step

/-- Unless connections can be reset, `recv` does not fail. -/
theorem Fits.ret_ne {fd : Int} (fits : Fits false cap inputs net)
    (receive : Receive size fd ret net net') : ret ≠ -1 := by
  cases receive with
  | recv i c c' here opened recv =>
      cases recv with
      | data n some fits inside => omega
      | ended empty fine fin => decide
      | fault empty faulty =>
          have inside : i < inputs.length :=
            fits.many ▸ (List.getElem?_eq_some_iff.mp here).1
          have fits := fits.fits i c inputs[i] here (List.getElem?_eq_getElem inside)
          cases (fits.aborted (fits.fault faulty)).1

/-! ## What is left to do -/

/-- What is left to do for a client and the server with it. -/
def Client.rank (c : Client α) : Nat :=
  let rest := 2 * c.left.length + c.inbox.length + (if c.fin then 0 else 2) + c.fault.toNat
  match c.place with
  | .outside => rest + 3
  | .backlog => rest + 2
  | .opened _ => rest + 1
  | .closed | .refused => 0

def Net.left (net : Net α) : Nat := total Client.rank net.clients

theorem left_set_lt {i : Nat} {backlog : List Nat} (here : net.clients[i]? = some c)
    (less : c'.rank < c.rank) : Net.left ⟨net.clients.set i c', backlog⟩ < net.left := by
  have balance := total_set Client.rank c' here
  simp only [Net.left]
  omega

theorem Act.rank_lt (act : Act resets c c') : c'.rank < c.rank := by
  obtain ⟨left, inbox, got, fin, fault, aborted, place⟩ := c
  cases act with
  | send piece rest connected more front some =>
      have long := List.length_pos_iff.mpr some
      dsimp only at front connected
      subst front
      cases place with
      | backlog => simp only [Client.rank, List.length_append]; omega
      | opened fd => simp only [Client.rank, List.length_append]; omega
      | _ => cases connected
  | close connected more none =>
      dsimp only at connected more
      subst more
      cases place with
      | backlog => simp [Client.rank]
      | opened fd => simp [Client.rank]
      | _ => cases connected
  | abort connected more may =>
      dsimp only at connected more
      subst more
      cases place with
      | backlog =>
          simp only [Client.rank, Bool.toNat_true, ↓reduceIte, Bool.false_eq_true]
          omega
      | opened fd =>
          simp only [Client.rank, Bool.toNat_true, ↓reduceIte, Bool.false_eq_true]
          omega
      | _ => cases connected

theorem Recv.rank_lt {fd : Int} (recv : Recv size c ret c') (opened : c.place = .opened fd) :
    c'.rank < c.rank := by
  obtain ⟨left, inbox, got, fin, fault, aborted, place⟩ := c
  dsimp only at opened
  subst opened
  cases recv with
  | data n some fits inside =>
      dsimp only at inside
      simp only [Client.rank, List.length_drop]
      omega
  | ended empty fine fin => exact Nat.succ_pos _
  | fault empty faulty =>
      dsimp only at faulty
      subst faulty
      simp [Client.rank]

/-- **What is left.**  Everything that happens makes it less. -/
theorem Fits.left_lt (fits : Fits resets cap inputs net) (step : Step size cap resets net net') :
    net'.left < net.left := by
  cases step with
  | env net' env =>
      cases env with
      | connect i c here outside =>
          refine left_set_lt here ?_
          simp only [Client.rank, outside]
          omega
      | act i c c' here act => exact left_set_lt here act.rank_lt
  | accept i c rest fd front here new room =>
      refine left_set_lt here ?_
      simp only [Client.rank, fits.place_eq front here]
      omega
  | refuse i c rest front here full =>
      refine left_set_lt here ?_
      simp only [Client.rank, fits.place_eq front here]
      omega
  | receive net' fd ret receive =>
      cases receive with
      | recv i c c' here opened recv => exact left_set_lt here (recv.rank_lt opened)

/-! ## Servers -/

/-- Every client has been served, and its connection closed. -/
structure Served (cap : Nat) (inputs : List (List α)) (net : Net α) : Prop where
  backlog : net.backlog = []
  fds : net.fds = []
  /-- All that a client has had has been received, but for what a reset has kept from coming; and
  only with more clients than there is room for was one turned away. -/
  clients : ∀ (i : Nat) (c : Client α) (input : List α), net.clients[i]? = some c →
    inputs[i]? = some input →
    c.place = .closed ∧ c.got ++ c.left = input ∧ (c.aborted = false → c.got = input) ∨
      c.place = .refused ∧ cap < inputs.length

/-- Where no client can go on and there is nothing to accept or to receive, all have been served. -/
theorem Fits.served (fits : Fits resets cap inputs net) (idle : ∀ net', ¬ Env resets net net')
    (empty : net.backlog = []) (silent : ∀ fd, net.ready fd = false) : Served cap inputs net := by
  have ended : ∀ c ∈ net.clients, c.place = .closed ∨ c.place = .refused := by
    intro c member
    obtain ⟨i, here⟩ := List.mem_iff_getElem?.mp member
    cases place : c.place with
    | outside => exact absurd (.connect net i c here place) (idle _)
    | backlog =>
        have among : i ∈ net.backlog := (fits.waits i).mpr ⟨c, here, place⟩
        rw [empty] at among
        cases among
    | opened fd =>
        have connected : c.place.connected = true := by
          rw [place]
          rfl
        cases fin : c.fin with
        | true =>
            have ready : net.ready fd = true :=
              ready_iff.mpr ⟨c, member, place, by rw [Client.ready, fin, Bool.or_true]⟩
            cases ready.symm.trans (silent fd)
        | false =>
            by_cases done : c.left = []
            · exact absurd (.act net i c _ here (.close c connected fin done)) (idle _)
            · have all : c.left = c.left ++ [] := (List.append_nil _).symm
              exact absurd (.act net i c _ here (.send c c.left [] connected fin all done)) (idle _)
    | closed => exact .inl rfl
    | refused => exact .inr rfl
  refine ⟨empty, ?_, fun i c input here from' => ?_⟩
  · refine List.filterMap_eq_nil_iff.mpr fun c member => ?_
    rcases ended c member with place | place <;> rw [Client.fd, place]
  · have member := List.mem_of_getElem? here
    refine (ended c member).imp (fun closed => ?_) fun refused =>
      ⟨refused, fits.refused c member refused⟩
    have own := fits.fits i c input here from'
    obtain ⟨fin, drained⟩ := own.closed closed
    have whole := own.whole
    rw [drained, List.append_nil] at whole
    refine ⟨closed, whole, fun open' => ?_⟩
    rwa [own.done fin open', List.append_nil] at whole

/-- The machine serves the clients: each of its steps is one of the server's or brings it nearer to
one, and unless it is dead, it never keeps a client from going on and stands still only when there
is nothing to accept or to receive. -/
structure Implements {σ : Type} (M : Machine σ) (dead : σ → Prop) (net : σ → Net α)
    (rank : σ → Nat) (size cap : Nat) (resets : Bool) (inputs : List (List α)) : Prop where
  init : ∀ s, M.init s → (machine size cap resets inputs).init (net s)
  step : ∀ s t, M.Reachable s → M.step s t →
    Step size cap resets (net s) (net t) ∨ net t = net s ∧ rank t < rank s
  bounded : ∃ most, ∀ s, M.Reachable s → rank s ≤ most
  client : ∀ s net', ¬ dead s → Env resets (net s) net' → ∃ t, M.step s t
  blocked : ∀ s, M.Reachable s → ¬ dead s → M.Stuck s →
    (net s).backlog = [] ∧ ∀ fd, (net s).ready fd = false

variable {σ : Type} {M : Machine σ} {dead : σ → Prop} {between : σ → Net α} {rank : σ → Nat} {s : σ}

theorem Implements.reachable (implements : Implements M dead between rank size cap resets inputs)
    (reached : M.Reachable s) : (machine size cap resets inputs).Reachable (between s) := by
  have sim : Machine.Simulation M (machine size cap resets inputs)
      fun s net => between s = net := by
    refine ⟨fun s start => ⟨_, implements.init s start, rfl⟩, ?_⟩
    rintro s t _ before rfl step
    rcases implements.step s t before step with matched | ⟨still, -⟩
    · exact .inr ⟨_, matched, rfl⟩
    · exact .inl still
  obtain ⟨_, reached', rfl⟩ := sim.reachable reached
  exact reached'

theorem Implements.fits (implements : Implements M dead between rank size cap resets inputs)
    (reached : M.Reachable s) : Fits resets cap inputs (between s) :=
  fits_of_reachable (implements.reachable reached)

/-- **Service.**  Every run of such a machine ends, with every client served unless it is dead. -/
theorem Implements.terminates
    (implements : Implements M dead between rank size cap resets inputs) :
    M.Terminates fun s => ¬ dead s → M.Stuck s ∧ Served cap inputs (between s) := by
  obtain ⟨most, le⟩ := implements.bounded
  have descends : M.Descends fun s => (between s).left * (most + 1) + rank s := by
    intro s t reached step
    have small := le t (reached.tail step)
    rcases implements.step s t reached step with matched | ⟨still, less⟩
    · have fewer := (implements.fits reached).left_lt matched
      have room := Nat.mul_le_mul_right (most + 1) (Nat.succ_le_of_lt fewer)
      rw [Nat.succ_mul] at room
      dsimp only
      omega
    · dsimp only
      rw [still]
      omega
  refine Machine.terminates_of_descends descends fun s reached stuck alive => ⟨stuck, ?_⟩
  obtain ⟨empty, silent⟩ := implements.blocked s reached alive stuck
  refine (implements.fits reached).served (fun net' env => ?_) empty silent
  obtain ⟨t, step⟩ := implements.client s net' alive env
  exact stuck t step

end Alnp.Service
