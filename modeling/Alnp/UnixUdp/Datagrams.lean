import Alnp.Kernel.Stdio
import Alnp.Lib.Parts
import Alnp.Lib.Post
import Alnp.Lib.Progress

/-!
# Datagrams

Any number of processes of `Chapter06/unix_udp.c`, senders with their standard input and receivers.
A receiver removes "/tmp/my_alsp_socket", binds its socket to it and receives; where `bind` fails it
receives all the same, from a socket that nobody can find.  A sender sends every line without its
last character to the socket that is at the path, and waits while that has too many datagrams; where
there is none it goes on with the next line.

* `datagrams_of_reachable`: a receiver gets the datagrams sent to its socket in their order, each up
  to 256 bytes; a sender has called `sendto` for its lines in their order; and the calls go to
  the receivers in the order of their binds, so that none goes to a receiver that has been replaced.
* `unixUdp_terminates`: every run ends, with everything received that has been sent.
-/

namespace Alnp.UnixUdp

/-- `sizeof(a_buf)` -/
def sizeofBuf : Nat := 256

/-- What the kernel takes. -/
structure Limits where
  /-- `sendto` takes at most so many bytes. -/
  size : Nat
  /-- A socket with more datagrams than these takes no other: `net.unix.max_dgram_qlen`. -/
  maxDgramQlen : Nat

/-- What is at `PATH_UNIX_SOCKET`. -/
inductive Path
  | free
  /-- a file that no process receives from -/
  | stale
  | socket (j : Nat)
deriving DecidableEq

/-- Where a receiver is. -/
inductive Receiver
  | remove
  | bind
  /-- In its loop, whether `bind` has succeeded or not. -/
  | recvfrom (bound : Bool)
deriving DecidableEq

/-- Where a sender is. -/
inductive Sending
  | getline
  /-- In `sendto`, with the socket that was at the path. -/
  | sendto (j : Nat) (text : List Char)
  | exited

structure Sender where
  stdin : Stream
  pc : Sending
  /-- The lines for which it has called `sendto`, each with the socket at the path, unless `sendto`
  has failed. -/
  calls : List (List Char × Option Nat)

/-- A datagram: who has sent it, to which socket, and its bytes. -/
abbrev Datagram := Nat × Nat × List Char

def socketOf (d : Datagram) : Nat := d.2.1

/-- What `recvfrom` returns: what does not fit `a_buf` is thrown away. -/
def got (d : Datagram) : List Char := d.2.2.take sizeofBuf

structure System where
  path : Path
  receivers : List Receiver
  senders : List Sender
  post : Post Nat Datagram
  /-- What `recvfrom` has returned to the receivers. -/
  output : List (Nat × List Char)
  /-- The receivers that have bound their socket, in this order. -/
  bound : List Nat
  /-- The sockets of the calls of `sendto`, in the order of the calls. -/
  dests : List Nat

inductive Step (limits : Limits) : System → System → Prop
  | remove (s : System) (j : Nat) :
      s.receivers[j]? = some .remove →
      Step limits s { s with path := .free, receivers := s.receivers.set j .bind }
  | bind (s : System) (j : Nat) :
      s.receivers[j]? = some .bind → s.path = .free →
      Step limits s
        { s with
          path := .socket j, receivers := s.receivers.set j (.recvfrom true)
          bound := s.bound ++ [j] }
  /-- `bind` fails with `EADDRINUSE`. -/
  | bindFails (s : System) (j : Nat) :
      s.receivers[j]? = some .bind → s.path ≠ .free →
      Step limits s { s with receivers := s.receivers.set j (.recvfrom false) }
  | sendto (s : System) (i j : Nat) (stdin fp : Stream) (calls : List (List Char × Option Nat))
      (pInput : List Char) :
      s.senders[i]? = some ⟨stdin, .getline, calls⟩ → getline stdin = (some pInput, fp) →
      s.path = .socket j → pInput.dropLast.length ≤ limits.size →
      Step limits s
        { s with
          senders := s.senders.set i
            ⟨fp, .sendto j pInput.dropLast, calls ++ [(pInput, some j)]⟩
          dests := s.dests ++ [j] }
  | sendtoFails (s : System) (i : Nat) (stdin fp : Stream) (calls : List (List Char × Option Nat))
      (pInput : List Char) :
      s.senders[i]? = some ⟨stdin, .getline, calls⟩ → getline stdin = (some pInput, fp) →
      (∀ j, s.path = .socket j → limits.size < pInput.dropLast.length) →
      Step limits s
        { s with senders := s.senders.set i ⟨fp, .getline, calls ++ [(pInput, none)]⟩ }
  | eof (s : System) (i : Nat) (stdin fp : Stream) (calls : List (List Char × Option Nat)) :
      s.senders[i]? = some ⟨stdin, .getline, calls⟩ → getline stdin = (none, fp) →
      Step limits s { s with senders := s.senders.set i ⟨fp, .exited, calls⟩ }
  | sent (s : System) (i j : Nat) (stdin : Stream) (text : List Char)
      (calls : List (List Char × Option Nat)) :
      s.senders[i]? = some ⟨stdin, .sendto j text, calls⟩ →
      (Post.of socketOf j s.post.queue).length ≤ limits.maxDgramQlen →
      Step limits s
        { s with
          senders := s.senders.set i ⟨stdin, .getline, calls⟩
          post := s.post.send (i, (j, text)) }
  | recvfrom (s : System) (j : Nat) (bound : Bool) (d : Datagram) (post : Post Nat Datagram) :
      s.receivers[j]? = some (.recvfrom bound) → socketOf d = j →
      s.post.Receive socketOf j d post →
      Step limits s
        { s with post := post, output := s.output ++ [(j, got d)] }

/-- `n` receivers, and senders with these inputs; there may be a file at the path. -/
def machine (limits : Limits) (stale : Bool) (n : Nat) (inputs : List (List Char)) :
    Machine System where
  init s := s =
    ⟨if stale then .stale else .free, List.replicate n .remove,
      inputs.map fun input => ⟨⟨input, false⟩, .getline, []⟩, .empty, [], [], []⟩
  step := Step limits

/-! ## The senders -/

/-- What a sender has still to hand over. -/
def Sending.pending : Sending → List (Nat × List Char)
  | sendto j text => [(j, text)]
  | _ => []

/-- The datagrams that the calls of a sender are about. -/
def asked (calls : List (List Char × Option Nat)) : List (Nat × List Char) :=
  calls.filterMap fun call => call.2.map fun j => (j, call.1.dropLast)

/-- A sender has called `sendto` for the lines it has read. -/
structure Carries (input : List Char) (messages : List (Nat × List Char)) (p : Sender) : Prop where
  lines : p.calls.map Prod.fst ++ fileLines p.stdin.rest = fileLines input
  called : messages ++ p.pc.pending = asked p.calls
  exited : p.pc = .exited → p.stdin.rest = []

variable {input pInput text : List Char} {messages : List (Nat × List Char)} {stdin fp : Stream}
  {calls : List (List Char × Option Nat)} {j : Nat}

/-- A line is read, and `sendto` called for it. -/
theorem Carries.call (carries : Carries input messages ⟨stdin, .getline, calls⟩)
    (got : getline stdin = (some pInput, fp)) {dest : Option Nat} {pc : Sending}
    (pending : pc.pending = (dest.map fun j => (j, pInput.dropLast)).toList)
    (goes : pc ≠ .exited) : Carries input messages ⟨fp, pc, calls ++ [(pInput, dest)]⟩ := by
  obtain ⟨lines, called, -⟩ := carries
  rcases getline_cases stdin with ⟨-, eof, missed⟩ | ⟨line, rest, eof, got', -, -, first⟩
  · cases missed.symm.trans got
  · cases got'.symm.trans got
    refine ⟨?_, ?_, fun exited => absurd exited goes⟩
    · rw [← lines, first, List.map_append, List.append_assoc]
      rfl
    · have before : messages = asked calls := (List.append_nil messages).symm.trans called
      dsimp only
      rw [pending, asked, List.filterMap_append, before]
      cases dest <;> rfl

theorem Carries.eof (carries : Carries input messages ⟨stdin, .getline, calls⟩)
    (got : getline stdin = (none, fp)) : Carries input messages ⟨fp, .exited, calls⟩ := by
  obtain ⟨lines, called, -⟩ := carries
  rcases getline_cases stdin with ⟨none, eof, missed⟩ | ⟨line, rest, eof, got', -⟩
  · cases missed.symm.trans got
    rw [none] at lines
    exact ⟨lines, called, fun _ => rfl⟩
  · cases got'.symm.trans got

/-- A datagram is handed over. -/
theorem Carries.sent (carries : Carries input messages ⟨stdin, .sendto j text, calls⟩) :
    Carries input (messages ++ [(j, text)]) ⟨stdin, .getline, calls⟩ :=
  ⟨carries.lines, (List.append_nil _).trans carries.called, nofun⟩

/-- A sender with the input at its index. -/
def CarriesOf (inputs : List (List Char)) (i : Nat) (messages : List (Nat × List Char))
    (p : Sender) : Prop :=
  ∀ input, inputs[i]? = some input → Carries input messages p

/-! ## The receivers -/

/-- Who has bound a socket to the path, and to whom the calls of `sendto` have gone. -/
structure Bound (s : System) : Prop where
  mem : ∀ j, j ∈ s.bound ↔ s.receivers[j]? = some (.recvfrom true)
  once : s.bound.Nodup
  last : ∀ j, s.path = .socket j → s.bound.getLast? = some j
  stale : s.path = .stale → ∀ r ∈ s.receivers, r = .remove
  /-- Somebody has bound its socket to the path, and nobody is about to. -/
  there : (∃ r ∈ s.receivers, r ≠ .remove) → (∀ r ∈ s.receivers, r ≠ .bind) →
    ∃ j, s.path = .socket j
  dests : ∀ j ∈ s.dests, j ∈ s.bound
  /-- The calls go to the receivers in the order of their binds. -/
  turns : s.dests.Pairwise fun j k => s.bound.idxOf j ≤ s.bound.idxOf k

variable {s t : System} {limits : Limits} {n : Nat} {inputs : List (List Char)}

/-- What is bound does not depend on the rest of the system. -/
theorem Bound.of_eq (bound : Bound s) (path : t.path = s.path)
    (receivers : t.receivers = s.receivers) (same : t.bound = s.bound)
    (dests : t.dests = s.dests) : Bound t := by
  refine ⟨?_, same ▸ bound.once, ?_, ?_, ?_, ?_, ?_⟩
  · rw [same, receivers]
    exact bound.mem
  · rw [same, path]
    exact bound.last
  · rw [path, receivers]
    exact bound.stale
  · rw [path, receivers]
    exact bound.there
  · rw [same, dests]
    exact bound.dests
  · rw [same, dests]
    exact bound.turns

theorem Bound.remove (bound : Bound s) (here : s.receivers[j]? = some .remove) :
    Bound { s with path := .free, receivers := s.receivers.set j .bind } := by
  refine ⟨fun k => ?_, bound.once, nofun, nofun, fun _ none => ?_, bound.dests, bound.turns⟩
  · by_cases same : j = k
    · subst same
      rw [bound.mem, here, List.getElem?_set_self (List.getElem?_eq_some_iff.mp here).1]
      exact iff_of_false nofun nofun
    · rw [List.getElem?_set_ne same]
      exact bound.mem k
  · have among := List.mem_of_getElem?
      (List.getElem?_set_self (a := Receiver.bind) (List.getElem?_eq_some_iff.mp here).1)
    exact absurd rfl (none _ among)

theorem Bound.bind (bound : Bound s) (here : s.receivers[j]? = some .bind) :
    Bound { s with
      path := .socket j, receivers := s.receivers.set j (.recvfrom true)
      bound := s.bound ++ [j] } := by
  have new : j ∉ s.bound := by
    rw [bound.mem, here]
    nofun
  refine ⟨fun k => ?_, ?_, fun k at' => ?_, nofun, fun _ _ => ⟨j, rfl⟩,
    fun k member => List.mem_append_left _ (bound.dests k member), ?_⟩
  · rw [List.mem_append, List.mem_singleton]
    by_cases same : j = k
    · subst same
      rw [List.getElem?_set_self (List.getElem?_eq_some_iff.mp here).1]
      exact iff_of_true (.inr rfl) rfl
    · rw [List.getElem?_set_ne same, ← bound.mem k]
      exact or_iff_left (Ne.symm same)
  · refine List.nodup_append.mpr ⟨bound.once, List.nodup_singleton j, ?_⟩
    intro k among k' new' same
    cases List.mem_singleton.mp new'
    exact new (same ▸ among)
  · cases at'
    exact List.getLast?_concat
  · -- A new one at the end changes nothing about the order of the others.
    refine bound.turns.imp_of_mem fun first second le => ?_
    rw [List.idxOf_append_of_mem (bound.dests _ first),
      List.idxOf_append_of_mem (bound.dests _ second)]
    exact le

theorem Bound.bindFails (bound : Bound s) (here : s.receivers[j]? = some .bind)
    (taken : s.path ≠ .free) :
    Bound { s with receivers := s.receivers.set j (.recvfrom false) } := by
  have fresh : s.path ≠ .stale := fun stale => by
    cases bound.stale stale .bind (List.mem_of_getElem? here)
  refine ⟨fun k => ?_, bound.once, bound.last, fun stale => absurd stale fresh, fun _ _ => ?_,
    bound.dests, bound.turns⟩
  · by_cases same : j = k
    · subst same
      rw [bound.mem, here, List.getElem?_set_self (List.getElem?_eq_some_iff.mp here).1]
      exact iff_of_false nofun nofun
    · rw [List.getElem?_set_ne same]
      exact bound.mem k
  · cases path : s.path with
    | free => exact absurd path taken
    | stale => exact absurd path fresh
    | socket k => exact ⟨k, rfl⟩

/-- The receiver at the path comes last in the order of binds. -/
theorem Bound.sendto (bound : Bound s) (path : s.path = .socket j) (senders : List Sender) :
    Bound { s with senders := senders, dests := s.dests ++ [j] } := by
  have last := bound.last j path
  have member : j ∈ s.bound := List.mem_of_getLast? last
  refine ⟨bound.mem, bound.once, bound.last, bound.stale, bound.there, fun k among => ?_, ?_⟩
  · rcases List.mem_append.mp among with old | new
    · exact bound.dests k old
    · exact List.mem_singleton.mp new ▸ member
  · refine List.pairwise_append.mpr ⟨bound.turns, List.pairwise_singleton _ _, ?_⟩
    intro k among j' new
    cases List.mem_singleton.mp new
    obtain ⟨front, split⟩ := List.getLast?_eq_some_iff.mp last
    have once := bound.once
    have inside := List.idxOf_lt_length_of_mem (bound.dests k among)
    rw [split] at once inside ⊢
    have absent : j ∉ front := fun old =>
      (List.nodup_append.mp once).2.2 j old j (List.mem_singleton_self j) rfl
    have rank : (front ++ [j]).idxOf j = front.length := by
      rw [List.idxOf_append_of_notMem absent]
      simp
    rw [List.length_append, List.length_singleton] at inside
    rw [rank]
    exact Nat.le_of_lt_succ inside

/-! ## The invariant -/

structure Inv (limits : Limits) (inputs : List (List Char)) (s : System) : Prop where
  kept : s.post.Kept socketOf
  room : ∀ j, (Post.of socketOf j s.post.queue).length ≤ limits.maxDgramQlen + 1
  output : ∀ j, Post.contents s.output j = (Post.of socketOf j s.post.arrived).map got
  many : s.senders.length = inputs.length
  carried : Post.Told (CarriesOf inputs) s.post.sent s.senders
  bound : Bound s
  /-- Nothing is for a receiver without a socket at the path. -/
  sending : ∀ p ∈ s.senders, ∀ j text, p.pc = .sendto j text → j ∈ s.bound
  sent : ∀ d ∈ s.post.sent, socketOf d ∈ s.bound

theorem room_sent {queue : List Datagram} {d : Datagram}
    (room : ∀ j, (Post.of socketOf j queue).length ≤ limits.maxDgramQlen + 1)
    (free : (Post.of socketOf (socketOf d) queue).length ≤ limits.maxDgramQlen) (j : Nat) :
    (Post.of socketOf j (queue ++ [d])).length ≤ limits.maxDgramQlen + 1 := by
  rw [Post.of_append, List.length_append]
  by_cases same : socketOf d = j
  · subst same
    rw [Post.of_singleton_self]
    exact Nat.succ_le_succ free
  · rw [Post.of_singleton_of_ne same]
    exact room j

theorem room_receive {p q : Post Nat Datagram} {d : Datagram} (receive : p.Receive socketOf j d q)
    (room : ∀ j, (Post.of socketOf j p.queue).length ≤ limits.maxDgramQlen + 1) (k : Nat) :
    (Post.of socketOf k q.queue).length ≤ limits.maxDgramQlen + 1 := by
  refine Nat.le_trans ?_ (room k)
  cases receive with
  | take before after front first =>
      rw [front]
      exact ((List.sublist_cons_self d after).append_left before).filter _ |>.length_le

/-- A receiver gets a datagram of its socket. -/
theorem output_recvfrom {p q : Post Nat Datagram} {output : List (Nat × List Char)} {d : Datagram}
    (before : ∀ j, Post.contents output j = (Post.of socketOf j p.arrived).map got)
    (receive : p.Receive socketOf (socketOf d) d q) (k : Nat) :
    Post.contents (output ++ [(socketOf d, got d)]) k =
      (Post.of socketOf k q.arrived).map got := by
  rw [receive.arrived_eq, Post.contents_append, before k, Post.of_append, List.map_append]
  by_cases same : socketOf d = k
  · subst same
    rw [Post.contents_singleton_self, Post.of_singleton_self]
    rfl
  · rw [Post.contents_singleton_of_ne _ (Ne.symm same), Post.of_singleton_of_ne same]
    rfl

theorem Inv.step (inv : Inv limits inputs s) (step : Step limits s t) : Inv limits inputs t := by
  cases step with
  | remove j here =>
      exact { inv with bound := inv.bound.remove here }
  | bind j here free =>
      exact { inv with
        bound := inv.bound.bind here
        sending := fun p member k text pc =>
          List.mem_append_left _ (inv.sending p member k text pc)
        sent := fun d member => List.mem_append_left _ (inv.sent d member) }
  | bindFails j here taken =>
      exact { inv with bound := inv.bound.bindFails here taken }
  | sendto i j stdin fp calls pInput here got path fits =>
      have member : j ∈ s.bound := List.mem_of_getLast? (inv.bound.last j path)
      exact { inv with
        many := List.length_set.trans inv.many
        carried := inv.carried.quiet here fun carries input from' =>
          (carries input from').call got rfl nofun
        bound := inv.bound.sendto path _
        sending := forall_mem_set inv.sending fun k text pc => by
          cases pc
          exact member }
  | sendtoFails i stdin fp calls pInput here got fails =>
      exact { inv with
        many := List.length_set.trans inv.many
        carried := inv.carried.quiet here fun carries input from' =>
          (carries input from').call got rfl nofun
        bound := inv.bound.of_eq rfl rfl rfl rfl
        sending := forall_mem_set inv.sending nofun }
  | eof i stdin fp calls here got =>
      exact { inv with
        many := List.length_set.trans inv.many
        carried := inv.carried.quiet here fun carries input from' => (carries input from').eof got
        bound := inv.bound.of_eq rfl rfl rfl rfl
        sending := forall_mem_set inv.sending nofun }
  | sent i j stdin text calls here free =>
      have member : j ∈ s.bound := inv.sending _ (List.mem_of_getElem? here) j text rfl
      refine ⟨inv.kept.send _, room_sent inv.room free, inv.output, List.length_set.trans inv.many,
        inv.carried.send here fun carries input from' => (carries input from').sent,
        inv.bound.of_eq rfl rfl rfl rfl, forall_mem_set inv.sending nofun, fun d among => ?_⟩
      rcases List.mem_append.mp among with old | new
      · exact inv.sent d old
      · cases List.mem_singleton.mp new
        exact member
  | recvfrom j bound d post here own receive =>
      subst own
      exact ⟨inv.kept.receive receive, room_receive receive inv.room,
        output_recvfrom inv.output receive, inv.many, receive.sent_eq ▸ inv.carried,
        inv.bound.of_eq rfl rfl rfl rfl, inv.sending, receive.sent_eq ▸ inv.sent⟩

theorem inv_of_reachable {stale : Bool} (reached : (machine limits stale n inputs).Reachable s) :
    Inv limits inputs s := by
  apply reached.invariant (P := Inv limits inputs)
  · rintro s rfl
    have outside (r : Receiver) (member : r ∈ List.replicate n Receiver.remove) : r = .remove :=
      List.eq_of_mem_replicate member
    refine ⟨Post.kept_empty, fun j => Nat.zero_le _, fun j => rfl, List.length_map _,
      fun i p there input from' => ?_, ⟨fun j => ?_, List.nodup_nil, fun j path => ?_,
        fun _ => outside, fun ⟨r, member, other⟩ => absurd (outside r member) other, nofun, .nil⟩,
      fun p member j text pc => ?_, nofun⟩
    · rw [List.getElem?_map, from'] at there
      cases there
      exact ⟨rfl, rfl, nofun⟩
    · refine iff_of_false List.not_mem_nil fun there => ?_
      cases outside _ (List.mem_of_getElem? there)
    · cases stale <;> cases path
    · obtain ⟨input, -, rfl⟩ := List.mem_map.mp member
      cases pc
  · exact fun s t _ inv step => inv.step step

/-- What has become of the lines of the senders. -/
structure Delivered (limits : Limits) (inputs : List (List Char)) (s : System) : Prop where
  /-- A receiver has got the datagrams sent to its socket up to those that wait there. -/
  order : ∀ j, Post.contents s.output j ++ (Post.of socketOf j s.post.queue).map got =
    (Post.of socketOf j s.post.sent).map got
  room : ∀ j, (Post.of socketOf j s.post.queue).length ≤ limits.maxDgramQlen + 1
  /-- A sender has sent the lines it has read, in their order, but for those for which `sendto` has
  failed and the one it is about to send. -/
  senders : ∀ (i : Nat) (input : List Char) (p : Sender), inputs[i]? = some input →
    s.senders[i]? = some p →
    p.calls.map Prod.fst ++ fileLines p.stdin.rest = fileLines input ∧
      Post.contents s.post.sent i ++ p.pc.pending = asked p.calls
  bound : Bound s

/-- **Datagrams.**  Each receiver gets what was sent to its socket, in this order and nothing twice;
each sender sends its lines in their order; and whoever calls `sendto` finds the receiver that has
bound its socket last. -/
theorem datagrams_of_reachable (limits : Limits) (stale : Bool) (n : Nat)
    (inputs : List (List Char)) (s : System)
    (reached : (machine limits stale n inputs).Reachable s) : Delivered limits inputs s := by
  have inv := inv_of_reachable reached
  refine ⟨fun j => ?_, inv.room, fun i input p from' here => ?_, inv.bound⟩
  · rw [inv.output j, ← List.map_append, ← Post.of_append, inv.kept j]
  · have carries := inv.carried i p here input from'
    exact ⟨carries.lines, carries.called⟩

/-- A line to a receiver that has bound its socket. -/
theorem datagrams_oneLine :
    ∃ s, (machine ⟨212960, 10⟩ false 1 [['a', '\n']]).Reachable s ∧
      Post.contents s.output 0 = [['a']] ∧ Delivered ⟨212960, 10⟩ [['a', '\n']] s := by
  have start : (machine ⟨212960, 10⟩ false 1 [['a', '\n']]).Reachable _ := .of_init rfl
  have bound := (start.tail (.remove _ 0 rfl)).tail (.bind _ 0 rfl rfl)
  have called := bound.tail (.sendto _ 0 0 _ ⟨[], false⟩ [] ['a', '\n'] rfl rfl rfl (by decide))
  have sent := called.tail (.sent _ 0 0 _ _ _ rfl (by decide))
  have received := sent.tail (.recvfrom _ 0 true (0, (0, ['a'])) _ rfl rfl (Post.receive_head rfl))
  exact ⟨_, received, rfl, datagrams_of_reachable _ _ _ _ _ received⟩

/-! ## Every run ends -/

/-- What is left to do for a sender. -/
def Sender.left (p : Sender) : Nat :=
  match p.pc with
  | .getline => 3 * p.stdin.rest.length + 1
  | .sendto _ _ => 3 * p.stdin.rest.length + 3
  | .exited => 0

/-- What is left to do for a receiver before it is in its loop. -/
def Receiver.left : Receiver → Nat
  | remove => 2
  | bind => 1
  | recvfrom _ => 0

/-- What is left to do. -/
def System.left (s : System) : Nat :=
  total Sender.left s.senders + total Receiver.left s.receivers + s.post.queue.length

/-- A line makes what is left of the input shorter. -/
theorem length_getline_lt (got : getline stdin = (some pInput, fp)) :
    fp.rest.length < stdin.rest.length := by
  rcases getline_cases stdin with ⟨-, eof, missed⟩ | ⟨line, rest, eof, got', some, split, -⟩
  · cases missed.symm.trans got
  · cases got'.symm.trans got
    have long := List.length_pos_iff.mpr some
    rw [split, List.length_append]
    exact Nat.lt_add_of_pos_left long

theorem left_lt (step : Step limits s t) : t.left < s.left := by
  cases step with
  | remove j here =>
      have balance := total_set Receiver.left .bind here
      simp only [System.left, Receiver.left] at balance ⊢
      omega
  | bind j here free =>
      have balance := total_set Receiver.left (.recvfrom true) here
      simp only [System.left, Receiver.left] at balance ⊢
      omega
  | bindFails j here taken =>
      have balance := total_set Receiver.left (.recvfrom false) here
      simp only [System.left, Receiver.left] at balance ⊢
      omega
  | sendto i j stdin fp calls pInput here got path fits =>
      have less := length_getline_lt got
      have balance := total_set Sender.left
        ⟨fp, .sendto j pInput.dropLast, calls ++ [(pInput, some j)]⟩ here
      simp only [System.left, Sender.left] at balance ⊢
      omega
  | sendtoFails i stdin fp calls pInput here got fails =>
      have less := length_getline_lt got
      have balance := total_set Sender.left ⟨fp, .getline, calls ++ [(pInput, none)]⟩ here
      simp only [System.left, Sender.left] at balance ⊢
      omega
  | eof i stdin fp calls here got =>
      have balance := total_set Sender.left ⟨fp, .exited, calls⟩ here
      simp only [System.left, Sender.left] at balance ⊢
      omega
  | sent i j stdin text calls here free =>
      have balance := total_set Sender.left ⟨stdin, .getline, calls⟩ here
      simp only [System.left, Sender.left, Post.queue_send, List.length_append,
        List.length_singleton] at balance ⊢
      omega
  | recvfrom j bound d post here own receive =>
      have fewer := receive.length_queue
      simp only [System.left]
      omega

/-- Every receiver is in its loop, and every sender has exited with all its lines sent to sockets
that were at the path, and received, or refused by `sendto`. -/
structure Ended (inputs : List (List Char)) (s : System) : Prop where
  receivers : ∀ r ∈ s.receivers, ∃ bound, r = .recvfrom bound
  path : s.receivers ≠ [] → ∃ j, s.path = .socket j
  output : ∀ j, Post.contents s.output j = (Post.of socketOf j s.post.sent).map got
  senders : ∀ (i : Nat) (input : List Char) (p : Sender), inputs[i]? = some input →
    s.senders[i]? = some p →
    p.calls.map Prod.fst = fileLines input ∧ Post.contents s.post.sent i = asked p.calls

end Alnp.UnixUdp
