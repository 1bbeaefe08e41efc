import Alnp.Lib.Loop
import Alnp.Prefork.Model

/-!
# The end of a session in `inet6_tcp_serv1.c`

The inner loop of `start_child` in `Chapter06/inet6_tcp_serv1.c`.  It is left where `recv` or `send`
fails.  At the end of the stream neither does: `recv` returns 0, `send` sends no byte, and the loop
goes on.  Its siblings look at the length for this case.

`session_ends_iff`: with every `send` succeeding, a session ends exactly when its stream ends by an
error.
-/

namespace Alnp.Prefork

/-- A result of `recv` while the stream lasts. -/
inductive Chunk
  | data (bytes : List Int8) (size : 0 < bytes.length ∧ bytes.length ≤ sizeBuf)
  | interrupted

/-- What `recv` returns from the end of the stream on. -/
inductive Ending
  | eof
  | error (errno : Errno) (other : errno ≠ eintr)

def Chunk.received : Chunk → Received
  | .data bytes _ => .data bytes
  | .interrupted => .failed eintr

def Ending.received : Ending → Received
  | .eof => .eof
  | .error errno _ => .failed errno

/-- What a client sends. -/
structure Client where
  chunks : List Chunk
  ending : Ending

/-- The child in a session, and the chunks that have not been received. -/
structure Serving where
  child : Child
  ahead : List Chunk

/-- A turn of the inner loop; `send` sends `len` bytes. -/
def sessionTurn (cfd : Int) (ending : Ending) (len : Nat) (s : Serving) : Flow Serving :=
  let received :=
    match s.ahead with
    | [] => ending.received
    | chunk :: _ => chunk.received
  let child := Inet6TcpServ1.received cfd received (.sent len) s.child
  if child.pc = .recv cfd then .next ⟨child, s.ahead.tail⟩ else .leave ⟨child, s.ahead.tail⟩

/-- Behind `accept` and `getnameinfo`, in front of the inner loop. -/
def Client.session (client : Client) (cfd : Int) (c : Child) : Serving where
  child := Inet6TcpServ1.accepted (.fd cfd) 0 c
  ahead := client.chunks

/-- The child is back at `accept` and the socket is closed. -/
def Serving.Closed (cfd : Int) (s : Serving) : Prop :=
  s.child.pc = .accept ∧ ¬ s.child.sockets.Opened cfd

variable {cfd : Int} {ending : Ending} {s t : Serving}

/-! ## One turn -/

/-- While the stream lasts the loop goes on. -/
theorem sessionTurn_cons {chunk : Chunk} {rest : List Chunk} (len : Nat)
    (pc : s.child.pc = .recv cfd) (ahead : s.ahead = chunk :: rest) :
    ∃ child : Child, child.pc = .recv cfd ∧ sessionTurn cfd ending len s = .next ⟨child, rest⟩ := by
  have stays : (Inet6TcpServ1.received cfd chunk.received (.sent len) s.child).pc = .recv cfd := by
    cases chunk with
    | data bytes size => exact pc
    | interrupted =>
        rw [Chunk.received, Inet6TcpServ1.received, if_pos rfl]
        exact pc
  refine ⟨_, stays, ?_⟩
  simp only [sessionTurn, ahead, stays, ↓reduceIte, List.tail_cons]

/-- At the end of the stream it goes on as well. -/
theorem sessionTurn_eof (len : Nat) (pc : s.child.pc = .recv cfd) (ahead : s.ahead = []) :
    ∃ child : Child, child.pc = .recv cfd ∧ sessionTurn cfd .eof len s = .next ⟨child, []⟩ := by
  have stays : (Inet6TcpServ1.received cfd .eof (.sent len) s.child).pc = .recv cfd := pc
  refine ⟨_, stays, ?_⟩
  simp only [sessionTurn, ahead, Ending.received, stays, ↓reduceIte, List.tail_nil]

/-- An error closes the socket and leads back to `accept`. -/
theorem sessionTurn_error {errno : Errno} (other : errno ≠ eintr) (len : Nat)
    (ahead : s.ahead = []) :
    ∃ t : Serving, t.Closed cfd ∧ sessionTurn cfd (.error errno other) len s = .leave t := by
  let child := ((s.child.use cfd).close cfd).next
  have ended : Inet6TcpServ1.received cfd (.failed errno) (.sent len) s.child = child := by
    rw [Inet6TcpServ1.received, if_neg other]
  have back : child.pc = .accept := rfl
  refine ⟨⟨child, []⟩, ⟨back, fun opened => (Ledger.opened_close.mp opened).1 rfl⟩, ?_⟩
  simp [sessionTurn, ahead, Ending.received, ended, back]

/-! ## The loop -/

/-- The child is in the session. -/
def Serving.In (cfd : Int) (s : Serving) : Prop := s.child.pc = .recv cfd

/-- The chunks are received one by one, and the error behind them ends the session. -/
theorem ends_of_error {errno : Errno} (other : errno ≠ eintr) (inside : s.In cfd) :
    Loop.Ends (sessionTurn cfd (.error errno other)) (Serving.Closed cfd) s := by
  refine Loop.ends_of_measure (I := Serving.In cfd) (fun s : Serving => s.ahead.length) ?_ inside
  intro len s pc
  cases ahead : s.ahead with
  | nil =>
      obtain ⟨t, closed, left⟩ := sessionTurn_error other len ahead
      exact .inl ⟨t, left, closed⟩
  | cons chunk rest =>
      obtain ⟨child, pc', went⟩ := sessionTurn_cons len pc ahead
      exact .inr ⟨⟨child, rest⟩, went, pc', Nat.lt_succ_self _⟩

/-- At the end of the stream the loop goes round without end. -/
theorem not_ends_of_eof {P : Serving → Prop} (inside : s.In cfd) :
    ¬ Loop.Ends (sessionTurn cfd .eof) P s := by
  apply Loop.not_ends (I := Serving.In cfd) ?_ inside
  intro s pc
  cases ahead : s.ahead with
  | nil =>
      obtain ⟨child, pc', turn⟩ := sessionTurn_eof 0 pc ahead
      exact ⟨0, _, turn, pc'⟩
  | cons chunk rest =>
      obtain ⟨child, pc', turn⟩ := sessionTurn_cons 0 pc ahead
      exact ⟨0, _, turn, pc'⟩

theorem session_in (client : Client) (cfd : Int) (c : Child) : (client.session cfd c).In cfd := rfl

/-- **The end of a session.**  Whatever a client sends and however much each `send` takes, the
session ends, with its socket closed and the child back at `accept`, exactly if the stream ends by
an error and not by the client closing it. -/
theorem session_ends_iff (client : Client) (cfd : Int) (c : Child) :
    Loop.Ends (sessionTurn cfd client.ending) (Serving.Closed cfd) (client.session cfd c) ↔
      client.ending ≠ .eof := by
  have inside := session_in client cfd c
  cases ending : client.ending with
  | eof => exact iff_of_false (not_ends_of_eof inside) fun other => other rfl
  | error errno other => exact iff_of_true (ends_of_error other inside) nofun

/-- A client that says nothing and closes its end keeps the child for ever. -/
theorem not_forall_ends :
    ¬ ∀ (client : Client) (cfd : Int) (c : Child),
      Loop.Ends (sessionTurn cfd client.ending) (Serving.Closed cfd) (client.session cfd c) := by
  intro always
  exact not_ends_of_eof (session_in ⟨[], .eof⟩ 4 .zeroed) (always ⟨[], .eof⟩ 4 .zeroed)

end Alnp.Prefork
