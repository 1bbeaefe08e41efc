import Alnp.Lib.Descriptor
import Alnp.Lib.Ledger
import Alnp.Lib.Machine

/-!
# `start_child` of the preforked servers

`Chapter06/unix_tcp_serv.c`, `inet_tcp_serv1.c` and `inet6_tcp_serv1.c` fork `MAX_POOL` children
that all run a `start_child` of their own: `accept`, then `recv` and `send` until the session ends.
The three functions differ in what they do where a call fails or a session ends, so each keeps its
own turn behind `accept` and behind `recv`.

A `Child` is what such a process carries from one call to the next: where it is, the account of the
descriptors it got from `accept`, and its memory from `buf` on.
-/

namespace Alnp.Prefork

abbrev maxPool : Nat := 3

/-- `sizeof(buf)` -/
def sizeBuf : Nat := 40

/-- The errors that matter to these programs. -/
def eintr : Errno := ⟨4, by decide⟩
def ebadf : Errno := ⟨9, by decide⟩

/-- Where a child is. -/
inductive At
  | accept
  /-- in the inner loop, at `recv` -/
  | recv (cfd : Int)
  | exited
  deriving DecidableEq

/-- What `accept` returns. -/
inductive Accepted
  | fd (cfd : Int)
  | failed (errno : Errno)

/-- What `recv` returns. -/
inductive Received
  | data (bytes : List Int8)
  | eof
  | failed (errno : Errno)

/-- What becomes of `send`. -/
inductive Sent
  | sent (len : Nat)
  | failed (errno : Errno)
  /-- `SIGPIPE` ends the process. -/
  | sigpipe

structure Child where
  pc : At
  sockets : Ledger
  /-- `buf` and the bytes behind it, as far as they can be read. -/
  memory : List Int8
  /-- The bytes given to `send`. -/
  replies : List (List Int8)

namespace Child

/-- `exit`, or a signal that ends the process. -/
def exit (c : Child) : Child := { c with pc := .exited }

def accept (cfd : Int) (c : Child) : Child := { c with sockets := c.sockets.accept cfd }

def use (cfd : Int) (c : Child) : Child := { c with sockets := c.sockets.use cfd }

def close (cfd : Int) (c : Child) : Child := { c with sockets := c.sockets.close cfd }

/-- `recv` has put `bytes` into `buf`. -/
def store (bytes : List Int8) (c : Child) : Child :=
  { c with memory := bytes ++ c.memory.drop bytes.length }

/-- `send(cfd, buf, len, 0)` -/
def send (cfd : Int) (len : Nat) (c : Child) : Child :=
  { c.use cfd with replies := c.replies ++ [c.memory.take len] }

/-- Back to the head of the outer loop. -/
def next (c : Child) : Child := { c with pc := .accept }

end Child

/-- What `strchr` finds. -/
inductive Strchr
  | found (index : Nat)
  | null
  /-- It has left the memory that can be read. -/
  | overrun
  deriving DecidableEq

/-- `strchr(buf, c)` for a `c` other than 0. -/
def strchr (c : Int8) : List Int8 → Strchr
  | [] => .overrun
  | b :: rest =>
      if b = c then .found 0
      else if b = 0 then .null
      else
        match strchr c rest with
        | .found index => .found (index + 1)
        | .null => .null
        | .overrun => .overrun

/-! ## `unix_tcp_serv.c` -/

namespace UnixTcpServ

/-- Behind `accept`.  `close(cfd)` is called with -1 when it has failed. -/
def accepted : Accepted → Child → Child
  | .fd cfd, c => { c.accept cfd with pc := .recv cfd }
  | .failed _, c => (c.close (-1)).next

/-- Behind `recv`, with the result of `send` in case it is called. -/
def received (cfd : Int) : Received → Sent → Child → Child
  | .failed errno, _, c => if errno = eintr then c.use cfd else (c.use cfd).next
  | .eof, _, c => ((c.use cfd).close cfd).next
  | .data bytes, .sent _, c => ((c.use cfd).store bytes).send cfd bytes.length
  | .data bytes, .failed _, c => (((c.use cfd).store bytes).send cfd bytes.length).close cfd
  | .data bytes, .sigpipe, c => (((c.use cfd).store bytes).send cfd bytes.length).exit

end UnixTcpServ

/-! ## `inet_tcp_serv1.c` -/

namespace InetTcpServ1

/-- Behind `accept`.  `pr_err` ends the process. -/
def accepted : Accepted → Child → Child
  | .fd cfd, c => { c.accept cfd with pc := .recv cfd }
  | .failed _, c => c.exit

/-- Behind `strchr(buf, '\n')`: the newline is replaced and `buf` sent, or the session ends. -/
def reply (cfd : Int) (retLen : Nat) (sent : Sent) (c : Child) : Child :=
  match strchr 10 c.memory with
  | .found index =>
      let c := { c with memory := c.memory.set index 0 }
      match sent with
      | .sent _ => c.send cfd retLen
      | .failed _ => (c.send cfd retLen).exit
      | .sigpipe => (c.send cfd retLen).exit
  | .null => c.next
  | .overrun => c.exit

/-- Behind `recv`.  `pr_err` ends the process, also at the end of a session. -/
def received (cfd : Int) : Received → Sent → Child → Child
  | .failed errno, _, c => if errno = eintr then c.use cfd else (c.use cfd).exit
  | .eof, _, c => (c.use cfd).exit
  | .data bytes, sent, c => reply cfd bytes.length sent ((c.use cfd).store bytes)

end InetTcpServ1

/-! ## `inet6_tcp_serv1.c` -/

namespace Inet6TcpServ1

/-- Behind `accept` and `getnameinfo`. -/
def accepted : Accepted → Int → Child → Child
  | .fd cfd, rcGai, c =>
      if rcGai = 0 then { c.accept cfd with pc := .recv cfd } else (c.accept cfd).next
  | .failed _, _, c => c.next

/-- Behind `send`. -/
def sent (cfd : Int) : Sent → Child → Child
  | .sent _, c => c
  | .failed _, c => (c.close cfd).next
  | .sigpipe, c => c.exit

/-- Behind `recv`.  The end of the stream is not looked at: no byte is sent. -/
def received (cfd : Int) : Received → Sent → Child → Child
  | .failed errno, _, c => if errno = eintr then c.use cfd else ((c.use cfd).close cfd).next
  | .eof, result, c => sent cfd result ((c.use cfd).send cfd 0)
  | .data bytes, result, c =>
      sent cfd result (((c.use cfd).store bytes).send cfd bytes.length)

end Inet6TcpServ1

/-! ## Runs -/

/-- The three programs. -/
inductive Program
  | unixTcpServ
  | inetTcpServ1
  | inet6TcpServ1

/-- What the calls of one turn return; `rcGai` is the result of `getnameinfo`. -/
inductive Answer
  | accept (accepted : Accepted) (rcGai : Int)
  | recv (received : Received) (sent : Sent)

def Program.accepted : Program → Accepted → Int → Child → Child
  | unixTcpServ, accepted, _ => UnixTcpServ.accepted accepted
  | inetTcpServ1, accepted, _ => InetTcpServ1.accepted accepted
  | inet6TcpServ1, accepted, rcGai => Inet6TcpServ1.accepted accepted rcGai

def Program.received : Program → Int → Received → Sent → Child → Child
  | unixTcpServ => UnixTcpServ.received
  | inetTcpServ1 => InetTcpServ1.received
  | inet6TcpServ1 => Inet6TcpServ1.received

/-- `accept` hands out a number that is not open. -/
def Accepted.Possible (sockets : Ledger) : Accepted → Prop
  | .fd cfd => 0 ≤ cfd ∧ ¬ sockets.Opened cfd
  | .failed _ => True

instance (sockets : Ledger) : (accepted : Accepted) → Decidable (accepted.Possible sockets)
  | .fd cfd => inferInstanceAs (Decidable (0 ≤ cfd ∧ ¬ sockets.Opened cfd))
  | .failed _ => inferInstanceAs (Decidable True)

/-- `recv` returns at most `sizeof(buf)` bytes, and on a closed descriptor it fails. -/
def Received.Possible (sockets : Ledger) (cfd : Int) : Received → Prop
  | .data bytes => sockets.Opened cfd ∧ 0 < bytes.length ∧ bytes.length ≤ sizeBuf
  | .eof => sockets.Opened cfd
  | .failed errno => sockets.Opened cfd ∨ errno = ebadf

instance (sockets : Ledger) (cfd : Int) :
    (received : Received) → Decidable (received.Possible sockets cfd)
  | .data bytes => inferInstanceAs
      (Decidable (sockets.Opened cfd ∧ 0 < bytes.length ∧ bytes.length ≤ sizeBuf))
  | .eof => inferInstanceAs (Decidable (sockets.Opened cfd))
  | .failed errno => inferInstanceAs (Decidable (sockets.Opened cfd ∨ errno = ebadf))

/-- One turn of a child. -/
inductive ChildStep (p : Program) : Child → Answer → Child → Prop
  | accept (c : Child) (accepted : Accepted) (rcGai : Int) :
      c.pc = .accept → accepted.Possible c.sockets →
      ChildStep p c (.accept accepted rcGai) (p.accepted accepted rcGai c)
  | recv (c : Child) (cfd : Int) (received : Received) (sent : Sent) :
      c.pc = .recv cfd → received.Possible c.sockets cfd →
      ChildStep p c (.recv received sent) (p.received cfd received sent c)

/-- A child that takes a turn has not ended. -/
theorem ChildStep.alive {p : Program} {c c' : Child} {answer : Answer}
    (step : ChildStep p c answer c') : c.pc ≠ .exited := by
  intro exited
  cases step with
  | accept _ _ pc _ => cases exited.symm.trans pc
  | recv _ _ _ pc _ => cases exited.symm.trans pc

/-- A child at the start of `start_child`, whatever its memory holds. -/
def Child.Started (c : Child) : Prop :=
  ∃ memory : List Int8, sizeBuf ≤ memory.length ∧ c = ⟨.accept, .empty, memory, []⟩

/-- A child whose buffer is zero. -/
def Child.zeroed : Child := ⟨.accept, .empty, List.replicate sizeBuf 0, []⟩

theorem Child.zeroed_started : Child.zeroed.Started :=
  ⟨List.replicate sizeBuf 0, by simp, rfl⟩

/-- One child of a program. -/
def child (p : Program) : Machine Child where
  init := Child.Started
  step c c' := ∃ answer, ChildStep p c answer c'

end Alnp.Prefork
