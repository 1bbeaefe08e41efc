import Alnp.Kernel.ConnTable
import Alnp.Lib.Machine

/-!
# The `poll` server

`Chapter07/io_poll.c`: the descriptors to watch are in `pollfds[0..cnt_fd_socket)` with the
listener in front.  `poll` leaves its findings in the entries' `revents`; the loop accepts one
connection when the listener is ready and otherwise serves ready clients until it has seen
`ret_poll` of them.

`addSocket` and `delSocket` are the source functions; `del_socket` stores its `-1` at
`pollfds[cnt_fd_socket]`, before it lowers the count.  The loop of `main` is cut where a system
call's result comes in, as in `Alnp.IoSelect`.
-/

namespace Alnp.IoPoll

def maxFdSocket : Nat := 0xFF

def pollIn : BitVec 16 := 0x001

def pollErr : BitVec 16 := 0x008

def pollNval : BitVec 16 := 0x020

/-- `struct pollfd` -/
structure Pollfd where
  fd : Int
  events : BitVec 16
  revents : BitVec 16
  deriving DecidableEq, Repr

/-- A `struct pollfd` of static storage duration. -/
instance : Inhabited Pollfd := ⟨⟨0, 0, 0⟩⟩

/-- `revents & flag` -/
def Pollfd.reports (e : Pollfd) (flag : BitVec 16) : Bool :=
  e.revents &&& flag != 0

/-! ## The table -/

/-- The globals `pollfds` and `cnt_fd_socket`, and the descriptors of the process. -/
structure Server where
  pollfds : Vector Pollfd maxFdSocket
  cntFdSocket : Nat
  sockets : Sockets

/-- The entries in use. -/
def Server.table (s : Server) : List Pollfd :=
  live s.pollfds s.cntFdSocket

/-- The descriptors in use. -/
def Server.fds (s : Server) : List Int :=
  s.table.map Pollfd.fd

/-- `accept` returned `fd`. -/
def Server.accept (fd : Int) (s : Server) : Server :=
  { s with sockets := s.sockets.accept fd }

/-- `close(fd)`. -/
def Server.close (fd : Int) (s : Server) : Server :=
  { s with sockets := s.sockets.close fd }

/-- `add_socket`: the new count, or `-1` when the table is full. -/
def addSocket (fd : Int) (s : Server) : Access (Int × Server) :=
  if s.cntFdSocket < maxFdSocket then do
    let pollfds ← Access.modify s.pollfds s.cntFdSocket fun e => { e with fd := fd }
    let pollfds ← Access.modify pollfds s.cntFdSocket fun e => { e with events := pollIn }
    let cnt := s.cntFdSocket + 1
    pure (cnt, { s with pollfds := pollfds, cntFdSocket := cnt })
  else pure (-1, s)

/-- `del_socket`: the place of the removed entry, or `-1` when `fd` is not in the table. -/
def delSocket (fd : Int) (s : Server) : Access (Int × Server) := do
  let s := s.close fd
  match ← Access.search (fun e => e.fd == fd) s.pollfds s.cntFdSocket with
  | none => pure (-1, s)
  | some i =>
      let pollfds ← moveLast s.pollfds i s.cntFdSocket
      let pollfds ← Access.modify pollfds s.cntFdSocket fun e => { e with fd := -1 }
      pure (i, { s with pollfds := pollfds, cntFdSocket := s.cntFdSocket - 1 })

/-! ## The main loop -/

/-- What `poll(pollfds, cnt_fd_socket, -1)` leaves in the entries it was given. -/
def poll (revents : Nat → BitVec 16) (s : Server) : Server :=
  { s with
    pollfds := s.pollfds.mapIdx fun i e =>
      if i < s.cntFdSocket then { e with revents := revents i } else e }

/-- The result of `poll`: the number of entries it found something for. -/
def retPoll (s : Server) : Nat :=
  (s.table.filter fun e => e.revents != 0).length

/-- Where the main loop stands: at its top, in the scan with the loop variables `i` and `ret_poll`,
or nowhere since `poll` failed. -/
inductive Pc
  | top
  | scan (i retPoll : Int)
  | exited
  deriving DecidableEq, Repr

/-- A state of the process with its history. -/
structure State where
  server : Server
  pc : Pc
  /-- every index of `pollfds` used so far -/
  used : List Int
  /-- every result of `recv` so far -/
  recvs : List Int
  /-- what each removed entry's vacated slot held when `del_socket` returned -/
  vacated : List Pollfd

/-- From the top of the loop: `poll` finds `revents`, and `accept`, where it is called, returns
`fd`. -/
def acceptOrScan (revents : Nat → BitVec 16) (fd : Int) (s : State) : State :=
  let server := poll revents s.server
  let front := Access.read server.pollfds 0
  let used := s.used ++ front.indices
  if front.value.reports pollIn then
    if fd = -1 then { s with server := server, pc := .top, used := used }
    else
      let added := addSocket fd (server.accept fd)
      let used := used ++ added.indices
      if added.value.1 = -1 then
        { s with server := added.value.2.close fd, pc := .top, used := used }
      else { s with server := added.value.2, pc := .top, used := used }
  else { s with server := server, pc := .scan 1 (retPoll server), used := used }

/-- One turn of the scan, with `recv` returning `retRecv` where it is called. -/
def scanEntry (i ret retRecv : Int) (s : State) : State :=
  if i < s.server.cntFdSocket ∧ ret > 0 then
    let entry := Access.read s.server.pollfds i
    let s := { s with used := s.used ++ entry.indices }
    if entry.value.reports pollIn then
      let s := { s with recvs := s.recvs ++ [retRecv] }
      if retRecv = -1 then { s with pc := .scan (i + 1) (ret - 1) }
      else if retRecv = 0 then
        let deleted := delSocket entry.value.fd s.server
        let after := deleted.value.2
        { s with
          server := after
          pc := .scan (i - 1 + 1) (ret - 1)
          used := s.used ++ deleted.indices
          vacated := s.vacated ++ (after.pollfds[after.cntFdSocket]?).toList }
      else { s with pc := .scan (i + 1) (ret - 1) }
    else if entry.value.reports pollErr then { s with pc := .scan (i + 1) (ret - 1) }
    else if entry.value.reports pollNval then { s with pc := .scan (i + 1) (ret - 1) }
    else { s with pc := .scan (i + 1) ret }
  else { s with pc := .top }

/-! ## Runs -/

/-- The globals before `main`. -/
def bootCleared (b : Boot) : Server where
  pollfds := Vector.replicate maxFdSocket default
  cntFdSocket := 0
  sockets := ⟨b.others, ∅⟩

/-- The state after `add_socket(fd_listener)`. -/
def bootState (b : Boot) : State :=
  let added := addSocket b.listener (bootCleared b)
  { server := added.value.2, pc := .top, used := added.indices, recvs := [], vacated := [] }

/-- One step of the process. -/
inductive Step (b : Boot) : State → State → Prop
  | pollFails {s : State} : s.pc = .top → Step b s { s with pc := .exited }
  | acceptOrScan {s : State} (revents : Nat → BitVec 16) (fd : Int) :
      s.pc = .top → (fd = -1 ∨ Fresh s.server.sockets.opened fd) →
      Step b s (acceptOrScan revents fd s)
  | scanEntry {s : State} {i ret : Int} (retRecv : Int) :
      s.pc = .scan i ret → Step b s (scanEntry i ret retRecv s)

/-- The server process. -/
def machine (b : Boot) : Machine State where
  init s := s = bootState b
  step := Step b

end Alnp.IoPoll
