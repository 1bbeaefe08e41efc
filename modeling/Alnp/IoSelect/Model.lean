import Alnp.Kernel.ConnTable
import Alnp.Lib.Machine

/-!
# The `select` server

`Chapter07/io_select.c`: a table of descriptors in `fd_socket[0..cnt_fd_socket)` with the listener
in front, a `while (true)` loop that hands the table to `select`, accepts one connection when the
listener is ready and otherwise scans the table for readable clients.

`addSocket`, `delSocket` and `mkFds` are the source functions.  The loop of `main` is cut at the
points where a system call's result comes in: `acceptOrScan` runs from the top of the loop to the
scan or back to the top, `scanEntry` is one turn of the scan.  `Step` lets the kernel choose the
results.
-/

namespace Alnp.IoSelect

def maxFdSocket : Nat := 0xFF

def fdSetsize : Nat := 1024

/-! ## Descriptor sets -/

/-- An `fd_set`: one bit for each descriptor below `FD_SETSIZE`. -/
abbrev FdSet := Vector Bool fdSetsize

def fdZero : FdSet := Vector.replicate fdSetsize false

/-- `FD_SET`; outside the set the C macro is undefined, here it does nothing. -/
def fdSet (fd : Int) (fds : FdSet) : FdSet :=
  if 0 ≤ fd then fds.setIfInBounds fd.toNat true else fds

def fdIsset (fd : Int) (fds : FdSet) : Bool :=
  if 0 ≤ fd then fds[fd.toNat]?.getD false else false

/-- What `select(nfds, &fds, ...)` leaves in `fds` when exactly the descriptors in `ready` are
readable: of the bits below `nfds` those of readable descriptors stay. -/
def selectRead (nfds : Int) (ready : Int → Bool) (fds : FdSet) : FdSet :=
  fds.mapIdx fun i bit => bit && (decide (nfds ≤ (i : Int)) || ready i)

/-! ## The table -/

/-- The globals `fd_socket` and `cnt_fd_socket`, and the descriptors of the process. -/
structure Server where
  fdSocket : Vector Int maxFdSocket
  cntFdSocket : Nat
  sockets : Sockets

/-- The entries in use. -/
def Server.table (s : Server) : List Int :=
  live s.fdSocket s.cntFdSocket

/-- `accept` returned `fd`. -/
def Server.accept (fd : Int) (s : Server) : Server :=
  { s with sockets := s.sockets.accept fd }

/-- `close(fd)`. -/
def Server.close (fd : Int) (s : Server) : Server :=
  { s with sockets := s.sockets.close fd }

/-- `add_socket`: the new count, or `-1` when the table is full. -/
def addSocket (fd : Int) (s : Server) : Access (Int × Server) :=
  if s.cntFdSocket < maxFdSocket then do
    let fdSocket ← Access.write s.fdSocket s.cntFdSocket fd
    let cnt := s.cntFdSocket + 1
    pure (cnt, { s with fdSocket := fdSocket, cntFdSocket := cnt })
  else pure (-1, s)

/-- `del_socket`: the vacated slot, or `-1` when `fd` is not in the table. -/
def delSocket (fd : Int) (s : Server) : Access (Int × Server) := do
  let s := s.close fd
  match ← Access.search (· == fd) s.fdSocket s.cntFdSocket with
  | none => pure (-1, s)
  | some i =>
      let fdSocket ← moveLast s.fdSocket i s.cntFdSocket
      let fdSocket ← Access.write fdSocket ((s.cntFdSocket : Int) - 1) (-1)
      pure (i, { s with fdSocket := fdSocket, cntFdSocket := s.cntFdSocket - 1 })

/-- `MAX(A, B)` -/
def max (a b : Int) : Int := if a > b then a else b

/-- `mk_fds`: the descriptor set of the table and its largest member. -/
def mkFds (s : Server) : Access (FdSet × Int) :=
  Access.fold (fun acc fd => (fdSet fd acc.1, max acc.2 fd)) (fdZero, -1)
    s.fdSocket s.cntFdSocket

/-! ## The main loop -/

/-- Where the main loop stands: at its top, in the scan about to look at entry `i` with `fds_read`
as `select` left it, or nowhere since `select` failed. -/
inductive Pc
  | top
  | scan (i : Nat) (fdsRead : FdSet)
  | exited
deriving DecidableEq

/-- A state of the process, with every index of `fd_socket` used so far. -/
structure State where
  server : Server
  pc : Pc
  used : List Int

/-- From the top of the loop: `select` reports `ready`, and `accept`, where it is called, returns
`fd`. -/
def acceptOrScan (listener : Int) (ready : Int → Bool) (fd : Int) (s : State) : State :=
  let fds := mkFds s.server
  let fdBiggest := fds.value.2
  let fdsRead := selectRead (fdBiggest + 1) ready fds.value.1
  let used := s.used ++ fds.indices
  if fdIsset listener fdsRead then
    if fd = -1 then { s with pc := .top, used := used }
    else
      let added := addSocket fd (s.server.accept fd)
      let used := used ++ added.indices
      if added.value.1 = -1 then { server := added.value.2.close fd, pc := .top, used := used }
      else { server := added.value.2, pc := .top, used := used }
  else { s with pc := .scan 1 fdsRead, used := used }

/-- One turn of the scan, with `recv` returning `retRecv` where it is called. -/
def scanEntry (i : Nat) (fdsRead : FdSet) (retRecv : Int) (s : State) : State :=
  if i < s.server.cntFdSocket then
    let entry := Access.read s.server.fdSocket i
    let used := s.used ++ entry.indices
    if fdIsset entry.value fdsRead then
      if retRecv = -1 then { s with pc := .scan (i + 1) fdsRead, used := used }
      else if retRecv = 0 then
        let deleted := delSocket entry.value s.server
        { server := deleted.value.2
          pc := .scan (i + 1) fdsRead, used := used ++ deleted.indices }
      else { s with pc := .scan (i + 1) fdsRead, used := used }
    else { s with pc := .scan (i + 1) fdsRead, used := used }
  else { s with pc := .top }

/-! ## Runs -/

/-- The table after the initialisation loop of `main`. -/
def bootCleared (b : Boot) : Server where
  fdSocket := Vector.replicate maxFdSocket (-1)
  cntFdSocket := 0
  sockets := ⟨b.others, ∅⟩

/-- The state after `add_socket(fd_listener)`. -/
def bootState (b : Boot) : State :=
  let added := addSocket b.listener (bootCleared b)
  { server := added.value.2, pc := .top, used := added.indices }

/-- One step of the process.  `alloc` says which number the kernel may give a new descriptor. -/
inductive Step (alloc : Finset Int → Int → Prop) (b : Boot) : State → State → Prop
  | selectFails {s : State} :
      s.pc = .top →
      Step alloc b s { s with pc := .exited, used := s.used ++ (mkFds s.server).indices }
  | acceptOrScan {s : State} (ready : Int → Bool) (fd : Int) :
      s.pc = .top → (fd = -1 ∨ alloc s.server.sockets.opened fd) →
      Step alloc b s (acceptOrScan b.listener ready fd s)
  | scanEntry {s : State} {i : Nat} {fdsRead : FdSet} (retRecv : Int) :
      s.pc = .scan i fdsRead → Step alloc b s (scanEntry i fdsRead retRecv s)

/-- The server process. -/
def machine (alloc : Finset Int → Int → Prop) (b : Boot) : Machine State where
  init s := s = bootState b
  step := Step alloc b

end Alnp.IoSelect
