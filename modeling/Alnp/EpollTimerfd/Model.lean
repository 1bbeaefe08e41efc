import Alnp.EpollTimerfd.SessionList
import Alnp.Kernel.ConnTable
import Alnp.Kernel.Epoll
import Alnp.Lib.Machine

/-!
# The session server of `epoll_timerfd.c`

Every connection is a session with a timer of its own that is armed again whenever data arrives; a
session whose timer is reported is torn down.  `add_ev` and `del_ev` register and tear down,
`getEpolleventTurn` is the body of the loop of `get_epollevent`, and `machine` is the main loop:
`epoll_wait`, then the events of the batch one at a time, with time passing in between.

What the kernel decides is an argument of the functions (`AddAnswers`, `Answers`).  The server
carries a record of what the results are about: failed calls, descriptors closed twice, timers
missing in the list, sessions torn down for their timeout.
-/

namespace Alnp.EpollTimerfd

/-- `FDSESSION_DEFAULT_TIMEOUT` -/
def fdsessionDefaultTimeout : Int := 30

/-- `max_ep_events` -/
def maxEpEvents : Nat := 32

/-- What the calls inside `add_ev` answer. -/
structure AddAnswers where
  addSocket : Option Errno
  realloc : Except Errno (Vector Fdsession 16)
  timerfdCreate : Except Errno Int
  timerfdSettime : Option Errno
  addTimer : Option Errno

/-- What the calls inside one turn of `get_epollevent` answer: the connections that `accept`
returns before it returns -1, the result of `recv` and that of `timerfd_settime`. -/
structure Answers where
  accepts : List (Int × AddAnswers)
  recv : Int
  timerfdSettime : Option Errno

/-- The calls whose failure is recorded. -/
inductive Call
  | realloc
  | timerfdCreate
  | timerfdSettime
  | epollCtlAdd

/-- A session torn down in the timeout branch: for which event, and what its timer was then. -/
structure Timeout where
  event : Event
  session : Fdsession
  timer : Option Desc
  clock : Nat
  deriving DecidableEq

structure Server where
  kernel : Epoll
  fdsList : FdsList
  /-- failed calls inside `add_ev` and `fds_set_timerfd` -/
  faults : List Call
  /-- descriptors that were not open when they were closed -/
  badCloses : List Int
  /-- timers for which `fds_deletebytimerfd` returned `ENOENT` -/
  missing : List Int
  timeouts : List Timeout

/-- The sessions in use. -/
def Server.sessions (s : Server) : List Fdsession := s.fdsList.sessions

def Server.fault (call : Call) (s : Server) : Server :=
  { s with faults := s.faults ++ [call] }

/-- `close(fd)` -/
def Server.close (fd : Int) (s : Server) : Server :=
  match s.kernel.close fd with
  | some kernel => { s with kernel := kernel }
  | none => { s with badCloses := s.badCloses ++ [fd] }

/-- The places where the server ends itself (`pr_crt`). -/
inductive Exit
  | epollCtlAdd
  | epollCtlDel
  | addEv
  | delEv
  | epollWait
  deriving DecidableEq

/-- A function returns, or the process has ended. -/
inductive Res (α : Type)
  | returned (a : α) (s : Server)
  | exited (why : Exit) (s : Server)

/-! ## Sessions -/

/-- `fds_new_timerfd` -/
def fdsNewTimerfd (answers : AddAnswers) (socketfd timeout : Int) (s : Server) :
    Except Errno Nat × Server :=
  match reserve answers.realloc s.fdsList with
  | .error e => (.error e, s.fault .realloc)
  | .ok fdsList =>
      match s.kernel.timerfdCreate answers.timerfdCreate with
      | .error e => (.error e, { s with fdsList := fdsList }.fault .timerfdCreate)
      | .ok (fd, kernel) =>
          let stored := (store socketfd fd timeout fdsList).value
          (.ok stored.1, { s with kernel := kernel, fdsList := stored.2 })

/-- `fds_set_timerfd` on entry `i` of the list. -/
def fdsSetTimerfd (failure : Option Errno) (i : Nat) (s : Server) : Except Errno Unit × Server :=
  let fds := (Access.read s.fdsList.list i).value
  match s.kernel.timerfdSettime failure fds.timerfd fds.timeout with
  | .error e => (.error e, s.fault .timerfdSettime)
  | .ok kernel => (.ok (), { s with kernel := kernel })

/-- `add_ev` -/
def addEv (answers : AddAnswers) (fd timeout : Int) (s : Server) : Res Int :=
  match s.kernel.ctlAdd answers.addSocket fd with
  | none => .exited .epollCtlAdd (s.fault .epollCtlAdd)
  | some kernel =>
      if timeout > 0 then
        match fdsNewTimerfd answers fd timeout { s with kernel := kernel } with
        | (.error ret, s) => .returned ret s
        | (.ok i, s) =>
            match fdsSetTimerfd answers.timerfdSettime i s with
            | (.error ret, s) => .returned ret s
            | (.ok (), s) =>
                let timerfd := (Access.read s.fdsList.list i).value.timerfd
                match s.kernel.ctlAdd answers.addTimer timerfd with
                | none => .exited .epollCtlAdd (s.fault .epollCtlAdd)
                | some kernel => .returned 0 { s with kernel := kernel }
      else .returned 0 { s with kernel := kernel }

/-- `del_ev` -/
def delEv (fd : Int) (s : Server) : Res Int :=
  match s.kernel.ctlDel fd with
  | none => .exited .epollCtlDel s
  | some kernel =>
      let s := { s with kernel := kernel }.close fd
      match (fdsFindbysocketfd fd s.fdsList).value with
      | none => .returned (-1) s
      | some i =>
          let timerfd := (Access.read s.fdsList.list i).value.timerfd
          match s.kernel.ctlDel timerfd with
          | none => .exited .epollCtlDel s
          | some kernel =>
              let s := { s with kernel := kernel }.close timerfd
              let deleted := (fdsDeletebytimerfd timerfd s.fdsList).value
              if deleted.1 ≠ 0 then
                .returned deleted.1 { s with missing := s.missing ++ [timerfd] }
              else .returned 0 { s with fdsList := deleted.2 }

/-- What `ADD_EV` and `DEL_EV` make of the call inside: -1 ends the process, and every other value
is dropped. -/
def Res.orExit (why : Exit) : Res Int → Res Int
  | .exited why' s => .exited why' s
  | .returned ret s => if ret = -1 then .exited why s else .returned 0 s

/-! ## Events -/

/-- The loop that accepts connections until there are no more. -/
def acceptLoop : List (Int × AddAnswers) → Server → Res Int
  | [], s => .returned 0 s
  | (fd, answers) :: rest, s =>
      match s.kernel.accept fd with
      | none => .returned 0 s
      | some kernel =>
          let s := { s with kernel := kernel }
          match (addEv answers fd fdsessionDefaultTimeout s).orExit .addEv with
          | .exited why s => .exited why s
          | .returned _ s => acceptLoop rest s

/-- The timeout branch for entry `i` of the list. -/
def timeoutBranch (e : Event) (i : Nat) (s : Server) : Res Int :=
  let fds := (Access.read s.fdsList.list i).value
  let timeout : Timeout := ⟨e, fds, s.kernel.desc fds.timerfd, s.kernel.clock⟩
  (delEv fds.socketfd { s with timeouts := s.timeouts ++ [timeout] }).orExit .delEv

/-- The branch for an event that is neither the listener's nor a timer's. -/
def recvBranch (answers : Answers) (fd : Int) (s : Server) : Res Int :=
  let received := s.kernel.recv fd answers.recv
  let s := { s with kernel := received.2 }
  if received.1 = -1 then .returned 0 s
  else if received.1 = 0 then (delEv fd s).orExit .delEv
  else
    match (fdsFindbysocketfd fd s.fdsList).value with
    | none => .returned (-1) s
    | some i =>
        match fdsSetTimerfd answers.timerfdSettime i s with
        | (.error ret, s) => .returned ret s
        | (.ok (), s) => .returned 0 s

/-- A turn of the loop of `get_epollevent`: 0 to go on with the next event, or the value that
`get_epollevent` returns at once. -/
def getEpolleventTurn (fdListener : Int) (e : Event) (answers : Answers) (s : Server) : Res Int :=
  if e.epollin then
    if e.fd = fdListener then acceptLoop answers.accepts s
    else
      match (fdsFindbytimerfd e.fd s.fdsList).value with
      | some i => timeoutBranch e i s
      | none => recvBranch answers e.fd s
  else .returned 0 s

/-! ## Runs -/

/-- Where the main loop stands: in front of `epoll_wait`, inside a batch that was returned at the
given tick with some events left, or nowhere since the process has ended. -/
inductive Pc
  | wait
  | batch (events : List Event) (tick : Nat)
  | exited (why : Exit)
  deriving DecidableEq

structure State where
  server : Server
  pc : Pc
  /-- What `get_epollevent` returned when it abandoned a batch. -/
  abandoned : List Int

/-- After a turn of `get_epollevent` with `rest` still to come. -/
def State.afterTurn (s : State) (rest : List Event) (tick : Nat) : Res Int → State
  | .exited why server => { s with server := server, pc := .exited why }
  | .returned ret server =>
      if ret ≠ 0 then
        { server := server, pc := .wait, abandoned := s.abandoned ++ [ret] }
      else { s with server := server, pc := .batch rest tick }

def State.setKernel (s : State) (kernel : Epoll) : State :=
  { s with server := { s.server with kernel := kernel } }

inductive Step (fdListener : Int) : State → State → Prop
  | time {s : State} (clock : Nat) :
      s.server.kernel.clock ≤ clock →
      Step fdListener s (s.setKernel { s.server.kernel with clock := clock })
  | waitFails {s : State} : s.pc = .wait → Step fdListener s { s with pc := .exited .epollWait }
  | wait {s : State} (events : List Event) :
      s.pc = .wait → s.server.kernel.Reported maxEpEvents events →
      Step fdListener s
        { s.setKernel { s.server.kernel with tick := s.server.kernel.tick + 1 } with
          pc := .batch events (s.server.kernel.tick + 1) }
  | event {s : State} {e : Event} {rest : List Event} {tick : Nat} (answers : Answers) :
      s.pc = .batch (e :: rest) tick →
      Step fdListener s
        (s.afterTurn rest tick (getEpolleventTurn fdListener e answers s.server))
  | done {s : State} {tick : Nat} : s.pc = .batch [] tick → Step fdListener s { s with pc := .wait }

/-- The descriptors when the main loop is entered, the epoll instance among the others. -/
def bootKernel (b : Boot) : Epoll where
  clock := 0
  tick := 0
  desc fd := if fd = b.listener then some .listener else if fd ∈ b.others then some .other else none
  interest := ∅

/-- The server in front of `ADD_EV(epollfd, fd_listener, 0)`. -/
def bootServer (b : Boot) : Server := ⟨bootKernel b, .empty, [], [], [], []⟩

/-- `main` from the state after `ADD_EV(epollfd, fd_listener, 0)`. -/
def machine (b : Boot) : Machine State where
  init s := ∃ answers, addEv answers b.listener 0 (bootServer b) = .returned 0 s.server ∧
    s.pc = .wait ∧ s.abandoned = []
  step := Step b.listener

end Alnp.EpollTimerfd
