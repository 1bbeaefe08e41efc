import Mathlib.Logic.Function.Basic
import Alnp.Lib.Machine
import Alnp.Lib.Notice

/-!
# Notification by real-time signals in `io_rts.c`

`start_sigrt` of `Chapter10/io_rts.c` registers the listener and every accepted socket for a
real-time signal with four calls of `fcntl` (`add_rts_socket`), waits with `sigwaitinfo`, and makes
one `accept` or one `recv` of at most `SZ_RECV_BUF` bytes for each signal.

An arrival queues a signal only when the descriptor is registered completely, so what comes earlier
is not announced, and neither is what one `recv` leaves behind.  `lossless_of_timely` gives the runs
in which nothing is left over: connections arrive at a registered listener, data arrives at a
registered socket and in amounts that its signals cover, and `accept` does not fail while a
connection waits.
-/

namespace Alnp.IoRts

def szRecvBuf : Nat := 16384

/-- The calls of `add_rts_socket`, in their order. -/
inductive Fcntl
  | getfl
  | setfl
  | setsig
  | setown

def Fcntl.next : Fcntl → Option Fcntl
  | .getfl => some .setfl
  | .setfl => some .setsig
  | .setsig => some .setown
  | .setown => none

/-- What has been set on a descriptor. -/
structure Flags where
  async : Bool
  sig : Bool
  own : Bool

def Flags.unset : Flags := ⟨false, false, false⟩

/-- An arrival on the descriptor queues a signal. -/
def Flags.armed (f : Flags) : Bool := f.async && f.sig && f.own

/-- A call of `add_rts_socket` that succeeds. -/
def Fcntl.apply : Fcntl → Flags → Flags
  | .getfl, f => f
  | .setfl, f => { f with async := true }
  | .setsig, f => { f with sig := true }
  | .setown, f => { f with own := true }

/-- What a client has sent. -/
structure Conn where
  unread : Nat
  eof : Bool

/-- What may arrive from a client. -/
inductive Input
  | data (n : Nat)
  | eof

def Conn.receive : Input → Conn → Conn
  | .data n, c => { c with unread := c.unread + n }
  | .eof, c => { c with eof := true }

/-- An accepted socket that is open. -/
structure Client where
  conn : Conn
  flags : Flags

/-- A queued `SIGRT_NORM_IO`: `si_fd`, and whether `si_band` has `POLLIN`. -/
structure NormIo where
  siFd : Int
  pollin : Bool
  deriving DecidableEq

/-- Where `start_sigrt` is. -/
inductive At
  /-- in `add_rts_socket` for the listener -/
  | listener (call : Fcntl)
  | sigwaitinfo
  | accept
  /-- in `add_rts_socket` for an accepted socket -/
  | client (fdClient : Int) (call : Fcntl)
  | recv (siFd : Int)

structure System where
  pc : At
  listener : Flags
  /-- The accept queue of the listener. -/
  backlog : List Conn
  clients : Int → Option Client
  /-- How many `SIGRT_LISTEN_TO` are queued. -/
  listenTo : Nat
  normIo : List NormIo

/-- What may happen. -/
inductive Act
  | connect
  /-- something arrives for the connection at position `i` of the accept queue -/
  | early (i : Nat) (input : Input)
  | arrive (fd : Int) (input : Input)
  /-- `POLLERR` or `POLLHUP` alone -/
  | hangup (fd : Int)
  | fcntl (done : Bool)
  | sigwaitinfo
  | accept (fdClient : Option Int)
  | recv

/-- The descriptor queues a signal, if it is registered. -/
def System.notify (fd : Int) (c : Client) (pollin : Bool) (s : System) : System :=
  { s with normIo := if c.flags.armed then s.normIo ++ [⟨fd, pollin⟩] else s.normIo }

def System.setClient (fd : Int) (c : Option Client) (s : System) : System :=
  { s with clients := Function.update s.clients fd c }

/-- Behind a call of `add_rts_socket`: a failure ends it, and its result is not looked at. -/
def At.after (again : Fcntl → At) (call : Fcntl) (done : Bool) : At :=
  match done, call.next with
  | true, some next => again next
  | _, _ => .sigwaitinfo

inductive SystemStep : System → Act → System → Prop
  | connect (s : System) :
      SystemStep s .connect
        { s with
          backlog := s.backlog ++ [⟨0, false⟩]
          listenTo := if s.listener.armed then s.listenTo + 1 else s.listenTo }
  | early (s : System) (i : Nat) (c : Conn) (input : Input) :
      s.backlog[i]? = some c → c.eof = false →
      SystemStep s (.early i input) { s with backlog := s.backlog.set i (c.receive input) }
  | arrive (s : System) (fd : Int) (c : Client) (input : Input) :
      s.clients fd = some c → c.conn.eof = false →
      SystemStep s (.arrive fd input)
        ((s.setClient fd (some { c with conn := c.conn.receive input })).notify fd c true)
  | hangup (s : System) (fd : Int) (c : Client) :
      s.clients fd = some c → SystemStep s (.hangup fd) (s.notify fd c false)
  | fcntlListener (s : System) (call : Fcntl) (done : Bool) :
      s.pc = .listener call →
      SystemStep s (.fcntl done)
        { s with
          pc := .after .listener call done
          listener := if done then call.apply s.listener else s.listener }
  | fcntlClient (s : System) (fd : Int) (call : Fcntl) (c : Client) (done : Bool) :
      s.pc = .client fd call → s.clients fd = some c →
      SystemStep s (.fcntl done)
        { s.setClient fd
            (some { c with flags := if done then call.apply c.flags else c.flags }) with
          pc := .after (.client fd) call done }
  /-- `SIGRT_LISTEN_TO` has the lower number and is taken first. -/
  | listenTo (s : System) :
      s.pc = .sigwaitinfo → 0 < s.listenTo →
      SystemStep s .sigwaitinfo { s with pc := .accept, listenTo := s.listenTo - 1 }
  | normIo (s : System) (signal : NormIo) (rest : List NormIo) :
      s.pc = .sigwaitinfo → s.listenTo = 0 → s.normIo = signal :: rest →
      SystemStep s .sigwaitinfo
        { s with
          pc := if signal.pollin then .recv signal.siFd else .sigwaitinfo
          normIo := rest }
  | accept (s : System) (fd : Int) (c : Conn) (rest : List Conn) :
      s.pc = .accept → s.backlog = c :: rest → 0 ≤ fd → s.clients fd = none →
      SystemStep s (.accept (some fd))
        { s.setClient fd (some ⟨c, .unset⟩) with pc := .client fd .getfl, backlog := rest }
  | acceptFailed (s : System) :
      s.pc = .accept → SystemStep s (.accept none) { s with pc := .sigwaitinfo }
  /-- `recv` takes what there is, up to its buffer. -/
  | recvData (s : System) (fd : Int) (c : Client) :
      s.pc = .recv fd → s.clients fd = some c → 0 < c.conn.unread →
      SystemStep s .recv
        { s.setClient fd
            (some
              { c with
                conn :=
                  { c.conn with unread := c.conn.unread - min c.conn.unread szRecvBuf } }) with
          pc := .sigwaitinfo }
  /-- `recv` returns 0 and the socket is closed; the signals queued for it stay. -/
  | recvEof (s : System) (fd : Int) (c : Client) :
      s.pc = .recv fd → s.clients fd = some c → c.conn.unread = 0 → c.conn.eof = true →
      SystemStep s .recv { s.setClient fd none with pc := .sigwaitinfo }
  /-- `recv` returns -1: nothing has arrived, or the descriptor is closed. -/
  | recvFailed (s : System) (fd : Int) :
      s.pc = .recv fd →
      (∀ c, s.clients fd = some c → c.conn.unread = 0 ∧ c.conn.eof = false) →
      SystemStep s .recv { s with pc := .sigwaitinfo }

/-- The program from the moment the listener listens. -/
def machine : Machine System where
  init s := s = ⟨.listener .getfl, .unset, [], fun _ => none, 0, []⟩
  step s t := ∃ act, SystemStep s act t

/-! ## What the queued signals cover -/

/-- How often `recv` is still called for the descriptor. -/
def At.receiving (fd : Int) : At → Nat
  | .recv siFd => if siFd = fd then 1 else 0
  | _ => 0

/-- How many calls of `recv` on `fd` are under way. -/
def System.signals (fd : Int) (s : System) : Nat :=
  s.normIo.count ⟨fd, true⟩ + s.pc.receiving fd

/-- A call of `accept` is under way. -/
def At.accepting : At → Nat
  | .accept => 1
  | _ => 0

/-- A connection arrives at a registered listener, data at an accepted socket and not in front of
its registration, and never more than the signals queued for the socket cover; `accept` does not
fail while a connection waits. -/
def Timely (s : System) : Act → Prop
  | .connect => s.listener.armed = true
  | .early _ (.data _) => False
  | .arrive fd (.data n) => ∀ c, s.clients fd = some c →
      Backed szRecvBuf (c.conn.unread + n) (s.signals fd + c.flags.armed.toNat)
  | .accept none => s.backlog = []
  | _ => True

/-- The runs in which everything is `Timely`. -/
def timely : Machine System where
  init := machine.init
  step s t := ∃ act, SystemStep s act t ∧ Timely s act

/-- Every connection that waits and all data that is unread is announced. -/
structure Announced (s : System) : Prop where
  backlog : Backed 1 s.backlog.length (s.listenTo + s.pc.accepting)
  silent : ∀ c ∈ s.backlog, c.unread = 0
  clients : ∀ fd c, s.clients fd = some c → Backed szRecvBuf c.conn.unread (s.signals fd)

variable {s t : System} {act : Act}

/-- In `add_rts_socket` and behind it no `accept` is under way. -/
theorem accepting_after {again : Fcntl → At} (plain : ∀ call, (again call).accepting = 0)
    (call : Fcntl) (done : Bool) : (At.after again call done).accepting = 0 := by
  unfold At.after
  split
  · exact plain _
  · rfl

/-- A signal with `POLLIN` that is queued for a registered descriptor is one more `recv` on it. -/
theorem signals_notify (fd x : Int) (c : Client) (pollin : Bool) (s : System) :
    (s.notify fd c pollin).signals x =
      s.signals x + if x = fd ∧ pollin = true then c.flags.armed.toNat else 0 := by
  unfold System.notify System.signals
  cases c.flags.armed with
  | false => simp
  | true =>
      by_cases same : x = fd ∧ pollin = true
      · simp [same, Nat.add_right_comm]
      · have other : (⟨fd, pollin⟩ : NormIo) ≠ ⟨x, true⟩ := by
          intro eq
          cases eq
          exact same ⟨rfl, rfl⟩
        simp [same, List.count_append, other]

/-- One socket changes, and the signals of the others do not become fewer. -/
theorem clients_update {clients : Int → Option Client} {signals signals' : Int → Nat} {fd : Int}
    {now : Option Client}
    (old : ∀ x c, clients x = some c → Backed szRecvBuf c.conn.unread (signals x))
    (others : ∀ x, x ≠ fd → signals x ≤ signals' x)
    (here : ∀ c, now = some c → Backed szRecvBuf c.conn.unread (signals' fd)) :
    ∀ x c, Function.update clients fd now x = some c →
      Backed szRecvBuf c.conn.unread (signals' x) := by
  intro x c found
  rcases eq_or_ne x fd with rfl | other
  · rw [Function.update_self] at found
    exact here c found
  · rw [Function.update_of_ne other] at found
    exact (old x c found).mono (others x other)

theorem Announced.step (announced : Announced s) (step : SystemStep s act t)
    (inTime : Timely s act) : Announced t := by
  obtain ⟨backlog, silent, clients⟩ := announced
  cases step with
  | connect =>
      have armed : s.listener.armed = true := inTime
      refine ⟨?_, ?_, clients⟩
      · have one := backlog.succ
        simp only [armed, ↓reduceIte, List.length_append, List.length_singleton]
        rwa [Nat.add_right_comm] at one
      · exact List.forall_mem_append.mpr ⟨silent, by simp⟩
  | early i c input found open' =>
      cases input with
      | data n => exact inTime.elim
      | eof =>
          refine ⟨?_, ?_, clients⟩
          · simpa using backlog
          · intro d member
            rcases List.mem_or_eq_of_mem_set member with old | rfl
            · exact silent d old
            · exact silent c (List.mem_of_getElem? found)
  | arrive fd c input found open' =>
      refine ⟨backlog, silent, clients_update clients (fun x other => ?_) fun d now => ?_⟩
      · rw [signals_notify]
        exact Nat.le_add_right _ _
      · cases now
        rw [signals_notify, if_pos ⟨rfl, rfl⟩]
        cases input with
        | data n => exact inTime c found
        | eof => exact (clients fd c found).mono (Nat.le_add_right _ _)
  | hangup fd c found =>
      refine ⟨backlog, silent, fun x d here => (clients x d here).mono ?_⟩
      rw [signals_notify]
      exact Nat.le_add_right _ _
  | fcntlListener call done calling =>
      rw [calling] at backlog
      refine ⟨?_, silent, fun x d here => (clients x d here).mono ?_⟩
      · dsimp only
        rw [accepting_after fun _ => rfl]
        exact backlog
      · simp only [System.signals, calling]
        exact Nat.le_add_right _ _
  | fcntlClient fd call c done calling found =>
      rw [calling] at backlog
      refine ⟨?_, silent, clients_update clients (fun x other => ?_) fun d now => ?_⟩
      · dsimp only [System.setClient]
        rw [accepting_after fun _ => rfl]
        exact backlog
      · simp only [System.signals, System.setClient, calling]
        exact Nat.le_add_right _ _
      · cases now
        refine (clients fd c found).mono ?_
        simp only [System.signals, System.setClient, calling]
        exact Nat.le_add_right _ _
  | listenTo waiting some =>
      rw [waiting] at backlog
      refine ⟨?_, silent, fun x d here => (clients x d here).mono ?_⟩
      · simp only [At.accepting] at backlog ⊢
        rwa [Nat.sub_add_cancel some]
      · simp only [System.signals, waiting]
        exact Nat.le_refl _
  | normIo signal rest waiting none front =>
      rw [waiting] at backlog
      have taken (x : Int) : s.signals x ≤
          rest.count ⟨x, true⟩ +
            (if signal.pollin then At.recv signal.siFd else At.sigwaitinfo).receiving x := by
        simp only [System.signals, waiting, front, List.count_cons, At.receiving]
        obtain ⟨siFd, pollin⟩ := signal
        cases pollin with
        | false => simp
        | true => simp
      refine ⟨?_, silent, fun x d here => (clients x d here).mono (taken x)⟩
      cases signal.pollin <;> exact backlog
  | accept fd c rest accepting front nonneg free =>
      rw [accepting, front] at backlog
      rw [front] at silent
      refine ⟨?_, fun d member => silent d (List.mem_cons_of_mem c member),
        clients_update clients (fun x other => ?_) fun d now => ?_⟩
      · have served := backlog.serve
        have left : (c :: rest).length - min (c :: rest).length 1 = rest.length := by simp
        rw [left] at served
        exact served
      · simp only [System.signals, System.setClient, accepting]
        exact Nat.le_refl _
      · cases now
        rw [silent c List.mem_cons_self]
        exact Backed.none
  | acceptFailed accepting =>
      have empty : s.backlog = [] := inTime
      refine ⟨?_, silent, fun x d here => (clients x d here).mono ?_⟩
      · rw [empty]
        exact Backed.none
      · simp only [System.signals, accepting]
        exact Nat.le_refl _
  | recvData fd c receiving found some =>
      rw [receiving] at backlog
      refine ⟨backlog, silent, clients_update clients (fun x other => ?_) fun d now => ?_⟩
      · simp only [System.signals, System.setClient, receiving, At.receiving,
          if_neg (Ne.symm other)]
        exact Nat.le_refl _
      · cases now
        have before := clients fd c found
        rw [System.signals, receiving, At.receiving, if_pos rfl] at before
        exact before.serve
  | recvEof fd c receiving found none ended =>
      rw [receiving] at backlog
      refine ⟨backlog, silent, clients_update clients (fun x other => ?_) nofun⟩
      simp only [System.signals, System.setClient, receiving, At.receiving, if_neg (Ne.symm other)]
      exact Nat.le_refl _
  | recvFailed fd receiving nothing =>
      rw [receiving] at backlog
      refine ⟨backlog, silent, fun x d here => ?_⟩
      rcases eq_or_ne x fd with rfl | other
      · rw [(nothing d here).1]
        exact Backed.none
      · refine (clients x d here).mono ?_
        simp only [System.signals, receiving, At.receiving, if_neg other.symm]
        exact Nat.le_refl _

theorem announced_of_timely (run : timely.Reachable s) : Announced s := by
  apply run.invariant (P := Announced)
  · intro s start
    subst start
    exact ⟨Backed.none, nofun, nofun⟩
  · intro s t _ announced step
    obtain ⟨act, step, inTime⟩ := step
    exact announced.step step inTime

/-- Nothing that has arrived is left over. -/
def Lossless (s : System) : Prop :=
  s.backlog = [] ∧ ∀ fd c, s.clients fd = some c → c.conn.unread = 0

/-- **No lost input.**  In a run in which everything is `Timely`, the program waits without a queued
signal only where no connection waits and no socket has unread data. -/
theorem lossless_of_timely (run : timely.Reachable s) (waiting : s.pc = .sigwaitinfo)
    (noListenTo : s.listenTo = 0) (noNormIo : s.normIo = []) : Lossless s := by
  obtain ⟨backlog, -, clients⟩ := announced_of_timely run
  rw [waiting, noListenTo] at backlog
  refine ⟨List.length_eq_zero_iff.mp backlog.eq_zero, fun fd c found => ?_⟩
  have announced := clients fd c found
  rw [System.signals, waiting, noNormIo] at announced
  exact announced.eq_zero

/-! ## One connection -/

/-- The listener is registered. -/
theorem timely_registered :
    timely.Reachable ⟨.sigwaitinfo, ⟨true, true, true⟩, [], fun _ => none, 0, []⟩ := by
  have start : timely.Reachable _ := .of_init rfl
  have got := start.tail ⟨_, SystemStep.fcntlListener _ .getfl true rfl, trivial⟩
  have async := got.tail ⟨_, SystemStep.fcntlListener _ .setfl true rfl, trivial⟩
  have sig := async.tail ⟨_, SystemStep.fcntlListener _ .setsig true rfl, trivial⟩
  exact sig.tail ⟨_, SystemStep.fcntlListener _ .setown true rfl, trivial⟩

/-- A client connects, is registered, and sends 100 bytes. -/
theorem lossless_received :
    ∃ s, timely.Reachable s ∧ (s.clients 5).isSome = true ∧ s.pc = .sigwaitinfo ∧
      s.listenTo = 0 ∧ s.normIo = [] ∧ Lossless s := by
  have connected := timely_registered.tail ⟨_, SystemStep.connect _, rfl⟩
  have woken := connected.tail ⟨_, SystemStep.listenTo _ rfl (by decide), trivial⟩
  have accepted := woken.tail
    ⟨_, SystemStep.accept _ 5 ⟨0, false⟩ [] rfl rfl (by decide) rfl, trivial⟩
  have got := accepted.tail
    ⟨_, SystemStep.fcntlClient _ 5 .getfl ⟨⟨0, false⟩, .unset⟩ true rfl rfl, trivial⟩
  have async := got.tail
    ⟨_, SystemStep.fcntlClient _ 5 .setfl ⟨⟨0, false⟩, .unset⟩ true rfl rfl, trivial⟩
  have sig := async.tail
    ⟨_, SystemStep.fcntlClient _ 5 .setsig ⟨⟨0, false⟩, ⟨true, false, false⟩⟩ true rfl rfl,
      trivial⟩
  have registered := sig.tail
    ⟨_, SystemStep.fcntlClient _ 5 .setown ⟨⟨0, false⟩, ⟨true, true, false⟩⟩ true rfl rfl,
      trivial⟩
  have sent := registered.tail
    ⟨_, SystemStep.arrive _ 5 ⟨⟨0, false⟩, ⟨true, true, true⟩⟩ (.data 100) rfl rfl,
      fun c found => by
        cases found
        decide⟩
  have signalled := sent.tail
    ⟨_, SystemStep.normIo _ ⟨5, true⟩ [] rfl rfl rfl, trivial⟩
  have received := signalled.tail
    ⟨_, SystemStep.recvData _ 5 ⟨⟨100, false⟩, ⟨true, true, true⟩⟩ rfl rfl (by decide), trivial⟩
  exact ⟨_, received, rfl, rfl, rfl, rfl, lossless_of_timely received rfl rfl rfl⟩

/-- A client connects before the listener is registered and is never accepted. -/
theorem not_forall_lossless :
    ¬ ∀ s, machine.Reachable s → s.pc = .sigwaitinfo → s.listenTo = 0 → s.normIo = [] →
      Lossless s := by
  intro always
  have start : machine.Reachable _ := .of_init rfl
  have connected := start.tail ⟨_, SystemStep.connect _⟩
  have got := connected.tail ⟨_, SystemStep.fcntlListener _ .getfl true rfl⟩
  have async := got.tail ⟨_, SystemStep.fcntlListener _ .setfl true rfl⟩
  have sig := async.tail ⟨_, SystemStep.fcntlListener _ .setsig true rfl⟩
  have registered := sig.tail ⟨_, SystemStep.fcntlListener _ .setown true rfl⟩
  exact absurd (always _ registered rfl rfl rfl).1 (List.cons_ne_nil _ _)

end Alnp.IoRts
