import Alnp.Prefork.Model

/-!
# Descriptor hygiene of the preforked servers

Each `start_child` gives its socket back on some of the ways out of a session only.  `Orderly` names
the others: in `unix_tcp_serv.c` an error of `recv` leaves the socket open and an error of `send`
closes it and goes on using it, in `inet_tcp_serv1.c` a chunk without a newline and in
`inet6_tcp_serv1.c` an error of `getnameinfo` leave it open.

`clean_iff_of_reachable`: a child at `accept` has closed every socket exactly once and used none
afterwards exactly if it has never taken such a way out.
-/

namespace Alnp.Prefork

/-- The turn does not end a session in the way for which the program forgets `close`, or forgets to
leave the session. -/
def Orderly : Program → Answer → Child → Prop
  | .unixTcpServ, .recv (.failed errno) _, _ => errno = eintr
  | .unixTcpServ, .recv (.data _) (.failed _), _ => False
  | .inetTcpServ1, .recv (.data bytes) _, c => strchr 10 (c.store bytes).memory ≠ .null
  | .inet6TcpServ1, .accept (.fd _) rcGai, _ => rcGai = 0
  | _, _, _ => True

/-- The runs of a child whose turns are all `Orderly`. -/
def orderly (p : Program) : Machine Child where
  init := Child.Started
  step c c' := ∃ answer, ChildStep p c answer c' ∧ Orderly p answer c

/-! ## What a turn does to the descriptors -/

/-- Nothing but `cfd` is opened or closed, and naming `cfd` after it was closed is counted. -/
structure Touched (cfd : Int) (l l' : Ledger) : Prop where
  others : ∀ x, x ≠ cfd → (l'.Opened x ↔ l.Opened x)
  seen : ∀ x, l'.Seen x ↔ l.Seen x
  misused : l.misused ≤ l'.misused
  misuse : l.Seen cfd → ¬ l.Opened cfd → l.misused < l'.misused

variable {p : Program} {c c' : Child} {cfd : Int} {l l' : Ledger}

theorem touched_use : Touched cfd l (l.use cfd) where
  others x _ := Ledger.opened_use
  seen x := Ledger.seen_use
  misused := Ledger.misused_le_use
  misuse seen back := by
    rw [Ledger.misused_use_of_closed seen back]
    exact Nat.lt_succ_self _

theorem Touched.use (touched : Touched cfd l l') : Touched cfd l (l'.use cfd) where
  others x other := Ledger.opened_use.trans (touched.others x other)
  seen x := Ledger.seen_use.trans (touched.seen x)
  misused := touched.misused.trans Ledger.misused_le_use
  misuse seen back := (touched.misuse seen back).trans_le Ledger.misused_le_use

theorem Touched.close (touched : Touched cfd l l') : Touched cfd l (l'.close cfd) where
  others x other := by
    rw [Ledger.opened_close, touched.others x other]
    exact and_iff_right other
  seen x := Ledger.seen_close.trans (touched.seen x)
  misused := touched.misused.trans Ledger.misused_le_close
  misuse seen back := (touched.misuse seen back).trans_le Ledger.misused_le_close

/-- Where a turn behind `recv` may lead. -/
def At.Follows (cfd : Int) (pc : At) : Prop :=
  pc = .recv cfd ∨ pc = .accept ∨ pc = .exited

theorem unixTcpServ_received (pc : c.pc = .recv cfd) (received : Received) (sent : Sent) :
    Touched cfd c.sockets (UnixTcpServ.received cfd received sent c).sockets ∧
      (UnixTcpServ.received cfd received sent c).pc.Follows cfd := by
  cases received with
  | failed errno =>
      rw [UnixTcpServ.received]
      split
      · exact ⟨touched_use, .inl pc⟩
      · exact ⟨touched_use, .inr (.inl rfl)⟩
  | eof => exact ⟨touched_use.close, .inr (.inl rfl)⟩
  | data bytes =>
      cases sent with
      | sent len => exact ⟨touched_use.use, .inl pc⟩
      | failed errno => exact ⟨touched_use.use.close, .inl pc⟩
      | sigpipe => exact ⟨touched_use.use, .inr (.inr rfl)⟩

theorem inetTcpServ1_received (pc : c.pc = .recv cfd) (received : Received) (sent : Sent) :
    Touched cfd c.sockets (InetTcpServ1.received cfd received sent c).sockets ∧
      (InetTcpServ1.received cfd received sent c).pc.Follows cfd := by
  cases received with
  | failed errno =>
      rw [InetTcpServ1.received]
      split
      · exact ⟨touched_use, .inl pc⟩
      · exact ⟨touched_use, .inr (.inr rfl)⟩
  | eof => exact ⟨touched_use, .inr (.inr rfl)⟩
  | data bytes =>
      rw [InetTcpServ1.received, InetTcpServ1.reply]
      split
      · cases sent with
        | sent len => exact ⟨touched_use.use, .inl pc⟩
        | failed errno => exact ⟨touched_use.use, .inr (.inr rfl)⟩
        | sigpipe => exact ⟨touched_use.use, .inr (.inr rfl)⟩
      · exact ⟨touched_use, .inr (.inl rfl)⟩
      · exact ⟨touched_use, .inr (.inr rfl)⟩

theorem inet6TcpServ1_received (pc : c.pc = .recv cfd) (received : Received) (sent : Sent) :
    Touched cfd c.sockets (Inet6TcpServ1.received cfd received sent c).sockets ∧
      (Inet6TcpServ1.received cfd received sent c).pc.Follows cfd := by
  have sends (c' : Child) (pc' : c'.pc = .recv cfd) (touched : Touched cfd c.sockets c'.sockets) :
      Touched cfd c.sockets (Inet6TcpServ1.sent cfd sent c').sockets ∧
        (Inet6TcpServ1.sent cfd sent c').pc.Follows cfd := by
    cases sent with
    | sent len => exact ⟨touched, .inl pc'⟩
    | failed errno => exact ⟨touched.close, .inr (.inl rfl)⟩
    | sigpipe => exact ⟨touched, .inr (.inr rfl)⟩
  cases received with
  | failed errno =>
      rw [Inet6TcpServ1.received]
      split
      · exact ⟨touched_use, .inl pc⟩
      · exact ⟨touched_use.close, .inr (.inl rfl)⟩
  | eof => exact sends _ pc touched_use.use
  | data bytes => exact sends _ pc touched_use.use

theorem received_touched (p : Program) (pc : c.pc = .recv cfd) (received : Received)
    (sent : Sent) :
    Touched cfd c.sockets (p.received cfd received sent c).sockets ∧
      (p.received cfd received sent c).pc.Follows cfd := by
  cases p with
  | unixTcpServ => exact unixTcpServ_received pc received sent
  | inetTcpServ1 => exact inetTcpServ1_received pc received sent
  | inet6TcpServ1 => exact inet6TcpServ1_received pc received sent

/-- A turn behind `accept` opens the new socket, if there is one; it stays in the outer loop with it
only where that is not `Orderly`. -/
theorem accepted_cases (p : Program) (unseen : ¬ c.sockets.Seen (-1)) (accepted : Accepted)
    (rcGai : Int) :
    ((p.accepted accepted rcGai c).sockets = c.sockets ∧
        ((p.accepted accepted rcGai c).pc = .accept ∨
          (p.accepted accepted rcGai c).pc = .exited) ∧
        Orderly p (.accept accepted rcGai) c) ∨
      ∃ cfd, accepted = .fd cfd ∧
        (p.accepted accepted rcGai c).sockets = c.sockets.accept cfd ∧
        ((p.accepted accepted rcGai c).pc = .recv cfd ∧ Orderly p (.accept accepted rcGai) c ∨
          (p.accepted accepted rcGai c).pc = .accept ∧ ¬ Orderly p (.accept accepted rcGai) c) := by
  cases accepted with
  | failed errno =>
      cases p with
      | unixTcpServ => exact .inl ⟨Ledger.close_of_unseen unseen, .inl rfl, trivial⟩
      | inetTcpServ1 => exact .inl ⟨rfl, .inr rfl, trivial⟩
      | inet6TcpServ1 => exact .inl ⟨rfl, .inl rfl, trivial⟩
  | fd cfd =>
      refine .inr ⟨cfd, rfl, ?_⟩
      cases p with
      | unixTcpServ => exact ⟨rfl, .inl ⟨rfl, trivial⟩⟩
      | inetTcpServ1 => exact ⟨rfl, .inl ⟨rfl, trivial⟩⟩
      | inet6TcpServ1 =>
          by_cases named : rcGai = 0
          · have session : Inet6TcpServ1.accepted (.fd cfd) rcGai c =
                { c.accept cfd with pc := .recv cfd } := if_pos named
            rw [Program.accepted, session]
            exact ⟨rfl, .inl ⟨rfl, named⟩⟩
          · have dropped : Inet6TcpServ1.accepted (.fd cfd) rcGai c = (c.accept cfd).next :=
              if_neg named
            rw [Program.accepted, dropped]
            exact ⟨rfl, .inr ⟨rfl, named⟩⟩

/-- `accept` never hands out -1. -/
theorem unseen_of_reachable (reached : (child p).Reachable c) : ¬ c.sockets.Seen (-1) := by
  apply reached.invariant (P := fun c => ¬ c.sockets.Seen (-1))
  · intro c start
    obtain ⟨memory, -, rfl⟩ := start
    exact Nat.lt_irrefl 0
  · intro c c' _ unseen step
    obtain ⟨answer, step⟩ := step
    cases step with
    | accept accepted rcGai pc possible =>
        rcases accepted_cases p unseen accepted rcGai with ⟨same, -⟩ | ⟨cfd, rfl, same, -⟩
        · rwa [same]
        · rw [same]
          intro seen
          rcases Ledger.seen_accept seen with minus | seen
          · exact absurd possible.1 (by omega)
          · exact unseen seen
    | recv cfd received sent pc possible =>
        exact mt ((received_touched p pc received sent).1.seen _).mp unseen

/-! ## Tidy and spoiled children -/

/-- Exactly the socket of the session is open, and none has been misused. -/
structure Tidy (c : Child) : Prop where
  opened : ∀ x, c.sockets.Opened x ↔ c.pc = .recv x
  misused : c.sockets.misused = 0

/-- A socket has been misused or will be in the next turn, or one is open that no turn will close;
or the child has ended. -/
inductive Spoiled (c : Child) : Prop
  | misused : c.sockets.misused ≠ 0 → Spoiled c
  | leaked (x : Int) : c.sockets.Opened x → c.pc ≠ .recv x → Spoiled c
  | stale (cfd : Int) : c.pc = .recv cfd → c.sockets.Seen cfd → ¬ c.sockets.Opened cfd → Spoiled c
  | ended : c.pc = .exited → Spoiled c

/-- No turn repairs a spoiled child. -/
theorem Spoiled.step {answer : Answer} (spoiled : Spoiled c) (unseen : ¬ c.sockets.Seen (-1))
    (step : ChildStep p c answer c') : Spoiled c' := by
  cases step with
  | accept accepted rcGai pc possible =>
      rcases accepted_cases p unseen accepted rcGai with ⟨same, at', -⟩ | ⟨cfd, rfl, same, at'⟩
      · cases spoiled with
        | misused some => exact .misused (same ▸ some)
        | leaked x out _ =>
            refine .leaked x (same ▸ out) ?_
            rcases at' with at' | at' <;> (rw [at']; nofun)
        | stale cfd recv _ _ => cases pc.symm.trans recv
        | ended exited => cases pc.symm.trans exited
      · cases spoiled with
        | misused some =>
            refine .misused ?_
            rwa [same, Ledger.misused_accept]
        | leaked x out _ =>
            refine .leaked x (same ▸ Ledger.opened_accept.mpr (.inr out)) ?_
            rcases at' with ⟨at', -⟩ | ⟨at', -⟩
            · -- The new number is not that of an open socket.
              rw [at']
              intro recv
              cases recv
              exact possible.2 out
            · rw [at']
              nofun
        | stale cfd recv _ _ => cases pc.symm.trans recv
        | ended exited => cases pc.symm.trans exited
  | recv cfd received sent pc possible =>
      obtain ⟨touched, follows⟩ := received_touched p pc received sent
      cases spoiled with
      | misused some =>
          exact .misused (Nat.pos_iff_ne_zero.mp
            ((Nat.pos_iff_ne_zero.mpr some).trans_le touched.misused))
      | leaked x out elsewhere =>
          have other : x ≠ cfd := fun same => elsewhere (same ▸ pc)
          refine .leaked x ((touched.others x other).mpr out) ?_
          intro recv
          rcases follows with follows | follows | follows
          · cases recv.symm.trans follows
            exact other rfl
          · cases recv.symm.trans follows
          · cases recv.symm.trans follows
      | stale cfd' pc' seen back =>
          cases pc.symm.trans pc'
          exact .misused (Nat.ne_of_gt ((Nat.zero_le _).trans_lt (touched.misuse seen back)))
      | ended exited => cases pc.symm.trans exited

/-! ## A session of a tidy child -/

/-- The child is in a session on `cfd`, and all is well. -/
structure Session (cfd : Int) (c : Child) : Prop where
  pc : c.pc = .recv cfd
  opened : ∀ x, c.sockets.Opened x ↔ x = cfd
  misused : c.sockets.misused = 0

theorem Tidy.session (tidy : Tidy c) (pc : c.pc = .recv cfd) : Session cfd c := by
  refine ⟨pc, fun x => ?_, tidy.misused⟩
  rw [tidy.opened, pc, At.recv.injEq]
  exact eq_comm

namespace Session

theorem out (session : Session cfd c) : c.sockets.Opened cfd :=
  (session.opened cfd).mpr rfl

theorem tidy (session : Session cfd c) : Tidy c := by
  refine ⟨fun x => ?_, session.misused⟩
  rw [session.opened, session.pc, At.recv.injEq]
  exact eq_comm

/-- Naming the socket changes nothing. -/
theorem use (session : Session cfd c) : c.use cfd = c := by
  rw [Child.use, Ledger.use_of_opened session.out]

theorem store (session : Session cfd c) (bytes : List Int8) : Session cfd (c.store bytes) :=
  ⟨session.pc, session.opened, session.misused⟩

theorem send (session : Session cfd c) (len : Nat) : Session cfd (c.send cfd len) := by
  rw [Child.send, session.use]
  exact ⟨session.pc, session.opened, session.misused⟩

/-- The session is closed and left. -/
theorem closed (session : Session cfd c) : Tidy (c.close cfd).next := by
  refine ⟨fun x => ?_, ?_⟩
  · change (c.sockets.close cfd).Opened x ↔ At.accept = .recv x
    rw [Ledger.opened_close, session.opened]
    exact ⟨fun both => absurd both.2 both.1, nofun⟩
  · exact (Ledger.misused_close_of_opened session.out).trans session.misused

/-- The session is left and not closed. -/
theorem leaked (session : Session cfd c) : Spoiled c.next :=
  .leaked cfd session.out nofun

/-- The session is closed and not left. -/
theorem stale (session : Session cfd c) : Spoiled (c.close cfd) := by
  refine .stale cfd session.pc (Ledger.seen_close.mpr session.out.seen) ?_
  intro out
  exact (Ledger.opened_close.mp out).1 rfl

end Session

/-- What a turn behind `recv` makes of a tidy child. -/
def Kept (p : Program) (c : Child) (answer : Answer) (c' : Child) : Prop :=
  (c'.pc = .exited ∨ Tidy c') ∧ Orderly p answer c ∨ Spoiled c' ∧ ¬ Orderly p answer c

theorem unixTcpServ_kept (session : Session cfd c) (received : Received) (sent : Sent) :
    Kept .unixTcpServ c (.recv received sent) (UnixTcpServ.received cfd received sent c) := by
  cases received with
  | failed errno =>
      rw [UnixTcpServ.received, session.use]
      split
      · rename_i interrupted
        exact .inl ⟨.inr session.tidy, interrupted⟩
      · rename_i failed
        exact .inr ⟨session.leaked, failed⟩
  | eof =>
      rw [UnixTcpServ.received, session.use]
      exact .inl ⟨.inr session.closed, trivial⟩
  | data bytes =>
      have replied := (session.store bytes).send bytes.length
      cases sent with
      | sent len =>
          rw [UnixTcpServ.received, session.use]
          exact .inl ⟨.inr replied.tidy, trivial⟩
      | failed errno =>
          rw [UnixTcpServ.received, session.use]
          exact .inr ⟨replied.stale, id⟩
      | sigpipe => exact .inl ⟨.inl rfl, trivial⟩

theorem inetTcpServ1_kept (session : Session cfd c) (received : Received) (sent : Sent) :
    Kept .inetTcpServ1 c (.recv received sent) (InetTcpServ1.received cfd received sent c) := by
  cases received with
  | failed errno =>
      rw [InetTcpServ1.received, session.use]
      split
      · exact .inl ⟨.inr session.tidy, trivial⟩
      · exact .inl ⟨.inl rfl, trivial⟩
  | eof => exact .inl ⟨.inl rfl, trivial⟩
  | data bytes =>
      have stored := session.store bytes
      rw [InetTcpServ1.received, session.use, InetTcpServ1.reply]
      split
      · rename_i index found
        have orderly : Orderly .inetTcpServ1 (.recv (.data bytes) sent) c :=
          fun null => nomatch found.symm.trans null
        cases sent with
        | sent len =>
            have cut : Session cfd
                { c.store bytes with memory := (c.store bytes).memory.set index 0 } :=
              ⟨stored.pc, stored.opened, stored.misused⟩
            exact .inl ⟨.inr (cut.send _).tidy, orderly⟩
        | failed errno => exact .inl ⟨.inl rfl, orderly⟩
        | sigpipe => exact .inl ⟨.inl rfl, orderly⟩
      · rename_i null
        exact .inr ⟨stored.leaked, fun orderly => orderly null⟩
      · rename_i overrun
        exact .inl ⟨.inl rfl, fun null => nomatch overrun.symm.trans null⟩

theorem inet6TcpServ1_kept (session : Session cfd c) (received : Received) (sent : Sent) :
    Kept .inet6TcpServ1 c (.recv received sent) (Inet6TcpServ1.received cfd received sent c) := by
  have sends {c : Child} (session : Session cfd c) :
      (Inet6TcpServ1.sent cfd sent c).pc = .exited ∨ Tidy (Inet6TcpServ1.sent cfd sent c) := by
    cases sent with
    | sent len => exact .inr session.tidy
    | failed errno => exact .inr session.closed
    | sigpipe => exact .inl rfl
  cases received with
  | failed errno =>
      rw [Inet6TcpServ1.received, session.use]
      split
      · exact .inl ⟨.inr session.tidy, trivial⟩
      · exact .inl ⟨.inr session.closed, trivial⟩
  | eof =>
      rw [Inet6TcpServ1.received, session.use]
      exact .inl ⟨sends (session.send 0), trivial⟩
  | data bytes =>
      rw [Inet6TcpServ1.received, session.use]
      exact .inl ⟨sends ((session.store bytes).send _), trivial⟩

theorem Tidy.step {answer : Answer} (tidy : Tidy c) (unseen : ¬ c.sockets.Seen (-1))
    (step : ChildStep p c answer c') : Kept p c answer c' := by
  cases step with
  | accept accepted rcGai pc possible =>
      have none : ∀ x, ¬ c.sockets.Opened x := fun x out =>
        nomatch pc.symm.trans ((tidy.opened x).mp out)
      rcases accepted_cases p unseen accepted rcGai with
        ⟨same, at' | at', orderly⟩ | ⟨cfd, rfl, same, ⟨at', orderly⟩ | ⟨at', disorder⟩⟩
      · refine .inl ⟨.inr ⟨fun x => ?_, same ▸ tidy.misused⟩, orderly⟩
        rw [same, at']
        exact ⟨fun out => absurd out (none x), nofun⟩
      · exact .inl ⟨.inl at', orderly⟩
      · refine .inl ⟨.inr ⟨fun x => ?_, ?_⟩, orderly⟩
        · rw [same, at', Ledger.opened_accept, At.recv.injEq]
          exact ⟨fun either => either.elim Eq.symm (absurd · (none x)), fun eq => .inl eq.symm⟩
        · rw [same, Ledger.misused_accept]
          exact tidy.misused
      · refine .inr ⟨.leaked cfd (same ▸ Ledger.opened_accept.mpr (.inl rfl)) ?_, disorder⟩
        rw [at']
        nofun
  | recv cfd received sent pc possible =>
      have session := tidy.session pc
      cases p with
      | unixTcpServ => exact unixTcpServ_kept session received sent
      | inetTcpServ1 => exact inetTcpServ1_kept session received sent
      | inet6TcpServ1 => exact inet6TcpServ1_kept session received sent

/-! ## Runs -/

theorem orderly_reachable (run : (orderly p).Reachable c) : (child p).Reachable c := by
  apply run.mono
  · exact fun c start => start
  · intro c c' step
    obtain ⟨answer, step, -⟩ := step
    exact ⟨answer, step⟩

theorem tidy_of_orderly (run : (orderly p).Reachable c) : c.pc = .exited ∨ Tidy c := by
  apply run.invariant (P := fun c => c.pc = .exited ∨ Tidy c)
  · intro c start
    obtain ⟨memory, -, rfl⟩ := start
    exact .inr ⟨fun x => ⟨fun out => absurd out (Nat.lt_irrefl 0), nofun⟩, rfl⟩
  · intro c c' run tidy step
    obtain ⟨answer, step, orderly⟩ := step
    have unseen := unseen_of_reachable (orderly_reachable run)
    rcases tidy with exited | tidy
    · exact absurd exited step.alive
    · rcases tidy.step unseen step with ⟨kept, -⟩ | ⟨-, disorder⟩
      · exact kept
      · exact absurd orderly disorder

theorem orderly_or_spoiled (reached : (child p).Reachable c) :
    (orderly p).Reachable c ∨ Spoiled c := by
  apply reached.or_damaged
  · exact fun c start => start
  · intro c c' before run step
    obtain ⟨answer, step⟩ := step
    rcases tidy_of_orderly run with exited | tidy
    · exact absurd exited step.alive
    · rcases tidy.step (unseen_of_reachable before) step with ⟨-, orderly⟩ | ⟨spoiled, -⟩
      · exact .inl ⟨answer, step, orderly⟩
      · exact .inr spoiled
  · intro c c' before spoiled step
    obtain ⟨answer, step⟩ := step
    exact spoiled.step (unseen_of_reachable before) step

/-- **Descriptor hygiene.**  A child back at `accept` has closed each socket that `accept` gave it
exactly once and named none afterwards, exactly if all its turns have been `Orderly`. -/
theorem clean_iff_of_reachable (reached : (child p).Reachable c) (pc : c.pc = .accept) :
    c.sockets.Clean ↔ (orderly p).Reachable c := by
  rw [Ledger.clean_iff]
  constructor
  · intro clean
    obtain ⟨none, misused⟩ := clean
    rcases orderly_or_spoiled reached with run | spoiled
    · exact run
    · cases spoiled with
      | misused some => exact absurd misused some
      | leaked x out _ => exact absurd out (none x)
      | stale cfd recv _ _ => cases pc.symm.trans recv
      | ended exited => cases pc.symm.trans exited
  · intro run
    rcases tidy_of_orderly run with exited | tidy
    · cases pc.symm.trans exited
    · exact ⟨fun x out => (nomatch pc.symm.trans ((tidy.opened x).mp out)), tidy.misused⟩

/-- A client of `unix_tcp_serv.c` sends a byte, reads it back and closes. -/
theorem clean_echoed :
    ∃ c, (child .unixTcpServ).Reachable c ∧ c.pc = .accept ∧ c.sockets.Seen 4 ∧
      c.sockets.Clean := by
  have start : (orderly .unixTcpServ).Reachable _ := .of_init Child.zeroed_started
  have accepted := start.tail ⟨_, ChildStep.accept _ (.fd 4) 0 rfl (by decide), trivial⟩
  have echoed := accepted.tail
    ⟨_, ChildStep.recv _ 4 (.data [104]) (.sent 1) rfl (by decide), trivial⟩
  have closed := echoed.tail ⟨_, ChildStep.recv _ 4 .eof (.sent 0) rfl (by decide), trivial⟩
  exact ⟨_, orderly_reachable closed, rfl, by decide,
    (clean_iff_of_reachable (orderly_reachable closed) rfl).mpr closed⟩

/-- Each of the three programs leaks a socket: on `ECONNRESET`, on a byte without a newline and on
`EAI_AGAIN`. -/
theorem not_forall_clean :
    (¬ ∀ c, (child .unixTcpServ).Reachable c → c.pc = .accept → c.sockets.Clean) ∧
      (¬ ∀ c, (child .inetTcpServ1).Reachable c → c.pc = .accept → c.sockets.Clean) ∧
      ¬ ∀ c, (child .inet6TcpServ1).Reachable c → c.pc = .accept → c.sockets.Clean := by
  have leak {l : Ledger} (out : l.Opened 4) : ¬ l.Clean := fun clean =>
    (Ledger.clean_iff.mp clean).1 4 out
  refine ⟨fun always => ?_, fun always => ?_, fun always => ?_⟩
  · have start : (child .unixTcpServ).Reachable _ := .of_init Child.zeroed_started
    have accepted := start.tail ⟨_, ChildStep.accept _ (.fd 4) 0 rfl (by decide)⟩
    have reset := accepted.tail
      ⟨_, ChildStep.recv _ 4 (.failed ⟨104, by decide⟩) (.sent 0) rfl (by decide)⟩
    exact leak (by decide) (always _ reset rfl)
  · have start : (child .inetTcpServ1).Reachable _ := .of_init Child.zeroed_started
    have accepted := start.tail ⟨_, ChildStep.accept _ (.fd 4) 0 rfl (by decide)⟩
    have dropped := accepted.tail
      ⟨_, ChildStep.recv _ 4 (.data [104]) (.sent 0) rfl (by decide)⟩
    exact leak (by decide) (always _ dropped rfl)
  · have start : (child .inet6TcpServ1).Reachable _ := .of_init Child.zeroed_started
    have dropped := start.tail ⟨_, ChildStep.accept _ (.fd 4) (-3) rfl (by decide)⟩
    exact leak (by decide) (always _ dropped rfl)

end Alnp.Prefork
