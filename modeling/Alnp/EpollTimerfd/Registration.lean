import Alnp.EpollTimerfd.Timeouts

/-!
# Sessions, descriptors and the interest set, as long as no call fails

While `realloc`, `timerfd_create`, `timerfd_settime` and `EPOLL_CTL_ADD` succeed, the session list,
the interest set, the open descriptors and the timers agree after every event, also after an event
that an earlier one of the same batch has made stale.  So nothing that `del_ev` does can fail, and
no batch is abandoned.
-/

namespace Alnp.EpollTimerfd

open Epoll

variable {b : Boot} {fdListener fd timeout : Int} {s s' : Server} {answers : AddAnswers}
  {r : Res Int} {x : Fdsession}

/-- The server when no call has failed. -/
structure Clean (fdListener : Int) (s : Server) : Prop where
  le : s.fdsList.nUsed ≤ s.fdsList.nAllocated
  exact : Exact fdListener s.sessions s.kernel
  badCloses : s.badCloses = []
  missing : s.missing = []

/-- The function returned 0, nothing having gone wrong. -/
def Res.Clean (fdListener : Int) (r : Res Int) : Prop :=
  ∃ s, r = .returned 0 s ∧ EpollTimerfd.Clean fdListener s

theorem Clean.sane (clean : Clean fdListener s) : Sane fdListener s :=
  ⟨clean.le, clean.exact.toOwned⟩

/-- `add_ev` on a connection that has just been accepted registers it with a running timer. -/
theorem AddOutcome.clean {kernel : Epoll}
    (outcome : AddOutcome answers fd timeout { s with kernel := kernel } r)
    (clean : Clean fdListener s) (accepted : s.kernel.accept fd = some kernel) (pos : 0 < timeout)
    (faultless : r.server.faults = []) : r.Clean fdListener := by
  cases outcome with
  | notRegistered failed => exact absurd faultless (List.append_ne_nil_of_right_ne_nil _ nofun)
  | noTimer k₁ fdsList ret call registered notGiven le sessions =>
      exact absurd faultless (List.append_ne_nil_of_right_ne_nil _ nofun)
  | notArmed k₁ k₂ t fdsList ret registered created unset le sessions =>
      exact absurd faultless (List.append_ne_nil_of_right_ne_nil _ nofun)
  | timerNotRegistered k₁ k₂ k₃ t fdsList registered given created armed =>
      exact absurd faultless (List.append_ne_nil_of_right_ne_nil _ nofun)
  | added k₁ k₂ k₃ k₄ t fdsList registered given created armed registered' le sessions =>
      refine ⟨_, rfl, le, ?_, clean.badCloses, clean.missing⟩
      simp only [Server.sessions, sessions]
      exact clean.exact.opened pos accepted registered created armed registered'

/-- `del_ev` on the socket of a session removes the session. -/
theorem DelOutcome.clean (outcome : DelOutcome x.socketfd s r) (clean : Clean fdListener s)
    (member : x ∈ s.sessions) : (r.orExit .delEv).Clean fdListener := by
  have registered : x.socketfd ∈ s.kernel.interest :=
    (clean.exact.interest_iff _).mpr (.inr ⟨x, member, .inl rfl⟩)
  cases outcome with
  | notRegistered failed =>
      obtain ⟨born, lastActive, isSocket⟩ := clean.exact.socket member
      have isOpen : s.kernel.desc x.socketfd ≠ none := isSocket ▸ Option.some_ne_none _
      exact absurd registered ((ctlDel_eq_none isOpen).mp failed)
  | noSession _ none => exact absurd (List.mem_map_of_mem member) none
  | timerNotRegistered y member' on missing =>
      exact absurd ((clean.exact.interest_iff _).mpr (.inr ⟨y, member', .inr rfl⟩)) missing
  | removed i y entry on registered registered' sessions =>
      refine ⟨_, rfl, (Nat.sub_le _ _).trans clean.le, ?_, clean.badCloses, clean.missing⟩
      simp only [Server.sessions, sessions]
      rw [← on]
      exact clean.exact.remove entry

/-! ## One turn -/

theorem clean_acceptLoop (accepts : List (Int × AddAnswers)) : ∀ {s : Server},
    Clean fdListener s → (acceptLoop accepts s).server.faults = [] →
      (acceptLoop accepts s).Clean fdListener := by
  induction accepts with
  | nil => exact fun clean _ => ⟨_, rfl, clean⟩
  | cons first rest ih =>
      intro s clean faultless
      obtain ⟨fd, answers⟩ := first
      unfold acceptLoop at faultless ⊢
      cases accepted : s.kernel.accept fd with
      | none => exact ⟨s, rfl, clean⟩
      | some kernel =>
          have pos : 0 < fdsessionDefaultTimeout := by decide
          have outcome : AddOutcome answers fd fdsessionDefaultTimeout { s with kernel := kernel }
              (addEv answers fd fdsessionDefaultTimeout { s with kernel := kernel }) :=
            addEv_outcome clean.le pos
          simp only [accepted] at faultless
          dsimp only
          generalize addEv answers fd fdsessionDefaultTimeout { s with kernel := kernel } = r
            at outcome faultless ⊢
          -- What failed first would still be on record at the end of the loop.
          have soFar : r.server.faults = [] := by
            have ends : Ends fdListener 0 s r := outcome.ends_of_accept clean.sane pos accepted
            cases r with
            | exited why s' => exact faultless
            | returned ret s' =>
                dsimp only [Res.orExit] at faultless
                split_ifs at faultless
                · exact faultless
                · have rest := (ends_acceptLoop (t := 0) rest (ends.sane ret s' rfl)).after.faults
                  rw [faultless] at rest
                  exact List.prefix_nil.mp rest
          obtain ⟨s', rfl, clean'⟩ := outcome.clean clean accepted pos soFar
          exact ih clean' faultless

theorem clean_recvBranch (answers : Answers) (fd : Int) (clean : Clean fdListener s)
    (faultless : (recvBranch answers fd s).server.faults = []) :
    (recvBranch answers fd s).Clean fdListener := by
  unfold recvBranch at faultless ⊢
  dsimp only at faultless ⊢
  by_cases failed : (s.kernel.recv fd answers.recv).1 = -1
  · rw [if_pos failed]
    rcases recv_cases fd answers.recv s.kernel with ⟨_, _, _, data, -⟩ | ⟨-, nothing⟩
    · omega
    · rw [nothing]
      exact ⟨s, rfl, clean⟩
  · rw [if_neg failed] at faultless ⊢
    obtain ⟨born, lastActive, isSocket⟩ := socket_of_recv failed
    obtain ⟨x, member, rfl⟩ := clean.exact.socket_listed fd born lastActive isSocket
    by_cases closed : (s.kernel.recv x.socketfd answers.recv).1 = 0
    · rw [if_pos closed]
      rcases recv_cases x.socketfd answers.recv s.kernel with ⟨_, _, _, data, -⟩ | ⟨-, nothing⟩
      · omega
      · rw [nothing]
        exact (delEv_outcome clean.sane).clean clean member
    · rw [if_neg closed] at faultless ⊢
      cases found : (fdsFindbysocketfd x.socketfd s.fdsList).value with
      | none =>
          have absent := (findby_none Fdsession.socketfd clean.le).mp found
          exact absurd (List.mem_map_of_mem member) absent
      | some i =>
          obtain ⟨y, entry, on⟩ := findby_some Fdsession.socketfd clean.le found
          have same : y = x := clean.exact.eq_of_socketfd (List.mem_of_getElem? entry) member on
          subst same
          simp only [found] at faultless
          dsimp only
          split at faultless
          · rename_i ret s₁ unset
            rw [fdsSetTimerfd_error unset] at faultless
            exact absurd faultless (List.append_ne_nil_of_right_ne_nil _ nofun)
          · rename_i s₁ set
            rcases fdsSetTimerfd_ok
              (s := { s with kernel := (s.kernel.recv y.socketfd answers.recv).2 }) entry set with
              ⟨kernel, armed, rfl⟩
            have data : 0 < (s.kernel.recv y.socketfd answers.recv).1 := by
              rcases recv_cases y.socketfd answers.recv s.kernel with ⟨_, _, _, data, -⟩ | ⟨le, -⟩
              · exact data
              · exact absurd le (not_or.mpr ⟨closed, failed⟩)
            exact ⟨_, rfl, clean.le, clean.exact.active member data armed, clean.badCloses,
              clean.missing⟩

theorem clean_turn (e : Event) (answers : Answers) (clean : Clean fdListener s)
    (faultless : (getEpolleventTurn fdListener e answers s).server.faults = []) :
    (getEpolleventTurn fdListener e answers s).Clean fdListener := by
  unfold getEpolleventTurn at faultless ⊢
  by_cases epollin : e.epollin = true
  · simp only [epollin, ↓reduceIte] at faultless ⊢
    by_cases listening : e.fd = fdListener
    · rw [if_pos listening] at faultless ⊢
      exact clean_acceptLoop answers.accepts clean faultless
    · rw [if_neg listening] at faultless ⊢
      cases found : (fdsFindbytimerfd e.fd s.fdsList).value with
      | none =>
          simp only [found] at faultless
          exact clean_recvBranch answers e.fd clean faultless
      | some i =>
          obtain ⟨x, entry, -⟩ := findby_some Fdsession.timerfd clean.le found
          dsimp only [timeoutBranch]
          rw [getElem_of_sessions entry]
          have same : Clean fdListener (s.timedOut e x) :=
            ⟨clean.le, clean.exact, clean.badCloses, clean.missing⟩
          exact (delEv_outcome same.sane).clean same (List.mem_of_getElem? entry)
  · simp only [epollin, Bool.false_eq_true, ↓reduceIte]
    exact ⟨s, rfl, clean⟩

/-! ## Runs -/

/-- What a run without failed calls satisfies. -/
structure Unharmed (b : Boot) (s : State) : Prop where
  clean : Clean b.listener s.server
  abandoned : s.abandoned = []
  exited : ∀ why, s.pc = .exited why → why = .epollWait

theorem clean_boot : Clean b.listener
    { bootServer b with kernel := { bootKernel b with interest := {b.listener} } } := by
  have kind : ∀ fd d, (bootKernel b).desc fd = some d → d = .listener ∨ d = .other := by
    intro fd d is
    simp only [bootKernel] at is
    split_ifs at is
    · exact .inl (Option.some.inj is).symm
    · exact .inr (Option.some.inj is).symm
  refine ⟨Nat.le_refl 0, ⟨owned_boot, ?_, ?_, ?_, nofun⟩, rfl, rfl⟩
  · intro fd
    simp only [Finset.mem_singleton]
    exact ⟨.inl, fun registered => registered.resolve_right nofun⟩
  · intro fd born lastActive is
    rcases kind fd _ is with none | none <;> cases none
  · intro fd born armed is
    rcases kind fd _ is with none | none <;> cases none

/-- A failed call stays on record. -/
theorem faults_of_step {s t : State} (reached : (machine b).Reachable s)
    (step : Step b.listener s t) (faultless : t.server.faults = []) : s.server.faults = [] := by
  have inv := reachable_inv reached
  cases step with
  | time clock later => exact faultless
  | waitFails waiting => exact faultless
  | wait events waiting reported => exact faultless
  | @event e rest tick answers inBatch =>
      have sane := inv.sane fun why => by simp [inBatch]
      rw [State.server_afterTurn] at faultless
      rcases turn_cases (t := tick) e answers sane with ⟨x, -, -, -, ends⟩ | ends
      · have before := ends.after.faults
        rw [faultless] at before
        exact List.prefix_nil.mp before
      · have before := ends.after.faults
        rw [faultless] at before
        exact List.prefix_nil.mp before
  | done finished => exact faultless

theorem unharmed_of_reachable {s : State} (reached : (machine b).Reachable s) :
    s.server.faults = [] → Unharmed b s := by
  apply reached.invariant (P := fun s => s.server.faults = [] → Unharmed b s)
  · intro s start _
    obtain ⟨answers, booted, waiting, abandoned⟩ := start
    refine ⟨?_, abandoned, fun why gone => ?_⟩
    · rw [bootServer_registered booted]
      exact clean_boot
    · rw [waiting] at gone
      cases gone
  · intro s t before holds step faultless
    have unharmed := holds (faults_of_step before step faultless)
    have clean := unharmed.clean
    cases step with
    | time clock later =>
        exact ⟨⟨clean.le, clean.exact.time clock _, clean.badCloses, clean.missing⟩,
          unharmed.abandoned, unharmed.exited⟩
    | waitFails waiting =>
        refine ⟨clean, unharmed.abandoned, fun why gone => ?_⟩
        cases gone
        rfl
    | wait events waiting reported =>
        exact ⟨⟨clean.le, clean.exact.time _ _, clean.badCloses, clean.missing⟩,
          unharmed.abandoned, nofun⟩
    | @event e rest tick answers inBatch =>
        rw [State.server_afterTurn] at faultless
        obtain ⟨server, returned, clean'⟩ := clean_turn e answers clean faultless
        rw [returned]
        exact ⟨clean', unharmed.abandoned, nofun⟩
    | done finished => exact ⟨clean, unharmed.abandoned, nofun⟩

/-- In a run in which no call of `realloc`, `timerfd_create`, `timerfd_settime` or
`EPOLL_CTL_ADD` has failed: the list is within its allocation; the sockets and timers of the
sessions are distinct and not the listener; they and the listener are what is registered, and they
are what `accept` and `timerfd_create` handed out and is still open; every timer was armed for its
timeout when its connection was active last; and nothing was closed twice, no timer was missing in
the list, no batch was abandoned, and the process ends only when `epoll_wait` fails. -/
theorem registration_of_reachable {s : State} (reached : (machine b).Reachable s)
    (faultless : s.server.faults = []) :
    s.server.fdsList.nUsed ≤ s.server.fdsList.nAllocated ∧
      (b.listener :: (s.server.sessions.map Fdsession.socketfd ++
        s.server.sessions.map Fdsession.timerfd)).Nodup ∧
      (∀ fd, fd ∈ s.server.kernel.interest ↔
        fd = b.listener ∨ ∃ x ∈ s.server.sessions, fd = x.socketfd ∨ fd = x.timerfd) ∧
      (∀ fd, (∃ born lastActive, s.server.kernel.desc fd = some (.socket born lastActive)) ↔
        ∃ x ∈ s.server.sessions, x.socketfd = fd) ∧
      (∀ fd, (∃ born armed, s.server.kernel.desc fd = some (.timer born armed)) ↔
        ∃ x ∈ s.server.sessions, x.timerfd = fd) ∧
      (∀ x ∈ s.server.sessions, ∃ born lastActive a,
        s.server.kernel.desc x.socketfd = some (.socket born lastActive) ∧
          s.server.kernel.desc x.timerfd = some (.timer born (some a)) ∧
          a.tvSec = x.timeout ∧ a.tick = lastActive) ∧
      s.server.badCloses = [] ∧ s.server.missing = [] ∧ s.abandoned = [] ∧
      ∀ why, s.pc = .exited why → why = .epollWait := by
  obtain ⟨clean, abandoned, exited⟩ := unharmed_of_reachable reached faultless
  have exact := clean.exact
  refine ⟨clean.le, ?_, exact.interest_iff, ?_, ?_, exact.armed, clean.badCloses, clean.missing,
    abandoned, exited⟩
  · refine List.nodup_cons.mpr ⟨?_, exact.sockets.append exact.timers ?_⟩
    · simp only [List.mem_append, List.mem_map, not_or, not_exists, not_and]
      exact ⟨fun x member => exact.socketfd_ne_listener member,
        fun x member => exact.timerfd_ne_listener member⟩
    · intro fd onSocket onTimer
      obtain ⟨x, member, rfl⟩ := List.mem_map.mp onSocket
      obtain ⟨y, member', same⟩ := List.mem_map.mp onTimer
      exact exact.socketfd_ne_timerfd member member' same.symm
  · intro fd
    constructor
    · intro isOpen
      obtain ⟨born, lastActive, isSocket⟩ := isOpen
      exact exact.socket_listed fd born lastActive isSocket
    · intro listed
      obtain ⟨x, member, rfl⟩ := listed
      exact exact.socket member
  · intro fd
    constructor
    · intro isOpen
      obtain ⟨born, armed, isTimer⟩ := isOpen
      exact exact.timer_listed fd born armed isTimer
    · intro listed
      obtain ⟨x, member, rfl⟩ := listed
      exact exact.timer member

/-- The connection on 5 with its timer on 6, after the listener's event. -/
theorem registration_idle :
    idle.server.fdsList.nUsed ≤ idle.server.fdsList.nAllocated ∧
      (3 :: (idle.server.sessions.map Fdsession.socketfd ++
        idle.server.sessions.map Fdsession.timerfd)).Nodup ∧
      ∀ fd, fd ∈ idle.server.kernel.interest ↔
        fd = 3 ∨ ∃ x ∈ idle.server.sessions, fd = x.socketfd ∨ fd = x.timerfd := by
  obtain ⟨le, distinct, interest, -⟩ := registration_of_reachable reachable_idle.of_guarded rfl
  exact ⟨le, distinct, interest⟩

end Alnp.EpollTimerfd
