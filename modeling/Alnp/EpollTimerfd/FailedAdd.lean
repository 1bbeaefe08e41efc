import Alnp.EpollTimerfd.Timeouts

/-!
# When `add_ev` fails

`add_ev` registers the socket first.  When `realloc`, `timerfd_create` or `timerfd_settime` then
fails, it returns the `errno` of the call and takes nothing back, and `ADD_EV`, which looks for -1,
goes on.  What is left is a connection that is registered but has no session, or one whose timer is
not registered (`Stranded`); as soon as it is closed, `del_ev` ends the process.

`atomic_iff_of_reachable` says when `add_ev` is atomic: when none of these calls fails, or the
process ends at the registration of the socket.
-/

namespace Alnp.EpollTimerfd

open Epoll

variable {b : Boot} {fdListener fd timeout ret : Int} {s s' : Server} {answers : AddAnswers}
  {kernel : Epoll} {r : Res Int}

/-- The interest set and the sessions are as before, and no timer is open that was not. -/
structure Restored (s s' : Server) : Prop where
  interest : s'.kernel.interest = s.kernel.interest
  sessions : s'.sessions = s.sessions
  timers : ∀ t born armed, s'.kernel.desc t = some (.timer born armed) →
    ∃ before, s.kernel.desc t = some (.timer born before)

/-- However the main loop goes on from `s`, no event reported for what `fd` refers to now makes
`get_epollevent` abandon its batch or ends the process. -/
def Harmless (fdListener fd : Int) (s : Server) : Prop :=
  ∀ (start t : State) (e : Event) (rest : List Event) (tick : Nat) (answers : Answers),
    start.server = s → start.pc = .wait → Relation.ReflTransGen (Step fdListener) start t →
    t.pc = .batch (e :: rest) tick → e.fd = fd → (∃ d ∈ s.kernel.desc fd, e.born = d.born) →
    ∃ s', getEpolleventTurn fdListener e answers t.server = .returned 0 s'

/-- An `add_ev` that returns something else than 0 has changed nothing, and later events on the
descriptor do no harm. -/
def AddAtomic (fdListener : Int) (answers : AddAnswers) (fd timeout : Int) (s : Server) : Prop :=
  ∀ ret s', addEv answers fd timeout s = .returned ret s' → ret ≠ 0 →
    Restored s s' ∧ Harmless fdListener fd s'

/-! ## A connection that nobody watches -/

/-- The connection on `fd` is registered, but no timer is that could end it. -/
structure Stranded (fdListener fd : Int) (s : Server) : Prop where
  sane : Sane fdListener s
  socket : ∃ born lastActive, s.kernel.desc fd = some (.socket born lastActive)
  registered : fd ∈ s.kernel.interest
  unwatched : ∀ x ∈ s.sessions, x.socketfd = fd → x.timerfd ∉ s.kernel.interest

/-- `del_ev` cannot come back from a connection that nobody watches. -/
theorem DelOutcome.exits (outcome : DelOutcome fd s r)
    (unwatched : ∀ x ∈ s.sessions, x.socketfd = fd → x.timerfd ∉ s.kernel.interest) :
    ∃ why s', r.orExit .delEv = .exited why s' := by
  cases outcome with
  | notRegistered failed => exact ⟨_, _, rfl⟩
  | noSession registered none => exact ⟨_, _, rfl⟩
  | timerNotRegistered x member on missing => exact ⟨_, _, rfl⟩
  | removed i x entry on registered registered' sessions =>
      exact absurd registered' (unwatched x (List.mem_of_getElem? entry) on)

/-- The end of the connection ends the process. -/
theorem Stranded.exits {e : Event} (stranded : Stranded fdListener fd s) (on : e.fd = fd)
    (epollin : e.epollin = true) :
    ∃ why s', getEpolleventTurn fdListener e ⟨[], 0, none⟩ s = .exited why s' := by
  rcases stranded.socket with ⟨born, lastActive, isSocket⟩
  have notListener : e.fd ≠ fdListener := by
    rw [on]
    intro same
    subst same
    rw [stranded.sane.owned.listener] at isSocket
    cases isSocket
  have notTimer : (fdsFindbytimerfd e.fd s.fdsList).value = none := by
    apply (findby_none Fdsession.timerfd stranded.sane.le).mpr
    intro listed
    rcases List.mem_map.mp listed with ⟨x, member, same⟩
    rcases stranded.sane.owned.timer member with ⟨born', armed, isTimer⟩
    rw [same, on, isSocket] at isTimer
    cases isTimer
  have closed : s.kernel.recv fd 0 = (0, s.kernel) := by
    simp [recv, isSocket]
  unfold getEpolleventTurn
  simp only [epollin, ↓reduceIte, if_neg notListener, notTimer]
  rw [on]
  simp only [recvBranch, closed]
  exact (delEv_outcome stranded.sane).exits stranded.unwatched

/-- `epoll_wait` may report the connection next, and its end ends the process. -/
theorem Stranded.not_harmless (stranded : Stranded fdListener fd s) :
    ¬ Harmless fdListener fd s := by
  intro harmless
  rcases stranded.socket with ⟨born, lastActive, isSocket⟩
  let start : State := ⟨s, .wait, []⟩
  have reported : s.kernel.Reported maxEpEvents [⟨fd, true, born⟩] := by
    refine ⟨List.cons_ne_nil _ _, Nat.le_add_left 1 31, List.nodup_singleton _, ?_, ?_⟩
    · intro e member
      rw [List.mem_singleton.mp member]
      exact stranded.registered
    · intro e member
      rw [List.mem_singleton.mp member]
      exact ⟨_, isSocket, rfl, fun _ => trivial⟩
  have step : Step fdListener start _ := Step.wait [⟨fd, true, born⟩] rfl reported
  have still : Stranded fdListener fd
      { s with kernel := { s.kernel with tick := s.kernel.tick + 1 } } :=
    ⟨⟨stranded.sane.le, stranded.sane.owned.time _ _⟩, stranded.socket, stranded.registered,
      stranded.unwatched⟩
  rcases harmless start _ ⟨fd, true, born⟩ [] _ ⟨[], 0, none⟩ rfl rfl (.single step) rfl rfl
    ⟨_, isSocket, rfl⟩ with ⟨s', goesOn⟩
  rcases still.exits (e := ⟨fd, true, born⟩) rfl rfl with ⟨why, s'', exits⟩
  cases goesOn.symm.trans exits

/-! ## What a failed `add_ev` leaves -/

/-- A failed `add_ev` on a connection that has just been accepted leaves it stranded. -/
theorem AddOutcome.stranded (outcome : AddOutcome answers fd timeout { s with kernel := kernel } r)
    (sane : Sane fdListener s) (accepted : s.kernel.accept fd = some kernel) (pos : 0 < timeout)
    (returned : r = .returned ret s') (failed : ret ≠ 0) : Stranded fdListener fd s' := by
  have sane' := (outcome.ends_of_accept (t := 0) sane pos accepted).sane ret s' returned
  rcases accept_eq_some accepted with ⟨closed, rfl⟩
  have unlisted : ∀ x ∈ s.sessions, x.socketfd ≠ fd := fun x member =>
    ((sane.owned.unused closed).2 x member).1
  cases outcome with
  | notRegistered refused => cases returned
  | noTimer k₁ fdsList errno call registered notGiven le sessions =>
      cases returned
      rcases ctlAdd_eq_some registered with ⟨-, -, -, rfl⟩
      refine ⟨sane', ⟨_, _, desc_set_self⟩, Finset.mem_insert_self _ _, ?_⟩
      intro x member on
      simp only [Server.sessions, sessions] at member
      exact absurd on (unlisted x member)
  | notArmed k₁ k₂ t fdsList errno registered created unset le sessions =>
      cases returned
      rcases ctlAdd_eq_some registered with ⟨-, -, -, rfl⟩
      rcases timerfdCreate_eq_ok created with ⟨closed', rfl⟩
      have apart : fd ≠ t := by
        intro same
        subst same
        simp at closed'
      have unregistered : t ∉ insert fd s.kernel.interest := by
        intro registered'
        rcases Finset.mem_insert.mp registered' with same | old
        · exact apart same.symm
        · apply sane.owned.interest t old
          exact (desc_set_of_ne apart.symm).symm.trans closed'
      refine ⟨sane', ⟨_, _, (desc_set_of_ne apart).trans desc_set_self⟩,
        Finset.mem_insert_self _ _, ?_⟩
      intro x member on
      simp only [Server.sessions, sessions] at member
      rcases List.mem_append.mp member with old | added
      · exact absurd on (unlisted x old)
      · rw [List.mem_singleton.mp added]
        exact unregistered
  | timerNotRegistered k₁ k₂ k₃ t fdsList registered given created armed => cases returned
  | added k₁ k₂ k₃ k₄ t fdsList registered given created armed registered' le sessions =>
      cases returned
      exact absurd rfl failed

/-- No call inside `add_ev` fails after the socket has been registered. -/
def AddAnswers.Undisturbed (answers : AddAnswers) (s : Server) : Prop :=
  answers.addSocket ≠ none ∨ answers.GiveTimer s ∧ answers.timerfdSettime = none

/-- When `add_ev` returns something else than 0. -/
theorem AddOutcome.fails_iff (outcome : AddOutcome answers fd timeout s r)
    (isOpen : s.kernel.desc fd ≠ none) (fresh : fd ∉ s.kernel.interest) :
    (∃ ret s', r = .returned ret s' ∧ ret ≠ 0) ↔ ¬ answers.Undisturbed s := by
  have accepts : ∀ {k₁ : Epoll}, s.kernel.ctlAdd answers.addSocket fd = some k₁ →
      ¬ answers.addSocket ≠ none := fun registered refused =>
    refused (ctlAdd_eq_some registered).1
  cases outcome with
  | notRegistered refused =>
      have unregistered : answers.addSocket ≠ none := by
        intro answer
        simp [ctlAdd, answer, Option.isSome_iff_ne_none.mpr isOpen, fresh] at refused
      constructor
      · intro fails
        rcases fails with ⟨ret, s', same, -⟩
        cases same
      · exact fun disturbed => absurd (.inl unregistered) disturbed
  | noTimer k₁ fdsList errno call registered notGiven le sessions =>
      constructor
      · intro _ undisturbed
        rcases undisturbed with refused | ⟨given, -⟩
        · exact accepts registered refused
        · exact notGiven given
      · exact fun _ => ⟨_, _, rfl, errno.property.ne'⟩
  | notArmed k₁ k₂ t fdsList errno registered created unset le sessions =>
      constructor
      · intro _ undisturbed
        rcases undisturbed with refused | ⟨-, set⟩
        · exact accepts registered refused
        · exact unset set
      · exact fun _ => ⟨_, _, rfl, errno.property.ne'⟩
  | timerNotRegistered k₁ k₂ k₃ t fdsList registered given created armed =>
      constructor
      · intro fails
        rcases fails with ⟨ret, s', same, -⟩
        cases same
      · exact fun disturbed => absurd (.inr ⟨given, timerfdSettime_answer armed⟩) disturbed
  | added k₁ k₂ k₃ k₄ t fdsList registered given created armed registered' le sessions =>
      constructor
      · intro fails
        rcases fails with ⟨ret, s', same, nonzero⟩
        cases same
        exact absurd rfl nonzero
      · exact fun disturbed => absurd (.inr ⟨given, timerfdSettime_answer armed⟩) disturbed

/-! ## Every run -/

/-- In every reachable state in which the server runs, also after any number of connections have
been accepted for one event: `add_ev` on the next connection is atomic exactly if no call inside
fails after the socket has been registered. -/
theorem atomic_iff_of_reachable {s : State} {s₁ : Server} {accepts : List (Int × AddAnswers)}
    (reached : (machine b).Reachable s) (running : ∀ why, s.pc ≠ .exited why)
    (soFar : acceptLoop accepts s.server = .returned 0 s₁)
    (accepted : s₁.kernel.accept fd = some kernel) (pos : 0 < timeout) :
    AddAtomic b.listener answers fd timeout { s₁ with kernel := kernel } ↔
      answers.Undisturbed { s₁ with kernel := kernel } := by
  have before : Sane b.listener s.server := (reachable_inv reached).sane running
  have sane : Sane b.listener s₁ := (ends_acceptLoop (t := 0) accepts before).sane 0 s₁ soFar
  have outcome : AddOutcome answers fd timeout { s₁ with kernel := kernel } _ :=
    addEv_outcome sane.le pos
  rcases accept_eq_some accepted with ⟨closed, connected⟩
  have isOpen : kernel.desc fd ≠ none := by
    rw [connected, desc_set_self]
    exact Option.some_ne_none _
  have new : fd ∉ kernel.interest := by
    rw [connected]
    exact fun registered => sane.owned.interest fd registered closed
  have fails := outcome.fails_iff isOpen new
  constructor
  · intro atomic
    by_contra disturbed
    rcases fails.mpr disturbed with ⟨ret, s', returned, failed⟩
    have registered := (outcome.stranded sane accepted pos returned failed).registered
    rw [(atomic ret s' returned failed).1.interest] at registered
    exact new registered
  · intro undisturbed ret s' returned failed
    exact absurd undisturbed (fails.mp ⟨ret, s', returned, failed⟩)

/-! ## A refused timer -/

/-- `timerfd_create` fails with `EMFILE`. -/
def refusedAnswers : AddAnswers :=
  { addAnswers 6 with timerfdCreate := .error emfile }

/-- The first connection, on 5. -/
def connected : Server :=
  { booted.server with
    kernel := { booted.server.kernel with tick := 1 }.set 5 (.socket 1 1) }

theorem reachable_booted : (machine epollBoot).Reachable booted :=
  .of_init ⟨addAnswers 6, rfl, rfl, rfl⟩

theorem disturbed_refused : ¬ refusedAnswers.Undisturbed connected := by
  intro undisturbed
  rcases undisturbed with refused | ⟨⟨-, t, created, -⟩, -⟩
  · exact refused rfl
  · cases created

/-- With its timer on 6 the connection is registered without a failure; without a timer `add_ev`
is not atomic. -/
theorem atomic_iff_connected :
    AddAtomic 3 (addAnswers 6) 5 30 connected ∧ ¬ AddAtomic 3 refusedAnswers 5 30 connected := by
  have soFar : acceptLoop [] booted.server = .returned 0 booted.server := rfl
  have iff : ∀ answers, AddAtomic 3 answers 5 30 connected ↔ answers.Undisturbed connected :=
    fun answers => atomic_iff_of_reachable reachable_booted (fun why => nofun) soFar rfl (by decide)
  have given : (addAnswers 6).GiveTimer connected :=
    ⟨fun _ => ⟨_, rfl⟩, 6, rfl, by decide +kernel⟩
  exact ⟨(iff _).mpr (.inr ⟨given, rfl⟩), fun atomic => disturbed_refused ((iff _).mp atomic)⟩

/-- The connection stays registered, and its end ends the process. -/
theorem not_forall_atomic : ¬ ∀ (b : Boot) (s : State) (s₁ : Server) (kernel : Epoll)
    (accepts : List (Int × AddAnswers)) (answers : AddAnswers) (fd timeout : Int),
    (machine b).Reachable s → (∀ why, s.pc ≠ .exited why) →
    acceptLoop accepts s.server = .returned 0 s₁ → s₁.kernel.accept fd = some kernel →
    0 < timeout → AddAtomic b.listener answers fd timeout { s₁ with kernel := kernel } := by
  intro always
  have atomic : AddAtomic 3 refusedAnswers 5 30 connected :=
    always epollBoot booted booted.server _ [] _ _ _ reachable_booted (fun why => nofun) rfl rfl
      (by decide)
  have sane : Sane 3 booted.server := (reachable_inv reachable_booted).sane fun why => nofun
  have outcome : AddOutcome refusedAnswers 5 30 connected (addEv refusedAnswers 5 30 connected) :=
    addEv_outcome (Nat.le_refl 0) (by decide)
  rcases (outcome.fails_iff (by decide +kernel) (by decide +kernel)).mpr disturbed_refused with
    ⟨ret, s', returned, failed⟩
  have stranded := outcome.stranded sane rfl (by decide) returned failed
  exact stranded.not_harmless (atomic ret s' returned failed).2

end Alnp.EpollTimerfd
