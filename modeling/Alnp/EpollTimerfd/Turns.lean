import Alnp.EpollTimerfd.Outcomes

/-!
# One turn of `get_epollevent`, whatever fails

Every turn that comes back leaves each session with its descriptors, forgets no failed call, leaves
old timers alone, and tears a session down for its timeout only when its timer has the number of the
event (`Turn`).
-/

namespace Alnp.EpollTimerfd

open Epoll

variable {fdListener fd timeout : Int} {s s' s'' : Server} {answers : AddAnswers} {t i : Nat}

/-- The server in which a function ended. -/
def Res.server {α : Type} : Res α → Server
  | .returned _ s => s
  | .exited _ s => s

/-! ## Without the timeout branch -/

/-- What later calls keep of the server, `t` being a tick of the past. -/
structure After (t : Nat) (s s' : Server) : Prop where
  faults : s.faults <+: s'.faults
  timeouts : s'.timeouts = s.timeouts
  since : Since t s.kernel s'.kernel

theorem After.refl (t : Nat) (s : Server) : After t s s :=
  ⟨List.prefix_refl _, rfl, Since.refl t _⟩

theorem After.trans (first : After t s s') (second : After t s' s'') : After t s s'' :=
  ⟨first.faults.trans second.faults, second.timeouts.trans first.timeouts,
    first.since.trans second.since⟩

/-- How a function that was called on `s` may end. -/
structure Ends (fdListener : Int) (t : Nat) (s : Server) (r : Res Int) : Prop where
  after : After t s r.server
  sane : ∀ ret s', r = .returned ret s' → Sane fdListener s'

theorem Ends.returned {ret : Int} (after : After t s s') (sane : Sane fdListener s') :
    Ends fdListener t s (.returned ret s') := by
  refine ⟨after, fun ret' s'' same => ?_⟩
  cases same
  exact sane

theorem Ends.exited {why : Exit} (after : After t s s') :
    Ends fdListener t s (.exited why s') :=
  ⟨after, fun _ _ same => nomatch same⟩

theorem Ends.trans {r : Res Int} (first : After t s s') (then_ : Ends fdListener t s' r) :
    Ends fdListener t s r :=
  ⟨first.trans then_.after, then_.sane⟩

/-- `add_ev` on a connection that has just been accepted. -/
theorem AddOutcome.ends {lastActive : Nat} {r : Res Int}
    (outcome : AddOutcome answers fd timeout s r) (sane : Sane fdListener s) (pos : 0 < timeout)
    (isSocket : s.kernel.desc fd = some (.socket s.kernel.tick lastActive))
    (new : ∀ x ∈ s.sessions, x.socketfd ≠ fd) : Ends fdListener t s r := by
  have socketAfter : ∀ {k₁ : Epoll}, s.kernel.ctlAdd answers.addSocket fd = some k₁ →
      k₁.desc fd = some (.socket k₁.tick lastActive) := by
    intro k₁ registered
    obtain ⟨-, -, -, rfl⟩ := ctlAdd_eq_some registered
    exact isSocket
  cases outcome with
  | notRegistered failed =>
      exact .exited ⟨List.prefix_append _ _, rfl, Since.refl t _⟩
  | noTimer k₁ fdsList ret call registered notGiven le sessions =>
      apply Ends.returned
      · exact ⟨List.prefix_append _ _, rfl, Since.ctlAdd registered⟩
      · refine ⟨le, ?_⟩
        simp only [Server.sessions, sessions]
        exact sane.owned.ctlAdd registered
  | notArmed k₁ k₂ timer fdsList ret registered created unset le sessions =>
      apply Ends.returned
      · exact ⟨List.prefix_append _ _, rfl,
          (Since.ctlAdd registered).trans (Since.timerfdCreate created)⟩
      · refine ⟨le, ?_⟩
        simp only [Server.sessions, sessions]
        exact (sane.owned.ctlAdd registered).create (socketAfter registered) new pos created
  | timerNotRegistered k₁ k₂ k₃ timer fdsList registered given created armed =>
      exact .exited ⟨List.prefix_append _ _, rfl, ((Since.ctlAdd registered).trans
        (Since.timerfdCreate created)).trans (Since.timerfdSettime armed)⟩
  | added k₁ k₂ k₃ k₄ timer fdsList registered given created armed registered' le sessions =>
      apply Ends.returned
      · exact ⟨List.prefix_refl _, rfl, (((Since.ctlAdd registered).trans
          (Since.timerfdCreate created)).trans (Since.timerfdSettime armed)).trans
          (Since.ctlAdd registered')⟩
      · refine ⟨le, ?_⟩
        simp only [Server.sessions, sessions]
        have owned := (sane.owned.ctlAdd registered).create (socketAfter registered) new pos created
        exact (owned.settime (List.mem_append_right _ (List.mem_singleton_self _)) armed).ctlAdd
          registered'

/-- `DEL_EV` on top of `del_ev`. -/
theorem DelOutcome.ends {r : Res Int} (outcome : DelOutcome fd s r) (sane : Sane fdListener s) :
    Ends fdListener t s (r.orExit .delEv) := by
  cases outcome with
  | notRegistered failed => exact .exited (After.refl t s)
  | noSession registered none => exact .exited ⟨List.prefix_refl _, rfl, Since.drop⟩
  | timerNotRegistered x member on missing =>
      exact .exited ⟨List.prefix_refl _, rfl, Since.drop⟩
  | removed i x entry on registered registered' sessions =>
      apply Ends.returned
      · exact ⟨List.prefix_refl _, rfl, Since.drop.trans Since.drop⟩
      · subst on
        refine ⟨?_, ?_⟩
        · exact (Nat.sub_le _ _).trans sane.le
        · simp only [Server.sessions, sessions]
          exact sane.owned.remove entry

/-- `ADD_EV` in the loop that accepts connections. -/
theorem AddOutcome.ends_of_accept {kernel : Epoll} {r : Res Int}
    (outcome : AddOutcome answers fd timeout { s with kernel := kernel } r)
    (sane : Sane fdListener s) (pos : 0 < timeout) (accepted : s.kernel.accept fd = some kernel) :
    Ends fdListener t s r := by
  have since : After t s { s with kernel := kernel } :=
    ⟨List.prefix_refl _, rfl, Since.accept accepted⟩
  have connected : Sane fdListener { s with kernel := kernel } :=
    ⟨sane.le, sane.owned.accept accepted⟩
  obtain ⟨closed, opened⟩ := accept_eq_some accepted
  have isSocket : kernel.desc fd = some (.socket kernel.tick (s.kernel.tick + 1)) := by
    rw [opened]
    exact desc_set_self
  exact .trans since (outcome.ends connected pos isSocket
    fun x member => ((sane.owned.unused closed).2 x member).1)

theorem ends_acceptLoop (accepts : List (Int × AddAnswers)) : ∀ {s : Server},
    Sane fdListener s → Ends fdListener t s (acceptLoop accepts s) := by
  induction accepts with
  | nil => exact fun sane => .returned (After.refl t _) sane
  | cons first rest ih =>
      intro s sane
      obtain ⟨fd, answers⟩ := first
      unfold acceptLoop
      cases accepted : s.kernel.accept fd with
      | none => exact .returned (After.refl t s) sane
      | some kernel =>
          have pos : 0 < fdsessionDefaultTimeout := by decide
          have added : Ends fdListener t s
              (addEv answers fd fdsessionDefaultTimeout { s with kernel := kernel }) :=
            (addEv_outcome (s := { s with kernel := kernel }) sane.le pos).ends_of_accept sane pos
              accepted
          dsimp only
          generalize addEv answers fd fdsessionDefaultTimeout { s with kernel := kernel } = r
            at added
          cases r with
          | exited why s' => exact .exited added.after
          | returned ret s' =>
              dsimp only [Res.orExit]
              split_ifs
              · exact .exited added.after
              · exact .trans added.after (ih (added.sane ret s' rfl))

theorem ends_recvBranch (answers : Answers) (fd : Int) (sane : Sane fdListener s) :
    Ends fdListener t s (recvBranch answers fd s) := by
  have received : Sane fdListener { s with kernel := (s.kernel.recv fd answers.recv).2 } :=
    ⟨sane.le, sane.owned.recv fd answers.recv⟩
  have since : After t s { s with kernel := (s.kernel.recv fd answers.recv).2 } :=
    ⟨List.prefix_refl _, rfl, Since.recv _ _ _⟩
  apply Ends.trans since
  · unfold recvBranch
    dsimp only
    generalize (s.kernel.recv fd answers.recv).1 = ret
    generalize (s.kernel.recv fd answers.recv).2 = kernel at received ⊢
    split_ifs with failed closed
    · exact .returned (After.refl t _) received
    · exact (delEv_outcome received).ends received
    · cases found : (fdsFindbysocketfd fd s.fdsList).value with
      | none => exact .returned (After.refl t _) received
      | some i =>
          obtain ⟨x, entry, on⟩ := findby_some Fdsession.socketfd sane.le found
          dsimp only
          split
          · rename_i ret s₂ failed
            rw [fdsSetTimerfd_error failed]
            exact .returned ⟨List.prefix_append _ _, rfl, Since.refl t _⟩
              ⟨received.le, received.owned⟩
          · rename_i s₂ set
            rcases fdsSetTimerfd_ok (s := { s with kernel := kernel }) entry set with
              ⟨kernel', armed, rfl⟩
            exact .returned ⟨List.prefix_refl _, rfl, Since.timerfdSettime armed⟩
              ⟨received.le, received.owned.settime (List.mem_of_getElem? entry) armed⟩

/-! ## The whole turn -/

/-- The server when the timeout branch has decided to tear a session down. -/
def Server.timedOut (e : Event) (x : Fdsession) (s : Server) : Server :=
  { s with timeouts := s.timeouts ++ [⟨e, x, s.kernel.desc x.timerfd, s.kernel.clock⟩] }

/-- A turn either is the timeout branch for the session whose timer has the number of the event, or
tears nothing down for its timeout. -/
theorem turn_cases (e : Event) (answers : Answers) (sane : Sane fdListener s) :
    (∃ x ∈ s.sessions, x.timerfd = e.fd ∧ e.epollin = true ∧
      Ends fdListener t (s.timedOut e x) (getEpolleventTurn fdListener e answers s)) ∨
    Ends fdListener t s (getEpolleventTurn fdListener e answers s) := by
  unfold getEpolleventTurn
  by_cases epollin : e.epollin = true
  · simp only [epollin, ↓reduceIte]
    by_cases listening : e.fd = fdListener
    · rw [if_pos listening]
      exact .inr (ends_acceptLoop answers.accepts sane)
    · rw [if_neg listening]
      cases found : (fdsFindbytimerfd e.fd s.fdsList).value with
      | none => exact .inr (ends_recvBranch answers e.fd sane)
      | some i =>
          obtain ⟨x, entry, on⟩ := findby_some Fdsession.timerfd sane.le found
          refine .inl ⟨x, List.mem_of_getElem? entry, on, trivial, ?_⟩
          dsimp only [timeoutBranch]
          rw [getElem_of_sessions entry]
          have same : Sane fdListener (s.timedOut e x) := ⟨sane.le, sane.owned⟩
          exact (delEv_outcome same).ends same
  · simp only [epollin, Bool.false_eq_true, ↓reduceIte]
    exact .inr (.returned (After.refl t s) sane)

/-- Whether the batch goes on or not, the turn decides what the server is. -/
theorem State.server_afterTurn (s : State) (rest : List Event) (tick : Nat) (r : Res Int) :
    (s.afterTurn rest tick r).server = r.server := by
  cases r with
  | exited why server => rfl
  | returned ret server =>
      unfold State.afterTurn
      dsimp only
      split_ifs
      · rfl
      · rfl

end Alnp.EpollTimerfd
