import Alnp.EpollTimerfd.Turns

/-!
# Whom the timeout branch tears down

A batch says what was ready when `epoll_wait` returned; `get_epollevent` looks up a number of the
batch when its turn comes.  In between, earlier events of the same batch may have armed the timer
behind the number again, or closed it and created another one on the same number.

* `due_of_reachable`: in a run where no timer has been created or armed again between the return of
  its batch and its event, every session is torn down after its timeout.
* `own_of_reachable`: in a run where no timer has been created between the return of a batch and
  the event with its number, every session is torn down for an event of its own.

Neither holds of every run (`not_forall_due`, `not_forall_own`).
-/

namespace Alnp.EpollTimerfd

open Epoll

variable {b : Boot} {s : State} {t : Nat} {k k' : Epoll} {e : Event}

/-! ## What a batch still says about the timers -/

/-- Of a timer that is older than the batch, the event still says whose it is; and if it was also
armed before, that it has expired. -/
def Fits (t : Nat) (k : Epoll) (e : Event) : Prop :=
  e.epollin = true → ∀ born armed, k.desc e.fd = some (.timer born armed) → born < t →
    e.born = born ∧ ∀ a, armed = some a → a.tick < t → a.Expired k.clock

/-- Later calls do not change what an event says about old timers. -/
theorem Fits.since (fits : Fits t k e) (since : Since t k k') (passed : t ≤ k.tick) :
    Fits t k' e := by
  intro epollin born armed now old
  obtain ⟨before, was, same⟩ := since.timer passed e.fd born armed now old
  obtain ⟨own, expired⟩ := fits epollin born before was old
  refine ⟨own, fun a is early => ?_⟩
  have due := expired a (same a is early) early
  have later := since.clock
  unfold Arming.Expired at due ⊢
  omega

theorem fits_of_reported {events : List Event} (reported : k.Reported maxEpEvents events)
    (member : e ∈ events) : Fits (k.tick + 1) { k with tick := k.tick + 1 } e := by
  intro epollin born armed now old
  obtain ⟨d, was, own, readable⟩ := reported.desc e member
  cases now.symm.trans was
  refine ⟨own, fun a is _ => ?_⟩
  have expired := readable epollin
  rw [is] at expired
  exact expired

/-! ## The invariant -/

/-- What every reachable state satisfies, whatever has failed. -/
structure Inv (b : Boot) (s : State) : Prop where
  sane : (∀ why, s.pc ≠ .exited why) → Sane b.listener s.server
  batch : ∀ events t, s.pc = .batch events t →
    t ≤ s.server.kernel.tick ∧ ∀ e ∈ events, Fits t s.server.kernel e

/-- The server in front of the main loop. -/
theorem bootServer_registered {answers : AddAnswers} {server : Server}
    (booted : addEv answers b.listener 0 (bootServer b) = .returned 0 server) :
    server = { bootServer b with kernel := { bootKernel b with interest := {b.listener} } } := by
  unfold addEv at booted
  split at booted
  · cases booted
  · rename_i kernel registered
    obtain ⟨-, -, -, rfl⟩ := ctlAdd_eq_some registered
    cases booted
    rfl

theorem owned_boot : Owned b.listener [] { bootKernel b with interest := {b.listener} } := by
  have listener : (bootKernel b).desc b.listener = some .listener := if_pos rfl
  refine ⟨listener, ?_, List.nodup_nil, List.nodup_nil, nofun, nofun⟩
  intro fd member
  rw [Finset.mem_singleton.mp member]
  exact listener ▸ Option.some_ne_none _

/-- A turn that comes back with 0 leaves a server that is still sane and a batch that still fits. -/
theorem Inv.afterTurn (s₁ : Server) {rest : List Event} {r : Res Int}
    (fits : ∀ e ∈ rest, Fits t s₁.kernel e) (passed : t ≤ s₁.kernel.tick)
    (ends : Ends b.listener t s₁ r) : Inv b (s.afterTurn rest t r) := by
  cases r with
  | exited why server => exact ⟨fun running => absurd rfl (running why), nofun⟩
  | returned ret server =>
      have sane := ends.sane ret server rfl
      unfold State.afterTurn
      dsimp only
      split_ifs
      · exact ⟨fun _ => sane, nofun⟩
      · refine ⟨fun _ => sane, fun events t' same => ?_⟩
        cases same
        have since := ends.after.since
        exact ⟨passed.trans since.tick, fun e member => (fits e member).since since passed⟩

theorem reachable_inv (reached : (machine b).Reachable s) : Inv b s := by
  apply reached.invariant (P := Inv b)
  · intro s start
    obtain ⟨answers, booted, waiting, -⟩ := start
    have server := bootServer_registered booted
    refine ⟨fun _ => ?_, fun events t same => ?_⟩
    · rw [server]
      exact ⟨Nat.le_refl 0, owned_boot⟩
    · rw [waiting] at same
      cases same
  · intro s t _ inv step
    cases step with
    | time clock later =>
        refine ⟨fun running => ?_, fun events t same => ?_⟩
        · have sane := inv.sane running
          exact ⟨sane.le, sane.owned.time clock _⟩
        · obtain ⟨passed, fits⟩ := inv.batch events t same
          refine ⟨passed, fun e member => (fits e member).since ?_ passed⟩
          exact Since.of_timers later (Nat.le_refl _) fun _ _ _ now => now
    | waitFails waiting => exact ⟨fun running => absurd rfl (running _), nofun⟩
    | wait events waiting reported =>
        refine ⟨fun _ => ?_, fun events' t same => ?_⟩
        · have sane := inv.sane fun why => by simp [waiting]
          exact ⟨sane.le, sane.owned.time _ _⟩
        · cases same
          exact ⟨Nat.le_refl _, fun e member => fits_of_reported reported member⟩
    | @event e rest tick answers inBatch =>
        have sane := inv.sane fun why => by simp [inBatch]
        obtain ⟨passed, fits⟩ := inv.batch _ _ inBatch
        have fits' : ∀ e' ∈ rest, Fits tick s.server.kernel e' := fun e' member =>
          fits e' (List.mem_cons_of_mem e member)
        rcases turn_cases (t := tick) e answers sane with ⟨x, -, -, -, ends⟩ | ends
        · exact Inv.afterTurn (s.server.timedOut e x) fits' passed ends
        · exact Inv.afterTurn s.server fits' passed ends
    | done finished =>
        refine ⟨fun _ => inv.sane fun why => by simp [finished], nofun⟩

/-! ## The sessions torn down -/

/-- The timer of the session had expired: its timeout had passed since it was armed last. -/
def Timeout.Due (timeout : Timeout) : Prop :=
  ∃ born a, timeout.timer = some (.timer born (some a)) ∧
    a.tvSec = timeout.session.timeout ∧ a.Expired timeout.clock

/-- The event had been reported for the session itself, and not for an earlier owner of the
number. -/
def Timeout.Own (timeout : Timeout) : Prop :=
  ∃ armed, timeout.timer = some (.timer timeout.event.born armed)

/-- The event whose turn it is, an `EPOLLIN`, does not have the number of a timer that was created
since its batch was returned. -/
def NotCreatedSince (s : State) : Prop :=
  ∀ e rest t, s.pc = .batch (e :: rest) t → e.epollin = true → ∀ born armed,
    s.server.kernel.desc e.fd = some (.timer born armed) → born < t

/-- The event whose turn it is, an `EPOLLIN`, does not have the number of a timer that was created
or armed since its batch was returned. -/
def NotArmedSince (s : State) : Prop :=
  ∀ e rest t, s.pc = .batch (e :: rest) t → e.epollin = true → ∀ born armed,
    s.server.kernel.desc e.fd = some (.timer born armed) →
      born < t ∧ ∃ a, armed = some a ∧ a.tick < t

/-- A property of the sessions torn down holds throughout a run if every timeout branch taken from
a state that meets the condition establishes it. -/
theorem timeouts_of_guarded {G : State → Prop} {P : Timeout → Prop}
    (branch : ∀ s e rest t x, Inv b s → G s → s.pc = .batch (e :: rest) t → x ∈ s.server.sessions →
      x.timerfd = e.fd → e.epollin = true →
      P ⟨e, x, s.server.kernel.desc x.timerfd, s.server.kernel.clock⟩)
    (reached : ((machine b).guarded fun s _ => G s).Reachable s) :
    ∀ timeout ∈ s.server.timeouts, P timeout := by
  apply reached.invariant (P := fun s => ∀ timeout ∈ s.server.timeouts, P timeout)
  · intro s start
    obtain ⟨answers, booted, -, -⟩ := start
    rw [bootServer_registered booted]
    exact nofun
  · intro s t before holds guarded
    obtain ⟨step, condition⟩ := guarded
    have inv := reachable_inv before.of_guarded
    cases step with
    | time clock later => exact holds
    | waitFails waiting => exact holds
    | wait events waiting reported => exact holds
    | @event e rest tick answers inBatch =>
        have sane := inv.sane fun why => by simp [inBatch]
        rw [State.server_afterTurn]
        rcases turn_cases (t := tick) e answers sane with ⟨x, member, on, epollin, ends⟩ | ends
        · rw [ends.after.timeouts]
          intro timeout listed
          rcases List.mem_append.mp listed with old | added
          · exact holds timeout old
          · rw [List.mem_singleton.mp added]
            exact branch s e rest tick x inv condition inBatch member on epollin
        · rw [ends.after.timeouts]
          exact holds
    | done finished => exact holds

/-- In a run where no event has the number of a timer that was created or armed since its batch
was returned, every session that the timeout branch tears down has timed out. -/
theorem due_of_reachable
    (reached : ((machine b).guarded fun s _ => NotArmedSince s).Reachable s) :
    ∀ timeout ∈ s.server.timeouts, timeout.Due := by
  refine timeouts_of_guarded ?_ reached
  intro s e rest t x inv condition inBatch member on epollin
  have sane := inv.sane fun why => by simp [inBatch]
  obtain ⟨born, lastActive, armed, -, isTimer, asArmed⟩ := sane.owned.session x member
  rw [on] at isTimer
  obtain ⟨old, a, rfl, early⟩ := condition e rest t inBatch epollin born armed isTimer
  have fits := (inv.batch _ _ inBatch).2 e List.mem_cons_self epollin born (some a) isTimer old
  exact ⟨born, a, by rw [on, isTimer], asArmed a rfl, fits.2 a rfl early⟩

/-- In a run where no event has the number of a timer that was created since its batch was
returned, every session that the timeout branch tears down is the one the event was reported
for. -/
theorem own_of_reachable
    (reached : ((machine b).guarded fun s _ => NotCreatedSince s).Reachable s) :
    ∀ timeout ∈ s.server.timeouts, timeout.Own := by
  refine timeouts_of_guarded ?_ reached
  intro s e rest t x inv condition inBatch member on epollin
  have sane := inv.sane fun why => by simp [inBatch]
  obtain ⟨born, armed, isTimer⟩ := sane.owned.timer member
  rw [on] at isTimer
  have old := condition e rest t inBatch epollin born armed isTimer
  have fits := (inv.batch _ _ inBatch).2 e List.mem_cons_self epollin born armed isTimer old
  exact ⟨armed, by rw [on, isTimer, fits.1]⟩

/-! ## Two batches -/

/-- The calls inside `add_ev` succeed, the timer being on `timerfd`. -/
def addAnswers (timerfd : Int) : AddAnswers :=
  ⟨none, .ok (Vector.replicate 16 default), .ok timerfd, none, none⟩

/-- The main loop has registered the listener. -/
def booted : State :=
  ⟨{ bootServer epollBoot with kernel := { bootKernel epollBoot with interest := {3} } }, .wait, []⟩

/-- `epoll_wait` returns `events`. -/
def State.waits (s : State) (events : List Event) : State :=
  { s.setKernel { s.server.kernel with tick := s.server.kernel.tick + 1 } with
    pc := .batch events (s.server.kernel.tick + 1) }

/-- The next event of the batch has its turn, or the batch ends. -/
def State.turn (s : State) (answers : Answers) : State :=
  match s.pc with
  | .batch (e :: rest) t => s.afterTurn rest t (getEpolleventTurn 3 e answers s.server)
  | .batch [] _ => { s with pc := .wait }
  | _ => s

/-- A connection on 5 with its timer on 6, 30 seconds ago. -/
def idle : State :=
  let s := ((booted.waits [⟨3, true, 0⟩]).turn ⟨[(5, addAnswers 6)], -1, none⟩).turn ⟨[], -1, none⟩
  s.setKernel { s.server.kernel with clock := 30000000000 }

section runs

variable {G : State → Prop}

theorem reachable_waits (events : List Event)
    (reached : ((machine epollBoot).guarded fun s _ => G s).Reachable s) (condition : G s)
    (waiting : s.pc = .wait) (reported : s.server.kernel.Reported maxEpEvents events) :
    ((machine epollBoot).guarded fun s _ => G s).Reachable (s.waits events) :=
  reached.tail ⟨Step.wait events waiting reported, condition⟩

theorem reachable_turn (answers : Answers)
    (reached : ((machine epollBoot).guarded fun s _ => G s).Reachable s) (condition : G s) :
    ((machine epollBoot).guarded fun s _ => G s).Reachable (s.turn answers) := by
  unfold State.turn
  split
  · rename_i inBatch
    exact reached.tail ⟨Step.event answers inBatch, condition⟩
  · rename_i inBatch
    exact reached.tail ⟨Step.done inBatch, condition⟩
  · exact reached

end runs

/-- `NotArmedSince` where the event whose turn it is has the number of no timer. -/
theorem notArmedSince_of_listener
    (front : ∀ e rest t, s.pc = .batch (e :: rest) t → s.server.kernel.desc e.fd = some .listener) :
    NotArmedSince s := by
  intro e rest t inBatch _ born armed isTimer
  rw [front e rest t inBatch] at isTimer
  cases isTimer

theorem reachable_idle :
    ((machine epollBoot).guarded fun s _ => NotArmedSince s).Reachable idle := by
  have outside : ∀ {s : State}, s.pc = .wait → NotArmedSince s := by
    intro s waiting
    apply notArmedSince_of_listener
    intro e rest t inBatch
    cases waiting.symm.trans inBatch
  have start : ((machine epollBoot).guarded fun s _ => NotArmedSince s).Reachable booted :=
    .of_init ⟨addAnswers 6, rfl, rfl, rfl⟩
  have batch := reachable_waits [⟨3, true, 0⟩] start (outside rfl) rfl (by decide +kernel)
  have accepted := reachable_turn ⟨[(5, addAnswers 6)], -1, none⟩ batch (by
    apply notArmedSince_of_listener
    intro e rest t inBatch
    cases inBatch
    rfl)
  have waiting := reachable_turn ⟨[], -1, none⟩ accepted (by
    apply notArmedSince_of_listener
    intro e rest t inBatch
    have last : ((booted.waits [⟨3, true, 0⟩]).turn ⟨[(5, addAnswers 6)], -1, none⟩).pc =
      .batch [] 1 := by decide +kernel
    cases last.symm.trans inBatch)
  exact waiting.tail ⟨Step.time 30000000000 (by decide +kernel), outside (by decide +kernel)⟩

/-- The timer of the connection on 5 has expired. -/
def expired : State :=
  (idle.waits [⟨6, true, 2⟩]).turn ⟨[], -1, none⟩

theorem reachable_expired :
    ((machine epollBoot).guarded fun s _ => NotArmedSince s).Reachable expired := by
  have front : idle.pc = .wait := by decide +kernel
  have batch := reachable_waits [⟨6, true, 2⟩] reachable_idle
    (fun e rest t inBatch => by cases front.symm.trans inBatch) front (by decide +kernel)
  refine reachable_turn _ batch fun e rest t inBatch _ born armed isTimer => ?_
  have turn : (idle.waits [⟨6, true, 2⟩]).pc = .batch [⟨6, true, 2⟩] 3 := by decide +kernel
  cases turn.symm.trans inBatch
  have timer : (idle.waits [⟨6, true, 2⟩]).server.kernel.desc 6 =
      some (.timer 2 (some ⟨0, 2, 30⟩)) := by decide +kernel
  cases timer.symm.trans isTimer
  exact ⟨by decide, _, rfl, by decide⟩

/-- The session of the connection on 5 is torn down. -/
def tornDown : Timeout :=
  ⟨⟨6, true, 2⟩, ⟨5, 6, 30⟩, some (.timer 2 (some ⟨0, 2, 30⟩)), 30000000000⟩

theorem tornDown_mem : tornDown ∈ expired.server.timeouts := by
  have torn : expired.server.timeouts = [tornDown] := by decide +kernel
  exact torn ▸ List.mem_singleton_self _

theorem due_expired : tornDown.Due :=
  due_of_reachable reachable_expired tornDown tornDown_mem

theorem own_expired : tornDown.Own :=
  own_of_reachable (reachable_expired.weaken fun _ _ condition e rest t inBatch epollin born armed
    isTimer => (condition e rest t inBatch epollin born armed isTimer).1) tornDown tornDown_mem

/-- Data on 5 and the expiry of its timer 6 are reported together, the data first: the timer is
armed again, and the session is torn down all the same. -/
def rearmed : State :=
  ((idle.waits [⟨5, true, 2⟩, ⟨6, true, 2⟩]).turn ⟨[], 1, none⟩).turn ⟨[], -1, none⟩

theorem reachable_rearmed : (machine epollBoot).Reachable rearmed := by
  have start : ((machine epollBoot).guarded fun _ _ => True).Reachable idle :=
    reachable_idle.weaken fun _ _ _ => trivial
  have batch := reachable_waits [⟨5, true, 2⟩, ⟨6, true, 2⟩] start trivial (by decide +kernel)
    (by decide +kernel)
  have data := reachable_turn ⟨[], 1, none⟩ batch trivial
  exact (reachable_turn _ data trivial).of_guarded

theorem not_forall_due : ¬ ∀ (b : Boot) (s : State), (machine b).Reachable s →
    ∀ timeout ∈ s.server.timeouts, timeout.Due := by
  intro always
  have torn : rearmed.server.timeouts = [⟨⟨6, true, 2⟩, ⟨5, 6, 30⟩,
      some (.timer 2 (some ⟨30000000000, 4, 30⟩)), 30000000000⟩] := by decide +kernel
  rcases always _ _ reachable_rearmed _ (torn ▸ List.mem_singleton_self _) with
    ⟨born, a, armed, -, expired⟩
  cases armed
  exact absurd expired (by decide)

/-- The connection on 5 is closed, a new one takes the numbers 5 and 6, and then comes the expiry of
the old timer 6. -/
def reused : State :=
  (((idle.waits [⟨5, true, 2⟩, ⟨3, true, 0⟩, ⟨6, true, 2⟩]).turn ⟨[], 0, none⟩).turn
    ⟨[(5, addAnswers 6)], -1, none⟩).turn ⟨[], -1, none⟩

theorem reachable_reused : (machine epollBoot).Reachable reused := by
  have start : ((machine epollBoot).guarded fun _ _ => True).Reachable idle :=
    reachable_idle.weaken fun _ _ _ => trivial
  have batch := reachable_waits [⟨5, true, 2⟩, ⟨3, true, 0⟩, ⟨6, true, 2⟩] start trivial
    (by decide +kernel) (by decide +kernel)
  have closed := reachable_turn ⟨[], 0, none⟩ batch trivial
  have accepted := reachable_turn ⟨[(5, addAnswers 6)], -1, none⟩ closed trivial
  exact (reachable_turn _ accepted trivial).of_guarded

theorem not_forall_own : ¬ ∀ (b : Boot) (s : State), (machine b).Reachable s →
    ∀ timeout ∈ s.server.timeouts, timeout.Own := by
  intro always
  have torn : reused.server.timeouts = [⟨⟨6, true, 2⟩, ⟨5, 6, 30⟩,
      some (.timer 4 (some ⟨30000000000, 4, 30⟩)), 30000000000⟩] := by decide +kernel
  obtain ⟨armed, own⟩ := always _ _ reachable_reused _ (torn ▸ List.mem_singleton_self _)
  cases own

end Alnp.EpollTimerfd
