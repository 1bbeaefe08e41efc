import Mathlib.Data.Finset.Basic
import Mathlib.Logic.Function.Basic
import Alnp.Lib.Descriptor

/-!
# Sockets, timers and one epoll instance

The part of the kernel that `epoll_timerfd.c` acts on: the open descriptors, the interest set of the
epoll instance, and time.  A call that succeeds is a function on this state; what the kernel may
decide (a new descriptor number, a failure) is an argument of the call, and an answer that the
kernel cannot give counts as a failure.

Besides the clock there is a counter, `tick`, of the moments that matter for an event that was
reported earlier: the return of `epoll_wait`, an accepted connection, received data.  Two
descriptors that had the same number at different times differ in the tick at which they were
`born`, and a timer remembers the tick at which it was armed.

`Since t k k'` says what is left, after any number of calls, of the timers that were created and
armed before tick `t`.
-/

namespace Alnp

/-- How a timer was armed last: the clock then in nanoseconds, the tick, and `it_value.tv_sec`. -/
structure Arming where
  clock : Nat
  tick : Nat
  tvSec : Int
  deriving DecidableEq

/-- The timer has expired. -/
def Arming.Expired (a : Arming) (clock : Nat) : Prop :=
  (a.clock : Int) + a.tvSec * 1000000000 ≤ clock

instance (a : Arming) (clock : Nat) : Decidable (a.Expired clock) :=
  inferInstanceAs (Decidable (_ ≤ _))

/-- What an open descriptor refers to. -/
inductive Desc
  | other
  | listener
  | socket (born lastActive : Nat)
  | timer (born : Nat) (armed : Option Arming)
  deriving DecidableEq

/-- The tick at which the descriptor was handed out. -/
def Desc.born : Desc → Nat
  | .other => 0
  | .listener => 0
  | .socket born _ => born
  | .timer born _ => born

/-- Two states of one connection or of one timer. -/
def Desc.Like : Desc → Desc → Prop
  | .socket born _, .socket born' _ => born = born'
  | .timer born _, .timer born' _ => born = born'
  | _, _ => False

theorem Desc.Like.socket {born lastActive : Nat} {d : Desc}
    (like : (Desc.socket born lastActive).Like d) :
    ∃ lastActive', d = .socket born lastActive' := by
  cases d with
  | socket born' lastActive' =>
      cases like
      exact ⟨lastActive', rfl⟩
  | _ => exact like.elim

theorem Desc.Like.timer {born : Nat} {armed : Option Arming} {d : Desc}
    (like : (Desc.timer born armed).Like d) : ∃ armed', d = .timer born armed' := by
  cases d with
  | timer born' armed' =>
      cases like
      exact ⟨armed', rfl⟩
  | _ => exact like.elim

/-- `epoll_wait` may report `EPOLLIN` for the descriptor. -/
def Desc.Readable (clock : Nat) : Desc → Prop
  | .timer _ none => False
  | .timer _ (some a) => a.Expired clock
  | _ => True

instance (clock : Nat) : (d : Desc) → Decidable (d.Readable clock)
  | .timer _ none => .isFalse not_false
  | .timer _ (some a) => inferInstanceAs (Decidable (a.Expired clock))
  | .other | .listener | .socket .. => .isTrue trivial

structure Epoll where
  /-- nanoseconds -/
  clock : Nat
  tick : Nat
  desc : Int → Option Desc
  interest : Finset Int

/-- An entry of the array that `epoll_wait` fills: its `data.fd`, whether `EPOLLIN` is among its
events, and the birth of the descriptor that it was reported for. -/
structure Event where
  fd : Int
  epollin : Bool
  born : Nat
  deriving DecidableEq

namespace Epoll

/-- A number that a new descriptor may get. -/
def free (fd : Int) (k : Epoll) : Bool :=
  decide (0 ≤ fd) && (k.desc fd).isNone

/-- `fd` refers to `d`. -/
def set (fd : Int) (d : Desc) (k : Epoll) : Epoll :=
  { k with desc := Function.update k.desc fd (some d) }

/-- `accept`, the new connection being on `fd`. -/
def accept (fd : Int) (k : Epoll) : Option Epoll :=
  if k.free fd then some ({ k with tick := k.tick + 1 }.set fd (.socket (k.tick + 1) (k.tick + 1)))
  else none

/-- `recv`, where the socket has `answer` bytes, an end of stream (0) or nothing (-1). -/
def recv (fd answer : Int) (k : Epoll) : Int × Epoll :=
  match k.desc fd with
  | some (.socket born _) =>
      if answer > 0 then (answer, { k with tick := k.tick + 1 }.set fd (.socket born (k.tick + 1)))
      else if answer = 0 then (0, k)
      else (-1, k)
  | _ => (-1, k)

/-- `EINVAL` -/
def einval : Errno := ⟨22, by decide⟩

/-- `EMFILE` -/
def emfile : Errno := ⟨24, by decide⟩

/-- `timerfd_create` -/
def timerfdCreate (answer : Except Errno Int) (k : Epoll) : Except Errno (Int × Epoll) :=
  match answer with
  | .error e => .error e
  | .ok fd => if k.free fd then .ok (fd, k.set fd (.timer k.tick none)) else .error emfile

/-- `timerfd_settime` with a relative `it_value` of `tvSec` seconds; 0 disarms the timer. -/
def timerfdSettime (failure : Option Errno) (fd tvSec : Int) (k : Epoll) : Except Errno Epoll :=
  match failure, k.desc fd with
  | none, some (.timer born _) =>
      if tvSec < 0 then .error einval
      else if tvSec = 0 then .ok (k.set fd (.timer born none))
      else .ok (k.set fd (.timer born (some ⟨k.clock, k.tick, tvSec⟩)))
  | some e, _ => .error e
  | none, _ => .error einval

/-- `epoll_ctl(EPOLL_CTL_ADD)` -/
def ctlAdd (failure : Option Errno) (fd : Int) (k : Epoll) : Option Epoll :=
  if failure = none ∧ (k.desc fd).isSome ∧ fd ∉ k.interest then
    some { k with interest := insert fd k.interest }
  else none

/-- `epoll_ctl(EPOLL_CTL_DEL)` -/
def ctlDel (fd : Int) (k : Epoll) : Option Epoll :=
  if (k.desc fd).isSome ∧ fd ∈ k.interest then some { k with interest := k.interest.erase fd }
  else none

/-- `close`; epoll forgets a descriptor that is closed. -/
def close (fd : Int) (k : Epoll) : Option Epoll :=
  if (k.desc fd).isSome then
    some { k with desc := Function.update k.desc fd none, interest := k.interest.erase fd }
  else none

/-- What `epoll_wait(.., maxevents, ..)` may report: some of the descriptors of the interest set,
each once, and for a timer `EPOLLIN` only when it has expired. -/
structure Reported (maxevents : Nat) (events : List Event) (k : Epoll) : Prop where
  pos : events ≠ []
  le : events.length ≤ maxevents
  nodup : (events.map Event.fd).Nodup
  interest : ∀ e ∈ events, e.fd ∈ k.interest
  desc : ∀ e ∈ events, ∃ d ∈ k.desc e.fd, e.born = d.born ∧ (e.epollin → d.Readable k.clock)

instance (maxevents : Nat) (events : List Event) (k : Epoll) :
    Decidable (k.Reported maxevents events) :=
  decidable_of_iff (events ≠ [] ∧ events.length ≤ maxevents ∧ (events.map Event.fd).Nodup ∧
      (∀ e ∈ events, e.fd ∈ k.interest) ∧
      ∀ e ∈ events, ∃ d ∈ k.desc e.fd, e.born = d.born ∧ (e.epollin → d.Readable k.clock))
    ⟨fun ⟨pos, le, nodup, interest, desc⟩ => ⟨pos, le, nodup, interest, desc⟩,
      fun ⟨pos, le, nodup, interest, desc⟩ => ⟨pos, le, nodup, interest, desc⟩⟩

/-! ## What the calls do -/

variable {k k' : Epoll} {fd other : Int} {d : Desc}

theorem free_iff : k.free fd = true ↔ 0 ≤ fd ∧ k.desc fd = none := by
  simp [free]

@[simp] theorem desc_set_self : (k.set fd d).desc fd = some d := by
  simp [set]

theorem desc_set_of_ne (ne : other ≠ fd) : (k.set fd d).desc other = k.desc other := by
  simp [set, ne]

theorem accept_eq_some (done : k.accept fd = some k') :
    k.desc fd = none ∧
      k' = { k with tick := k.tick + 1 }.set fd (.socket (k.tick + 1) (k.tick + 1)) := by
  unfold accept at done
  split at done
  · rename_i isFree
    exact ⟨(free_iff.mp isFree).2, (Option.some.inj done).symm⟩
  · cases done

theorem timerfdCreate_eq_ok {answer : Except Errno Int}
    (done : k.timerfdCreate answer = .ok (fd, k')) :
    k.desc fd = none ∧ k' = k.set fd (.timer k.tick none) := by
  unfold timerfdCreate at done
  split at done
  · cases done
  · split at done
    · rename_i isFree
      cases done
      exact ⟨(free_iff.mp isFree).2, rfl⟩
    · cases done

/-- Whether `timerfd_create` succeeds. -/
theorem timerfdCreate_isOk {answer : Except Errno Int} :
    (∃ created, k.timerfdCreate answer = .ok created) ↔ ∃ t, answer = .ok t ∧ k.free t = true := by
  unfold timerfdCreate
  cases answer with
  | error e => simp
  | ok t => cases isFree : k.free t <;> simp [isFree]

theorem timerfdSettime_eq_ok {failure : Option Errno} {tvSec : Int}
    (done : k.timerfdSettime failure fd tvSec = .ok k') :
    ∃ born armed, k.desc fd = some (.timer born armed) ∧
      k' = k.set fd (.timer born
        (if tvSec = 0 then none else some ⟨k.clock, k.tick, tvSec⟩)) := by
  unfold timerfdSettime at done
  split at done
  · rename_i born armed isTimer
    refine ⟨born, armed, isTimer, ?_⟩
    split_ifs at done with negative zero
    · rw [if_pos zero]
      exact (Except.ok.inj done).symm
    · rw [if_neg zero]
      exact (Except.ok.inj done).symm
  · cases done
  · cases done

/-- `timerfd_settime` succeeds only where nothing makes it fail. -/
theorem timerfdSettime_answer {failure : Option Errno} {tvSec : Int}
    (done : k.timerfdSettime failure fd tvSec = .ok k') : failure = none := by
  unfold timerfdSettime at done
  split at done
  · rfl
  · cases done
  · cases done

/-- A timer can be armed unless the call fails by itself. -/
theorem timerfdSettime_of_timer {born : Nat} {armed : Option Arming} {tvSec : Int}
    (isTimer : k.desc fd = some (.timer born armed)) (pos : 0 < tvSec) :
    ∃ k', k.timerfdSettime none fd tvSec = .ok k' := by
  unfold timerfdSettime
  simp [isTimer, Int.not_lt.mpr pos.le, pos.ne']

/-- `recv` with data marks the socket as active now; otherwise it changes nothing. -/
theorem recv_cases (fd answer : Int) (k : Epoll) :
    (∃ born lastActive, k.desc fd = some (.socket born lastActive) ∧ 0 < (k.recv fd answer).1 ∧
      (k.recv fd answer).2 =
        { k with tick := k.tick + 1 }.set fd (.socket born (k.tick + 1))) ∨
    ((k.recv fd answer).1 = 0 ∨ (k.recv fd answer).1 = -1) ∧ (k.recv fd answer).2 = k := by
  unfold recv
  split
  · rename_i born lastActive isSocket
    split
    · rename_i data
      exact .inl ⟨born, lastActive, isSocket, data, rfl⟩
    · split
      · exact .inr ⟨.inl rfl, rfl⟩
      · exact .inr ⟨.inr rfl, rfl⟩
  · exact .inr ⟨.inr rfl, rfl⟩

/-- Only an open connection has data or an end. -/
theorem socket_of_recv {answer : Int} (received : (k.recv fd answer).1 ≠ -1) :
    ∃ born lastActive, k.desc fd = some (.socket born lastActive) := by
  unfold recv at received
  split at received
  · rename_i born lastActive isSocket
    exact ⟨born, lastActive, isSocket⟩
  · exact absurd rfl received

theorem ctlAdd_eq_some {failure : Option Errno} (done : k.ctlAdd failure fd = some k') :
    failure = none ∧ (k.desc fd).isSome ∧ fd ∉ k.interest ∧
      k' = { k with interest := insert fd k.interest } := by
  unfold ctlAdd at done
  split at done
  · rename_i can
    exact ⟨can.1, can.2.1, can.2.2, (Option.some.inj done).symm⟩
  · cases done

/-- The descriptor leaves the interest set and is closed. -/
def drop (fd : Int) (k : Epoll) : Epoll :=
  { k with desc := Function.update k.desc fd none, interest := k.interest.erase fd }

@[simp] theorem desc_drop_self : (k.drop fd).desc fd = none := by
  simp [drop]

theorem desc_drop_of_ne (ne : other ≠ fd) : (k.drop fd).desc other = k.desc other := by
  simp [drop, ne]

theorem desc_drop_eq_some :
    (k.drop fd).desc other = some d ↔ other ≠ fd ∧ k.desc other = some d := by
  by_cases same : other = fd
  · subst same
    simp
  · simp [desc_drop_of_ne same, same]

@[simp] theorem mem_interest_drop :
    other ∈ (k.drop fd).interest ↔ other ≠ fd ∧ other ∈ k.interest :=
  Finset.mem_erase

/-- `EPOLL_CTL_DEL`, then `close`. -/
theorem close_of_ctlDel (done : k.ctlDel fd = some k') :
    fd ∈ k.interest ∧ k'.close fd = some (k.drop fd) := by
  unfold ctlDel at done
  split at done
  · rename_i can
    cases done
    refine ⟨can.2, ?_⟩
    simp [close, can.1, drop]
  · cases done

theorem ctlDel_eq_none (isOpen : k.desc fd ≠ none) : k.ctlDel fd = none ↔ fd ∉ k.interest := by
  simp [ctlDel, Option.isSome_iff_ne_none.mpr isOpen]

/-! ## Timers after later calls -/

/-- From `k` to `k'` time has not gone back, and a timer of `k'` that was created before tick `t` is
a timer of `k`; where it was also armed before tick `t`, it is armed as it was. -/
structure Since (t : Nat) (k k' : Epoll) : Prop where
  clock : k.clock ≤ k'.clock
  tick : k.tick ≤ k'.tick
  timer : t ≤ k.tick → ∀ fd born armed, k'.desc fd = some (.timer born armed) → born < t →
    ∃ before, k.desc fd = some (.timer born before) ∧
      ∀ a, armed = some a → a.tick < t → before = some a

namespace Since

variable {t : Nat} {k'' : Epoll}

theorem refl (t : Nat) (k : Epoll) : Since t k k :=
  ⟨Nat.le_refl _, Nat.le_refl _, fun _ _ _ armed now _ => ⟨armed, now, fun _ same _ => same⟩⟩

theorem trans (first : Since t k k') (second : Since t k' k'') : Since t k k'' := by
  refine ⟨first.clock.trans second.clock, first.tick.trans second.tick, ?_⟩
  intro passed fd born armed now old
  rcases second.timer (passed.trans first.tick) fd born armed now old with ⟨armed', mid, same⟩
  rcases first.timer passed fd born armed' mid old with ⟨armed'', start, same'⟩
  exact ⟨armed'', start, fun a is early => same' a (same a is early) early⟩

/-- A call that leaves the clock and every timer alone. -/
theorem of_timers (clock : k.clock ≤ k'.clock) (tick : k.tick ≤ k'.tick)
    (timers : ∀ fd born armed, k'.desc fd = some (.timer born armed) →
      k.desc fd = some (.timer born armed)) : Since t k k' :=
  ⟨clock, tick, fun _ fd born armed now _ =>
    ⟨armed, timers fd born armed now, fun _ same _ => same⟩⟩

/-- `fd` refers to something else, but to no old timer. -/
theorem set {d : Desc} (notTimer : ∀ born armed, d = .timer born armed → t ≤ k.tick → born < t →
    ∃ before, k.desc fd = some (.timer born before) ∧
      ∀ a, armed = some a → a.tick < t → before = some a) : Since t k (k.set fd d) := by
  refine ⟨Nat.le_refl _, Nat.le_refl _, ?_⟩
  intro passed other born armed now old
  by_cases same : other = fd
  · subst same
    rw [desc_set_self] at now
    exact notTimer born armed (Option.some.inj now) passed old
  · rw [desc_set_of_ne same] at now
    exact ⟨armed, now, fun _ is _ => is⟩

/-- A tick. -/
theorem succ : Since t k { k with tick := k.tick + 1 } :=
  of_timers (Nat.le_refl _) (Nat.le_succ _) fun _ _ _ now => now

theorem accept (done : k.accept fd = some k') : Since t k k' := by
  rcases accept_eq_some done with ⟨-, rfl⟩
  exact succ.trans (set fun _ _ isTimer => nomatch isTimer)

theorem recv (fd answer : Int) (k : Epoll) : Since t k (k.recv fd answer).2 := by
  rcases recv_cases fd answer k with ⟨born, lastActive, -, -, received⟩ | ⟨-, nothing⟩
  · rw [received]
    exact succ.trans (set fun _ _ isTimer => nomatch isTimer)
  · rw [nothing]
    exact refl t k

/-- A new timer is born now. -/
theorem timerfdCreate {answer : Except Errno Int} (done : k.timerfdCreate answer = .ok (fd, k')) :
    Since t k k' := by
  rcases timerfdCreate_eq_ok done with ⟨-, rfl⟩
  apply set
  intro born armed isTimer passed old
  cases isTimer
  exact absurd passed (Nat.not_le.mpr old)

/-- A timer that is armed is armed now. -/
theorem timerfdSettime {failure : Option Errno} {tvSec : Int}
    (done : k.timerfdSettime failure fd tvSec = .ok k') : Since t k k' := by
  rcases timerfdSettime_eq_ok done with ⟨born, armed, isTimer, rfl⟩
  apply set
  intro born' armed' same passed old
  cases same
  refine ⟨armed, isTimer, fun a now early => ?_⟩
  split at now
  · cases now
  · cases now
    exact absurd passed (Nat.not_le.mpr early)

theorem ctlAdd {failure : Option Errno} (done : k.ctlAdd failure fd = some k') : Since t k k' := by
  rcases ctlAdd_eq_some done with ⟨-, -, -, rfl⟩
  exact of_timers (Nat.le_refl _) (Nat.le_refl _) fun _ _ _ now => now

theorem drop : Since t k (k.drop fd) :=
  of_timers (Nat.le_refl _) (Nat.le_refl _) fun _ _ _ now => (desc_drop_eq_some.mp now).2

end Since

end Epoll

end Alnp
