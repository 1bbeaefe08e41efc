import Alnp.EpollTimerfd.SessionList
import Alnp.Kernel.Epoll

/-!
# Which session owns which descriptors

What the session list is for: every session owns an open socket and an open timer, handed out for
the same connection, and no two sessions share one.  `Owned` says so of any list of sessions and any
state of the kernel; it survives whatever `epoll_timerfd.c` does to them, call by call, also when a
call in between fails.

`Exact` says more: the interest set and the open descriptors are those of the sessions and nothing
else, and every timer has been armed since the connection was active last.  It survives the three
things the server does as a whole (`Exact.opened`, `Exact.active`, `Exact.remove`), as long as no
call fails.
-/

namespace Alnp.EpollTimerfd

open Epoll

variable {fdListener fd t : Int} {xs : List Fdsession} {k k' : Epoll} {i : Nat} {x y : Fdsession}

structure Owned (fdListener : Int) (xs : List Fdsession) (k : Epoll) : Prop where
  listener : k.desc fdListener = some .listener
  interest : ∀ fd ∈ k.interest, k.desc fd ≠ none
  sockets : (xs.map Fdsession.socketfd).Nodup
  timers : (xs.map Fdsession.timerfd).Nodup
  timeout : ∀ x ∈ xs, 0 < x.timeout
  session : ∀ x ∈ xs, ∃ born lastActive armed,
    k.desc x.socketfd = some (.socket born lastActive) ∧
      k.desc x.timerfd = some (.timer born armed) ∧ ∀ a, armed = some a → a.tvSec = x.timeout

namespace Owned

theorem socket (owned : Owned fdListener xs k) (member : x ∈ xs) :
    ∃ born lastActive, k.desc x.socketfd = some (.socket born lastActive) := by
  rcases owned.session x member with ⟨born, lastActive, -, isSocket, -, -⟩
  exact ⟨born, lastActive, isSocket⟩

theorem timer (owned : Owned fdListener xs k) (member : x ∈ xs) :
    ∃ born armed, k.desc x.timerfd = some (.timer born armed) := by
  rcases owned.session x member with ⟨born, -, armed, -, isTimer, -⟩
  exact ⟨born, armed, isTimer⟩

/-- A socket is not a timer. -/
theorem socketfd_ne_timerfd (owned : Owned fdListener xs k) (member : x ∈ xs) (member' : y ∈ xs) :
    x.socketfd ≠ y.timerfd := by
  rcases owned.socket member with ⟨born, lastActive, isSocket⟩
  rcases owned.timer member' with ⟨born', armed, isTimer⟩
  intro same
  rw [same, isTimer] at isSocket
  cases isSocket

theorem socketfd_ne_listener (owned : Owned fdListener xs k) (member : x ∈ xs) :
    x.socketfd ≠ fdListener := by
  rcases owned.socket member with ⟨born, lastActive, isSocket⟩
  intro same
  rw [same, owned.listener] at isSocket
  cases isSocket

theorem timerfd_ne_listener (owned : Owned fdListener xs k) (member : x ∈ xs) :
    x.timerfd ≠ fdListener := by
  rcases owned.timer member with ⟨born, armed, isTimer⟩
  intro same
  rw [same, owned.listener] at isTimer
  cases isTimer

/-- The session of a socket is the only one on it. -/
theorem eq_of_socketfd (owned : Owned fdListener xs k) (member : x ∈ xs) (member' : y ∈ xs)
    (same : x.socketfd = y.socketfd) : x = y :=
  List.inj_on_of_nodup_map owned.sockets member member' same

theorem eq_of_timerfd (owned : Owned fdListener xs k) (member : x ∈ xs) (member' : y ∈ xs)
    (same : x.timerfd = y.timerfd) : x = y :=
  List.inj_on_of_nodup_map owned.timers member member' same

/-- Replacing what `fd` refers to, where no session, nor the listener, is on `fd`. -/
theorem set {d : Desc} (owned : Owned fdListener xs k) (notListener : fdListener ≠ fd)
    (unused : ∀ x ∈ xs, x.socketfd ≠ fd ∧ x.timerfd ≠ fd) : Owned fdListener xs (k.set fd d) := by
  refine ⟨?_, ?_, owned.sockets, owned.timers, owned.timeout, ?_⟩
  · rw [desc_set_of_ne notListener]
    exact owned.listener
  · intro other member
    by_cases same : other = fd
    · subst same
      simp
    · rw [desc_set_of_ne same]
      exact owned.interest other member
  · intro x member
    rcases unused x member with ⟨notSocket, notTimer⟩
    rw [desc_set_of_ne notSocket, desc_set_of_ne notTimer]
    exact owned.session x member

/-- A number that is not open belongs to no session. -/
theorem unused (owned : Owned fdListener xs k) (closed : k.desc fd = none) :
    fdListener ≠ fd ∧ ∀ x ∈ xs, x.socketfd ≠ fd ∧ x.timerfd ≠ fd := by
  have ne : ∀ other, k.desc other ≠ none → other ≠ fd := by
    intro other isOpen same
    subst same
    exact isOpen closed
  refine ⟨ne _ (by simp [owned.listener]), fun x member => ⟨ne _ ?_, ne _ ?_⟩⟩
  · rcases owned.socket member with ⟨born, lastActive, isSocket⟩
    simp [isSocket]
  · rcases owned.timer member with ⟨born, armed, isTimer⟩
    simp [isTimer]

/-- Time and ticks pass. -/
theorem time (owned : Owned fdListener xs k) (clock tick : Nat) :
    Owned fdListener xs { k with clock := clock, tick := tick } :=
  ⟨owned.listener, owned.interest, owned.sockets, owned.timers, owned.timeout, owned.session⟩

/-- `fd` goes on referring to the same connection or to the same timer. -/
theorem replace {d d' : Desc} (owned : Owned fdListener xs k) (now : k.desc fd = some d)
    (like : d.Like d')
    (armed : ∀ x ∈ xs, x.timerfd = fd → ∀ born a, d' = .timer born (some a) → a.tvSec = x.timeout) :
    Owned fdListener xs (k.set fd d') := by
  have notListener : fdListener ≠ fd := by
    intro same
    subst same
    rw [owned.listener] at now
    cases now
    exact like.elim
  refine ⟨?_, ?_, owned.sockets, owned.timers, owned.timeout, ?_⟩
  · rw [desc_set_of_ne notListener]
    exact owned.listener
  · intro other member
    by_cases same : other = fd
    · simp [same]
    · rw [desc_set_of_ne same]
      exact owned.interest other member
  · intro x member
    rcases owned.session x member with ⟨born, lastActive, armed', isSocket, isTimer, asArmed⟩
    have apart := owned.socketfd_ne_timerfd member member
    by_cases onSocket : x.socketfd = fd
    · subst onSocket
      rw [desc_set_of_ne apart.symm]
      rw [now] at isSocket
      cases isSocket
      rcases like.socket with ⟨lastActive', rfl⟩
      exact ⟨born, lastActive', armed', desc_set_self, isTimer, asArmed⟩
    · rw [desc_set_of_ne onSocket]
      by_cases onTimer : x.timerfd = fd
      · subst onTimer
        rw [now] at isTimer
        cases isTimer
        rcases like.timer with ⟨armed'', rfl⟩
        refine ⟨born, lastActive, armed'', isSocket, desc_set_self, ?_⟩
        intro a same
        subst same
        exact armed x member rfl born a rfl
      · rw [desc_set_of_ne onTimer]
        exact ⟨born, lastActive, armed', isSocket, isTimer, asArmed⟩

/-- A new connection, which has no session yet. -/
theorem accept (owned : Owned fdListener xs k) (done : k.accept fd = some k') :
    Owned fdListener xs k' := by
  rcases accept_eq_some done with ⟨closed, rfl⟩
  rcases owned.unused closed with ⟨notListener, unused⟩
  exact (owned.time k.clock (k.tick + 1)).set notListener unused

theorem recv (owned : Owned fdListener xs k) (fd answer : Int) :
    Owned fdListener xs (k.recv fd answer).2 := by
  rcases recv_cases fd answer k with ⟨born, lastActive, isSocket, -, received⟩ | ⟨-, nothing⟩
  · rw [received]
    exact (owned.time k.clock (k.tick + 1)).replace isSocket rfl
      fun _ _ _ _ _ other => nomatch other
  · rw [nothing]
    exact owned

theorem settime {failure : Option Errno} (owned : Owned fdListener xs k) (member : x ∈ xs)
    (done : k.timerfdSettime failure x.timerfd x.timeout = .ok k') : Owned fdListener xs k' := by
  rcases timerfdSettime_eq_ok done with ⟨born, armed, isTimer, rfl⟩
  have like : ∀ armed', (Desc.timer born armed).Like (.timer born armed') := fun _ => rfl
  apply owned.replace isTimer (like _)
  intro y member' same born' a is
  rw [owned.eq_of_timerfd member' member same]
  split at is
  · cases is
  · cases is
    rfl

theorem ctlAdd {failure : Option Errno} (owned : Owned fdListener xs k)
    (done : k.ctlAdd failure fd = some k') : Owned fdListener xs k' := by
  rcases ctlAdd_eq_some done with ⟨-, isOpen, -, rfl⟩
  refine ⟨owned.listener, ?_, owned.sockets, owned.timers, owned.timeout, owned.session⟩
  intro other member
  rcases Finset.mem_insert.mp member with rfl | old
  · exact Option.isSome_iff_ne_none.mp isOpen
  · exact owned.interest other old

/-- A timer is created for a connection without a session, and the two become one. -/
theorem create {answer : Except Errno Int} {lastActive : Nat} {timeout : Int}
    (owned : Owned fdListener xs k) (isSocket : k.desc fd = some (.socket k.tick lastActive))
    (new : ∀ x ∈ xs, x.socketfd ≠ fd) (pos : 0 < timeout)
    (done : k.timerfdCreate answer = .ok (t, k')) :
    Owned fdListener (xs ++ [⟨fd, t, timeout⟩]) k' := by
  rcases timerfdCreate_eq_ok done with ⟨closed, rfl⟩
  rcases owned.unused closed with ⟨notListener, unused⟩
  have owned' := owned.set (d := .timer k.tick none) notListener unused
  have apart : fd ≠ t := by
    intro same
    subst same
    rw [closed] at isSocket
    cases isSocket
  refine ⟨owned'.listener, owned'.interest, ?_, ?_, ?_, ?_⟩
  · rw [List.map_append]
    exact owned.sockets.append (List.nodup_singleton _) (by simpa using new)
  · rw [List.map_append]
    exact owned.timers.append (List.nodup_singleton _)
      (by simpa using fun x member => (unused x member).2)
  · intro x member
    rcases List.mem_append.mp member with old | added
    · exact owned.timeout x old
    · rwa [List.mem_singleton.mp added]
  · intro x member
    rcases List.mem_append.mp member with old | added
    · exact owned'.session x old
    · rw [List.mem_singleton.mp added]
      refine ⟨k.tick, lastActive, none, ?_, desc_set_self, fun _ is => nomatch is⟩
      rw [desc_set_of_ne apart]
      exact isSocket

/-- The sessions left after a removal are those on other sockets and other timers. -/
theorem mem_swapRemove (owned : Owned fdListener xs k) (entry : xs[i]? = some x) :
    y ∈ swapRemove xs i ↔ y ∈ xs ∧ y.socketfd ≠ x.socketfd := by
  rcases List.getElem?_eq_some_iff.mp entry with ⟨lt, rfl⟩
  exact mem_swapRemove_iff lt owned.sockets

/-- Removing a session together with its descriptors. -/
theorem remove (owned : Owned fdListener xs k) (entry : xs[i]? = some x) :
    Owned fdListener (swapRemove xs i) ((k.drop x.socketfd).drop x.timerfd) := by
  have member : x ∈ xs := List.mem_of_getElem? entry
  rcases List.getElem?_eq_some_iff.mp entry with ⟨lt, -⟩
  refine ⟨?_, ?_, (nodup_map_swapRemove lt owned.sockets).1,
    (nodup_map_swapRemove lt owned.timers).1, ?_, ?_⟩
  · rw [desc_drop_of_ne (owned.timerfd_ne_listener member).symm,
      desc_drop_of_ne (owned.socketfd_ne_listener member).symm]
    exact owned.listener
  · intro other left
    rw [mem_interest_drop, mem_interest_drop] at left
    rcases left with ⟨neTimer, neSocket, left⟩
    rw [desc_drop_of_ne neTimer, desc_drop_of_ne neSocket]
    exact owned.interest other left
  · exact fun y left => owned.timeout y ((owned.mem_swapRemove entry).mp left).1
  · intro y left
    rcases (owned.mem_swapRemove entry).mp left with ⟨old, neSocket⟩
    have neTimer : y.timerfd ≠ x.timerfd := fun same =>
      neSocket (congrArg Fdsession.socketfd (owned.eq_of_timerfd old member same))
    rw [desc_drop_of_ne (owned.socketfd_ne_timerfd old member), desc_drop_of_ne neSocket,
      desc_drop_of_ne neTimer, desc_drop_of_ne (owned.socketfd_ne_timerfd member old).symm]
    exact owned.session y old

end Owned

/-! ## Nothing else is open or registered -/

/-- The sessions own everything that is registered besides the listener and everything that
`accept` and `timerfd_create` handed out, and their timers run. -/
structure Exact (fdListener : Int) (xs : List Fdsession) (k : Epoll) : Prop
    extends Owned fdListener xs k where
  interest_iff : ∀ fd, fd ∈ k.interest ↔
    fd = fdListener ∨ ∃ x ∈ xs, fd = x.socketfd ∨ fd = x.timerfd
  socket_listed : ∀ fd born lastActive, k.desc fd = some (.socket born lastActive) →
    ∃ x ∈ xs, x.socketfd = fd
  timer_listed : ∀ fd born armed, k.desc fd = some (.timer born armed) → ∃ x ∈ xs, x.timerfd = fd
  armed : ∀ x ∈ xs, ∃ born lastActive a,
    k.desc x.socketfd = some (.socket born lastActive) ∧
      k.desc x.timerfd = some (.timer born (some a)) ∧ a.tvSec = x.timeout ∧ a.tick = lastActive

namespace Exact

theorem time (exact : Exact fdListener xs k) (clock tick : Nat) :
    Exact fdListener xs { k with clock := clock, tick := tick } :=
  ⟨exact.toOwned.time clock tick, exact.interest_iff, exact.socket_listed, exact.timer_listed,
    exact.armed⟩

/-- A new session, all of whose descriptors are new and registered. -/
theorem append {T : Nat} {a : Arming} (exact : Exact fdListener xs k)
    (owned : Owned fdListener (xs ++ [x]) k')
    (isSocket : k'.desc x.socketfd = some (.socket T T))
    (isTimer : k'.desc x.timerfd = some (.timer T (some a))) (asArmed : a.tvSec = x.timeout)
    (whenArmed : a.tick = T)
    (others : ∀ fd, fd ≠ x.socketfd → fd ≠ x.timerfd → k'.desc fd = k.desc fd)
    (interest : k'.interest = insert x.timerfd (insert x.socketfd k.interest)) :
    Exact fdListener (xs ++ [x]) k' := by
  have new : x ∈ xs ++ [x] := List.mem_append_right xs (List.mem_singleton_self x)
  refine ⟨owned, ?_, ?_, ?_, ?_⟩
  · intro fd
    rw [interest, Finset.mem_insert, Finset.mem_insert, exact.interest_iff]
    simp only [List.mem_append, List.mem_singleton, or_and_right, exists_or, exists_eq_left]
    generalize (∃ y ∈ xs, fd = y.socketfd ∨ fd = y.timerfd) = owned
    tauto
  · intro fd born lastActive now
    by_cases onSocket : fd = x.socketfd
    · exact ⟨x, new, onSocket.symm⟩
    · have offTimer : fd ≠ x.timerfd := by
        intro same
        subst same
        rw [isTimer] at now
        cases now
      rw [others fd onSocket offTimer] at now
      rcases exact.socket_listed fd born lastActive now with ⟨y, member, same⟩
      exact ⟨y, List.mem_append_left [x] member, same⟩
  · intro fd born armed now
    by_cases onTimer : fd = x.timerfd
    · exact ⟨x, new, onTimer.symm⟩
    · have offSocket : fd ≠ x.socketfd := by
        intro same
        subst same
        rw [isSocket] at now
        cases now
      rw [others fd offSocket onTimer] at now
      rcases exact.timer_listed fd born armed now with ⟨y, member, same⟩
      exact ⟨y, List.mem_append_left [x] member, same⟩
  · intro y member
    rcases List.mem_append.mp member with old | added
    · rcases exact.armed y old with ⟨born, lastActive, a', isSocket', isTimer', settings⟩
      have member' : y ∈ xs ++ [x] := List.mem_append_left [x] old
      have neSocket := (List.nodup_append.mp (List.map_append ▸ owned.sockets)).2.2
        y.socketfd (List.mem_map_of_mem old) x.socketfd (by simp)
      have neTimer := (List.nodup_append.mp (List.map_append ▸ owned.timers)).2.2
        y.timerfd (List.mem_map_of_mem old) x.timerfd (by simp)
      refine ⟨born, lastActive, a', ?_, ?_, settings⟩
      · rw [others _ neSocket (owned.socketfd_ne_timerfd member' new)]
        exact isSocket'
      · rw [others _ (owned.socketfd_ne_timerfd new member').symm neTimer]
        exact isTimer'
    · rw [List.mem_singleton.mp added]
      exact ⟨T, T, a, isSocket, isTimer, asArmed, whenArmed⟩

/-- A connection is accepted, registered and given a timer, which is armed and registered. -/
theorem opened {k₁ k₂ k₃ k₄ k₅ : Epoll} {failure failure' failure'' : Option Errno}
    {answer : Except Errno Int} {timeout : Int} (exact : Exact fdListener xs k) (pos : 0 < timeout)
    (accepted : k.accept fd = some k₁) (added : k₁.ctlAdd failure fd = some k₂)
    (created : k₂.timerfdCreate answer = .ok (t, k₃))
    (armed : k₃.timerfdSettime failure' t timeout = .ok k₄)
    (added' : k₄.ctlAdd failure'' t = some k₅) :
    Exact fdListener (xs ++ [⟨fd, t, timeout⟩]) k₅ := by
  have owned₂ := (exact.toOwned.accept accepted).ctlAdd added
  rcases accept_eq_some accepted with ⟨closed, rfl⟩
  rcases ctlAdd_eq_some added with ⟨-, -, -, rfl⟩
  have connected : ({ k with tick := k.tick + 1 }.set fd
      (.socket (k.tick + 1) (k.tick + 1))).desc fd = some (.socket (k.tick + 1) (k.tick + 1)) :=
    desc_set_self
  have owned₃ := owned₂.create connected
    (fun x member => ((exact.toOwned.unused closed).2 x member).1) pos created
  have owned₅ := (owned₃.settime (List.mem_append_right xs (List.mem_singleton_self _))
    armed).ctlAdd added'
  rcases timerfdCreate_eq_ok created with ⟨closed', rfl⟩
  rcases timerfdSettime_eq_ok armed with ⟨born, before, isTimer, rfl⟩
  rcases ctlAdd_eq_some added' with ⟨-, -, -, rfl⟩
  have apart : fd ≠ t := by
    intro same
    subst same
    simp at closed'
  simp only [desc_set_self, Option.some.injEq, Desc.timer.injEq] at isTimer
  rcases isTimer with ⟨rfl, rfl⟩
  apply exact.append (T := k.tick + 1) owned₅
  · simp only
    rw [desc_set_of_ne apart, desc_set_of_ne apart]
    exact desc_set_self
  · exact desc_set_self.trans (by rw [if_neg (by omega)]; rfl)
  · rfl
  · rfl
  · intro other neSocket neTimer
    simp only
    rw [desc_set_of_ne neTimer, desc_set_of_ne neTimer]
    exact desc_set_of_ne neSocket
  · rfl

/-- The descriptors of one session change, its timer being armed since it was active last. -/
theorem refresh {T born : Nat} {a : Arming} (exact : Exact fdListener xs k)
    (owned : Owned fdListener xs k') (member : x ∈ xs)
    (isSocket : k'.desc x.socketfd = some (.socket born T))
    (isTimer : k'.desc x.timerfd = some (.timer born (some a))) (asArmed : a.tvSec = x.timeout)
    (whenArmed : a.tick = T)
    (others : ∀ fd, fd ≠ x.socketfd → fd ≠ x.timerfd → k'.desc fd = k.desc fd)
    (interest : k'.interest = k.interest) : Exact fdListener xs k' := by
  refine ⟨owned, ?_, ?_, ?_, ?_⟩
  · rw [interest]
    exact exact.interest_iff
  · intro fd born' lastActive now
    by_cases onSocket : fd = x.socketfd
    · exact ⟨x, member, onSocket.symm⟩
    · by_cases onTimer : fd = x.timerfd
      · rw [onTimer, isTimer] at now
        cases now
      · rw [others fd onSocket onTimer] at now
        exact exact.socket_listed fd born' lastActive now
  · intro fd born' armed now
    by_cases onTimer : fd = x.timerfd
    · exact ⟨x, member, onTimer.symm⟩
    · by_cases onSocket : fd = x.socketfd
      · rw [onSocket, isSocket] at now
        cases now
      · rw [others fd onSocket onTimer] at now
        exact exact.timer_listed fd born' armed now
  · intro y member'
    by_cases same : y = x
    · rw [same]
      exact ⟨born, T, a, isSocket, isTimer, asArmed, whenArmed⟩
    · rcases exact.armed y member' with ⟨born', lastActive, a', isSocket', isTimer', settings⟩
      have neSocket := fun on => same (exact.eq_of_socketfd member' member on)
      have neTimer := fun on => same (exact.eq_of_timerfd member' member on)
      refine ⟨born', lastActive, a', ?_, ?_, settings⟩
      · rw [others _ neSocket (exact.socketfd_ne_timerfd member' member)]
        exact isSocket'
      · rw [others _ (exact.socketfd_ne_timerfd member member').symm neTimer]
        exact isTimer'

/-- Data arrives for a session and its timer is armed again. -/
theorem active {answer : Int} {failure : Option Errno} (exact : Exact fdListener xs k)
    (member : x ∈ xs) (data : 0 < (k.recv x.socketfd answer).1)
    (armed : (k.recv x.socketfd answer).2.timerfdSettime failure x.timerfd x.timeout = .ok k') :
    Exact fdListener xs k' := by
  have owned := (exact.toOwned.recv x.socketfd answer).settime member armed
  have apart := exact.socketfd_ne_timerfd member member
  have pos := exact.timeout x member
  rcases recv_cases x.socketfd answer k with ⟨born, lastActive, isSocket, -, received⟩ | ⟨none, -⟩
  · rw [received] at armed
    rcases timerfdSettime_eq_ok armed with ⟨born', before, isTimer, rfl⟩
    rw [desc_set_of_ne apart.symm] at isTimer
    rcases exact.session x member with ⟨born'', lastActive'', armed'', isSocket', isTimer', -⟩
    rw [isSocket] at isSocket'
    cases isSocket'
    cases isTimer.symm.trans isTimer'
    apply exact.refresh (T := k.tick + 1) owned member
    · rw [desc_set_of_ne apart]
      exact desc_set_self
    · rw [desc_set_self, if_neg (by omega)]
    · rfl
    · rfl
    · intro fd offSocket offTimer
      rw [desc_set_of_ne offTimer, desc_set_of_ne offSocket]
    · rfl
  · omega

/-- A session is removed together with its descriptors. -/
theorem remove (exact : Exact fdListener xs k) (entry : xs[i]? = some x) :
    Exact fdListener (swapRemove xs i) ((k.drop x.socketfd).drop x.timerfd) := by
  have member : x ∈ xs := List.mem_of_getElem? entry
  have left : ∀ y, y ∈ swapRemove xs i ↔ y ∈ xs ∧ y.socketfd ≠ x.socketfd := fun y =>
    exact.toOwned.mem_swapRemove entry
  have neTimer : ∀ y ∈ xs, y.socketfd ≠ x.socketfd → y.timerfd ≠ x.timerfd := fun y old ne same =>
    ne (congrArg Fdsession.socketfd (exact.eq_of_timerfd old member same))
  refine ⟨exact.toOwned.remove entry, ?_, ?_, ?_, ?_⟩
  · intro fd
    rw [mem_interest_drop, mem_interest_drop, exact.interest_iff]
    constructor
    · intro remains
      rcases remains with ⟨offTimer, offSocket, rfl | ⟨y, old, on⟩⟩
      · exact .inl rfl
      · refine .inr ⟨y, (left y).mpr ⟨old, fun same => ?_⟩, on⟩
        rw [exact.eq_of_socketfd old member same] at on
        exact on.elim offSocket offTimer
    · intro either
      rcases either with rfl | ⟨y, remains, on⟩
      · exact ⟨(exact.timerfd_ne_listener member).symm, (exact.socketfd_ne_listener member).symm,
          .inl rfl⟩
      · rcases (left y).mp remains with ⟨old, ne⟩
        rcases on with rfl | rfl
        · exact ⟨exact.socketfd_ne_timerfd old member, ne, .inr ⟨y, old, .inl rfl⟩⟩
        · exact ⟨neTimer y old ne, (exact.socketfd_ne_timerfd member old).symm,
            .inr ⟨y, old, .inr rfl⟩⟩
  · intro fd born lastActive now
    rw [desc_drop_eq_some, desc_drop_eq_some] at now
    rcases now with ⟨-, ne, now⟩
    rcases exact.socket_listed fd born lastActive now with ⟨y, old, rfl⟩
    exact ⟨y, (left y).mpr ⟨old, ne⟩, rfl⟩
  · intro fd born armed now
    rw [desc_drop_eq_some, desc_drop_eq_some] at now
    rcases now with ⟨offTimer, -, now⟩
    rcases exact.timer_listed fd born armed now with ⟨y, old, rfl⟩
    refine ⟨y, (left y).mpr ⟨old, fun same => offTimer ?_⟩, rfl⟩
    exact congrArg Fdsession.timerfd (exact.eq_of_socketfd old member same)
  · intro y remains
    rcases (left y).mp remains with ⟨old, ne⟩
    rw [desc_drop_of_ne (exact.socketfd_ne_timerfd old member), desc_drop_of_ne ne,
      desc_drop_of_ne (neTimer y old ne),
      desc_drop_of_ne (exact.socketfd_ne_timerfd member old).symm]
    exact exact.armed y old

end Exact

end Alnp.EpollTimerfd
