import Alnp.Kernel.ConnTable
import Alnp.Lib.Machine

/-!
# The dispatch loop of `io_epoll.c`

`main` of `Chapter07/io_epoll.c` accepts connections for the listener and calls `recv` for the
others, and removes a client with `DEL_EV` when its `recv` or its event says so.  The variable `fd`
holds what `accept` returned last; one of the branches passes it to `DEL_EV` in place of the
descriptor of the event.

`effect_iff_of_reachable`: a batch has the intended effect exactly if no `EPOLLIN` event of a client
meets an error of `recv`, no client with urgent data only is at its end, and the listener reports
nothing but input.
-/

namespace Alnp.IoEpoll

/-- An entry of `ep_events`: its `data.fd` and the flags in `events` that the loop looks at. -/
structure Event where
  fd : Int
  epollin : Bool
  epollpri : Bool
  epollerr : Bool

/-- An event with what the calls made for it return: the connections that `accept` returns before it
returns -1, and the result of `recv`. -/
structure Turn where
  event : Event
  accepts : List Int
  recv : Int

structure Server where
  opened : Finset Int
  interest : Finset Int
  /-- The variable `fd` of `main`. -/
  fd : Int
  /-- What `accept` has returned so far, other than -1. -/
  accepted : List Int
  /-- What has been closed so far. -/
  closed : List Int

/-- `add_ev`; where it returns -1, `ADD_EV` ends the process. -/
def addEv (fd : Int) (s : Server) : Option Server :=
  if fd ∈ s.opened ∧ fd ∉ s.interest then some { s with interest := insert fd s.interest } else none

/-- `del_ev`; where it returns -1, `DEL_EV` ends the process. -/
def delEv (fd : Int) (s : Server) : Option Server :=
  if fd ∈ s.opened ∧ fd ∈ s.interest then
    some
      { s with
        opened := s.opened.erase fd
        interest := s.interest.erase fd
        closed := s.closed ++ [fd] }
  else none

/-- The loop that accepts connections; a number that is not free counts as -1. -/
def acceptLoop : List Int → Server → Option Server
  | [], s => some { s with fd := -1 }
  | fd :: rest, s =>
      if Fresh s.opened fd then
        (addEv fd
          { s with
            opened := insert fd s.opened, fd := fd, accepted := s.accepted ++ [fd] }).bind
          (acceptLoop rest)
      else some { s with fd := -1 }

/-- The result of `recv`, which cannot succeed on the listener. -/
def Turn.received (fdListener : Int) (t : Turn) : Int :=
  if t.event.fd = fdListener then -1 else t.recv

/-- The body of the loop over `ep_events`. -/
def turn (fdListener : Int) (t : Turn) (s : Server) : Option Server :=
  if t.event.epollin then
    if t.event.fd = fdListener then acceptLoop t.accepts s
    else if t.received fdListener = -1 then delEv s.fd s
    else if t.received fdListener = 0 then delEv t.event.fd s
    else some s
  else if t.event.epollpri then
    if t.received fdListener = -1 then delEv t.event.fd s else some s
  else if t.event.epollerr then delEv t.event.fd s
  else delEv t.event.fd s

/-- The loop over `ep_events`. -/
def dispatch (fdListener : Int) : List Turn → Server → Option Server
  | [], s => some s
  | t :: rest, s => (turn fdListener t s).bind (dispatch fdListener rest)

/-- What `epoll_wait` returns: registered descriptors, each once. -/
structure Batch (s : Server) (batch : List Turn) : Prop where
  nodup : (batch.map fun t => t.event.fd).Nodup
  registered : ∀ t ∈ batch, t.event.fd ∈ s.interest

/-- The main loop from the state after `ADD_EV(epoll_fd, fd_listener)`; `fd` is not initialised. -/
def machine (b : Boot) : Machine Server where
  init s := ∃ fd, s = ⟨b.others, {b.listener}, fd, [], []⟩
  step s s' := ∃ batch, Batch s batch ∧ dispatch b.listener batch s = some s'

/-! ## What a batch is meant to do -/

/-- The event is a client's, and its `recv` returns 0 or -1, or it reports neither input nor urgent
data. -/
def Turn.drops (fdListener : Int) (t : Turn) : Bool :=
  t.event.fd ≠ fdListener &&
    if t.event.epollin || t.event.epollpri then t.recv = 0 || t.recv = -1 else true

/-- The process goes on; the accepted sockets are registered, and exactly the clients of the events
that drop them are not any more and have been closed, once each. -/
def Effect (fdListener : Int) (s : Server) (batch : List Turn) (result : Option Server) : Prop :=
  let removed := (batch.filter (Turn.drops fdListener)).map fun t => t.event.fd
  ∃ s' news, result = some s' ∧ s'.accepted = s.accepted ++ news ∧
    (∀ fd, fd ∈ s'.interest ↔ fd ∈ s.interest ∧ fd ∉ removed ∨ fd ∈ news) ∧
    s'.closed = s.closed ++ removed

/-- The event does not lead to the branch with the wrong descriptor, is not urgent data at the end
of the stream, and is an input event if it is the listener's. -/
def Turn.Sound (fdListener : Int) (t : Turn) : Prop :=
  if t.event.fd = fdListener then t.event.epollin = true
  else if t.event.epollin then t.recv ≠ -1
  else t.event.epollpri = true → t.recv ≠ 0

/-! ## What the code does -/

/-- The event leads to `DEL_EV` of its own descriptor. -/
def Turn.closes (fdListener : Int) (t : Turn) : Bool :=
  if t.event.epollin then t.event.fd ≠ fdListener && t.recv = 0
  else if t.event.epollpri then t.received fdListener = -1
  else true

/-- The event leads to `DEL_EV` of the last accepted descriptor. -/
def Turn.Fatal (fdListener : Int) (t : Turn) : Prop :=
  t.event.epollin = true ∧ t.event.fd ≠ fdListener ∧ t.recv = -1

/-- What holds in front of every event: only open descriptors are registered, and `fd` is -1 once
there is a client, since then a loop over `accept` has come to its end. -/
structure Inv (fdListener : Int) (s : Server) : Prop where
  opened : s.interest ⊆ s.opened
  nonneg : ∀ x ∈ s.interest, 0 ≤ x
  last : ∀ x ∈ s.interest, x ≠ fdListener → s.fd = -1

/-- `s'` is `s` with some sockets accepted and some descriptors removed. -/
structure Became (s s' : Server) (news removed : List Int) : Prop where
  accepted : s'.accepted = s.accepted ++ news
  interest : ∀ x, x ∈ s'.interest ↔ x ∈ s.interest ∧ x ∉ removed ∨ x ∈ news
  closed : s'.closed = s.closed ++ removed

variable {fdListener : Int} {s s' s'' : Server} {t : Turn} {batch : List Turn}
  {news news' removed removed' : List Int}

/-- A step that neither accepts nor removes. -/
theorem Became.of_eq (accepted : s'.accepted = s.accepted) (interest : s'.interest = s.interest)
    (closed : s'.closed = s.closed) : Became s s' [] [] := by
  refine ⟨?_, fun x => ?_, ?_⟩
  · rw [accepted, List.append_nil]
  · simp [interest]
  · rw [closed, List.append_nil]

/-- What is removed later was registered at the start, so it is not among the new sockets. -/
theorem Became.trans (first : Became s s' news removed) (fresh : ∀ x ∈ news, x ∉ s.interest)
    (second : Became s' s'' news' removed') (old : ∀ x ∈ removed', x ∈ s.interest) :
    Became s s'' (news ++ news') (removed ++ removed') := by
  refine ⟨?_, fun x => ?_, ?_⟩
  · rw [second.accepted, first.accepted, List.append_assoc]
  · have apart : x ∈ news → x ∉ removed' := fun new gone => fresh x new (old x gone)
    rw [second.interest, first.interest, List.mem_append, List.mem_append]
    grind
  · rw [second.closed, first.closed, List.append_assoc]

/-- `DEL_EV` of a registered descriptor. -/
theorem delEv_spec (inv : Inv fdListener s) {fd : Int} (registered : fd ∈ s.interest) :
    ∃ s', delEv fd s = some s' ∧ Inv fdListener s' ∧ Became s s' [] [fd] := by
  refine ⟨_, if_pos ⟨inv.opened registered, registered⟩, ⟨?_, ?_, ?_⟩, ⟨?_, fun x => ?_, rfl⟩⟩
  · exact Finset.erase_subset_erase _ inv.opened
  · exact fun x member => inv.nonneg x (Finset.mem_of_mem_erase member)
  · exact fun x member => inv.last x (Finset.mem_of_mem_erase member)
  · exact (List.append_nil _).symm
  · simp [and_comm]

/-- `DEL_EV` of -1 ends the process. -/
theorem delEv_minus_one (inv : Inv fdListener s) (last : s.fd = -1) : delEv s.fd s = none := by
  refine if_neg fun both => ?_
  rw [last] at both
  exact absurd (inv.nonneg _ both.2) (by decide)

/-- The loop over `accept` registers what it accepts and leaves -1 in `fd`. -/
theorem acceptLoop_spec (accepts : List Int) (opened : s.interest ⊆ s.opened)
    (nonneg : ∀ x ∈ s.interest, 0 ≤ x) :
    ∃ s' news, acceptLoop accepts s = some s' ∧ Inv fdListener s' ∧ Became s s' news [] ∧
      ∀ x ∈ news, x ∉ s.interest := by
  induction accepts generalizing s with
  | nil => exact ⟨_, [], rfl, ⟨opened, nonneg, fun _ _ _ => rfl⟩, Became.of_eq rfl rfl rfl, nofun⟩
  | cons fd rest ih =>
      rw [acceptLoop]
      split
      · rename_i fresh
        have unregistered : fd ∉ s.interest := fun old => fresh.2 (opened old)
        rw [addEv, if_pos ⟨Finset.mem_insert_self fd _, unregistered⟩, Option.bind_some]
        -- The server with `fd` accepted and registered.
        set added : Server :=
          { s with
            opened := insert fd s.opened, interest := insert fd s.interest, fd := fd,
            accepted := s.accepted ++ [fd] } with def_added
        have became : Became s added [fd] [] :=
          ⟨rfl, fun x => by simp [def_added, or_comm], (List.append_nil _).symm⟩
        obtain ⟨s', news, done, inv, became', fresh'⟩ :=
          ih (s := added) (Finset.insert_subset_insert fd opened) fun x member => by
            rcases Finset.mem_insert.mp member with rfl | old
            · exact fresh.1
            · exact nonneg x old
        refine ⟨s', fd :: news, done, inv, became.trans ?_ became' nofun, ?_⟩
        · simpa using unregistered
        · intro x new
          rcases List.mem_cons.mp new with rfl | new
          · exact unregistered
          · exact fun old => fresh' x new (Finset.mem_insert_of_mem old)
      · exact ⟨_, [], rfl, ⟨opened, nonneg, fun _ _ _ => rfl⟩, Became.of_eq rfl rfl rfl, nofun⟩

/-- A turn whose event has a registered descriptor removes that descriptor or none. -/
theorem turn_spec (inv : Inv fdListener s) (registered : t.event.fd ∈ s.interest)
    (harmless : ¬ t.Fatal fdListener) :
    ∃ s' news, turn fdListener t s = some s' ∧ Inv fdListener s' ∧
      Became s s' news (if t.closes fdListener then [t.event.fd] else []) ∧
      ∀ x ∈ news, x ∉ s.interest := by
  have stays : ∃ s' news, some s = some s' ∧ Inv fdListener s' ∧ Became s s' news [] ∧
      ∀ x ∈ news, x ∉ s.interest := ⟨s, [], rfl, inv, Became.of_eq rfl rfl rfl, nofun⟩
  have removes : ∃ s' news, delEv t.event.fd s = some s' ∧ Inv fdListener s' ∧
      Became s s' news [t.event.fd] ∧ ∀ x ∈ news, x ∉ s.interest := by
    obtain ⟨s', done, inv', became⟩ := delEv_spec inv registered
    exact ⟨s', [], done, inv', became, nofun⟩
  unfold turn Turn.closes
  split
  · rename_i input
    split
    · rename_i listener
      simp only [listener, ne_eq, not_true, decide_false, Bool.false_and, Bool.false_eq_true,
        ↓reduceIte]
      exact acceptLoop_spec t.accepts inv.opened inv.nonneg
    · rename_i client
      have healthy : t.recv ≠ -1 := fun failed => harmless ⟨input, client, failed⟩
      rw [Turn.received, if_neg client, if_neg healthy]
      by_cases ends : t.recv = 0
      · simpa [client, ends] using removes
      · simpa [client, ends] using stays
  · split
    · by_cases failed : t.received fdListener = -1
      · simpa [failed] using removes
      · simpa [failed] using stays
    · simpa using removes

/-- The branch with the wrong descriptor ends the process. -/
theorem turn_fatal (inv : Inv fdListener s) (registered : t.event.fd ∈ s.interest)
    (fatal : t.Fatal fdListener) : turn fdListener t s = none := by
  obtain ⟨input, client, failed⟩ := fatal
  rw [turn, if_pos input, if_neg client, Turn.received, if_neg client, if_pos failed]
  exact delEv_minus_one inv (inv.last _ registered client)

/-- The events left over after a turn have registered descriptors still. -/
theorem Batch.tail (reported : Batch s (t :: batch))
    (became : Became s s' news (if t.closes fdListener then [t.event.fd] else [])) :
    Batch s' batch := by
  have nodup := reported.nodup
  rw [List.map_cons, List.nodup_cons] at nodup
  refine ⟨nodup.2, fun u member => ?_⟩
  have registered := reported.registered u (List.mem_cons_of_mem t member)
  have other : u.event.fd ≠ t.event.fd := fun same =>
    nodup.1 (same ▸ List.mem_map_of_mem member)
  refine (became.interest _).mpr (.inl ⟨registered, ?_⟩)
  split
  · rw [List.mem_singleton]
    exact other
  · exact List.not_mem_nil

/-- A batch without a fatal event goes through, and removes what its events remove. -/
theorem dispatch_spec (inv : Inv fdListener s) (reported : Batch s batch)
    (harmless : ∀ t ∈ batch, ¬ t.Fatal fdListener) :
    ∃ s' news, dispatch fdListener batch s = some s' ∧ Inv fdListener s' ∧
      Became s s' news ((batch.filter (Turn.closes fdListener)).map fun t => t.event.fd) := by
  induction batch generalizing s with
  | nil => exact ⟨s, [], rfl, inv, .of_eq rfl rfl rfl⟩
  | cons t rest ih =>
      have registered := reported.registered t List.mem_cons_self
      obtain ⟨s₁, news, done, inv₁, became, fresh⟩ :=
        turn_spec inv registered (harmless t List.mem_cons_self)
      obtain ⟨s', news', done', inv', became'⟩ := ih inv₁ (reported.tail became)
        fun u member => harmless u (List.mem_cons_of_mem t member)
      refine ⟨s', news ++ news', ?_, inv', ?_⟩
      · rw [dispatch, done, Option.bind_some, done']
      · have old : ∀ x ∈ (rest.filter (Turn.closes fdListener)).map fun t => t.event.fd,
            x ∈ s.interest := by
          intro x gone
          obtain ⟨u, member, rfl⟩ := List.mem_map.mp gone
          exact reported.registered u (List.mem_cons_of_mem t (List.mem_filter.mp member).1)
        have both := became.trans fresh became' old
        rw [List.filter_cons]
        split
        · rename_i closes
          rw [if_pos closes] at both
          exact both
        · rename_i stays
          rw [if_neg stays] at both
          exact both

/-- A batch with a fatal event ends the process. -/
theorem dispatch_fatal (inv : Inv fdListener s) (reported : Batch s batch)
    (fatal : ∃ t ∈ batch, t.Fatal fdListener) : dispatch fdListener batch s = none := by
  induction batch generalizing s with
  | nil => exact absurd fatal nofun
  | cons t rest ih =>
      have registered := reported.registered t List.mem_cons_self
      by_cases here : t.Fatal fdListener
      · rw [dispatch, turn_fatal inv registered here, Option.bind_none]
      · obtain ⟨s₁, news, done, inv₁, became, -⟩ := turn_spec inv registered here
        obtain ⟨u, member, later⟩ := fatal
        rcases List.mem_cons.mp member with rfl | member
        · exact absurd later here
        · rw [dispatch, done, Option.bind_some]
          exact ih inv₁ (reported.tail became) ⟨u, member, later⟩

/-! ## What was meant and what is done -/

/-- Apart from fatal events, those that are `Sound` are those that remove what they are meant to. -/
theorem Turn.sound_iff (harmless : ¬ t.Fatal fdListener) :
    t.Sound fdListener ↔ t.closes fdListener = t.drops fdListener := by
  unfold Turn.Sound Turn.closes Turn.drops Turn.received
  by_cases listener : t.event.fd = fdListener
  · cases input : t.event.epollin <;> cases urgent : t.event.epollpri <;> simp [listener]
  · cases input : t.event.epollin with
    | true =>
        have healthy : t.recv ≠ -1 := fun failed => harmless ⟨input, listener, failed⟩
        simp [listener, healthy]
    | false =>
        cases urgent : t.event.epollpri with
        | true =>
            -- Of the two results that should remove the client, the code looks for -1 only.
            by_cases ends : t.recv = 0 <;> simp [listener, ends]
        | false => simp [listener]

theorem Turn.Sound.harmless (sound : t.Sound fdListener) : ¬ t.Fatal fdListener := by
  intro fatal
  obtain ⟨input, client, failed⟩ := fatal
  rw [Turn.Sound, if_neg client, if_pos input] at sound
  exact sound failed

/-- Two predicates that select the same descriptors of a batch agree on it. -/
theorem Batch.eq_of_filter_eq (reported : Batch s batch) {p q : Turn → Bool}
    (same : (batch.filter p).map (fun t => t.event.fd) =
      (batch.filter q).map fun t => t.event.fd) : ∀ t ∈ batch, p t = q t := by
  intro t member
  have selected (p : Turn → Bool) :
      t.event.fd ∈ (batch.filter p).map (fun t => t.event.fd) ↔ p t = true := by
    constructor
    · intro found
      obtain ⟨u, chosen, sameFd⟩ := List.mem_map.mp found
      obtain ⟨member', holds⟩ := List.mem_filter.mp chosen
      rwa [← List.inj_on_of_nodup_map reported.nodup member' member sameFd]
    · exact fun holds => List.mem_map_of_mem (List.mem_filter.mpr ⟨member, holds⟩)
  rw [Bool.eq_iff_iff, ← selected p, ← selected q, same]

theorem inv_of_reachable {b : Boot} (reached : (machine b).Reachable s) : Inv b.listener s := by
  apply reached.invariant (P := Inv b.listener)
  · intro s start
    obtain ⟨fd, rfl⟩ := start
    refine ⟨?_, ?_, ?_⟩
    · exact Finset.singleton_subset_iff.mpr b.listener_open
    · exact fun x member => Finset.mem_singleton.mp member ▸ b.listener_nonneg
    · exact fun x member client => absurd (Finset.mem_singleton.mp member) client
  · intro s s' _ inv step
    obtain ⟨batch, reported, done⟩ := step
    by_cases fatal : ∃ t ∈ batch, t.Fatal b.listener
    · rw [dispatch_fatal inv reported fatal] at done
      cases done
    · obtain ⟨s₁, news, done₁, inv₁, -⟩ := dispatch_spec inv reported
        fun t member danger => fatal ⟨t, member, danger⟩
      cases done₁.symm.trans done
      exact inv₁

/-- **Effect of a batch.**  Whatever the earlier batches have left behind, a batch has the intended
effect exactly if each of its events is `Sound`. -/
theorem effect_iff_of_reachable {b : Boot} (reached : (machine b).Reachable s)
    (reported : Batch s batch) :
    Effect b.listener s batch (dispatch b.listener batch s) ↔
      ∀ t ∈ batch, t.Sound b.listener := by
  have inv := inv_of_reachable reached
  constructor
  · intro effect
    obtain ⟨s', news, done, accepted, interest, closed⟩ := effect
    have harmless : ∀ t ∈ batch, ¬ t.Fatal b.listener := by
      intro t member fatal
      rw [dispatch_fatal inv reported ⟨t, member, fatal⟩] at done
      cases done
    obtain ⟨s₁, news₁, done₁, -, became⟩ := dispatch_spec inv reported harmless
    cases done₁.symm.trans done
    have same := List.append_cancel_left (became.closed.symm.trans closed)
    intro t member
    exact (Turn.sound_iff (harmless t member)).mpr (reported.eq_of_filter_eq same t member)
  · intro sound
    have harmless : ∀ t ∈ batch, ¬ t.Fatal b.listener := fun t member =>
      (sound t member).harmless
    obtain ⟨s', news, done, -, became⟩ := dispatch_spec inv reported harmless
    have same : batch.filter (Turn.closes b.listener) = batch.filter (Turn.drops b.listener) :=
      List.filter_congr fun t member =>
        (Turn.sound_iff (harmless t member)).mp (sound t member)
    rw [same] at became
    exact ⟨s', news, done, became.accepted, became.interest, became.closed⟩

/-! ## Two clients -/

/-- The server in front of its loop. -/
def bootServer : Server := ⟨{0, 1, 2, 3, 4}, {3}, 0, [], []⟩

/-- Clients on 5 and 6 are connected. -/
def twoClients : Server := ⟨{6, 5, 0, 1, 2, 3, 4}, {6, 5, 3}, -1, [5, 6], []⟩

theorem reachable_twoClients : (machine epollBoot).Reachable twoClients := by
  have start : (machine epollBoot).Reachable bootServer := .of_init ⟨0, rfl⟩
  have reported : Batch bootServer [⟨⟨3, true, false, false⟩, [5, 6], 0⟩] := ⟨by decide, by decide⟩
  exact start.tail ⟨_, reported, rfl⟩

/-- The client on 5 closes its connection, the one on 6 sends data. -/
theorem effect_closed :
    Effect 3 twoClients
      [⟨⟨5, true, false, false⟩, [], 0⟩, ⟨⟨6, true, false, false⟩, [], 10⟩]
      (dispatch 3 [⟨⟨5, true, false, false⟩, [], 0⟩, ⟨⟨6, true, false, false⟩, [], 10⟩]
        twoClients) := by
  refine (effect_iff_of_reachable reachable_twoClients ⟨by decide, by decide⟩).mpr ?_
  intro t member
  rcases List.mem_cons.mp member with rfl | member
  · exact nofun
  · rw [List.mem_singleton.mp member]
    exact nofun

/-- The connection of the client on 5 is reset, and the server ends. -/
theorem not_forall_effect :
    ¬ ∀ (b : Boot) (s : Server) (batch : List Turn), (machine b).Reachable s → Batch s batch →
      Effect b.listener s batch (dispatch b.listener batch s) := by
  intro always
  obtain ⟨s', -, done, -⟩ := always epollBoot twoClients
    [⟨⟨5, true, false, false⟩, [], -1⟩, ⟨⟨6, true, false, false⟩, [], 10⟩] reachable_twoClients
    ⟨by decide, by decide⟩
  have ended : dispatch 3 [⟨⟨5, true, false, false⟩, [], -1⟩, ⟨⟨6, true, false, false⟩, [], 10⟩]
    twoClients = none := by decide +kernel
  cases ended.symm.trans done

end Alnp.IoEpoll
