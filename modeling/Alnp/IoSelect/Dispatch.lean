import Alnp.IoSelect.Runs
import Alnp.Lib.Loop

/-!
# A dispatch round of the `select` server

The `for` loop of `main` walks `fd_socket` while `del_socket` moves the last entry into the place of
the one it removes.  The index goes on all the same, so the entry that was moved is not looked at
(the `poll` server takes the loop back with `i--`).

* `ended_of_dispatch`: the loop ends after a prefix of the clients, `Visited` says which.
* `served_iff`: it has served every ready client exactly when none is left out (`NoneSkipped`).
-/

namespace Alnp.IoSelect

/-- The loop with its calls of `recv` so far: the descriptor and the result of each. -/
structure Round where
  state : State
  calls : List (Int × Int)

/-- What the next call of `recv` on `fd` returns, where `recv fd k` is the result of call `k`. -/
def Round.answer (recv : Int → Nat → Int) (fd : Int) (r : Round) : Int :=
  recv fd ((r.calls.map Prod.fst).count fd)

/-- A turn of the `for` loop. -/
def forTurn (recv : Int → Nat → Int) (_ : Unit) (r : Round) : Flow Round :=
  match r.state.pc with
  | .scan i fdsRead =>
      if i < r.state.server.cntFdSocket then
        let fd := (Access.read r.state.server.fdSocket i).value
        let retRecv := r.answer recv fd
        let called := if fdIsset fd fdsRead then [(fd, retRecv)] else []
        .next ⟨scanEntry i fdsRead retRecv r.state, r.calls ++ called⟩
      else .leave ⟨scanEntry i fdsRead 0 r.state, r.calls⟩
  | _ => .leave r

/-- The `for` loop behind `select`, which has left `fdsRead`. -/
def Round.start (s : Server) (fdsRead : FdSet) (used : List Int) : Round :=
  ⟨⟨s, .scan 1 fdsRead, used⟩, []⟩

/-- A table of distinct descriptors whose first one, the listener, is not ready. -/
structure Dispatchable (s : Server) (fdsRead : FdSet) : Prop where
  le : s.cntFdSocket ≤ maxFdSocket
  nodup : s.table.Nodup
  listener : ∃ fd, s.table[0]? = some fd ∧ fdIsset fd fdsRead = false

/-- The entries behind the listener. -/
def Server.clients (s : Server) : List Int :=
  s.table.drop 1

/-- `recv` was called once for each ready client, and the table has lost exactly those for which it
returned 0. -/
structure Served (s : Server) (fdsRead : FdSet) (r : Round) : Prop where
  calls : (r.calls.map Prod.fst).Perm (s.clients.filter fun fd => fdIsset fd fdsRead)
  table : r.state.server.table.Perm (s.table.filter fun fd => fd ∉ hungUp r.calls)

/-- The client is ready, and `recv` returns 0 for it. -/
def closes (fdsRead : FdSet) (recv : Int → Nat → Int) (fd : Int) : Bool :=
  fdIsset fd fdsRead && recv fd 0 == 0

/-- Every ready client has at least as many clients behind it as there are clients in front of it
that close. -/
def NoneSkipped (clients : List Int) (fdsRead : FdSet) (recv : Int → Nat → Int) : Prop :=
  ∀ q fd, clients[q]? = some fd → fdIsset fd fdsRead = true →
    q + (clients.take q).countP (closes fdsRead recv) < clients.length

/-! ## The place the loop is at -/

/-- The place `p` and the clients in front of it that close. -/
def reached (close : Int → Bool) (clients : List Int) (p : Nat) : Nat :=
  p + (clients.take p).countP close

theorem reached_mono (close : Int → Bool) (clients : List Int) {p q : Nat} (le : p ≤ q) :
    reached close clients p ≤ reached close clients q := by
  have less : (clients.take p).countP close ≤ (clients.take q).countP close :=
    (List.take_sublist_take_left le).countP_le
  exact Nat.add_le_add le less

theorem reached_succ {close : Int → Bool} {clients : List Int} {p : Nat} {fd : Int}
    (at' : clients[p]? = some fd) :
    reached close clients (p + 1) = reached close clients p + 1 + if close fd then 1 else 0 := by
  obtain ⟨inside, rfl⟩ := List.getElem?_eq_some_iff.mp at'
  rw [reached, reached, List.take_succ_eq_append_getElem inside, List.countP_append,
    List.countP_singleton]
  omega

/-- The loop has looked at the first `p` clients: at each of them it could get to, and `recv` has
been called for those that were ready. -/
structure Visited (s : Server) (fdsRead : FdSet) (recv : Int → Nat → Int) (p : Nat) (r : Round) :
    Prop where
  got : ∀ q < p, reached (closes fdsRead recv) s.clients q < s.clients.length
  calls : r.calls =
    ((s.clients.take p).filter fun fd => fdIsset fd fdsRead).map fun fd => (fd, recv fd 0)
  table : (r.state.server.table ++ hungUp r.calls).Perm s.table

/-! ## One turn -/

variable {s : Server} {fdsRead : FdSet} {recv : Int → Nat → Int} {r : Round} {p : Nat}

/-- A turn that comes to an entry goes on to the next place and removes the entry if it closes. -/
theorem scanEntry_of_entry {s : State} {i : Nat} {fd : Int}
    (entry : s.server.table[i]? = some fd) (le : s.server.cntFdSocket ≤ maxFdSocket)
    (fdsRead : FdSet) (retRecv : Int) :
    (Access.read s.server.fdSocket i).value = fd ∧
      (scanEntry i fdsRead retRecv s).pc = .scan (i + 1) fdsRead ∧
      (scanEntry i fdsRead retRecv s).server =
        if fdIsset fd fdsRead && retRecv == 0 then (delSocket fd s.server).value.2
        else s.server := by
  have lt : i < s.server.cntFdSocket := by
    have inside := (List.getElem?_eq_some_iff.mp entry).1
    rwa [Server.table, length_live _ le] at inside
  have inside : i < maxFdSocket := Nat.lt_of_lt_of_le lt le
  have read : (Access.read s.server.fdSocket i).value = fd := by
    rw [Server.table, getElem?_live _ lt, Vector.getElem?_eq_getElem inside] at entry
    simpa [inside] using entry
  refine ⟨read, ?_⟩
  unfold scanEntry
  rw [if_pos lt]
  dsimp only
  rw [read]
  cases ready : fdIsset fd fdsRead with
  | false => exact ⟨rfl, rfl⟩
  | true =>
      simp only [↓reduceIte, Bool.true_and, beq_iff_eq]
      by_cases failed : retRecv = -1
      · rw [if_pos failed, if_neg (by omega)]
        exact ⟨rfl, rfl⟩
      · rw [if_neg failed]
        by_cases ended : retRecv = 0
        · rw [if_pos ended, if_pos ended]
          exact ⟨rfl, rfl⟩
        · rw [if_neg ended, if_neg ended]
          exact ⟨rfl, rfl⟩

/-- At the head of a turn: the entries ahead are the clients from place `p` on, less one at the end
for each that has closed. -/
structure Serving (s : Server) (fdsRead : FdSet) (recv : Int → Nat → Int) (p : Nat) (r : Round) :
    Prop extends Visited s fdsRead recv p r where
  pc : r.state.pc = .scan (p + 1) fdsRead
  le : r.state.server.cntFdSocket ≤ maxFdSocket
  ahead : r.state.server.table.drop (p + 1) =
    (s.clients.drop p).take (s.clients.length - reached (closes fdsRead recv) s.clients p)

theorem Serving.start (ok : Dispatchable s fdsRead) (recv : Int → Nat → Int) (used : List Int) :
    Serving s fdsRead recv 0 (.start s fdsRead used) := by
  refine ⟨⟨fun q none => absurd none (Nat.not_lt_zero q), rfl, ?_⟩, rfl, ok.le, ?_⟩
  · exact (List.append_nil s.table).symm ▸ .refl _
  · rw [List.drop_zero, reached, List.take_zero, List.countP_nil, Nat.sub_zero, List.take_length]
    rfl

/-- Where there is an entry ahead, the loop comes to the client at place `p`. -/
theorem Serving.entry (serving : Serving s fdsRead recv p r)
    (lt : p + 1 < r.state.server.cntFdSocket) :
    ∃ fd, r.state.server.table[p + 1]? = some fd ∧ s.clients[p]? = some fd ∧
      reached (closes fdsRead recv) s.clients p < s.clients.length := by
  have inTable : p + 1 < r.state.server.table.length := by
    rwa [Server.table, length_live _ serving.le]
  have ahead := serving.ahead
  rw [List.drop_eq_getElem_cons inTable] at ahead
  have more : 0 < s.clients.length - reached (closes fdsRead recv) s.clients p := by
    by_contra none
    rw [Nat.eq_zero_of_not_pos none, List.take_zero] at ahead
    cases ahead
  have front := congrArg (·[0]?) ahead
  simp only [List.getElem?_cons_zero, List.getElem?_take_of_lt more, List.getElem?_drop,
    Nat.add_zero] at front
  exact ⟨_, List.getElem?_eq_getElem inTable, front.symm, by omega⟩

/-- No call has been made for the client the loop comes to. -/
theorem Visited.answer (visited : Visited s fdsRead recv p r) (distinct : s.table.Nodup)
    {fd : Int} (at' : s.clients[p]? = some fd) : r.answer recv fd = recv fd 0 := by
  obtain ⟨inside, rfl⟩ := List.getElem?_eq_some_iff.mp at'
  have nodup : (s.clients.take (p + 1)).Nodup :=
    distinct.sublist ((List.take_sublist _ _).trans (List.drop_sublist _ _))
  rw [List.take_succ_eq_append_getElem inside] at nodup
  have fresh : s.clients[p] ∉ r.calls.map Prod.fst := by
    intro called
    rw [visited.calls, List.map_map] at called
    obtain ⟨other, member, same⟩ := List.mem_map.mp called
    have front := (List.mem_filter.mp member).1
    exact (List.nodup_append.mp nodup).2.2 other front _ (List.mem_singleton_self _) same
  rw [Round.answer, List.count_eq_zero_of_not_mem fresh]

/-- The calls of a round that has looked at one more client. -/
theorem Visited.calls_succ (visited : Visited s fdsRead recv p r) {fd : Int}
    (at' : s.clients[p]? = some fd) :
    r.calls ++ (if fdIsset fd fdsRead then [(fd, recv fd 0)] else []) =
      ((s.clients.take (p + 1)).filter fun fd => fdIsset fd fdsRead).map
        fun fd => (fd, recv fd 0) := by
  obtain ⟨inside, rfl⟩ := List.getElem?_eq_some_iff.mp at'
  rw [visited.calls, List.take_succ_eq_append_getElem inside, List.filter_append,
    List.map_append, List.filter_singleton]
  cases fdIsset s.clients[p] fdsRead with
  | false => rfl
  | true => rfl

theorem hungUp_of_not_closes {fd : Int} (stays : closes fdsRead recv fd = false)
    (calls : List (Int × Int)) :
    hungUp (calls ++ if fdIsset fd fdsRead then [(fd, recv fd 0)] else []) = hungUp calls := by
  unfold closes at stays
  cases ready : fdIsset fd fdsRead with
  | false => rw [if_neg Bool.false_ne_true, List.append_nil]
  | true =>
      rw [ready, Bool.true_and, beq_eq_false_iff_ne] at stays
      rw [if_pos rfl, hungUp_append, if_neg stays, List.append_nil]

/-- A turn of the loop that comes to an entry. -/
theorem Serving.turn (distinct : s.table.Nodup) (serving : Serving s fdsRead recv p r)
    (lt : p + 1 < r.state.server.cntFdSocket) :
    ∃ t, forTurn recv () r = .next t ∧ Serving s fdsRead recv (p + 1) t ∧
      t.state.server.cntFdSocket ≤ r.state.server.cntFdSocket := by
  obtain ⟨fd, entry, at', more⟩ := serving.entry lt
  obtain ⟨read, pc, server⟩ := scanEntry_of_entry entry serving.le fdsRead (recv fd 0)
  have went : forTurn recv () r = .next ⟨scanEntry (p + 1) fdsRead (recv fd 0) r.state,
      r.calls ++ if fdIsset fd fdsRead then [(fd, recv fd 0)] else []⟩ := by
    unfold forTurn
    rw [serving.pc]
    dsimp only
    rw [if_pos lt, read, serving.answer distinct at']
  have got : ∀ q < p + 1, reached (closes fdsRead recv) s.clients q < s.clients.length := by
    intro q before
    exact (reached_mono _ _ (Nat.le_of_lt_succ before)).trans_lt more
  -- Behind the entry stand the clients that stood behind it.
  have behind : r.state.server.table.drop (p + 1 + 1) = (s.clients.drop (p + 1)).take
      (s.clients.length - reached (closes fdsRead recv) s.clients p - 1) := by
    rw [← List.drop_drop, serving.ahead, ← List.drop_drop, List.drop_take]
  change _ = ite (closes fdsRead recv fd = true) _ _ at server
  refine ⟨_, went, ?_⟩
  cases gone : closes fdsRead recv fd with
  | true =>
      obtain ⟨ready, zero⟩ := Bool.and_eq_true_iff.mp gone
      have ended : recv fd 0 = 0 := eq_of_beq zero
      obtain ⟨j, -, deleted⟩ := delSocket_of_mem serving.le (List.mem_of_getElem? entry)
      have same : j = p + 1 := by
        have here := (getElem?_live _ deleted.lt).trans deleted.entry
        have nodup : r.state.server.table.Nodup :=
          (List.nodup_append.mp (serving.table.nodup_iff.mpr distinct)).1
        have inside := (List.getElem?_eq_some_iff.mp here).1
        exact (List.getElem?_inj inside nodup).mp (here.trans entry.symm)
      subst same
      rw [if_pos gone] at server
      rw [← server] at deleted
      refine ⟨⟨⟨got, serving.calls_succ at', ?_⟩, pc, ?_, ?_⟩, ?_⟩
      · dsimp only
        rw [deleted.table, if_pos ready, ended]
        exact perm_swapRemove_hungUp entry serving.table
      · rw [deleted.cntFdSocket]
        exact (Nat.sub_le _ _).trans serving.le
      · dsimp only
        rw [deleted.table, drop_succ_swapRemove (List.getElem?_eq_some_iff.mp entry).1, behind,
          reached_succ at', if_pos gone, List.dropLast_eq_take, List.take_take,
          List.length_take, List.length_drop]
        have here : p ≤ reached (closes fdsRead recv) s.clients p := Nat.le_add_right _ _
        congr 1
        omega
      · rw [deleted.cntFdSocket]
        exact Nat.sub_le _ _
  | false =>
      rw [if_neg (Bool.eq_false_iff.mp gone)] at server
      refine ⟨⟨⟨got, serving.calls_succ at', ?_⟩, pc, ?_, ?_⟩, ?_⟩
      · rw [hungUp_of_not_closes gone]
        dsimp only
        rw [server]
        exact serving.table
      · rw [server]
        exact serving.le
      · dsimp only
        rw [server, behind, reached_succ at', gone, if_neg Bool.false_ne_true]
        rfl
      · rw [server]

/-! ## The round -/

/-- The loop ends when it has looked at the first `p` clients, as many as it could get to. -/
theorem ended_of_dispatch (ok : Dispatchable s fdsRead) (recv : Int → Nat → Int)
    (used : List Int) :
    Loop.Ends (forTurn recv) (fun r => ∃ p, Visited s fdsRead recv p r ∧
      s.clients.length ≤ reached (closes fdsRead recv) s.clients p)
      (.start s fdsRead used) := by
  let invariant : Round → Prop := fun r => ∃ p, Serving s fdsRead recv p r
  let entries : Round → Nat := fun r =>
    match r.state.pc with
    | .scan i _ => r.state.server.cntFdSocket - i
    | _ => 0
  refine Loop.ends_of_measure (I := invariant) entries ?_ ⟨0, .start ok recv used⟩
  rintro ⟨⟩ r ⟨p, serving⟩
  rcases Nat.lt_or_ge (p + 1) r.state.server.cntFdSocket with lt | past
  · obtain ⟨t, went, kept, fewer⟩ := serving.turn ok.nodup lt
    refine .inr ⟨t, went, ⟨p + 1, kept⟩, ?_⟩
    simp only [entries, serving.pc, kept.pc]
    omega
  · unfold forTurn
    rw [serving.pc]
    dsimp only
    rw [if_neg (Nat.not_lt.mpr past)]
    refine .inl ⟨_, rfl, p, ⟨serving.got, serving.calls, ?_⟩, ?_⟩
    · dsimp only
      rw [scanEntry, if_neg (Nat.not_lt.mpr past)]
      exact serving.table
    · have ahead := congrArg List.length serving.ahead
      rw [List.length_drop, Server.table, length_live _ serving.le, List.length_take,
        List.length_drop] at ahead
      have here : p ≤ reached (closes fdsRead recv) s.clients p := Nat.le_add_right _ _
      omega

/-- A round that has looked at the first `p` clients has served every ready one exactly when no
client from place `p` on is ready. -/
theorem Visited.served_iff (visited : Visited s fdsRead recv p r) (distinct : s.table.Nodup) :
    Served s fdsRead r ↔ ∀ fd ∈ s.clients.drop p, fdIsset fd fdsRead = false := by
  have called : r.calls.map Prod.fst = (s.clients.take p).filter fun fd => fdIsset fd fdsRead := by
    rw [visited.calls, List.map_map]
    exact List.map_id _
  have parts : (s.clients.filter fun fd => fdIsset fd fdsRead) =
      r.calls.map Prod.fst ++ (s.clients.drop p).filter fun fd => fdIsset fd fdsRead := by
    rw [called, ← List.filter_append, List.take_append_drop]
  constructor
  · intro served fd member
    have lengths := served.calls.length_eq
    rw [parts, List.length_append] at lengths
    have none := List.eq_nil_of_length_eq_zero (Nat.left_eq_add.mp lengths)
    exact Bool.eq_false_iff.mpr (List.filter_eq_nil_iff.mp none fd member)
  · intro silent
    refine ⟨?_, perm_filter_hungUp distinct visited.table⟩
    rw [parts, List.filter_eq_nil_iff.mpr fun fd member => Bool.eq_false_iff.mp (silent fd member),
      List.append_nil]

/-- No ready client is among those the loop does not get to exactly when `NoneSkipped`. -/
theorem Visited.noneSkipped_iff (visited : Visited s fdsRead recv p r)
    (ended : s.clients.length ≤ reached (closes fdsRead recv) s.clients p) :
    NoneSkipped s.clients fdsRead recv ↔
      ∀ fd ∈ s.clients.drop p, fdIsset fd fdsRead = false := by
  constructor
  · intro none fd member
    obtain ⟨k, at'⟩ := List.mem_iff_getElem?.mp member
    rw [List.getElem?_drop] at at'
    refine Bool.eq_false_iff.mpr fun ready => ?_
    have got := none (p + k) fd at' ready
    have further := reached_mono (closes fdsRead recv) s.clients (Nat.le_add_right p k)
    exact absurd got (Nat.not_lt.mpr (ended.trans further))
  · intro silent q fd at' ready
    rcases Nat.lt_or_ge q p with before | behind
    · exact visited.got q before
    · have member : fd ∈ s.clients.drop p := by
        refine List.mem_of_getElem? (i := q - p) ?_
        rw [List.getElem?_drop, Nat.add_sub_of_le behind]
        exact at'
      exact absurd ready (Bool.eq_false_iff.mp (silent fd member))

theorem noneSkipped_of_served (ok : Dispatchable s fdsRead) {used : List Int}
    (served : Loop.Ends (forTurn recv) (Served s fdsRead) (.start s fdsRead used)) :
    NoneSkipped s.clients fdsRead recv := by
  obtain ⟨r, ⟨p, visited, past⟩, round⟩ := ((ended_of_dispatch ok recv used).and served).exists
  exact (visited.noneSkipped_iff past).mpr ((visited.served_iff ok.nodup).mp round)

/-- **A dispatch round.**  The loop ends, and it has served every ready client exactly once if and
only if no ready client has fewer clients behind it than there are clients in front of it that
close. -/
theorem served_iff_noneSkipped (ok : Dispatchable s fdsRead) (recv : Int → Nat → Int)
    (used : List Int) :
    Loop.Ends (forTurn recv) (Served s fdsRead) (.start s fdsRead used) ↔
      NoneSkipped s.clients fdsRead recv := by
  refine ⟨noneSkipped_of_served ok, fun none => ?_⟩
  refine (ended_of_dispatch ok recv used).mono fun r round => ?_
  obtain ⟨p, visited, past⟩ := round
  exact (visited.served_iff ok.nodup).mpr ((visited.noneSkipped_iff past).mp none)

/-- Two clients, both of them ready. -/
def busyServer : Server where
  fdSocket := Vector.ofFn fun i => match i.val with
    | 0 => 3
    | 1 => 4
    | 2 => 5
    | _ => -1
  cntFdSocket := 3
  sockets := ⟨{0, 1, 2, 3}, {4, 5}⟩

def busySet : FdSet := fdSet 5 (fdSet 4 fdZero)

theorem clients_busyServer : busyServer.clients = [4, 5] := by decide +kernel

theorem isset_busySet (fd : Int) : fdIsset fd busySet = true ↔ fd = 5 ∨ fd = 4 := by
  have five : InFdSet 5 := ⟨by decide, by decide⟩
  have four : InFdSet 4 := ⟨by decide, by decide⟩
  simp [busySet, fdIsset_fdSet, fdIsset_fdZero, five, four]

theorem dispatchable_busyServer : Dispatchable busyServer busySet := by
  refine ⟨by decide, by decide +kernel, 3, by decide +kernel, ?_⟩
  exact Bool.eq_false_iff.mpr fun ready => by
    have := (isset_busySet 3).mp ready
    omega

/-- Neither closes: the second has as many clients behind it as there are closing ones in front. -/
theorem served_iff_busyServer :
    Loop.Ends (forTurn fun _ _ => 10) (Served busyServer busySet) (.start busyServer busySet []) ↔
      NoneSkipped busyServer.clients busySet fun _ _ => 10 :=
  served_iff_noneSkipped dispatchable_busyServer _ []

/-- The first client closes; the second one moves into its place behind the loop's back, and its
data is not read in this round. -/
theorem not_forall_served :
    ¬ ∀ (s : Server) (fdsRead : FdSet) (recv : Int → Nat → Int) (used : List Int),
      Dispatchable s fdsRead →
        Loop.Ends (forTurn recv) (Served s fdsRead) (.start s fdsRead used) := by
  intro always
  let recv : Int → Nat → Int := fun fd _ => if fd = 4 then 0 else 10
  have none := noneSkipped_of_served dispatchable_busyServer
    (always busyServer busySet recv [] dispatchable_busyServer)
  have ready : fdIsset 4 busySet = true := (isset_busySet 4).mpr (.inr rfl)
  rw [clients_busyServer] at none
  have room := none 1 5 rfl ((isset_busySet 5).mpr (.inl rfl))
  simp [closes, ready, recv] at room

/-! ## In whole runs -/

/-- Every round that a run of the server comes to is of this kind. -/
theorem dispatchable_of_reachable {alloc : Finset Int → Int → Prop} {b : Boot} {s : State}
    (allocFresh : ∀ opened fd, alloc opened fd → Fresh opened fd)
    (reached : (machine alloc b).Reachable s) {fdsRead : FdSet}
    (silent : fdIsset b.listener fdsRead = false) : Dispatchable s.server fdsRead := by
  have ok := (reachable_inv allocFresh reached).consistent
  exact ⟨ok.le, ok.tracks.nodup, b.listener, ok.tracks.head, silent⟩

end Alnp.IoSelect
