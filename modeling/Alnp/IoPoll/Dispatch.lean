import Alnp.IoPoll.Runs
import Alnp.Lib.Loop

/-!
# A dispatch round of the `poll` server

The `for` loop of `main` walks `pollfds` while `del_socket` moves the last entry into the place of
the one it removes; `i--` takes the loop back to that place, and `ret_poll` ends it early.

`served_of_dispatch`: whatever the entries report and `recv` returns, the loop ends and has called
`recv` exactly once for each client that reports `POLLIN`; those whose `recv` returned 0 are gone
and no others.
-/

namespace Alnp.IoPoll

/-- The loop with its calls of `recv` so far: the descriptor and the result of each. -/
structure Round where
  state : State
  calls : List (Int × Int)

/-- The call of `recv` in a turn of the scan, if there is one. -/
def recvCall (i ret retRecv : Int) (s : State) : List (Int × Int) :=
  let entry := Access.read s.server.pollfds i
  if (i < s.server.cntFdSocket ∧ ret > 0) ∧ entry.value.reports pollIn then
    [(entry.value.fd, retRecv)]
  else []

/-- A turn of the `for` loop, with `recv` returning `retRecv` where it is called. -/
def forTurn (retRecv : Int) (r : Round) : Flow Round :=
  match r.state.pc with
  | .scan i ret =>
      if i < r.state.server.cntFdSocket ∧ ret > 0 then
        .next ⟨scanEntry i ret retRecv r.state, r.calls ++ recvCall i ret retRecv r.state⟩
      else .leave ⟨scanEntry i ret retRecv r.state, r.calls⟩
  | _ => .leave r

/-- The `for` loop behind `poll`, which has found something for `ret_poll` entries. -/
def Round.start (s : Server) (used recvs : List Int) (vacated : List Pollfd) : Round :=
  ⟨⟨s, .scan 1 (retPoll s), used, recvs, vacated⟩, []⟩

/-- A table of distinct descriptors whose first one, the listener, does not report `POLLIN`. -/
structure Dispatchable (s : Server) : Prop where
  le : s.cntFdSocket ≤ maxFdSocket
  nodup : s.fds.Nodup
  listener : ∃ e, s.table[0]? = some e ∧ e.reports pollIn = false

/-- The descriptors of the entries from `i` on that report `POLLIN`. -/
def readyFrom (i : Nat) (s : Server) : List Int :=
  ((s.table.drop i).filter fun e => e.reports pollIn).map Pollfd.fd

/-- The number of entries from `i` on with something found for them. -/
def foundFrom (i : Nat) (s : Server) : Nat :=
  ((s.table.drop i).filter fun e => e.revents != 0).length

/-- `recv` was called once for each client that reports `POLLIN`, and the table has lost exactly
those for which it returned 0. -/
structure Served (s : Server) (r : Round) : Prop where
  calls : (r.calls.map Prod.fst).Perm (readyFrom 1 s)
  fds : r.state.server.fds.Perm (s.fds.filter fun fd => fd ∉ hungUp r.calls)
  listener : r.state.server.fds[0]? = s.fds[0]?
  cntFdSocket : r.state.server.cntFdSocket + (hungUp r.calls).length = s.cntFdSocket

/-! ## One turn -/

variable {s : Server} {r : Round} {i : Nat} {ret : Int}

theorem length_table (le : s.cntFdSocket ≤ maxFdSocket) : s.table.length = s.cntFdSocket :=
  length_live _ le

/-- An entry that reports something has non-zero `revents`. -/
theorem Pollfd.revents_ne_zero {e : Pollfd} {flag : BitVec 16} (reports : e.reports flag = true) :
    e.revents ≠ 0 := by
  intro zero
  simp [Pollfd.reports, zero] at reports

/-- What a turn of the scan does with the entry it comes to. -/
inductive Scanned (e : Pollfd) (i : Nat) (ret retRecv : Int) (s : State) (t : State) : Prop
  /-- The client has closed its connection and is removed; `i--` and `i++` follow. -/
  | removed : e.reports pollIn = true → retRecv = 0 →
      t.server = (delSocket e.fd s.server).value.2 → t.pc = .scan i (ret - 1) →
      Scanned e i ret retRecv s t
  | read : e.reports pollIn = true → retRecv ≠ 0 → t.server = s.server →
      t.pc = .scan (i + 1 : Nat) (ret - 1) → Scanned e i ret retRecv s t
  /-- `ret_poll` is lowered for some of the entries that report something else. -/
  | passed (ret' : Int) : e.reports pollIn = false → t.server = s.server →
      t.pc = .scan (i + 1 : Nat) ret' → ret' = ret ∨ ret' = ret - 1 ∧ e.revents ≠ 0 →
      Scanned e i ret retRecv s t

theorem scanned_scanEntry {s : State} (le : s.server.cntFdSocket ≤ maxFdSocket)
    (lt : i < s.server.cntFdSocket) (more : ret > 0) (retRecv : Int) :
    ∃ e, s.server.table[i]? = some e ∧ Scanned e i ret retRecv s (scanEntry i ret retRecv s) ∧
      recvCall i ret retRecv s = if e.reports pollIn then [(e.fd, retRecv)] else [] := by
  have inside : i < maxFdSocket := Nat.lt_of_lt_of_le lt le
  have serving : (i : Int) < s.server.cntFdSocket ∧ ret > 0 := ⟨by omega, more⟩
  have entry : (Access.read s.server.pollfds i).value = s.server.pollfds[i] := by
    simp [inside]
  refine ⟨s.server.pollfds[i], ?_, ?_, ?_⟩
  · rw [Server.table, getElem?_live _ lt, Vector.getElem?_eq_getElem inside]
  · unfold scanEntry
    rw [if_pos serving]
    dsimp only
    rw [entry]
    cases ready : s.server.pollfds[i].reports pollIn with
    | true =>
        simp only [↓reduceIte]
        by_cases failed : retRecv = -1
        · rw [if_pos failed]
          exact .read ready (by omega) rfl rfl
        · rw [if_neg failed]
          by_cases ended : retRecv = 0
          · rw [if_pos ended]
            refine .removed ready ended rfl ?_
            rw [Int.sub_add_cancel]
          · rw [if_neg ended]
            exact .read ready ended rfl rfl
    | false =>
        simp only [Bool.false_eq_true, ↓reduceIte]
        split
        · rename_i error
          exact .passed (ret - 1) ready rfl rfl (.inr ⟨rfl, Pollfd.revents_ne_zero error⟩)
        · split
          · rename_i invalid
            exact .passed (ret - 1) ready rfl rfl (.inr ⟨rfl, Pollfd.revents_ne_zero invalid⟩)
          · exact .passed ret ready rfl rfl (.inl rfl)
  · simp only [recvCall, entry, serving, and_self, true_and]

/-! ## The loop -/

/-- The entries ahead begin with the one the loop is at. -/
theorem drop_table {e : Pollfd} (at' : s.table[i]? = some e) :
    s.table.drop i = e :: s.table.drop (i + 1) := by
  obtain ⟨lt, rfl⟩ := List.getElem?_eq_some_iff.mp at'
  exact List.drop_eq_getElem_cons lt

theorem readyFrom_eq {e : Pollfd} (at' : s.table[i]? = some e) :
    readyFrom i s = (if e.reports pollIn then [e.fd] else []) ++ readyFrom (i + 1) s := by
  rw [readyFrom, drop_table at', List.filter_cons]
  split <;> rfl

theorem foundFrom_eq {e : Pollfd} (at' : s.table[i]? = some e) :
    foundFrom i s = (if e.revents = 0 then 0 else 1) + foundFrom (i + 1) s := by
  rw [foundFrom, drop_table at', List.filter_cons]
  by_cases zero : e.revents = 0
  · rw [if_pos zero, if_neg (by simp [zero]), Nat.zero_add, foundFrom]
  · rw [if_neg zero, if_pos (bne_iff_ne.mpr zero), List.length_cons, Nat.add_comm, foundFrom]

/-- At the head of a turn: the calls made and those to come are those of the ready clients, the
descriptors left and those hung up are those of the table, and `ret_poll` is not less than the
number of entries ahead that report something. -/
structure Serving (s : Server) (i : Nat) (ret : Int) (r : Round) : Prop where
  pc : r.state.pc = .scan i ret
  first : 1 ≤ i
  le : r.state.server.cntFdSocket ≤ maxFdSocket
  calls : (r.calls.map Prod.fst ++ readyFrom i r.state.server).Perm (readyFrom 1 s)
  fds : (r.state.server.fds ++ hungUp r.calls).Perm s.fds
  listener : r.state.server.fds[0]? = s.fds[0]?
  ahead : foundFrom i r.state.server ≤ ret

theorem Serving.start (ok : Dispatchable s) (used recvs : List Int) (vacated : List Pollfd) :
    Serving s 1 (retPoll s) (.start s used recvs vacated) := by
  refine ⟨rfl, Nat.le_refl 1, ok.le, .refl _, ?_, rfl, ?_⟩
  · exact (List.append_nil s.fds).symm ▸ .refl _
  · have less : foundFrom 1 s ≤ retPoll s := ((List.drop_sublist 1 s.table).filter _).length_le
    exact Int.ofNat_le.mpr less

/-- A turn of the loop that comes to an entry. -/
theorem Serving.turn (distinct : s.fds.Nodup) (serving : Serving s i ret r)
    (lt : i < r.state.server.cntFdSocket) (more : ret > 0) (retRecv : Int) :
    ∃ i' ret', Serving s i' ret'
        ⟨scanEntry i ret retRecv r.state, r.calls ++ recvCall i ret retRecv r.state⟩ ∧
      (scanEntry i ret retRecv r.state).server.cntFdSocket - i' <
        r.state.server.cntFdSocket - i := by
  obtain ⟨pc, first, le, calls, fds, listener, ahead⟩ := serving
  obtain ⟨e, at', scanned, call⟩ := scanned_scanEntry le lt more retRecv
  have fdAt : r.state.server.fds[i]? = some e.fd := by
    rw [Server.fds, List.getElem?_map, at']
    rfl
  rw [readyFrom_eq at'] at calls
  rw [foundFrom_eq at'] at ahead
  rw [call]
  cases scanned with
  | removed ready ended server pc' =>
      -- The place now holds an entry from behind, so the same entries are ahead as behind it.
      obtain ⟨j, -, deleted⟩ := delSocket_of_mem le (List.mem_of_getElem? fdAt)
      have nodup : r.state.server.fds.Nodup :=
        (List.nodup_append.mp (fds.nodup_iff.mpr distinct)).1
      have same : j = i := by
        have here := List.getElem?_eq_some_iff.mp deleted.entry
        exact (List.getElem?_inj here.1 nodup).mp (deleted.entry.trans fdAt.symm)
      subst same
      rw [← server] at deleted
      have inTable : j < r.state.server.table.length := by rwa [length_table le]
      have left := drop_swapRemove_perm inTable
      rw [← deleted.table] at left
      rw [if_pos ready] at calls
      rw [if_neg (Pollfd.revents_ne_zero ready)] at ahead
      rw [if_pos ready]
      refine ⟨j, ret - 1, ⟨pc', first, ?_, ?_, ?_, ?_, ?_⟩, ?_⟩
      · rw [deleted.cntFdSocket]
        omega
      · rw [List.map_append, List.append_assoc]
        refine .trans (.append_left _ (.append_left _ ?_)) calls
        exact (left.filter _).map _
      · rw [Server.fds, deleted.table, map_swapRemove, ended]
        exact perm_swapRemove_hungUp fdAt fds
      · have front : (scanEntry j ret retRecv r.state).server.fds[0]? =
            r.state.server.fds[0]? := by
          rw [Server.fds, Server.fds, deleted.table, List.getElem?_map, List.getElem?_map,
            getElem?_swapRemove_of_lt first inTable]
        exact front.trans listener
      · have counted : foundFrom j (scanEntry j ret retRecv r.state).server =
            foundFrom (j + 1) r.state.server := (left.filter _).length_eq
        dsimp only
        rw [counted]
        omega
      · rw [deleted.cntFdSocket]
        omega
  | read ready goes server pc' =>
      rw [if_pos ready] at calls
      rw [if_neg (Pollfd.revents_ne_zero ready)] at ahead
      rw [if_pos ready]
      refine ⟨i + 1, ret - 1, ⟨pc', Nat.le_succ_of_le first, server ▸ le, ?_, ?_, ?_, ?_⟩, ?_⟩
      · rw [List.map_append, List.append_assoc, server]
        exact calls
      · rw [hungUp_append, if_neg goes, List.append_nil, server]
        exact fds
      · exact server ▸ listener
      · dsimp only
        rw [server]
        omega
      · rw [server]
        omega
  | passed ret' silent server pc' fewer =>
      rw [if_neg (Bool.eq_false_iff.mp silent)] at calls
      rw [if_neg (Bool.eq_false_iff.mp silent), List.append_nil]
      refine ⟨i + 1, ret', ⟨pc', Nat.le_succ_of_le first, server ▸ le, ?_, ?_, ?_, ?_⟩, ?_⟩
      · rw [server]
        exact calls
      · rw [server]
        exact fds
      · exact server ▸ listener
      · dsimp only
        rw [server]
        rcases fewer with same | ⟨less, nonzero⟩
        · rw [same]
          omega
        · rw [if_neg nonzero] at ahead
          omega
      · rw [server]
        omega

/-- Where the loop ends, no entry ahead reports `POLLIN`. -/
theorem Serving.served (ok : Dispatchable s) (serving : Serving s i ret r)
    (past : ¬ ((i : Int) < r.state.server.cntFdSocket ∧ ret > 0)) (state : State)
    (server : state.server = r.state.server) : Served s ⟨state, r.calls⟩ := by
  have none : readyFrom i r.state.server = [] := by
    rw [readyFrom, List.map_eq_nil_iff, List.filter_eq_nil_iff]
    intro e member ready
    have behind : i < r.state.server.table.length := by
      by_contra past
      rw [List.drop_eq_nil_of_le (Nat.not_lt.mp past)] at member
      cases member
    rw [length_table serving.le] at behind
    have some : 0 < foundFrom i r.state.server := by
      refine List.length_pos_of_mem (a := e) (List.mem_filter.mpr ⟨member, ?_⟩)
      exact bne_iff_ne.mpr (Pollfd.revents_ne_zero ready)
    have ahead := serving.ahead
    omega
  have lengths := serving.fds.length_eq
  rw [List.length_append, Server.fds, Server.fds, List.length_map, List.length_map,
    length_table serving.le] at lengths
  refine ⟨?_, ?_, ?_, ?_⟩
  · have calls := serving.calls
    rwa [none, List.append_nil] at calls
  · rw [server]
    exact perm_filter_hungUp ok.nodup serving.fds
  · rw [server]
    exact serving.listener
  · rw [server]
    exact lengths.trans (length_table ok.le)

/-- **A dispatch round.**  Whatever `recv` returns, the loop ends and has served every ready client
exactly once. -/
theorem served_of_dispatch (ok : Dispatchable s) (used recvs : List Int) (vacated : List Pollfd) :
    Loop.Ends forTurn (Served s) (.start s used recvs vacated) := by
  let invariant : Round → Prop := fun r => ∃ i ret, Serving s i ret r
  let entries : Round → Nat := fun r =>
    match r.state.pc with
    | .scan i _ => r.state.server.cntFdSocket - i.toNat
    | _ => 0
  refine Loop.ends_of_measure (I := invariant) entries ?_ ⟨1, _, .start ok used recvs vacated⟩
  rintro retRecv r ⟨i, ret, serving⟩
  unfold forTurn
  rw [serving.pc]
  dsimp only
  split
  · next on =>
      obtain ⟨i', ret', kept, less⟩ := serving.turn ok.nodup (by omega) on.2 retRecv
      have pc : (scanEntry i ret retRecv r.state).pc = .scan i' ret' := kept.pc
      refine .inr ⟨_, rfl, ⟨i', ret', kept⟩, ?_⟩
      simp only [entries, serving.pc, pc, Int.toNat_natCast]
      exact less
  · next past =>
      refine .inl ⟨_, rfl, serving.served ok past _ ?_⟩
      rw [scanEntry, if_neg past]

/-- Three clients: the first is at end of stream, the second has an error pending, and the third,
which moves into the place of the first, has data. -/
def busyServer : Server where
  pollfds := Vector.ofFn fun i => match i.val with
    | 0 => ⟨3, pollIn, 0⟩
    | 1 => ⟨4, pollIn, pollIn⟩
    | 2 => ⟨5, pollIn, pollErr⟩
    | 3 => ⟨6, pollIn, pollIn⟩
    | _ => default
  cntFdSocket := 4
  sockets := ⟨{0, 1, 2, 3}, {4, 5, 6}⟩

theorem served_busyServer :
    Loop.Ends forTurn (Served busyServer) (.start busyServer [] [] []) :=
  served_of_dispatch ⟨by decide, by decide +kernel,
    ⟨⟨3, pollIn, 0⟩, by decide +kernel, by decide⟩⟩ [] [] []

/-! ## In whole runs -/

/-- Every round that a run of the server comes to is of this kind. -/
theorem dispatchable_of_reachable {b : Boot} {s : State} (reached : (machine b).Reachable s)
    {revents : Nat → BitVec 16} (silent : revents 0 &&& pollIn = 0) :
    Dispatchable (poll revents s.server) := by
  have ok := (reachable_inv reached).consistent
  have pos : 0 < s.server.cntFdSocket := ok.pos
  have polled := ok.poll revents
  have inside : 0 < maxFdSocket := by decide
  refine ⟨polled.le, polled.tracks.nodup, ?_⟩
  refine ⟨(poll revents s.server).pollfds[0], ?_, ?_⟩
  · rw [Server.table, getElem?_live _ polled.pos, Vector.getElem?_eq_getElem inside]
  · simpa [poll, Pollfd.reports, pos] using silent

end Alnp.IoPoll
