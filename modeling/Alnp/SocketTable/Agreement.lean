import Alnp.IoSelect.Table
import Alnp.IoPoll.Table

/-!
# One socket table, written twice

`add_socket` and `del_socket` of `Chapter07/io_select.c` and `Chapter07/io_poll.c`.  What both are
for is a list of at most `MAX_FD_SOCKET` descriptors that grows at its end and from which an entry
goes by the last one taking its place: `Call.onList`.  Each program's functions refine it
(`select_refines`, `poll_refines`), so that after any calls the two tables agree.
-/

namespace Alnp.SocketTable

open IoPoll (Pollfd)

/-- The size of both arrays. -/
def maxFdSocket : Nat := 0xFF

/-- A call of one of the table functions. -/
inductive Call
  | add (fd : Int)
  | del (fd : Int)
  deriving DecidableEq, Repr

/-! ## The list both tables keep -/

def append (fd : Int) (l : List Int) : Int × List Int :=
  if l.length < maxFdSocket then (l.length + 1, l ++ [fd]) else (-1, l)

def remove (fd : Int) (l : List Int) : Int × List Int :=
  match l.findIdx? (· == fd) with
  | none => (-1, l)
  | some i => (i, swapRemove l i)

/-- What a call returns and what it does to the list of descriptors. -/
def Call.onList : Call → List Int → Int × List Int
  | .add fd, l => append fd l
  | .del fd, l => remove fd l

variable {l : List Int} {c : Call} {fd : Int}

theorem append_of_lt (room : l.length < maxFdSocket) :
    append fd l = ((l.length : Int) + 1, l ++ [fd]) :=
  if_pos room

theorem append_of_le (full : maxFdSocket ≤ l.length) : append fd l = (-1, l) :=
  if_neg (Nat.not_lt.mpr full)

theorem remove_of_not_mem (absent : fd ∉ l) : remove fd l = (-1, l) := by
  have none : l.findIdx? (· == fd) = none := by
    rw [List.findIdx?_eq_none_iff]
    intro x member
    simpa using fun same : x = fd => absent (same ▸ member)
  rw [remove, none]

theorem remove_of_mem (present : fd ∈ l) :
    ∃ i, ∃ lt : i < l.length, l[i] = fd ∧ remove fd l = ((i : Int), swapRemove l i) := by
  cases found : l.findIdx? (· == fd) with
  | none =>
      have other := List.findIdx?_eq_none_iff.mp found fd present
      simp at other
  | some i =>
      obtain ⟨lt, hit, -⟩ := List.findIdx?_eq_some_iff_getElem.mp found
      exact ⟨i, lt, by simpa using hit, by rw [remove, found]⟩

theorem length_swapRemove {i : Nat} (lt : i < l.length) :
    (swapRemove l i).length = l.length - 1 := by
  have shorter := (cons_swapRemove_perm lt).length_eq
  rw [List.length_cons] at shorter
  omega

/-- The list never grows past the arrays. -/
theorem length_onList_le (le : l.length ≤ maxFdSocket) :
    (c.onList l).2.length ≤ maxFdSocket := by
  cases c with
  | add fd =>
      rcases Nat.lt_or_ge l.length maxFdSocket with room | full
      · simp only [Call.onList, append_of_lt room, List.length_append, List.length_singleton]
        exact room
      · simpa [Call.onList, append_of_le full] using le
  | del fd =>
      by_cases present : fd ∈ l
      · obtain ⟨i, lt, -, removed⟩ := remove_of_mem present
        simp only [Call.onList, removed, length_swapRemove lt]
        omega
      · simpa [Call.onList, remove_of_not_mem present] using le

/-! ## Programs that keep it -/

/-- A program's table functions on its state `σ`, with its count and the descriptors in use. -/
structure Table (σ : Type) where
  call : Call → σ → Int × σ
  count : σ → Nat
  entries : σ → List Int

namespace Table

variable {σ : Type} (t : Table σ)

/-- The state after some calls. -/
def run (calls : List Call) (s : σ) : σ :=
  calls.foldl (fun s c => (t.call c s).2) s

/-- The state `s` keeps the list `l`. -/
structure Keeps (l : List Int) (s : σ) : Prop where
  le : l.length ≤ maxFdSocket
  count : t.count s = l.length
  entries : t.entries s = l

/-- Every call does to the table what it does to the list. -/
def Refines : Prop :=
  ∀ ⦃l s⦄, t.Keeps l s → ∀ c,
    (t.call c s).1 = (c.onList l).1 ∧ t.Keeps (c.onList l).2 (t.call c s).2

variable {t}

theorem Refines.run (refines : t.Refines) (calls : List Call) :
    ∀ {l : List Int} {s : σ}, t.Keeps l s →
      t.Keeps (calls.foldl (fun l c => (c.onList l).2) l) (t.run calls s) := by
  induction calls with
  | nil =>
      intro l s keeps
      exact keeps
  | cons c calls ih =>
      intro l s keeps
      exact ih (refines keeps c).2

/-- What a table has to do at room, at a full table, for a descriptor it has and for another. -/
structure Correct (t : Table σ) : Prop where
  addRoom : ∀ s fd, t.count s < maxFdSocket →
    (t.call (.add fd) s).1 = t.count s + 1 ∧
      t.count (t.call (.add fd) s).2 = t.count s + 1 ∧
      t.entries (t.call (.add fd) s).2 = t.entries s ++ [fd]
  addFull : ∀ s fd, maxFdSocket ≤ t.count s → t.call (.add fd) s = (-1, s)
  /-- `del_socket` returns the first place of the descriptor. -/
  delPlace : ∀ s fd, t.count s ≤ maxFdSocket →
    (t.call (.del fd) s).1 = (remove fd (t.entries s)).1
  delPresent : ∀ s fd, t.count s ≤ maxFdSocket → fd ∈ t.entries s →
    ∃ i : Nat, (t.call (.del fd) s).1 = i ∧ t.count (t.call (.del fd) s).2 = t.count s - 1 ∧
      t.entries (t.call (.del fd) s).2 = swapRemove (t.entries s) i
  delAbsent : ∀ s fd, t.count s ≤ maxFdSocket → fd ∉ t.entries s →
    t.count (t.call (.del fd) s).2 = t.count s ∧ t.entries (t.call (.del fd) s).2 = t.entries s

theorem Correct.refines (correct : t.Correct) : t.Refines := by
  intro l s keeps c
  obtain ⟨le, count, rfl⟩ := keeps
  have bound : t.count s ≤ maxFdSocket := Nat.le_trans (Nat.le_of_eq count) le
  cases c with
  | add fd =>
      rcases Nat.lt_or_ge (t.entries s).length maxFdSocket with room | full
      · obtain ⟨returned, counted, entries⟩ := correct.addRoom s fd (by omega)
        refine ⟨?_, length_onList_le le, ?_, ?_⟩
        · simpa [Call.onList, append_of_lt room, count] using returned
        · simpa [Call.onList, append_of_lt room, count] using counted
        · simpa [Call.onList, append_of_lt room] using entries
      · rw [correct.addFull s fd (by omega), Call.onList, append_of_le full]
        exact ⟨rfl, le, count, rfl⟩
  | del fd =>
      have returned := correct.delPlace s fd bound
      by_cases present : fd ∈ t.entries s
      · obtain ⟨i, lt, -, removed⟩ := remove_of_mem present
        obtain ⟨j, place, counted, entries⟩ := correct.delPresent s fd bound present
        rw [removed] at returned
        have same : j = i := Int.ofNat.inj (place.symm.trans returned)
        subst same
        refine ⟨?_, length_onList_le le, ?_, ?_⟩
        · rw [returned, Call.onList, removed]
        · rw [counted, Call.onList, removed, length_swapRemove lt, count]
        · rw [entries, Call.onList, removed]
      · obtain ⟨counted, entries⟩ := correct.delAbsent s fd bound present
        have removed := remove_of_not_mem present
        refine ⟨returned, length_onList_le le, ?_, ?_⟩
        · rw [counted, Call.onList, removed, count]
        · rw [entries, Call.onList, removed]

end Table

/-! ## The two programs -/

/-- `add_socket` and `del_socket` of `io_select.c`. -/
def select : Table IoSelect.Server where
  call
    | .add fd, s => (IoSelect.addSocket fd s).value
    | .del fd, s => (IoSelect.delSocket fd s).value
  count s := s.cntFdSocket
  entries s := s.table

/-- `add_socket` and `del_socket` of `io_poll.c`. -/
def poll : Table IoPoll.Server where
  call
    | .add fd, s => (IoPoll.addSocket fd s).value
    | .del fd, s => (IoPoll.delSocket fd s).value
  count s := s.cntFdSocket
  entries s := s.fds

theorem select_refines : select.Refines := by
  refine Table.Correct.refines ⟨?_, ?_, ?_, ?_, ?_⟩
  · intro s fd room
    obtain ⟨returned, added⟩ := IoSelect.addSocket_of_lt s fd room
    exact ⟨returned, added.cntFdSocket, added.table⟩
  · intro s fd full
    exact congrArg Access.value (IoSelect.addSocket_of_full s fd full)
  · intro s fd le
    have place : (Access.search (· == fd) s.fdSocket s.cntFdSocket).value =
        s.table.findIdx? (· == fd) := Access.search_value _ _ le
    simp only [select, IoSelect.delSocket, IoSelect.Server.close, Access.value_bind, place, remove]
    cases s.table.findIdx? (· == fd) <;> rfl
  · intro s fd le present
    obtain ⟨i, place, deleted⟩ := IoSelect.delSocket_of_mem le present
    exact ⟨i, place, deleted.cntFdSocket, deleted.table⟩
  · intro s fd le absent
    simp only [select, IoSelect.delSocket_of_not_mem le absent]
    exact ⟨rfl, rfl⟩

/-- Removing a descriptor that is not in the table stores nothing. -/
theorem delSocket_of_not_mem {t : IoPoll.Server} (le : t.cntFdSocket ≤ IoPoll.maxFdSocket)
    (absent : fd ∉ t.fds) : (IoPoll.delSocket fd t).value = (-1, t.close fd) := by
  have none : (Access.search (fun e => e.fd == fd) t.pollfds t.cntFdSocket).value = none :=
    (search_eq_none_iff Pollfd.fd fd t.pollfds le).mpr absent
  simp [IoPoll.delSocket, IoPoll.Server.close, none]

theorem poll_refines : poll.Refines := by
  refine Table.Correct.refines ⟨?_, ?_, ?_, ?_, ?_⟩
  · intro s fd room
    obtain ⟨returned, counted, -, fds⟩ := IoPoll.addSocket_of_lt s fd room
    exact ⟨returned, counted, fds⟩
  · intro s fd full
    exact congrArg Access.value (IoPoll.addSocket_of_full s fd full)
  · intro s fd le
    have place : (Access.search (fun e => e.fd == fd) s.pollfds s.cntFdSocket).value =
        s.fds.findIdx? (· == fd) := by
      rw [IoPoll.Server.fds, List.findIdx?_map]
      exact Access.search_value _ _ le
    simp only [poll, IoPoll.delSocket, IoPoll.Server.close, Access.value_bind, place, remove]
    cases s.fds.findIdx? (· == fd) <;> rfl
  · intro s fd le present
    obtain ⟨i, place, deleted⟩ := IoPoll.delSocket_of_mem le present
    refine ⟨i, place, deleted.cntFdSocket, ?_⟩
    exact (congrArg (List.map Pollfd.fd) deleted.table).trans (map_swapRemove _ _ _)
  · intro s fd le absent
    simp only [poll, delSocket_of_not_mem le absent]
    exact ⟨rfl, rfl⟩

/-! ## Agreement -/

/-- The two tables hold the same descriptors in the same slots. -/
structure Agree (s : IoSelect.Server) (t : IoPoll.Server) : Prop where
  cntFdSocket : s.cntFdSocket = t.cntFdSocket
  le : s.cntFdSocket ≤ maxFdSocket
  slots : ∀ i < s.cntFdSocket, s.fdSocket[i]? = t.pollfds[i]?.map Pollfd.fd

theorem Table.Keeps.agree {s : IoSelect.Server} {t : IoPoll.Server}
    (left : select.Keeps l s) (right : poll.Keeps l t) : Agree s t := by
  have same : s.cntFdSocket = t.cntFdSocket := left.count.trans right.count.symm
  have entries : s.table = t.fds := left.entries.trans right.entries.symm
  refine ⟨same, Nat.le_trans (Nat.le_of_eq left.count) left.le, ?_⟩
  intro i lt
  have here := congrArg (fun entries => entries[i]?) entries
  simp only [IoSelect.Server.table, IoPoll.Server.fds, IoPoll.Server.table, List.getElem?_map,
    getElem?_live _ lt, getElem?_live _ (same ▸ lt)] at here
  exact here

/-- What a call returns, judged by the table in front of it and after it. -/
def Returned : Call → IoSelect.Server → Int × IoSelect.Server → Prop
  | .add fd, s, (ret, s') =>
      ret = s'.cntFdSocket ∧ s'.table = s.table ++ [fd] ∨
        ret = -1 ∧ s.cntFdSocket = maxFdSocket
  | .del fd, s, (ret, _) =>
      (∃ i : Nat, ret = i ∧ s.table[i]? = some fd) ∨ ret = -1 ∧ fd ∉ s.table

theorem Table.Keeps.returned {s : IoSelect.Server} (keeps : select.Keeps l s) (c : Call) :
    Returned c s (select.call c s) := by
  obtain ⟨ret, next⟩ := select_refines keeps c
  obtain ⟨le, count, rfl⟩ := keeps
  cases c with
  | add fd =>
      rcases Nat.lt_or_ge s.table.length maxFdSocket with room | full
      · simp only [Call.onList, select, append_of_lt room] at ret next
        refine .inl ⟨?_, next.entries⟩
        rw [show (select.call (.add fd) s).1 = _ from ret]
        have counted := next.count
        simp only [List.length_append, List.length_singleton] at counted
        exact_mod_cast counted.symm
      · simp only [Call.onList, select, append_of_le full] at ret next
        exact .inr ⟨ret, count.trans (Nat.le_antisymm le full)⟩
  | del fd =>
      by_cases present : fd ∈ s.table
      · obtain ⟨i, lt, here, removed⟩ := remove_of_mem present
        simp only [Call.onList, select, removed] at ret
        exact .inl ⟨i, ret, List.getElem?_eq_some_iff.mpr ⟨lt, here⟩⟩
      · simp only [Call.onList, select, remove_of_not_mem present] at ret
        exact .inr ⟨ret, present⟩

theorem select_of_failed {s : IoSelect.Server} (le : s.cntFdSocket ≤ maxFdSocket)
    (failed : (select.call c s).1 = -1) :
    (select.call c s).2.cntFdSocket = s.cntFdSocket ∧
      (select.call c s).2.fdSocket = s.fdSocket := by
  cases c with
  | add fd =>
      have full := IoSelect.addSocket_eq_neg_one_iff.mp failed
      simp only [select, IoSelect.addSocket_of_full s fd full]
      exact ⟨rfl, rfl⟩
  | del fd =>
      by_cases present : fd ∈ s.table
      · obtain ⟨i, place, -⟩ := IoSelect.delSocket_of_mem le present
        have impossible : (i : Int) = -1 := place.symm.trans failed
        omega
      · simp only [select, IoSelect.delSocket_of_not_mem le present]
        exact ⟨rfl, rfl⟩

theorem poll_of_failed {t : IoPoll.Server} (le : t.cntFdSocket ≤ maxFdSocket)
    (failed : (poll.call c t).1 = -1) :
    (poll.call c t).2.cntFdSocket = t.cntFdSocket ∧ (poll.call c t).2.pollfds = t.pollfds := by
  cases c with
  | add fd =>
      have full := IoPoll.addSocket_eq_neg_one_iff.mp failed
      simp only [poll, IoPoll.addSocket_of_full t fd full]
      exact ⟨rfl, rfl⟩
  | del fd =>
      by_cases present : fd ∈ t.fds
      · obtain ⟨i, place, -⟩ := IoPoll.delSocket_of_mem le present
        have impossible : (i : Int) = -1 := place.symm.trans failed
        omega
      · simp only [poll, delSocket_of_not_mem le present]
        exact ⟨rfl, rfl⟩

/-- Started from empty tables, whatever the arrays hold, both programs keep the same descriptors in
the same slots through any calls, and each call returns the same in both.  A call that returns `-1`
leaves both tables as they were. -/
theorem socket_tables_agree (fdSocket : Vector Int IoSelect.maxFdSocket)
    (pollfds : Vector Pollfd IoPoll.maxFdSocket) (k k' : Sockets) (calls : List Call) (c : Call) :
    let s := select.run calls ⟨fdSocket, 0, k⟩
    let t := poll.run calls ⟨pollfds, 0, k'⟩
    let (ret, s') := select.call c s
    let (ret', t') := poll.call c t
    Agree s t ∧ ret = ret' ∧ Agree s' t' ∧ Returned c s (ret, s') ∧
      (ret = -1 → s'.cntFdSocket = s.cntFdSocket ∧ s'.fdSocket = s.fdSocket ∧
        t'.cntFdSocket = t.cntFdSocket ∧ t'.pollfds = t.pollfds) := by
  have emptySelect : select.Keeps [] (⟨fdSocket, 0, k⟩ : IoSelect.Server) := ⟨by decide, rfl, rfl⟩
  have emptyPoll : poll.Keeps [] (⟨pollfds, 0, k'⟩ : IoPoll.Server) := ⟨by decide, rfl, rfl⟩
  have left := select_refines.run calls emptySelect
  have right := poll_refines.run calls emptyPoll
  obtain ⟨leftRet, leftNext⟩ := select_refines left c
  obtain ⟨rightRet, rightNext⟩ := poll_refines right c
  have agree := left.agree right
  have same := leftRet.trans rightRet.symm
  refine ⟨agree, same, leftNext.agree rightNext, left.returned c, ?_⟩
  intro failed
  obtain ⟨leftCnt, leftArray⟩ := select_of_failed agree.le failed
  obtain ⟨rightCnt, rightArray⟩ :=
    poll_of_failed (agree.cntFdSocket ▸ agree.le) (same.symm.trans failed)
  exact ⟨leftCnt, leftArray, rightCnt, rightArray⟩

end Alnp.SocketTable
