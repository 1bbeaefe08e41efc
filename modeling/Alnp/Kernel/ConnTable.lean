import Alnp.Kernel.Sockets
import Alnp.Lib.PrefixTable

/-!
# The connections a server keeps track of

The purpose of the socket tables of the `select` and `poll` servers: a list of descriptors that is
the listener followed by exactly the open connections, each once.  `Tracks` states it for any list
and any open descriptors; the two ways in which the servers change both together keep it:
`Tracks.add` (accept and append) and `Tracks.remove` (close and remove, the last entry taking the
place of the removed one).
-/

namespace Alnp

/-- What is open when a server enters its loop. -/
structure Boot where
  listener : Int
  others : Finset Int
  listener_nonneg : 0 ≤ listener
  listener_open : listener ∈ others

/-- The standard streams, and the listener on the lowest number they leave free. -/
def stdBoot : Boot := ⟨3, {0, 1, 2, 3}, by decide, by decide⟩

/-- The same with an epoll instance on 4. -/
def epollBoot : Boot := ⟨3, {0, 1, 2, 3, 4}, stdBoot.listener_nonneg, by decide⟩

/-- `entries` is the listener followed by the open connections, each once. -/
structure Tracks (b : Boot) (entries : List Int) (k : Sockets) : Prop where
  head : entries[0]? = some b.listener
  nodup : entries.Nodup
  mem : ∀ fd, fd ∈ entries ↔ fd = b.listener ∨ fd ∈ k.accepted
  others : k.others = b.others
  fresh : ∀ fd ∈ k.accepted, Fresh b.others fd

namespace Tracks

variable {b : Boot} {entries : List Int} {k : Sockets} {fd : Int} {i : Nat}

theorem boot (b : Boot) : Tracks b [b.listener] ⟨b.others, ∅⟩ :=
  ⟨rfl, List.nodup_singleton _, by simp, rfl, by simp⟩

theorem pos (tracks : Tracks b entries k) : 1 ≤ entries.length :=
  (List.getElem?_eq_some_iff.mp tracks.head).1

theorem nonneg (tracks : Tracks b entries k) (member : fd ∈ entries) : 0 ≤ fd := by
  rcases (tracks.mem fd).mp member with rfl | accepted
  · exact b.listener_nonneg
  · exact (tracks.fresh fd accepted).1

/-- A number that is not open is not in the table. -/
theorem not_mem_of_fresh (tracks : Tracks b entries k) (new : Fresh k.opened fd) :
    fd ∉ entries := by
  intro member
  refine new.2 (Sockets.mem_opened.mpr ?_)
  rcases (tracks.mem fd).mp member with rfl | accepted
  · exact .inl (tracks.others ▸ b.listener_open)
  · exact .inr accepted

/-- Every entry behind the first is a client. -/
theorem ne_listener (tracks : Tracks b entries k) (entry : entries[i]? = some fd)
    (behind : 1 ≤ i) : fd ≠ b.listener := by
  intro same
  subst same
  have here := List.getElem?_eq_some_iff.mp entry
  have same : entries[i]? = entries[0]? := entry.trans tracks.head.symm
  have := (List.getElem?_inj here.1 tracks.nodup).mp same
  omega

/-- `accept` and an entry behind the last one. -/
theorem add (tracks : Tracks b entries k) (new : Fresh k.opened fd) :
    Tracks b (entries ++ [fd]) (k.accept fd) := by
  have absent := tracks.not_mem_of_fresh new
  refine ⟨?_, ?_, ?_, tracks.others, ?_⟩
  · rw [List.getElem?_append_left tracks.pos]
    exact tracks.head
  · refine List.nodup_append.mpr ⟨tracks.nodup, List.nodup_singleton fd, ?_⟩
    intro x left y right same
    rw [List.mem_singleton.mp right] at same
    exact absent (same ▸ left)
  · intro x
    rw [List.mem_append, List.mem_singleton, tracks.mem x, Sockets.mem_accepted_accept]
    tauto
  · intro x accepted
    rcases Sockets.mem_accepted_accept.mp accepted with rfl | old
    · exact ⟨new.1, fun other => new.2 (Sockets.mem_opened.mpr (.inl (tracks.others ▸ other)))⟩
    · exact tracks.fresh x old

/-- `close` and removal of a client's entry, wherever it is. -/
theorem remove (tracks : Tracks b entries k) (entry : entries[i]? = some fd)
    (client : fd ≠ b.listener) : Tracks b (swapRemove entries i) (k.close fd) := by
  obtain ⟨inside, here⟩ := List.getElem?_eq_some_iff.mp entry
  have notFirst : i ≠ 0 := by
    intro same
    subst same
    exact client (Option.some.inj (entry.symm.trans tracks.head))
  have distinct : (entries.map id).Nodup := by simpa using tracks.nodup
  refine ⟨?_, ?_, ?_, ?_, ?_⟩
  · rw [getElem?_swapRemove_of_lt (Nat.pos_of_ne_zero notFirst) inside]
    exact tracks.head
  · simpa using (nodup_map_swapRemove inside distinct).1
  · intro x
    rw [mem_swapRemove_iff inside distinct, Sockets.mem_accepted_close, tracks.mem x]
    simp only [id_eq, here]
    constructor
    · intro both
      rcases both with ⟨rfl | accepted, other⟩
      · exact .inl rfl
      · exact .inr ⟨other, accepted⟩
    · intro either
      rcases either with rfl | ⟨other, accepted⟩
      · exact ⟨.inl rfl, client.symm⟩
      · exact ⟨.inr accepted, other⟩
  · have member := List.mem_of_getElem? entry
    have notOther : fd ∉ k.others := by
      rw [tracks.others]
      exact (tracks.fresh fd (((tracks.mem fd).mp member).resolve_left client)).2
    simpa [Sockets.close, notOther] using tracks.others
  · intro x accepted
    exact tracks.fresh x (Sockets.mem_accepted_close.mp accepted).2

/-- A table has at least as many entries as there are open connections. -/
theorem card_accepted_le (tracks : Tracks b entries k) : k.accepted.card ≤ entries.length := by
  have listed : k.accepted ⊆ entries.toFinset := by
    intro x accepted
    exact List.mem_toFinset.mpr ((tracks.mem x).mpr (.inr accepted))
  exact (Finset.card_le_card listed).trans (List.toFinset_card_le entries)

end Tracks

/-! ## Rounds of `recv` -/

/-- The descriptors for which `recv` has returned 0, of its calls with their results. -/
def hungUp (calls : List (Int × Int)) : List Int :=
  (calls.filter fun c => c.2 = 0).map Prod.fst

theorem hungUp_append (calls : List (Int × Int)) (fd retRecv : Int) :
    hungUp (calls ++ [(fd, retRecv)]) = hungUp calls ++ if retRecv = 0 then [fd] else [] := by
  unfold hungUp
  rw [List.filter_append, List.map_append]
  split
  · rename_i ended
    simp [ended]
  · rename_i goes
    simp [goes]

section round

variable {entries old : List Int} {calls : List (Int × Int)} {fd : Int} {i : Nat}

/-- Removing the entry whose `recv` has just returned 0 keeps the account of the round. -/
theorem perm_swapRemove_hungUp (entry : entries[i]? = some fd)
    (perm : (entries ++ hungUp calls).Perm old) :
    (swapRemove entries i ++ hungUp (calls ++ [(fd, 0)])).Perm old := by
  obtain ⟨inside, rfl⟩ := List.getElem?_eq_some_iff.mp entry
  rw [hungUp_append, if_pos rfl, ← List.append_assoc]
  refine (List.perm_append_singleton _ _).trans ?_
  rw [← List.cons_append]
  exact ((cons_swapRemove_perm inside).append_right _).trans perm

/-- At the end of the round the entries left are the old ones less those that hung up. -/
theorem perm_filter_hungUp (distinct : old.Nodup)
    (perm : (entries ++ hungUp calls).Perm old) :
    entries.Perm (old.filter fun fd => fd ∉ hungUp calls) := by
  have apart := (List.nodup_append.mp (perm.nodup_iff.mpr distinct)).2.2
  have left := perm.filter fun fd => decide (fd ∉ hungUp calls)
  rw [List.filter_append] at left
  have kept : entries.filter (fun fd => decide (fd ∉ hungUp calls)) = entries :=
    List.filter_eq_self.mpr fun fd member =>
      decide_eq_true fun gone => apart fd member fd gone rfl
  have gone : (hungUp calls).filter (fun fd => decide (fd ∉ hungUp calls)) = [] :=
    List.filter_eq_nil_iff.mpr fun fd member outside => of_decide_eq_true outside member
  rwa [kept, gone, List.append_nil] at left

end round

end Alnp
