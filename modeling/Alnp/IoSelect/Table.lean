import Alnp.IoSelect.Model

/-!
# The socket table of the `select` server

What one call of each table function does, in terms of the list `Server.table` of entries in use:

* `addSocket_of_lt`, `addSocket_of_full`: an entry goes behind the last one, or the table is full.
* `delSocket_of_mem`, `delSocket_of_not_mem`: the entry goes, the last entry takes its place and
  the slot that falls out of use is `-1` (`Deleted`).
* `mkFds_value`, `mem_mkFds`, `le_mkFds`: the descriptor set of the table and its maximum.
-/

namespace Alnp.IoSelect

variable {s : Server} {fd : Int}

@[simp] theorem fdSocket_accept : (s.accept fd).fdSocket = s.fdSocket := rfl

@[simp] theorem cntFdSocket_accept : (s.accept fd).cntFdSocket = s.cntFdSocket := rfl

@[simp] theorem sockets_accept : (s.accept fd).sockets = s.sockets.accept fd := rfl

@[simp] theorem table_accept : (s.accept fd).table = s.table := rfl

/-- Closing a connection that has just been accepted undoes the `accept`. -/
theorem close_accept (new : fd ∉ s.sockets.opened) : (s.accept fd).close fd = s := by
  simp [Server.accept, Server.close, Sockets.close_accept new]

/-! ## Adding an entry -/

/-- `t` is `s` with `fd` added behind the last entry. -/
structure Added (fd : Int) (s t : Server) : Prop where
  cntFdSocket : t.cntFdSocket = s.cntFdSocket + 1
  sockets : t.sockets = s.sockets
  table : t.table = s.table ++ [fd]
  entry : t.fdSocket[s.cntFdSocket]? = some fd
  frame : ∀ k, k ≠ s.cntFdSocket → t.fdSocket[k]? = s.fdSocket[k]?

theorem addSocket_of_lt (s : Server) (fd : Int) (room : s.cntFdSocket < maxFdSocket) :
    (addSocket fd s).value.1 = s.cntFdSocket + 1 ∧ Added fd s (addSocket fd s).value.2 := by
  simp only [addSocket, room, ↓reduceIte, Access.value_bind, Access.value_write_nat,
    Access.value_pure]
  refine ⟨by simp, rfl, rfl, live_append s.fdSocket fd room, by simp [room], ?_⟩
  intro k other
  exact Vector.getElem?_setIfInBounds_ne other.symm

theorem addSocket_of_full (s : Server) (fd : Int) (full : maxFdSocket ≤ s.cntFdSocket) :
    addSocket fd s = pure (-1, s) := by
  simp [addSocket, Nat.not_lt.mpr full]

/-- `add_socket` returns `-1` exactly when the table is full. -/
theorem addSocket_eq_neg_one_iff :
    (addSocket fd s).value.1 = -1 ↔ maxFdSocket ≤ s.cntFdSocket := by
  rcases Nat.lt_or_ge s.cntFdSocket maxFdSocket with room | full
  · rw [(addSocket_of_lt s fd room).1]
    omega
  · simp [addSocket_of_full s fd full, full]

theorem addSocket_within : (addSocket fd s).Within maxFdSocket := by
  unfold addSocket
  split
  · exact Access.within_bind.mpr
      ⟨(Access.within_write _ _ _).mpr (by omega), Access.within_pure _⟩
  · exact Access.within_pure _

/-! ## Removing an entry -/

/-- `t` is `s` after entry `i`, which held `fd`, has been closed and removed. -/
structure Deleted (fd : Int) (i : Nat) (s t : Server) : Prop where
  lt : i < s.cntFdSocket
  entry : s.fdSocket[i]? = some fd
  cntFdSocket : t.cntFdSocket = s.cntFdSocket - 1
  sockets : t.sockets = s.sockets.close fd
  table : t.table = swapRemove s.table i
  cleared : t.fdSocket[s.cntFdSocket - 1]? = some (-1)
  /-- Slots other than `i` and the vacated one are untouched. -/
  frame : ∀ k, k ≠ i → k ≠ s.cntFdSocket - 1 → t.fdSocket[k]? = s.fdSocket[k]?

theorem delSocket_of_not_mem (le : s.cntFdSocket ≤ maxFdSocket) (absent : fd ∉ s.table) :
    (delSocket fd s).value = (-1, s.close fd) := by
  have none : (Access.search (· == fd) s.fdSocket s.cntFdSocket).value = none :=
    (search_eq_none_iff id fd s.fdSocket le).mpr (by simpa [Server.table] using absent)
  simp [delSocket, Server.close, none]

theorem delSocket_of_mem (le : s.cntFdSocket ≤ maxFdSocket) (present : fd ∈ s.table) :
    ∃ i : Nat, (delSocket fd s).value.1 = i ∧ Deleted fd i s (delSocket fd s).value.2 := by
  cases found : (Access.search (· == fd) s.fdSocket s.cntFdSocket).value with
  | none =>
      have absent := (search_eq_none_iff id fd s.fdSocket le).mp found
      exact absurd present (by simpa [Server.table] using absent)
  | some i =>
      obtain ⟨lt, hit⟩ := of_search_eq_some (f := id) s.fdSocket le found
      have inside : i < maxFdSocket := by omega
      have last : (s.cntFdSocket : Int) - 1 = (s.cntFdSocket - 1 : Nat) := by omega
      refine ⟨i, by simp [delSocket, Server.close, found], ?_⟩
      simp only [delSocket, Server.close, Access.value_bind, found, Access.value_pure, last,
        Access.value_write_nat]
      refine ⟨lt, ?_, rfl, rfl, ?_, ?_, ?_⟩
      · rw [Vector.getElem?_eq_getElem inside]
        exact congrArg some hit
      · exact (live_store_of_le _ _ (Nat.le_refl _)).trans (live_moveLast _ lt le)
      · simp [show s.cntFdSocket - 1 < maxFdSocket by omega]
      · intro k notHole notLast
        rw [Vector.getElem?_setIfInBounds_ne (Ne.symm notLast)]
        rcases Nat.lt_or_ge k maxFdSocket with kInside | outside
        · rw [Vector.getElem?_eq_getElem kInside, Vector.getElem?_eq_getElem kInside,
            getElem_moveLast s.fdSocket lt kInside (.inl notHole)]
        · rw [Vector.getElem?_eq_none outside, Vector.getElem?_eq_none outside]

theorem delSocket_within (le : s.cntFdSocket ≤ maxFdSocket) :
    (delSocket fd s).Within maxFdSocket := by
  refine Access.within_bind.mpr ⟨Access.search_within _ _ le, ?_⟩
  cases found : (Access.search (· == fd) (s.close fd).fdSocket (s.close fd).cntFdSocket).value with
  | none => exact Access.within_pure _
  | some i =>
      obtain ⟨lt, -⟩ := of_search_eq_some (f := id) s.fdSocket le found
      have vacated : 0 ≤ (s.cntFdSocket : Int) - 1 ∧ (s.cntFdSocket : Int) - 1 < maxFdSocket := by
        omega
      refine Access.within_bind.mpr ⟨moveLast_within _ lt le, ?_⟩
      exact Access.within_bind.mpr
        ⟨(Access.within_write _ _ _).mpr vacated, Access.within_pure _⟩

/-! ## The descriptor set of the table -/

/-- The descriptors an `fd_set` has room for. -/
def InFdSet (fd : Int) : Prop := 0 ≤ fd ∧ fd < fdSetsize

theorem fdIsset_fdZero : fdIsset fd fdZero = false := by
  unfold fdIsset fdZero
  split
  · rw [Vector.getElem?_replicate]
    split <;> rfl
  · rfl

theorem fdIsset_fdSet {other : Int} {fds : FdSet} :
    fdIsset other (fdSet fd fds) = true ↔
      (other = fd ∧ InFdSet fd) ∨ fdIsset other fds = true := by
  unfold fdIsset fdSet InFdSet
  by_cases nonneg : 0 ≤ fd
  · by_cases otherNonneg : 0 ≤ other
    · simp only [nonneg, otherNonneg, ↓reduceIte, Vector.getElem?_setIfInBounds, true_and]
      by_cases same : fd.toNat = other.toNat
      · have eq : other = fd := by omega
        subst eq
        by_cases inside : other.toNat < fdSetsize
        · simp [inside, show other < fdSetsize by omega]
        · simp [inside, show ¬ other < fdSetsize by omega]
      · have ne : other ≠ fd := fun eq => same (by rw [eq])
        simp [same, ne]
    · have ne : other ≠ fd := fun eq => otherNonneg (eq ▸ nonneg)
      simp [otherNonneg, ne]
  · simp [nonneg]

theorem fdIsset_foldl (entries : List Int) (fds : FdSet) (m : Int) :
    fdIsset fd (entries.foldl (fun acc x => (fdSet x acc.1, max acc.2 x)) (fds, m)).1 = true ↔
      (fd ∈ entries ∧ InFdSet fd) ∨ fdIsset fd fds = true := by
  induction entries generalizing fds m with
  | nil => simp
  | cons x entries ih =>
      rw [List.foldl_cons, ih, fdIsset_fdSet, List.mem_cons]
      constructor
      · intro found
        rcases found with ⟨member, inSet⟩ | ⟨rfl, inSet⟩ | old
        · exact .inl ⟨.inr member, inSet⟩
        · exact .inl ⟨.inl rfl, inSet⟩
        · exact .inr old
      · intro found
        rcases found with ⟨rfl | member, inSet⟩ | old
        · exact .inr (.inl ⟨rfl, inSet⟩)
        · exact .inl ⟨member, inSet⟩
        · exact .inr (.inr old)

theorem max_spec (a b : Int) : a ≤ max a b ∧ b ≤ max a b ∧ (max a b = a ∨ max a b = b) := by
  unfold max
  split <;> omega

theorem max_foldl (entries : List Int) (fds : FdSet) (m : Int) :
    let biggest := (entries.foldl (fun acc x => (fdSet x acc.1, max acc.2 x)) (fds, m)).2
    m ≤ biggest ∧ (∀ x ∈ entries, x ≤ biggest) ∧ (biggest = m ∨ biggest ∈ entries) := by
  induction entries generalizing fds m with
  | nil => simp
  | cons x entries ih =>
      obtain ⟨above, bound, attained⟩ := ih (fdSet x fds) (max m x)
      obtain ⟨left, right, which⟩ := max_spec m x
      rw [List.foldl_cons]
      refine ⟨left.trans above, ?_, ?_⟩
      · intro y member
        rcases List.mem_cons.mp member with rfl | member
        · exact right.trans above
        · exact bound y member
      · rcases attained with attained | attained
        · rcases which with which | which
          · exact .inl (attained.trans which)
          · exact .inr (List.mem_cons.mpr (.inl (attained.trans which)))
        · exact .inr (List.mem_cons_of_mem x attained)

theorem mkFds_value (le : s.cntFdSocket ≤ maxFdSocket) :
    (mkFds s).value =
      s.table.foldl (fun acc fd => (fdSet fd acc.1, max acc.2 fd)) (fdZero, -1) :=
  Access.fold_value _ _ _ le

theorem mkFds_within (le : s.cntFdSocket ≤ maxFdSocket) : (mkFds s).Within maxFdSocket :=
  Access.fold_within _ _ _ le

/-- `mk_fds` sets the bits of the entries that fit an `fd_set`. -/
theorem mem_mkFds (le : s.cntFdSocket ≤ maxFdSocket) :
    fdIsset fd (mkFds s).value.1 = true ↔ fd ∈ s.table ∧ InFdSet fd := by
  rw [mkFds_value le, fdIsset_foldl, fdIsset_fdZero]
  simp

/-- `mk_fds` returns the largest entry of a table that has an entry `>= 0`. -/
theorem mkFds_biggest (le : s.cntFdSocket ≤ maxFdSocket)
    (present : fd ∈ s.table) (nonneg : 0 ≤ fd) :
    (mkFds s).value.2 ∈ s.table ∧ ∀ x ∈ s.table, x ≤ (mkFds s).value.2 := by
  obtain ⟨-, bound, attained⟩ := max_foldl s.table fdZero (-1)
  rw [← mkFds_value le] at bound attained
  refine ⟨attained.resolve_left fun unset => ?_, bound⟩
  have below := bound fd present
  omega

end Alnp.IoSelect
