import Mathlib.Data.List.Perm.Subperm
import Mathlib.Data.List.Range

/-!
# A barrier

`pthread_barrier_wait` of threads `τ`: they wait until `count` of them have arrived, which ends a
round; one thread of the round is told so, and the barrier is as it was.  `arrivals` are the threads
in the order in which they have arrived.

`mem_arrivals_of_round`: if nobody arrives twice, the end of the first round means that everybody
is there.
-/

namespace Alnp

structure Barrier (τ : Type) where
  count : Nat
  /-- Who waits in the round under way. -/
  waiting : List τ
  /-- Who was in each round that is over, and who of them is told
  `PTHREAD_BARRIER_SERIAL_THREAD`. -/
  past : List (List τ × τ)

namespace Barrier

variable {τ : Type}

/-- `pthread_barrier_init` -/
def init (count : Nat) : Barrier τ := ⟨count, [], []⟩

/-- The number of the round under way. -/
def round (b : Barrier τ) : Nat := b.past.length

/-- `t` calls `pthread_barrier_wait`; it is in the round under way. -/
inductive Arrive (t : τ) : Barrier τ → Barrier τ → Prop
  | waits (b : Barrier τ) :
      b.waiting.length + 1 < b.count → Arrive t b { b with waiting := b.waiting ++ [t] }
  | trips (b : Barrier τ) (serial : τ) :
      b.waiting.length + 1 = b.count → serial ∈ b.waiting ++ [t] →
      Arrive t b { b with waiting := [], past := b.past ++ [(b.waiting ++ [t], serial)] }

/-- Everybody who has arrived. -/
def arrivals (b : Barrier τ) : List τ := (b.past.map Prod.fst).flatten ++ b.waiting

/-- A round ends as soon as it is full. -/
structure Rounds (b : Barrier τ) : Prop where
  room : b.waiting.length < b.count
  full : ∀ r ∈ b.past, r.1.length = b.count ∧ r.2 ∈ r.1

variable {b b' : Barrier τ} {t : τ}

theorem rounds_init {count : Nat} (positive : 0 < count) : (init count : Barrier τ).Rounds :=
  ⟨positive, nofun⟩

theorem Arrive.count_eq (arrive : Arrive t b b') : b'.count = b.count := by
  cases arrive with
  | waits => rfl
  | trips => rfl

theorem Arrive.arrivals_eq (arrive : Arrive t b b') : b'.arrivals = b.arrivals ++ [t] := by
  cases arrive with
  | waits less => simp only [arrivals, List.append_assoc]
  | trips serial full member =>
      simp only [arrivals, List.map_append, List.map_singleton, List.flatten_append,
        List.flatten_singleton, List.append_assoc, List.append_nil]

theorem Arrive.rounds (arrive : Arrive t b b') (rounds : b.Rounds) : b'.Rounds := by
  cases arrive with
  | waits less =>
      refine ⟨?_, rounds.full⟩
      rw [List.length_append, List.length_singleton]
      exact less
  | trips serial full member =>
      refine ⟨?_, List.forall_mem_append.mpr ⟨rounds.full, fun r last => ?_⟩⟩
      · exact Nat.lt_of_le_of_lt (Nat.zero_le _) rounds.room
      · rw [List.mem_singleton.mp last, List.length_append, List.length_singleton]
        exact ⟨full, member⟩

/-- The rounds that are over stay as they are. -/
theorem Arrive.getElem?_past (arrive : Arrive t b b') {r : Nat} {ended : List τ × τ}
    (done : b.past[r]? = some ended) : b'.past[r]? = some ended := by
  cases arrive with
  | waits less => exact done
  | trips serial full member =>
      exact (List.getElem?_append_left (List.getElem?_eq_some_iff.mp done).1).trans done

/-- Nobody is kept from arriving. -/
theorem Rounds.exists_arrive (rounds : b.Rounds) (t : τ) : ∃ b', Arrive t b b' := by
  have room := rounds.room
  by_cases last : b.waiting.length + 1 = b.count
  · exact ⟨_, .trips b t last (List.mem_append_right _ (List.mem_singleton_self t))⟩
  · exact ⟨_, .waits b (by omega)⟩

/-- Each round takes `count` arrivals. -/
theorem Rounds.length_arrivals (rounds : b.Rounds) :
    b.arrivals.length = b.count * b.round + b.waiting.length := by
  have full := rounds.full
  rw [arrivals, round, List.length_append, List.length_flatten, List.map_map]
  congr 1
  generalize b.past = done at full
  induction done with
  | nil => rfl
  | cons r done ih =>
      obtain ⟨whole, others⟩ := List.forall_mem_cons.mp full
      simp only [List.map_cons, List.sum_cons, List.length_cons, Function.comp_apply, ih others,
        whole.1, Nat.mul_succ]
      omega

/-- Of a round that is over everybody has arrived. -/
theorem mem_arrivals_of_past {r : Nat} {ended : List τ × τ} (done : b.past[r]? = some ended)
    (member : t ∈ ended.1) : t ∈ b.arrivals := by
  refine List.mem_append_left _ (List.mem_flatten.mpr ⟨ended.1, ?_, member⟩)
  exact List.mem_map.mpr ⟨ended, List.mem_of_getElem? done, rfl⟩

/-- With `count` threads that arrive once each, a round over means that all of them are there. -/
theorem mem_arrivals_of_round {b : Barrier Nat} (rounds : b.Rounds) (nodup : b.arrivals.Nodup)
    (below : ∀ i ∈ b.arrivals, i < b.count) (done : 0 < b.round) {i : Nat} (lt : i < b.count) :
    i ∈ b.arrivals := by
  have subset : b.arrivals ⊆ List.range b.count :=
    fun j member => List.mem_range.mpr (below j member)
  have many : (List.range b.count).length ≤ b.arrivals.length := by
    rw [List.length_range, rounds.length_arrivals]
    exact Nat.le_trans (Nat.le_mul_of_pos_right _ done) (Nat.le_add_right _ _)
  have perm := (nodup.subperm subset).perm_of_length_le many
  exact perm.mem_iff.mpr (List.mem_range.mpr lt)

end Barrier

end Alnp
