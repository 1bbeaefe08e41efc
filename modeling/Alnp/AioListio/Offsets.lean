import Alnp.AioListio.Batches

/-!
# The offsets of the file copy

`aio_offset` is an `off_t` of 64 bits, but the copy of `Chapter10/aio_listio.c` takes it from the
running total `tot_len`, which is an `int`.

`offsets_iff`: every offset is the sum of the reads before it, and every block is to be written
there, exactly if the source is shorter than `2 ^ 31` bytes.
-/

namespace Alnp.AioListio

/-- What the loop notes down for a read: the offset of its block, and the total behind it. -/
structure Noted where
  aioOffset : Int
  totLen : Int
  deriving DecidableEq

def Main.noted (bytes : List UInt8) (m : Main) : Noted :=
  let m' := m.fill bytes
  ⟨(m'.aioBlk m.i).aioOffset, m'.totLen⟩

/-- The notes of the loop over the results of `read`; it is left after the first empty one. -/
def Main.notes : List (List UInt8) → Main → List Noted
  | [], _ => []
  | bytes :: reads, m =>
      if bytes.length = 0 then [m.noted bytes]
      else m.noted bytes :: Main.notes reads (m.turn bytes).2

variable {m : Main} {bytes : List UInt8} {reads : List (List UInt8)}

/-! ## The total as an `int` -/

theorem int32_add (x y : Int) : int32 (int32 x + y) = int32 (x + y) := Int.bmod_add_bmod

theorem int32_lt (x : Int) : int32 x < 2 ^ 31 := by
  have below := Int.bmod_lt (x := x) (m := 2 ^ 32) (by decide)
  exact below

/-- The `int` of a count is the count exactly if it is below `2 ^ 31`. -/
theorem int32_eq_iff (n : Nat) : int32 n = n ↔ n < 2 ^ 31 := by
  constructor
  · intro same
    have below := int32_lt n
    rw [same] at below
    exact_mod_cast below
  · exact int32_of_lt

theorem totLen_turn : (m.turn bytes).2.totLen = int32 (m.totLen + bytes.length) := by
  unfold Main.turn
  dsimp only
  split
  · rfl
  · rfl

theorem noted_eq : m.noted bytes = ⟨m.totLen, int32 (m.totLen + bytes.length)⟩ := by
  simp [Main.noted, Main.fill]

/-! ## All reads -/

/-- The notes of reads with data behind `start` bytes, and of the empty read behind them: the
offsets and totals are those of the source, taken as `int`s. -/
theorem getElem?_notes (some : ∀ bytes ∈ reads, bytes ≠ []) {start : Nat}
    (totLen : m.totLen = int32 start) {k : Nat} (read : k ≤ reads.length) :
    (m.notes (reads ++ [[]]))[k]? =
      .some ⟨int32 (start + total (reads.take k) : Nat),
        int32 (start + total (reads.take (k + 1)) : Nat)⟩ := by
  induction reads generalizing m start k with
  | nil =>
      have first : k = 0 := Nat.le_zero.mp read
      subst first
      have notes : m.notes ([] ++ [[]]) = [m.noted []] := rfl
      rw [notes, List.getElem?_cons_zero, noted_eq, totLen, int32_add]
      simp
  | cons bytes reads ih =>
      obtain ⟨here, later⟩ := List.forall_mem_cons.mp some
      have nonzero : bytes.length ≠ 0 := mt List.length_eq_zero_iff.mp here
      rw [List.cons_append, Main.notes, if_neg nonzero]
      cases k with
      | zero =>
          rw [List.getElem?_cons_zero, noted_eq, totLen, int32_add]
          simp
      | succ k =>
          have totLen' : (m.turn bytes).2.totLen = int32 (start + bytes.length : Nat) := by
            rw [totLen_turn, totLen, int32_add, Int.natCast_add]
          rw [List.getElem?_cons_succ, ih later totLen' (Nat.le_of_succ_le_succ read)]
          rw [List.take_succ_cons, List.take_succ_cons, total_cons, total_cons, Nat.add_assoc,
            Nat.add_assoc]

theorem total_take_le (k : Nat) : total (reads.take k) ≤ total reads := by
  have split : total reads = total (reads.take k) + total (reads.drop k) := by
    rw [total, total, total, ← List.sum_append, ← List.map_append, List.take_append_drop]
  omega

/-- The offsets and the totals are exact for every read, the empty one at the end included, and
each block is to be written at its place. -/
structure Exact (m : Main) (reads : List (List UInt8)) : Prop where
  noted : ∀ k ≤ reads.length, (m.notes (reads ++ [[]]))[k]? =
    some ⟨total (reads.take k), total (reads.take (k + 1))⟩
  requests : ∀ k, ((m.copy (reads ++ [[]])).flatMap Batch.requests)[k]? =
    reads[k]?.map fun bytes => Request.mk (total (reads.take k)) bytes

/-- The notes of the program from its start on. -/
theorem notes_main (rbuf : Nat → List UInt8) (some : ∀ bytes ∈ reads, bytes ≠ []) {k : Nat}
    (read : k ≤ reads.length) :
    ((main rbuf).notes (reads ++ [[]]))[k]? =
      .some ⟨int32 (total (reads.take k)), int32 (total (reads.take (k + 1)))⟩ := by
  have zero : int32 (0 : Nat) = (0 : Nat) := int32_of_lt (Nat.two_pow_pos 31)
  have totLen : (main rbuf).totLen = int32 (0 : Nat) := zero.symm
  have notes := getElem?_notes some totLen read
  rwa [Nat.zero_add, Nat.zero_add] at notes

theorem Exact.small {rbuf : Nat → List UInt8} (some : ∀ bytes ∈ reads, bytes ≠ [])
    (exact' : Exact (main rbuf) reads) : total reads < 2 ^ 31 := by
  have last := exact'.noted reads.length (Nat.le_refl _)
  rw [notes_main rbuf some (Nat.le_refl _), List.take_of_length_le (Nat.le_succ _),
    Option.some.injEq, Noted.mk.injEq] at last
  exact (int32_eq_iff _).mp last.2

/-- **Offsets.**  Whatever the lengths of the reads are, the offsets and totals are exact if and
only if the source is shorter than `2 ^ 31` bytes. -/
theorem offsets_iff (rbuf : Nat → List UInt8) (reads : List (List UInt8))
    (sizes : ∀ bytes ∈ reads, 1 ≤ bytes.length ∧ bytes.length ≤ sizeRbuf) :
    Exact (main rbuf) reads ↔ total reads < 2 ^ 31 := by
  have some : ∀ bytes ∈ reads, bytes ≠ [] := fun bytes member =>
    List.ne_nil_of_length_pos (sizes bytes member).1
  refine ⟨Exact.small some, fun small => ?_⟩
  have fits (k : Nat) : int32 (total (reads.take k)) = total (reads.take k) :=
    int32_of_lt (Nat.lt_of_le_of_lt (total_take_le k) small)
  have all : ((main rbuf).copy (reads ++ [[]])).flatMap Batch.requests = requestsFrom 0 reads :=
    copy_requests (filled_of_zero rfl) rfl some (by rwa [Nat.zero_add])
  constructor
  · intro k read
    rw [notes_main rbuf some read, fits, fits]
  · intro k
    rw [all, getElem?_requestsFrom, Nat.zero_add]

/-- Three reads of a small file. -/
theorem offsets_three : Exact (main fun _ => []) [[1, 2], [3], [4, 5, 6]] :=
  (offsets_iff (fun _ => []) [[1, 2], [3], [4, 5, 6]] (by decide)).mpr (by decide)

/-- The reads of a source of `2 ^ 31` bytes. -/
def twoGiB : List (List UInt8) := List.replicate 8192 (List.replicate sizeRbuf 0)

theorem total_twoGiB : total twoGiB = 2 ^ 31 := by
  rw [twoGiB, total, List.map_replicate, List.length_replicate, List.sum_replicate]
  rfl

theorem not_forall_exact :
    ¬ ∀ (rbuf : Nat → List UInt8) (reads : List (List UInt8)),
      (∀ bytes ∈ reads, 1 ≤ bytes.length ∧ bytes.length ≤ sizeRbuf) →
        Exact (main rbuf) reads := by
  intro always
  have length : ∀ bytes ∈ twoGiB, bytes.length = sizeRbuf := by
    intro bytes member
    rw [List.eq_of_mem_replicate member, List.length_replicate]
  have sizes : ∀ bytes ∈ twoGiB, 1 ≤ bytes.length ∧ bytes.length ≤ sizeRbuf := by
    intro bytes member
    rw [length bytes member]
    decide
  have some : ∀ bytes ∈ twoGiB, bytes ≠ [] := fun bytes member =>
    List.ne_nil_of_length_pos (sizes bytes member).1
  have small := (always (fun _ => []) twoGiB sizes).small some
  rw [total_twoGiB] at small
  exact absurd small (Nat.lt_irrefl _)

end Alnp.AioListio
