import Mathlib.Algebra.Ring.Nat
import Mathlib.Algebra.BigOperators.Group.List.Basic
import Alnp.AioListio.Copy

/-!
# The calls of `lio_listio`

The loop of `Chapter10/aio_listio.c` over the results of its reads.  A call is made when the last
block has been filled in or when `read` returns 0; in the second case the block of that read is
left out of `nent`, also when it is the last one.

`copy_batches`: over all calls there is one request for each read with data, at the offset the
reads before it add up to.
-/

namespace Alnp.AioListio

/-- A call of `lio_listio`: its `nent`, and what the blocks `aiolist[0..nent)` ask for. -/
structure Batch where
  nent : Nat
  requests : List Request
  deriving DecidableEq

/-- The call of an iteration, where it makes one. -/
def Main.batch (bytes : List UInt8) (m : Main) : Option Batch :=
  let m := m.fill bytes
  if m.i = numAiocbArray ∨ bytes.length = 0 then
    let nent := if bytes.length = 0 then m.i - 1 else m.i
    some ⟨nent, m.lioListio nent⟩
  else none

/-- The calls of the loop over the results of `read`; it is left after the first empty one. -/
def Main.copy : List (List UInt8) → Main → List Batch
  | [], _ => []
  | bytes :: reads, m =>
      if bytes.length = 0 then (m.batch bytes).toList
      else (m.batch bytes).toList ++ Main.copy reads (m.turn bytes).2

/-- The requests that write `reads` one behind the other from `start` on. -/
def requestsFrom : Nat → List (List UInt8) → List Request
  | _, [] => []
  | start, bytes :: reads => ⟨start, bytes⟩ :: requestsFrom (start + bytes.length) reads

/-- The bytes read. -/
def total (reads : List (List UInt8)) : Nat := (reads.map List.length).sum

variable {m : Main} {bytes : List UInt8} {reads : List (List UInt8)} {start : Nat}

@[simp] theorem total_nil : total [] = 0 := rfl

@[simp] theorem total_cons : total (bytes :: reads) = bytes.length + total reads := by
  simp [total]

/-! ## One iteration -/

theorem flatMap_batch : (m.batch bytes).toList.flatMap Batch.requests = (m.turn bytes).1 := by
  unfold Main.batch Main.turn
  dsimp only
  split <;> simp

theorem length_lioListio (nent : Nat) : (m.lioListio nent).length = nent := by
  rw [Main.lioListio, List.length_map, List.length_range]

/-- No call asks for more blocks than there are. -/
theorem batch_nent (filled : m.Filled) {b : Batch} (member : b ∈ (m.batch bytes).toList) :
    b.nent ≤ numAiocbArray ∧ b.requests.length = b.nent := by
  rw [Option.mem_toList] at member
  unfold Main.batch at member
  dsimp only at member
  split at member
  · cases member
    have room : (m.fill bytes).i ≤ numAiocbArray := filled.room
    refine ⟨?_, length_lioListio _⟩
    dsimp only
    split <;> omega
  · cases member

/-! ## The loop -/

/-- The requests of the blocks in use come first, then one for each read. -/
theorem copy_requests (filled : m.Filled) (totLen : m.totLen = start)
    (some : ∀ bytes ∈ reads, bytes ≠ []) (small : start + total reads < 2 ^ 31) :
    (m.copy (reads ++ [[]])).flatMap Batch.requests = m.pending ++ requestsFrom start reads := by
  induction reads generalizing m start with
  | nil =>
      have last : m.copy [[]] = (m.batch []).toList := rfl
      rw [List.nil_append, last, flatMap_batch, requestsFrom, List.append_nil]
      exact (turn_nil filled).2.2.1
  | cons bytes reads ih =>
      obtain ⟨here, later⟩ := List.forall_mem_cons.mp some
      have nonzero : bytes.length ≠ 0 := mt List.length_eq_zero_iff.mp here
      obtain ⟨filled', total', requests⟩ := turn_spec filled here
      rw [total_cons] at small
      have totLen' : (m.turn bytes).2.totLen = (start + bytes.length : Nat) := by
        rw [total', totLen]
        exact int32_of_lt (by omega)
      have rest := ih filled' totLen' later (by omega)
      rw [List.cons_append, Main.copy, if_neg nonzero, List.flatMap_append, flatMap_batch, rest,
        requestsFrom]
      rcases requests with ⟨submitted, empty⟩ | ⟨submitted, added⟩
      · rw [submitted, empty, totLen]
        simp
      · rw [submitted, added, totLen]
        simp

theorem copy_nent (filled : m.Filled) (some : ∀ bytes ∈ reads, bytes ≠ []) :
    ∀ b ∈ m.copy (reads ++ [[]]), b.nent ≤ numAiocbArray ∧ b.requests.length = b.nent := by
  induction reads generalizing m with
  | nil =>
      intro b member
      exact batch_nent filled member
  | cons bytes reads ih =>
      obtain ⟨here, later⟩ := List.forall_mem_cons.mp some
      have nonzero : bytes.length ≠ 0 := mt List.length_eq_zero_iff.mp here
      intro b member
      rw [List.cons_append, Main.copy, if_neg nonzero, List.mem_append] at member
      rcases member with now | rest
      · exact batch_nent filled now
      · exact ih (turn_spec filled here).1 later b rest

/-! ## The requests of all calls -/

theorem getElem?_requestsFrom (k : Nat) :
    (requestsFrom start reads)[k]? =
      reads[k]?.map fun bytes => ⟨(start + total (reads.take k) : Nat), bytes⟩ := by
  induction reads generalizing start k with
  | nil => simp [requestsFrom]
  | cons bytes reads ih =>
      cases k with
      | zero => simp [requestsFrom]
      | succ k =>
          rw [requestsFrom, List.getElem?_cons_succ, List.getElem?_cons_succ, ih,
            List.take_succ_cons, total_cons, Nat.add_assoc]

theorem length_requestsFrom : (requestsFrom start reads).length = reads.length := by
  induction reads generalizing start with
  | nil => rfl
  | cons bytes reads ih => exact congrArg (· + 1) ih

theorem requestsFrom_tiles (front : List UInt8) :
    Tiles (front ++ reads.flatten) front.length (requestsFrom front.length reads)
      (front.length + total reads) := by
  induction reads generalizing front with
  | nil => rfl
  | cons bytes reads ih =>
      refine ⟨rfl, ?_, ?_⟩
      · intro k covers
        obtain ⟨from', below⟩ := covers
        rw [List.flatten_cons, List.getElem?_append_right from']
        have inside : k - front.length < bytes.length := by
          change k < front.length + bytes.length at below
          change front.length ≤ k at from'
          omega
        exact (List.getElem?_append_left inside).symm
      · have rest := ih (front ++ bytes)
        rwa [List.append_assoc, List.length_append, Nat.add_assoc, ← total_cons] at rest

/-- `main` before its loop, whatever the buffers hold. -/
def main (rbuf : Nat → List UInt8) : Main := ⟨0, 0, rbuf, fun _ => .zero⟩

/-- **The batches.**  Over all calls of `lio_listio` there is exactly one request for each read:
the `k`th with the bytes of the `k`th read at the offset of the reads before it. -/
theorem copy_batches (rbuf : Nat → List UInt8) (reads : List (List UInt8))
    (sizes : ∀ bytes ∈ reads, 1 ≤ bytes.length ∧ bytes.length ≤ sizeRbuf)
    (small : total reads < 2 ^ 31) :
    let calls := (main rbuf).copy (reads ++ [[]])
    let requests := calls.flatMap Batch.requests
    requests.length = reads.length ∧
      (∀ k, requests[k]? =
        reads[k]?.map fun bytes => Request.mk (total (reads.take k) : Nat) bytes) ∧
      (∀ call ∈ calls, call.nent ≤ numAiocbArray ∧ call.requests.length = call.nent) ∧
      (∀ r ∈ requests, 1 ≤ r.bytes.length ∧ r.bytes.length ≤ sizeRbuf) ∧
      Tiles reads.flatten 0 requests (total reads) := by
  intro calls requests
  have some : ∀ bytes ∈ reads, bytes ≠ [] := by
    intro bytes member empty
    have nonempty := (sizes bytes member).1
    rw [empty] at nonempty
    exact absurd nonempty (by decide)
  have filled : (main rbuf).Filled := filled_of_zero rfl
  have all : requests = requestsFrom 0 reads :=
    copy_requests filled rfl some (by rwa [Nat.zero_add])
  have each (k : Nat) : requests[k]? =
      reads[k]?.map fun bytes => Request.mk (total (reads.take k) : Nat) bytes := by
    rw [all, getElem?_requestsFrom, Nat.zero_add]
  have tiles : Tiles reads.flatten 0 (requestsFrom 0 reads) (0 + total reads) :=
    requestsFrom_tiles []
  refine ⟨?_, each, copy_nent filled some, ?_, ?_⟩
  · rw [all]
    exact length_requestsFrom
  · intro r member
    obtain ⟨k, found⟩ := List.getElem?_of_mem member
    rw [each, Option.map_eq_some_iff] at found
    obtain ⟨bytes, read, rfl⟩ := found
    exact sizes bytes (List.mem_of_getElem? read)
  · rwa [all, ← Nat.zero_add (total reads)]

/-- Six reads: a full batch, and a batch of one at the end of the source. -/
theorem copy_batches_six :
    let calls := (main fun _ => []).copy ([[1], [2, 3], [4], [5], [6], [7]] ++ [[]])
    calls.map Batch.nent = [5, 1] ∧
      Tiles [1, 2, 3, 4, 5, 6, 7] 0 (calls.flatMap Batch.requests) 7 :=
  ⟨by decide, (copy_batches (fun _ => []) [[1], [2, 3], [4], [5], [6], [7]] (by decide)
    (by decide)).2.2.2.2⟩

end Alnp.AioListio
