import Alnp.Lib.Access

/-!
# Buffers without a length in their type

A buffer as the list of its elements, for code that copies strings of any length around.  As in
`Alnp.Access` a store outside the buffer changes nothing, and every index stored to is left behind.

* `Buffer.store`: `buf[i] = a`.
* `Buffer.copy`: `memcpy(buf, src, n)`; it stays inside exactly if the source is no longer
  (`within_copy`).
-/

namespace Alnp.Buffer

variable {α : Type} {src buf : List α}

/-- `buf[i] = a` -/
def store (i : Int) (a : α) (buf : List α) : Access (List α) :=
  ⟨if 0 ≤ i then buf.set i.toNat a else buf, [i]⟩

/-- `memcpy(buf, src, n)` of the `n` elements `src`. -/
def copy (src buf : List α) : Access (List α) :=
  ⟨(src ++ buf.drop src.length).take buf.length, (List.range src.length).map Int.ofNat⟩

@[simp] theorem value_store_nat (i : Nat) (a : α) : (store i a buf).value = buf.set i a := by
  simp [store]

@[simp] theorem length_store (i : Int) (a : α) : (store i a buf).value.length = buf.length := by
  unfold store
  dsimp only
  split <;> simp

@[simp] theorem within_store (n : Nat) (i : Int) (a : α) :
    (store i a buf).Within n ↔ 0 ≤ i ∧ i < n := by
  simp [store, Access.Within]

@[simp] theorem length_copy : (copy src buf).value.length = buf.length := by
  simp only [copy, List.length_take, List.length_append, List.length_drop]
  omega

theorem value_copy (fits : src.length ≤ buf.length) :
    (copy src buf).value = src ++ buf.drop src.length := by
  refine List.take_of_length_le ?_
  rw [List.length_append, List.length_drop]
  omega

/-- What has been copied is at the beginning. -/
theorem take_copy (fits : src.length ≤ buf.length) :
    (copy src buf).value.take src.length = src := by
  rw [value_copy fits, List.take_left]

theorem within_copy (n : Nat) : (copy src buf).Within n ↔ src.length ≤ n := by
  unfold copy Access.Within
  constructor
  · intro within
    rcases Nat.eq_zero_or_pos src.length with none | some
    · omega
    · have last := (within ((src.length - 1 : Nat) : Int) (List.mem_map.mpr
        ⟨src.length - 1, List.mem_range.mpr (by omega), rfl⟩)).2
      omega
  · intro fits i member
    obtain ⟨k, below, rfl⟩ := List.mem_map.mp member
    have below := List.mem_range.mp below
    simp only [Int.ofNat_eq_natCast]
    omega

end Alnp.Buffer
