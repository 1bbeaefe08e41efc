import Mathlib.Data.List.Perm.Basic
import Mathlib.Data.List.Nodup
import Alnp.Lib.Access

/-!
# Tables kept in the prefix of an array

A table of `cnt` entries kept in `xs[0..cnt)`.  An entry is added behind the last one, and an entry
is removed by moving the last one into its place.  `live` is the table as a list; every result
here says what a store does to it:

* `live_append`: a store at `cnt` appends.
* `live_store_of_le`: a store at or past the end leaves the table alone.
* `live_moveLast`: moving the last entry to `i` and dropping the count is `swapRemove`, which is
  `List.eraseIdx` up to the order of the entries (`swapRemove_perm`).
-/

namespace Alnp

variable {α β : Type} {n cnt i : Nat}

/-! ## Removing an entry by moving the last one into its place -/

/-- The list without its `i`th entry, whose place the last entry takes. -/
def swapRemove (l : List α) (i : Nat) : List α :=
  match l.getLast? with
  | none => []
  | some last => (l.set i last).dropLast

theorem swapRemove_concat_of_lt {l : List α} {last : α} (lt : i < l.length) :
    swapRemove (l ++ [last]) i = l.set i last := by
  simp [swapRemove, List.set_append_left i last lt]

theorem swapRemove_concat_length (l : List α) (last : α) :
    swapRemove (l ++ [last]) l.length = l := by
  simp [swapRemove]

/-- Swap removal removes exactly the `i`th entry, up to order. -/
theorem swapRemove_perm {l : List α} (lt : i < l.length) :
    (swapRemove l i).Perm (l.eraseIdx i) := by
  rcases List.eq_nil_or_concat l with rfl | ⟨front, last, rfl⟩
  · cases lt
  · simp only [List.concat_eq_append, List.length_append, List.length_singleton] at lt ⊢
    rcases Nat.lt_or_ge i front.length with inside | atEnd
    · rw [swapRemove_concat_of_lt inside, List.eraseIdx_append_of_lt_length inside]
      exact (List.set_perm_cons_eraseIdx inside last).trans (List.perm_append_singleton _ _).symm
    · have here : i = front.length := by omega
      subst here
      rw [swapRemove_concat_length, List.eraseIdx_append_of_length_le (Nat.le_refl _)]
      simp

/-- An entry together with what is left after its removal is the whole list. -/
theorem cons_swapRemove_perm {l : List α} (lt : i < l.length) :
    (l[i] :: swapRemove l i).Perm l :=
  ((swapRemove_perm lt).cons l[i]).trans (List.getElem_cons_eraseIdx_perm lt)

/-- Swap removal leaves the entries in front of the removed one in place. -/
theorem getElem?_swapRemove_of_lt {l : List α} {k : Nat} (before : k < i) (lt : i < l.length) :
    (swapRemove l i)[k]? = l[k]? := by
  rcases List.eq_nil_or_concat l with rfl | ⟨front, last, rfl⟩
  · cases lt
  · simp only [List.concat_eq_append, List.length_append, List.length_singleton] at lt ⊢
    rcases Nat.lt_or_ge i front.length with inside | atEnd
    · rw [swapRemove_concat_of_lt inside, List.getElem?_set_ne (by omega),
        List.getElem?_append_left (by omega)]
    · have here : i = front.length := by omega
      subst here
      rw [swapRemove_concat_length, List.getElem?_append_left before]

/-- Behind the removed entry one entry is left out: the last, which has come into its place. -/
theorem drop_succ_swapRemove {l : List α} (lt : i < l.length) :
    (swapRemove l i).drop (i + 1) = (l.drop (i + 1)).dropLast := by
  rcases List.eq_nil_or_concat l with rfl | ⟨front, last, rfl⟩
  · cases lt
  · simp only [List.concat_eq_append, List.length_append, List.length_singleton] at lt ⊢
    rcases Nat.lt_or_ge i front.length with inside | atEnd
    · rw [swapRemove_concat_of_lt inside, List.drop_append_of_le_length inside,
        List.dropLast_concat]
      exact List.drop_set_of_lt (Nat.lt_succ_self i)
    · have here : i = front.length := by omega
      subst here
      rw [swapRemove_concat_length, List.drop_eq_nil_of_le (Nat.le_succ _),
        List.drop_eq_nil_of_le (by simp)]
      rfl

/-- From the place of the removed entry on stand the entries that stood behind it. -/
theorem drop_swapRemove_perm {l : List α} (lt : i < l.length) :
    ((swapRemove l i).drop i).Perm (l.drop (i + 1)) := by
  rcases List.eq_nil_or_concat l with rfl | ⟨front, last, rfl⟩
  · cases lt
  · simp only [List.concat_eq_append, List.length_append, List.length_singleton] at lt ⊢
    rcases Nat.lt_or_ge i front.length with inside | atEnd
    · have place : (front.set i last).drop i = last :: front.drop (i + 1) := by
        rw [List.drop_eq_getElem_cons (by simpa using inside), List.getElem_set_self,
          List.drop_set_of_lt (Nat.lt_succ_self i)]
      rw [swapRemove_concat_of_lt inside, place, List.drop_append_of_le_length inside]
      exact (List.perm_append_singleton last _).symm
    · have here : i = front.length := by omega
      subst here
      rw [swapRemove_concat_length, List.drop_eq_nil_of_le (Nat.le_refl _),
        List.drop_eq_nil_of_le (by simp)]

theorem map_swapRemove (f : α → β) (l : List α) (i : Nat) :
    (swapRemove l i).map f = swapRemove (l.map f) i := by
  rcases List.eq_nil_or_concat l with rfl | ⟨front, last, rfl⟩
  · rfl
  · simp [swapRemove, List.map_set, List.map_dropLast]

/-- Keys that were pairwise distinct stay so, and the removed one is gone. -/
theorem nodup_map_swapRemove {f : α → β} {l : List α} (lt : i < l.length)
    (distinct : (l.map f).Nodup) :
    ((swapRemove l i).map f).Nodup ∧ f l[i] ∉ (swapRemove l i).map f := by
  have perm := (cons_swapRemove_perm lt).map f
  have nodup := perm.nodup_iff.mpr distinct
  rw [List.map_cons, List.nodup_cons] at nodup
  exact ⟨nodup.2, nodup.1⟩

/-- With distinct keys, the entries left are those with another key. -/
theorem mem_swapRemove_iff {f : α → β} {l : List α} (lt : i < l.length)
    (distinct : (l.map f).Nodup) {x : α} :
    x ∈ swapRemove l i ↔ x ∈ l ∧ f x ≠ f l[i] := by
  have perm := cons_swapRemove_perm lt
  have gone := (nodup_map_swapRemove lt distinct).2
  rw [← perm.mem_iff, List.mem_cons]
  constructor
  · intro left
    refine ⟨.inr left, fun same => gone ?_⟩
    rw [← same]
    exact List.mem_map_of_mem left
  · intro both
    rcases both with ⟨rfl | left, other⟩
    · exact absurd rfl other
    · exact left

/-! ## The live prefix of an array -/

/-- The table kept in `xs[0..cnt)`. -/
def live (xs : Vector α n) (cnt : Nat) : List α :=
  xs.toList.take cnt

theorem length_live (xs : Vector α n) (le : cnt ≤ n) : (live xs cnt).length = cnt := by
  simp [live, le]

theorem getElem?_live (xs : Vector α n) (lt : i < cnt) : (live xs cnt)[i]? = xs[i]? := by
  simp [live, List.getElem?_take_of_lt lt]

/-- The live prefix depends on the elements below `cnt` only. -/
theorem live_congr {xs ys : Vector α n} (same : ∀ k, k < cnt → xs[k]? = ys[k]?) :
    live xs cnt = live ys cnt := by
  refine List.ext_getElem? fun k => ?_
  rcases Nat.lt_or_ge k cnt with inside | outside
  · rw [getElem?_live xs inside, getElem?_live ys inside, same k inside]
  · simp [live, List.getElem?_take_eq_none outside]

theorem map_live (f : α → β) (xs : Vector α n) (cnt : Nat) :
    (live xs cnt).map f = live (xs.map f) cnt := by
  simp [live, List.map_take, Vector.toList_map]

theorem live_succ (xs : Vector α n) (lt : cnt < n) :
    live xs (cnt + 1) = live xs cnt ++ [xs[cnt]] := by
  simp [live, List.take_add_one, lt]

/-- A store at `cnt` adds an entry behind the last one. -/
theorem live_append (xs : Vector α n) (a : α) (lt : cnt < n) :
    live (xs.setIfInBounds cnt a) (cnt + 1) = live xs cnt ++ [a] := by
  rw [live_succ _ lt]
  simp [live, List.take_set_of_le]

/-- A store at or past the end of the table leaves the table alone. -/
theorem live_store_of_le (xs : Vector α n) (a : α) (le : cnt ≤ i) :
    live (xs.setIfInBounds i a) cnt = live xs cnt := by
  simp [live, List.take_set_of_le le]

/-! ## Looking an entry up by its key -/

section Search

variable [Inhabited α] [DecidableEq β] {f : α → β} {key : β}

/-- The scan for a key fails exactly when no entry has it. -/
theorem search_eq_none_iff (f : α → β) (key : β) (xs : Vector α n) (le : cnt ≤ n) :
    (Access.search (fun x => f x == key) xs cnt).value = none ↔
      key ∉ (live xs cnt).map f := by
  rw [Access.search_value _ xs le, List.findIdx?_eq_none_iff]
  change (∀ x ∈ live xs cnt, (f x == key) = false) ↔ _
  simp

/-- The scan for a key ends at an entry that has it. -/
theorem of_search_eq_some (xs : Vector α n) (le : cnt ≤ n)
    (found : (Access.search (fun x => f x == key) xs cnt).value = some i) :
    ∃ lt : i < cnt, f xs[i] = key := by
  rw [Access.search_value _ xs le, List.findIdx?_eq_some_iff_getElem] at found
  obtain ⟨inside, hit, -⟩ := found
  have lt : i < cnt := (length_live xs le) ▸ inside
  refine ⟨lt, ?_⟩
  simpa [List.getElem_take] using hit

end Search

/-! ## Moving the last entry -/

/-- `if (i != cnt - 1) xs[i] = xs[cnt - 1];` -/
def moveLast [Inhabited α] (xs : Vector α n) (i cnt : Nat) : Access (Vector α n) :=
  if (i : Int) ≠ (cnt : Int) - 1 then do
    let last ← Access.read xs ((cnt : Int) - 1)
    Access.write xs i last
  else pure xs

theorem moveLast_within [Inhabited α] (xs : Vector α n) (lt : i < cnt) (le : cnt ≤ n) :
    (moveLast xs i cnt).Within n := by
  unfold moveLast
  split
  · exact Access.within_bind.mpr
      ⟨(Access.within_read _ _).mpr (by omega), (Access.within_write _ _ _).mpr (by omega)⟩
  · exact Access.within_pure xs

/-- Moving the last entry into place `i` touches place `i` only, and only when it is not the last
place of the table. -/
theorem getElem_moveLast [Inhabited α] (xs : Vector α n) {k : Nat} (lt : i < cnt) (inside : k < n)
    (other : k ≠ i ∨ cnt ≤ i + 1) : (moveLast xs i cnt).value[k] = xs[k] := by
  unfold moveLast
  split
  · have ne : i ≠ k := by omega
    simp [ne]
  · rfl

/-- Moving the last entry into place `i` and dropping the count removes entry `i`. -/
theorem live_moveLast [Inhabited α] (xs : Vector α n) (lt : i < cnt) (le : cnt ≤ n) :
    live (moveLast xs i cnt).value (cnt - 1) = swapRemove (live xs cnt) i := by
  obtain ⟨k, rfl⟩ : ∃ k, cnt = k + 1 := ⟨cnt - 1, by omega⟩
  have last : ((k + 1 : Nat) : Int) - 1 = (k : Nat) := by omega
  rw [live_succ xs (by omega)]
  simp only [moveLast, last, Nat.add_sub_cancel]
  rcases Nat.lt_or_ge i k with inside | atEnd
  · have ne : (i : Int) ≠ (k : Nat) := by omega
    rw [swapRemove_concat_of_lt (by rw [length_live xs (by omega)]; exact inside), if_pos ne]
    simp [live, List.take_set, show k < n by omega]
  · have here : i = k := by omega
    subst here
    have removed := swapRemove_concat_length (live xs i) xs[i]
    rw [length_live xs (by omega)] at removed
    simp [removed]

end Alnp
