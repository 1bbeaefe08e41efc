import Mathlib.Data.Vector.Basic

/-!
# Array accesses with their indices

C indexes an array with any integer and leaves an index outside it undefined.  An `Access` is a
computation together with the indices it used, in order, so that "every index is in bounds" is a
statement about the code and not a side condition of its model.  A read outside the array yields
the default value and a write outside it changes nothing; both still leave their index behind.

* `Access.Within n`: every index used is in `0..n-1`; it splits over `bind` (`within_bind`).
* `Access.search`: the scan `for (i = 0; i < cnt; i++) if (...) break;` for the first match.
* `Access.fold`: the loop `for (i = 0; i < cnt; i++) acc = f(acc, xs[i]);`.

Both come with their value on the scanned prefix (`search_value`, `fold_value`) and their bounds
(`search_within`, `fold_within`).
-/

namespace Alnp

/-- A value together with the array indices used to compute it. -/
structure Access (α : Type) where
  value : α
  indices : List Int

namespace Access

variable {α β : Type} {n : Nat}

/-- A computation that touches no array. -/
protected def pure (a : α) : Access α := ⟨a, []⟩

/-- Run `m`, then `f` on its value; the indices of `f` come after those of `m`. -/
protected def bind (m : Access α) (f : α → Access β) : Access β :=
  ⟨(f m.value).value, m.indices ++ (f m.value).indices⟩

instance : Monad Access where
  pure := Access.pure
  bind := Access.bind

@[simp] theorem value_pure (a : α) : (pure a : Access α).value = a := rfl

@[simp] theorem indices_pure (a : α) : (pure a : Access α).indices = [] := rfl

@[simp] theorem value_bind (m : Access α) (f : α → Access β) :
    (m >>= f).value = (f m.value).value := rfl

@[simp] theorem indices_bind (m : Access α) (f : α → Access β) :
    (m >>= f).indices = m.indices ++ (f m.value).indices := rfl

/-- A computation whose value is renamed in between. -/
theorem bind_pure_bind {γ : Type} (m : Access α) (g : α → β) (f : β → Access γ) :
    ((m >>= fun a => pure (g a)) >>= f) = m >>= fun a => f (g a) := by
  change Access.mk _ (m.indices ++ [] ++ _) = Access.mk _ (m.indices ++ _)
  rw [List.append_nil]
  rfl

/-- `xs[i]`. -/
def read [Inhabited α] (xs : Vector α n) (i : Int) : Access α :=
  ⟨if 0 ≤ i then xs[i.toNat]?.getD default else default, [i]⟩

/-- `xs[i] = a`. -/
def write (xs : Vector α n) (i : Int) (a : α) : Access (Vector α n) :=
  ⟨if 0 ≤ i then xs.setIfInBounds i.toNat a else xs, [i]⟩

/-- `xs[i].field = v`, for a store that changes the element by `f`. -/
def modify (xs : Vector α n) (i : Int) (f : α → α) : Access (Vector α n) :=
  ⟨if 0 ≤ i then (xs[i.toNat]?).elim xs fun x => xs.setIfInBounds i.toNat (f x) else xs, [i]⟩

@[simp] theorem indices_read [Inhabited α] (xs : Vector α n) (i : Int) :
    (read xs i).indices = [i] := rfl

@[simp] theorem indices_write (xs : Vector α n) (i : Int) (a : α) :
    (write xs i a).indices = [i] := rfl

@[simp] theorem value_read_nat [Inhabited α] (xs : Vector α n) (i : Nat) :
    (read xs i).value = xs[i]?.getD default := by
  simp [read]

@[simp] theorem value_write_nat (xs : Vector α n) (i : Nat) (a : α) :
    (write xs i a).value = xs.setIfInBounds i a := by
  simp [write]

@[simp] theorem indices_modify (xs : Vector α n) (i : Int) (f : α → α) :
    (modify xs i f).indices = [i] := rfl

theorem value_modify_nat (xs : Vector α n) {i : Nat} (f : α → α) (lt : i < n) :
    (modify xs i f).value = xs.setIfInBounds i (f xs[i]) := by
  simp [modify, lt]

/-- A field store touches no other element. -/
theorem getElem?_value_modify (xs : Vector α n) {i : Int} (f : α → α) {k : Nat}
    (ne : (k : Int) ≠ i) : (modify xs i f).value[k]? = xs[k]? := by
  unfold modify
  dsimp only
  split
  · cases xs[i.toNat]? with
    | none => rfl
    | some x => exact Vector.getElem?_setIfInBounds_ne (by omega)
  · rfl

/-! ## Bounds -/

/-- Every index used is an index of an array of `n` elements. -/
def Within (n : Nat) (m : Access α) : Prop :=
  ∀ i ∈ m.indices, 0 ≤ i ∧ i < n

@[simp] theorem within_pure (a : α) : Within n (pure a : Access α) := by
  intro i member
  cases member

theorem within_bind {m : Access α} {f : α → Access β} :
    Within n (m >>= f) ↔ Within n m ∧ Within n (f m.value) :=
  List.forall_mem_append

@[simp] theorem within_read [Inhabited α] {k : Nat} (xs : Vector α k) (i : Int) :
    Within n (read xs i) ↔ 0 ≤ i ∧ i < n := by
  simp [Within]

@[simp] theorem within_write {k : Nat} (xs : Vector α k) (i : Int) (a : α) :
    Within n (write xs i a) ↔ 0 ≤ i ∧ i < n := by
  simp [Within]

@[simp] theorem within_modify {k : Nat} (xs : Vector α k) (i : Int) (f : α → α) :
    Within n (modify xs i f) ↔ 0 ≤ i ∧ i < n := by
  simp [Within]

/-! ## Scanning a prefix -/

variable [Inhabited α]

/-- Scan `k` elements from index `i` on for the first that satisfies `p`. -/
def searchFrom (p : α → Bool) (xs : Vector α n) (i : Nat) : Nat → Access (Option Nat)
  | 0 => pure none
  | k + 1 => do
      let x ← read xs i
      if p x then pure (some i) else searchFrom p xs (i + 1) k

/-- Scan `xs[0..cnt)` for the first element that satisfies `p`. -/
def search (p : α → Bool) (xs : Vector α n) (cnt : Nat) : Access (Option Nat) :=
  searchFrom p xs 0 cnt

theorem searchFrom_value (p : α → Bool) (xs : Vector α n) (k : Nat) :
    ∀ i, i + k ≤ n → (searchFrom p xs i k).value =
      (((xs.toList.drop i).take k).findIdx? p).map (i + ·) := by
  induction k with
  | zero => intro i _; simp [searchFrom]
  | succ k ih =>
      intro i le
      have lt : i < xs.toList.length := by simp; omega
      have step : ((xs.toList.drop i).take (k + 1)) =
          xs.toList[i] :: (xs.toList.drop (i + 1)).take k := by
        rw [List.drop_eq_getElem_cons lt, List.take_succ_cons]
      have here : xs[i]?.getD default = xs.toList[i] := by
        simp [Vector.getElem?_eq_getElem (show i < n by omega)]
      rw [step, List.findIdx?_cons]
      simp only [searchFrom, value_bind, value_read_nat, here]
      split
      · rfl
      · rw [ih (i + 1) (by omega), Option.map_map]
        congr 1
        funext j
        simp only [Function.comp_apply]
        omega

/-- The scan finds the first position of the prefix that satisfies `p`. -/
theorem search_value (p : α → Bool) (xs : Vector α n) {cnt : Nat} (le : cnt ≤ n) :
    (search p xs cnt).value = (xs.toList.take cnt).findIdx? p := by
  have found := searchFrom_value p xs cnt 0 (by omega)
  simpa [search] using found

theorem searchFrom_within (p : α → Bool) (xs : Vector α n) (k : Nat) :
    ∀ i, i + k ≤ n → Within n (searchFrom p xs i k) := by
  induction k with
  | zero => intro i _; exact within_pure none
  | succ k ih =>
      intro i le
      refine within_bind.mpr ⟨(within_read xs i).mpr (by omega), ?_⟩
      split
      · exact within_pure (some i)
      · exact ih (i + 1) (by omega)

/-- The scan of a prefix of the array stays inside the array. -/
theorem search_within (p : α → Bool) (xs : Vector α n) {cnt : Nat} (le : cnt ≤ n) :
    Within n (search p xs cnt) :=
  searchFrom_within p xs cnt 0 (by omega)

/-! ## Folding over a prefix -/

/-- Fold `f` over `k` elements from index `i` on. -/
def foldFrom (f : β → α → β) (xs : Vector α n) (i : Nat) (acc : β) : Nat → Access β
  | 0 => pure acc
  | k + 1 => do
      let x ← read xs i
      foldFrom f xs (i + 1) (f acc x) k

/-- Fold `f` over `xs[0..cnt)`. -/
def fold (f : β → α → β) (acc : β) (xs : Vector α n) (cnt : Nat) : Access β :=
  foldFrom f xs 0 acc cnt

theorem foldFrom_value (f : β → α → β) (xs : Vector α n) (k : Nat) :
    ∀ i acc, i + k ≤ n →
      (foldFrom f xs i acc k).value = ((xs.toList.drop i).take k).foldl f acc := by
  induction k with
  | zero => intro i acc _; simp [foldFrom]
  | succ k ih =>
      intro i acc le
      have lt : i < xs.toList.length := by simp; omega
      have here : xs[i]?.getD default = xs.toList[i] := by
        simp [Vector.getElem?_eq_getElem (show i < n by omega)]
      rw [List.drop_eq_getElem_cons lt, List.take_succ_cons, List.foldl_cons]
      simp only [foldFrom, value_bind, value_read_nat, here]
      exact ih (i + 1) _ (by omega)

/-- The loop folds the scanned prefix from the left. -/
theorem fold_value (f : β → α → β) (acc : β) (xs : Vector α n) {cnt : Nat} (le : cnt ≤ n) :
    (fold f acc xs cnt).value = (xs.toList.take cnt).foldl f acc := by
  have folded := foldFrom_value f xs cnt 0 acc (by omega)
  simpa [fold] using folded

theorem foldFrom_within (f : β → α → β) (xs : Vector α n) (k : Nat) :
    ∀ i acc, i + k ≤ n → Within n (foldFrom f xs i acc k) := by
  induction k with
  | zero => intro i acc _; exact within_pure acc
  | succ k ih =>
      intro i acc le
      exact within_bind.mpr ⟨(within_read xs i).mpr (by omega), ih (i + 1) _ (by omega)⟩

/-- The fold over a prefix of the array stays inside the array. -/
theorem fold_within (f : β → α → β) (acc : β) (xs : Vector α n) {cnt : Nat} (le : cnt ≤ n) :
    Within n (fold f acc xs cnt) :=
  foldFrom_within f xs cnt 0 acc (by omega)

end Access

end Alnp
