import Mathlib.Data.List.Perm.Basic
import Mathlib.Data.List.Basic

/-!
# A system and one of its parts

The parts of a system are in a list, and one of them changes (`List.set`): what holds of all parts,
of some part, and what the parts have together.
-/

namespace Alnp

variable {α β : Type*} {P : α → Prop} {xs : List α} {i : Nat} {x x' : α}

theorem mem_set_of_getElem? (here : xs[i]? = some x) (x' : α) : x' ∈ xs.set i x' :=
  List.mem_set (List.getElem?_eq_some_iff.mp here).1 x'

/-- What all parts have they have still if the new one has it. -/
theorem forall_mem_set (all : ∀ x ∈ xs, P x) (new : P x') : ∀ x ∈ xs.set i x', P x := by
  intro x member
  rcases List.mem_or_eq_of_mem_set member with old | rfl
  · exact all x old
  · exact new

/-- The same for a part between the others. -/
theorem forall_mem_replace {before after : List α} (all : ∀ y ∈ before ++ x :: after, P y)
    (new : P x') : ∀ y ∈ before ++ x' :: after, P y := by
  obtain ⟨early, others⟩ := List.forall_mem_append.mp all
  exact List.forall_mem_append.mpr
    ⟨early, List.forall_mem_cons.mpr ⟨new, (List.forall_mem_cons.mp others).2⟩⟩

/-- What all parts have they have still without one. -/
theorem forall_mem_remove {before after : List α} (all : ∀ y ∈ before ++ x :: after, P y) :
    ∀ y ∈ before ++ after, P y := by
  obtain ⟨early, others⟩ := List.forall_mem_append.mp all
  exact List.forall_mem_append.mpr ⟨early, (List.forall_mem_cons.mp others).2⟩

/-- What some part has some part has still if the changed one does not lose it. -/
theorem exists_mem_set (here : xs[i]? = some x) (keeps : P x → P x') (found : ∃ x ∈ xs, P x) :
    ∃ x ∈ xs.set i x', P x := by
  obtain ⟨y, member, holds⟩ := found
  obtain ⟨j, there⟩ := List.mem_iff_getElem?.mp member
  by_cases same : i = j
  · subst same
    cases here.symm.trans there
    exact ⟨x', mem_set_of_getElem? here x', keeps holds⟩
  · exact ⟨y, List.mem_of_getElem? ((List.getElem?_set_ne same).trans there), holds⟩

theorem filterMap_cons_toList (f : α → Option β) (x : α) (xs : List α) :
    (x :: xs).filterMap f = (f x).toList ++ xs.filterMap f := by
  cases at' : f x with
  | none => exact List.filterMap_cons_none at'
  | some y => exact List.filterMap_cons_some at'

/-- What the parts have, with what the one loses, is what they have had with what it gains. -/
theorem perm_filterMap_set (f : α → Option β) (here : xs[i]? = some x) (x' : α) :
    ((f x).toList ++ (xs.set i x').filterMap f).Perm ((f x').toList ++ xs.filterMap f) := by
  induction xs generalizing i with
  | nil => cases here
  | cons y xs ih =>
      cases i with
      | zero =>
          cases here
          rw [List.set_cons_zero, filterMap_cons_toList, filterMap_cons_toList]
          exact List.perm_append_comm_assoc _ _ _
      | succ i =>
          rw [List.set_cons_succ, filterMap_cons_toList, filterMap_cons_toList]
          refine (List.perm_append_comm_assoc _ _ _).trans ?_
          exact ((ih here).append_left _).trans (List.perm_append_comm_assoc _ _ _)

/-- A change that is not seen. -/
theorem filterMap_set_of_eq (f : α → Option β) (here : xs[i]? = some x) (same : f x' = f x) :
    (xs.set i x').filterMap f = xs.filterMap f := by
  induction xs generalizing i with
  | nil => cases here
  | cons y xs ih =>
      cases i with
      | zero =>
          cases here
          rw [List.set_cons_zero, filterMap_cons_toList, filterMap_cons_toList, same]
      | succ i =>
          rw [List.set_cons_succ, filterMap_cons_toList, filterMap_cons_toList, ih here]

/-- A part that has nothing leaves less than one for each. -/
theorem length_filterMap_lt (f : α → Option β) (member : x ∈ xs) (none : f x = none) :
    (xs.filterMap f).length < xs.length := by
  obtain ⟨before, after, rfl⟩ := List.append_of_mem member
  have front := List.length_filterMap_le f before
  have behind := List.length_filterMap_le f after
  rw [List.filterMap_append, List.filterMap_cons_none none, List.length_append,
    List.length_append, List.length_cons]
  omega

/-- What is behind the first item, where none comes twice. -/
theorem mem_drop_one {l : List α} {a b : α} (head : l[0]? = some a) (nodup : l.Nodup) :
    b ∈ l.drop 1 ↔ b ∈ l ∧ b ≠ a := by
  cases l with
  | nil => cases head
  | cons first rest =>
      cases head
      have absent := (List.nodup_cons.mp nodup).1
      rw [List.drop_one, List.tail_cons, List.mem_cons]
      exact ⟨fun member => ⟨.inr member, fun same => absent (same ▸ member)⟩,
        fun ⟨among, other⟩ => among.resolve_left other⟩

end Alnp
