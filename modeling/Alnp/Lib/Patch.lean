import Mathlib.Data.List.Basic

/-!
# Patches of a list

A `Patch` puts a block of values at an offset of a list; where the block starts behind the end, the
gap is filled.  It is what a positioned write does to the content of a file.

A family of patches that are all cut out of one source may be applied in any order: afterwards the
list has the values of the source wherever a patch lies (`getElem?_applyAll_of_covers`) or the list
had them before (`getElem?_applyAll_of_agrees`), and it is as it was behind all patches
(`getElem?_applyAll_of_beyond`).
-/

namespace Alnp

structure Patch (α : Type) where
  offset : Nat
  values : List α

namespace Patch

variable {α : Type} (fill : α)

/-- The list after the patch; an empty patch does nothing, whatever its offset. -/
def apply (p : Patch α) (content : List α) : List α :=
  if p.values = [] then content
  else
    (content ++ List.replicate (p.offset - content.length) fill).take p.offset ++ p.values ++
      content.drop (p.offset + p.values.length)

/-- The list after the patches, one after the other. -/
def applyAll (ps : List (Patch α)) (content : List α) : List α :=
  ps.foldl (fun content p => p.apply fill content) content

/-- The patch lies on position `k`. -/
def Covers (p : Patch α) (k : Nat) : Prop :=
  p.offset ≤ k ∧ k < p.offset + p.values.length

/-- The patch is a block of `source`. -/
def CutFrom (source : List α) (p : Patch α) : Prop :=
  ∀ k, p.Covers k → p.values[k - p.offset]? = source[k]?

variable {fill} {p : Patch α} {ps : List (Patch α)} {source content : List α} {k : Nat}

/-! ## One patch -/

theorem getElem?_apply_of_covers (covers : p.Covers k) :
    (p.apply fill content)[k]? = p.values[k - p.offset]? := by
  obtain ⟨from', below⟩ := covers
  have some : p.values ≠ [] := by
    intro none
    rw [none, List.length_nil] at below
    omega
  have head : ((content ++ List.replicate (p.offset - content.length) fill).take p.offset).length =
      p.offset := by
    simp only [List.length_take, List.length_append, List.length_replicate]
    omega
  rw [apply, if_neg some, List.append_assoc, List.getElem?_append_right (by omega), head,
    List.getElem?_append_left (by omega)]

/-- Behind the patch nothing changes. -/
theorem getElem?_apply_of_beyond (beyond : p.offset + p.values.length ≤ k) :
    (p.apply fill content)[k]? = content[k]? := by
  rw [apply]
  split
  · rfl
  · have head : ((content ++ List.replicate (p.offset - content.length) fill).take p.offset ++
        p.values).length = p.offset + p.values.length := by
      simp only [List.length_append, List.length_take, List.length_replicate]
      omega
    rw [List.getElem?_append_right (by omega), head, List.getElem?_drop]
    congr 1
    omega

/-- In front of the patch nothing changes within the list. -/
theorem getElem?_apply_of_before (before : k < p.offset) (inside : k < content.length) :
    (p.apply fill content)[k]? = content[k]? := by
  rw [apply]
  split
  · rfl
  · have head : k < ((content ++ List.replicate (p.offset - content.length) fill).take
        p.offset).length := by
      simp only [List.length_append, List.length_take, List.length_replicate]
      omega
    rw [List.append_assoc, List.getElem?_append_left head, List.getElem?_take_of_lt before,
      List.getElem?_append_left inside]

/-- A patch cut from the source keeps what agrees with the source. -/
theorem getElem?_apply_of_agrees (cut : p.CutFrom source) (inside : k < content.length)
    (agrees : content[k]? = source[k]?) : (p.apply fill content)[k]? = source[k]? := by
  by_cases covers : p.Covers k
  · exact (getElem?_apply_of_covers covers).trans (cut k covers)
  · rcases Nat.lt_or_ge k p.offset with before | after
    · exact (getElem?_apply_of_before before inside).trans agrees
    · refine (getElem?_apply_of_beyond ?_).trans agrees
      exact Nat.not_lt.mp fun below => covers ⟨after, below⟩

/-! ## Patches in any order -/

theorem applyAll_cons : applyAll fill (p :: ps) content = applyAll fill ps (p.apply fill content) :=
  rfl

theorem getElem?_applyAll_of_agrees (cut : ∀ p ∈ ps, p.CutFrom source)
    (inside : k < content.length) (bound : k < source.length)
    (agrees : content[k]? = source[k]?) : (applyAll fill ps content)[k]? = source[k]? := by
  induction ps generalizing content with
  | nil => exact agrees
  | cons p ps ih =>
      have agrees' : (p.apply fill content)[k]? = source[k]? :=
        getElem?_apply_of_agrees (cut p List.mem_cons_self) inside agrees
      refine ih (fun q member => cut q (List.mem_cons_of_mem p member)) ?_ agrees'
      rw [List.getElem?_eq_getElem bound] at agrees'
      exact (List.getElem?_eq_some_iff.mp agrees').1

theorem getElem?_applyAll_of_covers (cut : ∀ p ∈ ps, p.CutFrom source) (bound : k < source.length)
    (covered : ∃ p ∈ ps, p.Covers k) : (applyAll fill ps content)[k]? = source[k]? := by
  induction ps generalizing content with
  | nil => exact absurd covered nofun
  | cons p ps ih =>
      have cut' : ∀ q ∈ ps, q.CutFrom source := fun q member =>
        cut q (List.mem_cons_of_mem p member)
      by_cases later : ∃ q ∈ ps, q.Covers k
      · exact ih cut' later
      · obtain ⟨q, member, covers⟩ := covered
        rcases List.mem_cons.mp member with rfl | member
        · have placed : (q.apply fill content)[k]? = source[k]? :=
            (getElem?_apply_of_covers covers).trans (cut q List.mem_cons_self k covers)
          rw [applyAll_cons]
          refine getElem?_applyAll_of_agrees cut' ?_ bound placed
          rw [List.getElem?_eq_getElem bound] at placed
          exact (List.getElem?_eq_some_iff.mp placed).1
        · exact absurd ⟨q, member, covers⟩ later

theorem getElem?_applyAll_of_beyond (beyond : ∀ p ∈ ps, p.offset + p.values.length ≤ k) :
    (applyAll fill ps content)[k]? = content[k]? := by
  induction ps generalizing content with
  | nil => rfl
  | cons p ps ih =>
      rw [applyAll_cons, ih fun q member => beyond q (List.mem_cons_of_mem p member)]
      exact getElem?_apply_of_beyond (beyond p List.mem_cons_self)

end Patch

end Alnp
