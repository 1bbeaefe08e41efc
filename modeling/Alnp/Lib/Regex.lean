import Mathlib.Data.List.Infix

/-!
# Regular expressions with groups

Expressions of an anchor, character classes, repetition, concatenation and groups, and what POSIX
says of a search with one.  `Match r before x groups` says that `r` matches `x` behind `before`,
with the offsets of its groups; `First` picks from the matches in a string the leftmost and of these
the longest.
-/

namespace Alnp

inductive Regex
  /-- `^`, also behind a newline -/
  | bol
  /-- a character of a class -/
  | cls (p : Char → Bool)
  /-- `r+` -/
  | plus (r : Regex)
  | seq (r r' : Regex)
  /-- `(r)` -/
  | group (r : Regex)

namespace Regex

/-- A line begins behind these characters. -/
def AtLineStart (before : List Char) : Prop := before = [] ∨ before.getLast? = some '\n'

/-- The expression matches the characters `x` behind `before`, and its groups from left to right
match from the first to the second offset. -/
inductive Match : Regex → List Char → List Char → List (Nat × Nat) → Prop
  | bol {before} : AtLineStart before → Match .bol before [] []
  | cls {p before c} : p c = true → Match (.cls p) before [c] []
  | one {r before x groups} : Match r before x groups → Match (.plus r) before x groups
  /-- The groups are those of the last repetition. -/
  | more {r before x y groups groups'} :
      Match r before x groups → Match (.plus r) (before ++ x) y groups' →
      Match (.plus r) before (x ++ y) groups'
  | seq {r r' before x y groups groups'} :
      Match r before x groups → Match r' (before ++ x) y groups' →
      Match (.seq r r') before (x ++ y) (groups ++ groups')
  | group {r before x groups} :
      Match r before x groups →
      Match (.group r) before x ((before.length, before.length + x.length) :: groups)

/-- The expression matches `x` behind `before` in `s`. -/
def Occurs (r : Regex) (s before x : List Char) (groups : List (Nat × Nat)) : Prop :=
  before ++ x <+: s ∧ Match r before x groups

/-- The match that a search in `s` is to find. -/
structure First (r : Regex) (s before x : List Char) (groups : List (Nat × Nat)) : Prop where
  occurs : Occurs r s before x groups
  leftmost : ∀ before' x' groups', Occurs r s before' x' groups' → before.length ≤ before'.length
  longest : ∀ x' groups', Occurs r s before x' groups' → x'.length ≤ x.length

variable {r r' : Regex} {p : Char → Bool} {before x : List Char} {groups : List (Nat × Nat)}

theorem match_bol_iff : Match .bol before x groups ↔ AtLineStart before ∧ x = [] ∧ groups = [] := by
  constructor
  · intro found
    cases found with
    | bol start => exact ⟨start, rfl, rfl⟩
  · rintro ⟨start, rfl, rfl⟩
    exact .bol start

theorem match_cls_iff :
    Match (.cls p) before x groups ↔ ∃ c, p c = true ∧ x = [c] ∧ groups = [] := by
  constructor
  · intro found
    cases found with
    | cls ok => exact ⟨_, ok, rfl, rfl⟩
  · rintro ⟨c, ok, rfl, rfl⟩
    exact .cls ok

theorem match_seq_iff : Match (.seq r r') before x groups ↔
    ∃ y z groups₁ groups₂, Match r before y groups₁ ∧ Match r' (before ++ y) z groups₂ ∧
      x = y ++ z ∧ groups = groups₁ ++ groups₂ := by
  constructor
  · intro found
    cases found with
    | seq left right => exact ⟨_, _, _, _, left, right, rfl, rfl⟩
  · rintro ⟨y, z, groups₁, groups₂, left, right, rfl, rfl⟩
    exact .seq left right

theorem match_group_iff : Match (.group r) before x groups ↔
    ∃ inner, Match r before x inner ∧
      groups = (before.length, before.length + x.length) :: inner := by
  constructor
  · intro found
    cases found with
    | group inner => exact ⟨_, inner, rfl⟩
  · rintro ⟨inner, found, rfl⟩
    exact .group found

/-- A repeated class matches the strings of its characters that are not empty. -/
theorem match_plus_cls_iff : Match (.plus (.cls p)) before x groups ↔
    x ≠ [] ∧ (∀ c ∈ x, p c = true) ∧ groups = [] := by
  constructor
  · intro found
    generalize whole : Regex.plus (.cls p) = r at found
    induction found with
    | bol | cls | seq | group => cases whole
    | one inner =>
        cases whole
        obtain ⟨c, ok, rfl, rfl⟩ := match_cls_iff.mp inner
        exact ⟨List.cons_ne_nil c [], by simpa using ok, rfl⟩
    | more inner _ _ ih =>
        cases whole
        obtain ⟨c, ok, rfl, rfl⟩ := match_cls_iff.mp inner
        obtain ⟨-, others, rfl⟩ := ih rfl
        exact ⟨List.cons_ne_nil c _, List.forall_mem_cons.mpr ⟨ok, others⟩, rfl⟩
  · rintro ⟨some, all, rfl⟩
    induction x generalizing before with
    | nil => exact absurd rfl some
    | cons c x ih =>
        obtain ⟨ok, others⟩ := List.forall_mem_cons.mp all
        cases x with
        | nil => exact .one (.cls ok)
        | cons d x => exact .more (.cls ok) (ih (List.cons_ne_nil d x) others)

end Regex

end Alnp
