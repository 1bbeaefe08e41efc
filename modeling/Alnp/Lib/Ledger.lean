import Mathlib.Logic.Function.Basic
import Mathlib.Data.List.Count
import Mathlib.Data.Int.Order.Basic

/-!
# Handles that are handed out and given back

A `Ledger` counts, for every number, how often it has been handed out as a handle and how often it
has been given back, and how many operations have named a handle that was given back before.  A
number can be handed out again once it is back, so a handle is a number together with its round.

`Ledger.Clean` is the account of a program that is done with all its handles: each one has been
given back exactly once and nothing has been done to it afterwards.  `Ledger.Holding` is that of
parties who hold at most one handle each and none of them another's.
-/

namespace Alnp

structure Ledger where
  accepted : Int → Nat
  closed : Int → Nat
  /-- How many operations have named a handle after it was given back. -/
  misused : Nat
  /-- A handle is given back after it was handed out, and before its number is used again. -/
  rounds : ∀ fd, closed fd ≤ accepted fd ∧ accepted fd ≤ closed fd + 1

namespace Ledger

/-- Nothing has been handed out. -/
def empty : Ledger := ⟨fun _ => 0, fun _ => 0, 0, fun _ => ⟨Nat.le_refl 0, Nat.zero_le _⟩⟩

/-- The handle is handed out and not given back. -/
def Opened (l : Ledger) (fd : Int) : Prop := l.closed fd < l.accepted fd

instance (l : Ledger) (fd : Int) : Decidable (l.Opened fd) :=
  inferInstanceAs (Decidable (_ < _))

/-- The number has been handed out before. -/
def Seen (l : Ledger) (fd : Int) : Prop := 0 < l.accepted fd

instance (l : Ledger) (fd : Int) : Decidable (l.Seen fd) :=
  inferInstanceAs (Decidable (_ < _))

/-- Every handle has been given back exactly once and none has been used afterwards. -/
def Clean (l : Ledger) : Prop := (∀ fd, l.closed fd = l.accepted fd) ∧ l.misused = 0

/-- `fd` is handed out; a number that is out already cannot be. -/
def accept (fd : Int) (l : Ledger) : Ledger :=
  if out : l.Opened fd then l
  else
    { l with
      accepted := Function.update l.accepted fd (l.accepted fd + 1)
      rounds := fun x => by
        have rounds := l.rounds x
        unfold Opened at out
        by_cases same : x = fd
        · subst same
          rw [Function.update_self]
          omega
        · rwa [Function.update_of_ne same] }

/-- `fd` is named in an operation that leaves it open; a number never handed out is no handle. -/
def use (fd : Int) (l : Ledger) : Ledger :=
  if l.Opened fd ∨ ¬ l.Seen fd then l else { l with misused := l.misused + 1 }

/-- `fd` is given back, as far as it is out. -/
def close (fd : Int) (l : Ledger) : Ledger :=
  if out : l.Opened fd then
    { l with
      closed := Function.update l.closed fd (l.closed fd + 1)
      rounds := fun x => by
        have rounds := l.rounds x
        unfold Opened at out
        by_cases same : x = fd
        · subst same
          rw [Function.update_self]
          omega
        · rwa [Function.update_of_ne same] }
  else l.use fd

variable {l : Ledger} {fd x : Int}

theorem Opened.seen (out : l.Opened fd) : l.Seen fd :=
  Nat.lt_of_le_of_lt (Nat.zero_le _) out

/-- A ledger without open handles and without misuse is clean. -/
theorem clean_iff : l.Clean ↔ (∀ fd, ¬ l.Opened fd) ∧ l.misused = 0 := by
  unfold Clean Opened
  refine and_congr_left fun _ => forall_congr' fun fd => ?_
  have rounds := l.rounds fd
  omega

/-! ## What is open afterwards -/

theorem opened_accept : (l.accept fd).Opened x ↔ x = fd ∨ l.Opened x := by
  unfold accept
  split
  · rename_i out
    exact ⟨.inr, fun either => either.elim (fun same => same ▸ out) id⟩
  · rcases eq_or_ne x fd with rfl | other
    · have rounds := l.rounds x
      simp only [Opened, Function.update_self, true_or, iff_true]
      omega
    · simp [Opened, other]

@[simp] theorem opened_use : (l.use fd).Opened x ↔ l.Opened x := by
  unfold use
  split <;> rfl

theorem opened_close : (l.close fd).Opened x ↔ x ≠ fd ∧ l.Opened x := by
  unfold close
  split
  · rcases eq_or_ne x fd with rfl | other
    · have rounds := l.rounds x
      simp only [Opened, Function.update_self, ne_eq, not_true, false_and, iff_false]
      omega
    · simp [Opened, other]
  · rename_i out
    rw [opened_use]
    exact ⟨fun open' => ⟨fun same => out (same ▸ open'), open'⟩, And.right⟩

/-! ## What has been seen -/

theorem seen_accept (seen : (l.accept fd).Seen x) : x = fd ∨ l.Seen x := by
  unfold accept at seen
  split at seen
  · exact .inr seen
  · rcases eq_or_ne x fd with same | other
    · exact .inl same
    · exact .inr (by simpa [Seen, other] using seen)

@[simp] theorem seen_use : (l.use fd).Seen x ↔ l.Seen x := by
  unfold use
  split <;> rfl

@[simp] theorem seen_close : (l.close fd).Seen x ↔ l.Seen x := by
  unfold close
  split
  · rfl
  · exact seen_use

/-! ## Misuse -/

@[simp] theorem misused_accept : (l.accept fd).misused = l.misused := by
  unfold accept
  split <;> rfl

/-- Naming an open handle is no misuse. -/
theorem use_of_opened (out : l.Opened fd) : l.use fd = l := by
  rw [use, if_pos (.inl out)]

/-- Naming a handle that was given back is counted. -/
theorem misused_use_of_closed (seen : l.Seen fd) (back : ¬ l.Opened fd) :
    (l.use fd).misused = l.misused + 1 := by
  rw [use, if_neg]
  exact fun either => either.elim back (absurd seen)

theorem misused_close_of_opened (out : l.Opened fd) : (l.close fd).misused = l.misused := by
  rw [close, dif_pos out]

/-- A number that was never handed out may be closed: the call fails. -/
theorem close_of_unseen (unseen : ¬ l.Seen fd) : l.close fd = l := by
  have back : ¬ l.Opened fd := fun out => unseen out.seen
  rw [close, dif_neg back, use, if_pos (.inr unseen)]

theorem misused_le_use : l.misused ≤ (l.use fd).misused := by
  unfold use
  split
  · exact Nat.le_refl _
  · exact Nat.le_succ _

theorem misused_le_close : l.misused ≤ (l.close fd).misused := by
  unfold close
  split
  · exact Nat.le_refl _
  · exact misused_le_use

/-! ## Handles in the hands of parties -/

/-- Each party holds the handle `holds` says, if any, and no other handle is out: who has taken
which handle and who has given which back, `taken` and `back`, balance but for these. -/
structure Holding {ι : Type} [DecidableEq ι] (l : Ledger) (taken back : List (ι × Int))
    (holds : ι → Option Int) : Prop where
  opened : ∀ x, l.Opened x ↔ ∃ i, holds i = some x
  apart : ∀ i j x, holds i = some x → holds j = some x → i = j
  misused : l.misused = 0
  balance : ∀ i x, taken.count (i, x) = back.count (i, x) + if holds i = some x then 1 else 0

namespace Holding

variable {ι : Type} [DecidableEq ι] {taken back : List (ι × Int)} {holds : ι → Option Int} {i : ι}

theorem empty : Holding (.empty) ([] : List (ι × Int)) [] fun _ => none :=
  ⟨fun _ => ⟨fun out => (by cases out), fun some => (by cases some.choose_spec)⟩,
    fun _ _ _ some => (by cases some), rfl, fun _ _ => rfl⟩

/-- What a party holds when `i` has come to hold `v`. -/
theorem update_eq_some {v : Option Int} {j : ι} :
    Function.update holds i v j = some x ↔ j = i ∧ v = some x ∨ j ≠ i ∧ holds j = some x := by
  by_cases same : j = i
  · subst same
    simp
  · simp [same]

/-- A party that holds nothing takes a handle that is not out. -/
theorem accept (holding : l.Holding taken back holds) (bare : holds i = none)
    (back' : ¬ l.Opened fd) :
    (l.accept fd).Holding (taken ++ [(i, fd)]) back (Function.update holds i (some fd)) := by
  have nobody : ∀ j, holds j ≠ some fd := fun j some => back' ((holding.opened fd).mpr ⟨j, some⟩)
  refine ⟨fun x => ?_, fun j k x hj hk => ?_, misused_accept.trans holding.misused, fun j x => ?_⟩
  · rw [opened_accept, holding.opened]
    constructor
    · rintro (rfl | ⟨j, held⟩)
      · exact ⟨i, update_eq_some.mpr (.inl ⟨rfl, rfl⟩)⟩
      · have other : j ≠ i := fun same => by
          rw [same, bare] at held
          cases held
        exact ⟨j, update_eq_some.mpr (.inr ⟨other, held⟩)⟩
    · rintro ⟨j, held⟩
      rcases update_eq_some.mp held with ⟨-, new⟩ | ⟨-, old⟩
      · exact .inl (Option.some.inj new).symm
      · exact .inr ⟨j, old⟩
  · rcases update_eq_some.mp hj with ⟨rfl, one⟩ | ⟨-, one⟩
    · rcases update_eq_some.mp hk with ⟨rfl, -⟩ | ⟨-, two⟩
      · rfl
      · exact absurd (two.trans one.symm) (nobody k)
    · rcases update_eq_some.mp hk with ⟨rfl, two⟩ | ⟨-, two⟩
      · exact absurd (one.trans two.symm) (nobody j)
      · exact holding.apart j k x one two
  · have balance := holding.balance j x
    rw [List.count_append, balance, List.count_singleton]
    by_cases same : j = i
    · subst same
      rw [Function.update_self, bare]
      simp [Prod.ext_iff]
    · rw [Function.update_of_ne same]
      simp [Prod.ext_iff, Ne.symm same]

/-- Naming the handle one holds. -/
theorem use_of_holds (holding : l.Holding taken back holds) (held : holds i = some fd) :
    l.use fd = l :=
  use_of_opened ((holding.opened fd).mpr ⟨i, held⟩)

/-- A party gives its handle back. -/
theorem close (holding : l.Holding taken back holds) (held : holds i = some fd) :
    (l.close fd).Holding taken (back ++ [(i, fd)]) (Function.update holds i none) := by
  have out : l.Opened fd := (holding.opened fd).mpr ⟨i, held⟩
  refine ⟨fun x => ?_, fun j k x hj hk => ?_, (misused_close_of_opened out).trans holding.misused,
    fun j x => ?_⟩
  · rw [opened_close, holding.opened]
    constructor
    · rintro ⟨other, j, heldBy⟩
      have elsewhere : j ≠ i := fun same => by
        rw [same, held] at heldBy
        exact other (Option.some.inj heldBy).symm
      exact ⟨j, update_eq_some.mpr (.inr ⟨elsewhere, heldBy⟩)⟩
    · rintro ⟨j, heldBy⟩
      rcases update_eq_some.mp heldBy with ⟨-, none⟩ | ⟨elsewhere, heldBy⟩
      · cases none
      · exact ⟨fun same => elsewhere (holding.apart j i fd (same ▸ heldBy) held), j, heldBy⟩
  · rcases update_eq_some.mp hj with ⟨-, none⟩ | ⟨-, one⟩
    · cases none
    · rcases update_eq_some.mp hk with ⟨-, none⟩ | ⟨-, two⟩
      · cases none
      · exact holding.apart j k x one two
  · have balance := holding.balance j x
    rw [List.count_append, balance, List.count_singleton]
    by_cases same : j = i
    · subst same
      rw [Function.update_self, held]
      simp [Prod.ext_iff]
    · rw [Function.update_of_ne same]
      simp [Prod.ext_iff, Ne.symm same]

end Holding

end Ledger

end Alnp
