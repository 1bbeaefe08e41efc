import Mathlib.Data.List.Induction

/-!
# What has happened since

A log of events, some of which raise a flag and some of which take it down.  `Since` says whether
the flag is up by the log alone, and `since_snoc` what one more event makes of it.  `RaisedBy` says
which event has raised it: the first behind the last that has taken it down.
-/

namespace Alnp

variable {α : Type}

/-- A list with one element more, split at an element. -/
theorem split_snoc {xs before after : List α} {a b : α}
    (split : xs ++ [a] = before ++ b :: after) :
    b = a ∧ after = [] ∨ ∃ rest, after = rest ++ [a] ∧ xs = before ++ b :: rest := by
  rcases List.eq_nil_or_concat after with rfl | ⟨rest, c, rfl⟩
  · obtain ⟨-, same⟩ := List.append_inj' split rfl
    cases same
    exact .inl ⟨rfl, rfl⟩
  · rw [List.concat_eq_append, ← List.cons_append, ← List.append_assoc] at split
    obtain ⟨front, same⟩ := List.append_inj' split rfl
    cases same
    exact .inr ⟨rest, List.concat_eq_append, front⟩

/-- What the events of a log come to, with one more. -/
theorem flatMap_snoc {β : Type} (f : α → List β) (log : List α) (a : α) :
    (log ++ [a]).flatMap f = log.flatMap f ++ f a := by
  rw [List.flatMap_append, List.flatMap_singleton]

/-- A raising event has happened, and no clearing one behind it. -/
def Since (raises clears : α → Prop) (log : List α) : Prop :=
  ∃ before a after, log = before ++ a :: after ∧ raises a ∧ ∀ b ∈ after, ¬ clears b

variable {raises clears : α → Prop} {log : List α} {a : α}

theorem not_since_nil : ¬ Since raises clears [] := by
  rintro ⟨before, a, after, split, -⟩
  cases (List.append_eq_nil_iff.mp split.symm).2

/-- An event that raises the flag does so even if it is one that takes it down. -/
theorem since_snoc : Since raises clears (log ++ [a]) ↔
    raises a ∨ ¬ clears a ∧ Since raises clears log := by
  constructor
  · rintro ⟨before, b, after, split, raised, none⟩
    rcases split_snoc split with ⟨rfl, -⟩ | ⟨rest, rfl, earlier⟩
    · exact .inl raised
    · exact .inr ⟨none a (List.mem_append_right _ (List.mem_singleton_self a)), before, b, rest,
        earlier, raised, fun c member => none c (List.mem_append_left _ member)⟩
  · rintro (raised | ⟨keeps, before, b, after, rfl, raised, none⟩)
    · exact ⟨log, a, [], rfl, raised, nofun⟩
    · refine ⟨before, b, after ++ [a], by rw [List.append_assoc, List.cons_append], raised,
        fun c member => ?_⟩
      rcases List.mem_append.mp member with old | new
      · exact none c old
      · exact List.mem_singleton.mp new ▸ keeps

/-- Where the flag is down although an event has raised it, one has taken it down. -/
theorem exists_clears (down : ¬ Since raises clears log) (member : a ∈ log) (raised : raises a) :
    ∃ b ∈ log, clears b := by
  by_contra none
  obtain ⟨before, after, rfl⟩ := List.append_of_mem member
  refine down ⟨before, a, after, rfl, raised, fun b later clears => none ⟨b, ?_, clears⟩⟩
  exact List.mem_append_right _ (List.mem_cons_of_mem a later)

/-- This event has raised the flag, which no event has taken down behind it. -/
def RaisedBy (raises clears : α → Prop) (log : List α) (a : α) : Prop :=
  ∃ before after, log = before ++ a :: after ∧ raises a ∧ ¬ Since raises clears before ∧
    ∀ b ∈ after, ¬ clears b

variable {b : α}

theorem RaisedBy.since (raised : RaisedBy raises clears log a) : Since raises clears log := by
  obtain ⟨before, after, split, raises, -, none⟩ := raised
  exact ⟨before, a, after, split, raises, none⟩

theorem raisedBy_snoc : RaisedBy raises clears (log ++ [b]) a ↔
    (b = a ∧ raises a ∧ ¬ Since raises clears log) ∨ ¬ clears b ∧ RaisedBy raises clears log a := by
  constructor
  · rintro ⟨before, after, split, raised, down, none⟩
    rcases split_snoc split with ⟨rfl, rfl⟩ | ⟨rest, rfl, earlier⟩
    · obtain ⟨rfl, -⟩ := List.append_inj' split rfl
      exact .inl ⟨rfl, raised, down⟩
    · exact .inr ⟨none b (List.mem_append_right _ (List.mem_singleton_self b)), before, rest,
        earlier, raised, down, fun c member => none c (List.mem_append_left _ member)⟩
  · rintro (⟨rfl, raised, down⟩ | ⟨keeps, before, after, rfl, raised, down, none⟩)
    · exact ⟨log, [], rfl, raised, down, nofun⟩
    · refine ⟨before, after ++ [b], by rw [List.append_assoc, List.cons_append], raised, down,
        fun c member => ?_⟩
      rcases List.mem_append.mp member with old | new
      · exact none c old
      · exact List.mem_singleton.mp new ▸ keeps

/-- Where no event does both, a flag that is up has been raised by one. -/
theorem Since.exists_raisedBy (disjoint : ∀ a, raises a → ¬ clears a)
    (since : Since raises clears log) : ∃ a, RaisedBy raises clears log a := by
  induction log using List.reverseRecOn with
  | nil => exact absurd since not_since_nil
  | append_singleton log b ih =>
      by_cases up : Since raises clears log
      · obtain ⟨a, raised⟩ := ih up
        have keeps : ¬ clears b := by
          rcases since_snoc.mp since with now | ⟨keeps, -⟩
          · exact disjoint b now
          · exact keeps
        exact ⟨a, raisedBy_snoc.mpr (.inr ⟨keeps, raised⟩)⟩
      · have now := (since_snoc.mp since).resolve_right fun still => up still.2
        exact ⟨b, raisedBy_snoc.mpr (.inl ⟨rfl, now, up⟩)⟩

end Alnp
