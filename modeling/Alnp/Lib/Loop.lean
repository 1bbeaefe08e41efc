import Mathlib.Logic.Relation

/-!
# Loops whose turns depend on answers from outside

The body of a loop takes an answer, such as the result of a system call, and comes to `Flow`: the
next turn, or the end of the loop.

* `Loop.Ends body P s`: whatever the answers are, the loop that starts in `s` ends, and then `P`
  holds.  It is total correctness: there is no infinite run.
* `Loop.ends_of_measure`: the rule for it, with an invariant and a measure.
* `Loop.not_ends`: a loop that can always go on does not end.
* `Loop.Turns.invariant`: what the turns preserve holds at the head of every turn.
-/

namespace Alnp

/-- What a turn comes to. -/
inductive Flow (σ : Type*)
  /-- the next turn -/
  | next (s : σ)
  /-- the end of the loop -/
  | leave (s : σ)

namespace Loop

variable {σ α : Type*} {body : α → σ → Flow σ} {P Q I : σ → Prop} {s t : σ}

/-- Whatever the answers are, the loop ends, and then `P` holds. -/
inductive Ends (body : α → σ → Flow σ) (P : σ → Prop) : σ → Prop
  | intro (s : σ) (leaves : ∀ a t, body a s = .leave t → P t)
      (goes : ∀ a t, body a s = .next t → Ends body P t) : Ends body P s

/-- The loop comes from `s` to `t` at the head of a later turn. -/
def Turns (body : α → σ → Flow σ) : σ → σ → Prop :=
  Relation.ReflTransGen fun s t => ∃ a, body a s = .next t

/-- **Total correctness.**  An invariant with which a turn leaves the loop with `P`, or keeps it and
lowers a measure. -/
theorem ends_of_measure (measure : σ → Nat)
    (turn : ∀ a s, I s → (∃ t, body a s = .leave t ∧ P t) ∨
      ∃ t, body a s = .next t ∧ I t ∧ measure t < measure s)
    (start : I s) : Ends body P s := by
  induction bound : measure s using Nat.strongRecOn generalizing s with
  | ind n ih =>
      refine .intro s (fun a t left => ?_) fun a t went => ?_
      · rcases turn a s start with ⟨t', left', done⟩ | ⟨t', went, -⟩
        · cases left.symm.trans left'
          exact done
        · cases left.symm.trans went
      · rcases turn a s start with ⟨t', left, -⟩ | ⟨t', went', kept, less⟩
        · cases went.symm.trans left
        · cases went.symm.trans went'
          exact ih (measure t) (bound ▸ less) kept rfl

theorem Ends.mono (weaker : ∀ t, P t → Q t) (ends : Ends body P s) : Ends body Q s := by
  induction ends with
  | intro s leaves _ ih => exact .intro s (fun a t left => weaker t (leaves a t left)) ih

theorem Ends.and (left : Ends body P s) (right : Ends body Q s) :
    Ends body (fun t => P t ∧ Q t) s := by
  induction left with
  | intro s leaves _ ih =>
      obtain ⟨_, leaves', goes'⟩ := right
      exact .intro s (fun a t left => ⟨leaves a t left, leaves' a t left⟩)
        fun a t went => ih a t went (goes' a t went)

/-- A loop that ends does so somewhere. -/
theorem Ends.exists [Inhabited α] (ends : Ends body P s) : ∃ t, P t := by
  induction ends with
  | intro s leaves _ ih =>
      cases turn : body default s with
      | next t => exact ih default t turn
      | leave t => exact ⟨t, leaves default t turn⟩

/-- A loop that has from every state of a kind a turn to a state of that kind does not end. -/
theorem not_ends (forever : ∀ s, I s → ∃ a t, body a s = .next t ∧ I t) (start : I s) :
    ¬ Ends body P s := by
  intro ends
  induction ends with
  | intro s _ _ ih =>
      obtain ⟨a, t, went, kept⟩ := forever s start
      exact ih a t went kept

/-- A property that the turns preserve holds at the head of every turn. -/
theorem Turns.invariant (turns : Turns body s t)
    (preserved : ∀ a s t, I s → body a s = .next t → I t) (start : I s) : I t := by
  induction turns with
  | refl => exact start
  | @tail t u _ turn ih =>
      obtain ⟨a, went⟩ := turn
      exact preserved a t u ih went

end Loop

end Alnp
