import Mathlib.Data.List.Basic

/-!
# Pipes

Items are put into a pipe and taken out of it in pieces; where the pieces taken out begin and end
has nothing to do with those put in.

`Pipe.Whole`: what has been taken out and then what is in the pipe is what has been put in.
-/

namespace Alnp

/-- The pieces put in and taken out so far, with who has done it, and what is in the pipe. -/
structure Pipe (π ρ α : Type) where
  put : List (π × List α)
  taken : List (ρ × List α)
  contents : List α

namespace Pipe

variable {π ρ α : Type} {p : Pipe π ρ α}

def empty : Pipe π ρ α := ⟨[], [], []⟩

def write (p : Pipe π ρ α) (i : π) (piece : List α) : Pipe π ρ α :=
  { p with put := p.put ++ [(i, piece)], contents := p.contents ++ piece }

/-- The first `n` items are taken out, or all if there are fewer. -/
def read (p : Pipe π ρ α) (r : ρ) (n : Nat) : Pipe π ρ α :=
  { p with taken := p.taken ++ [(r, p.contents.take n)], contents := p.contents.drop n }

/-- The items of pieces. -/
def text {κ : Type} (pieces : List (κ × List α)) : List α := (pieces.map Prod.snd).flatten

theorem text_concat {κ : Type} (pieces : List (κ × List α)) (k : κ) (piece : List α) :
    text (pieces ++ [(k, piece)]) = text pieces ++ piece := by
  simp [text]

theorem mem_text {κ : Type} {pieces : List (κ × List α)} {a : α} :
    a ∈ text pieces ↔ ∃ piece ∈ pieces, a ∈ piece.2 := by
  rw [text, List.mem_flatten]
  constructor
  · rintro ⟨l, among, member⟩
    obtain ⟨piece, there, rfl⟩ := List.mem_map.mp among
    exact ⟨piece, there, member⟩
  · rintro ⟨piece, there, member⟩
    exact ⟨piece.2, List.mem_map_of_mem there, member⟩

/-- No item is lost, doubled or moved. -/
def Whole (p : Pipe π ρ α) : Prop := text p.taken ++ p.contents = text p.put

theorem Whole.write (whole : Whole p) (i : π) (piece : List α) : Whole (p.write i piece) := by
  rw [Whole, Pipe.write, text_concat, ← List.append_assoc]
  exact congrArg (· ++ piece) whole

theorem Whole.read (whole : Whole p) (r : ρ) (n : Nat) : Whole (p.read r n) := by
  rw [Whole, Pipe.read, text_concat, List.append_assoc, List.take_append_drop]
  exact whole

end Pipe

end Alnp
