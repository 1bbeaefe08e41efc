import Mathlib.Data.Vector.Basic
import Mathlib.Data.List.Range
import Alnp.Lib.Machine

/-!
# Bounded queues

First the queue itself: a list of at most `cap` items to which `push` appends the longest prefix
that fits and from which `pop` takes the oldest.  `machine` lets any number of producers and
consumers act on it and keeps the history; in every state the items popped so far followed by the
queue are the items accepted so far (`popped_append_queue`).

Then its layout in a circular array: `window xs start len` are the `len` elements of `xs` from
`start` on, the index taken modulo the size.  A store behind the window appends (`window_store`),
a step of the start drops the oldest (`window_succ`).
-/

namespace Alnp.Fifo

variable {α : Type}

/-! ## The queue -/

/-- What one operation returned: how many items were accepted, or the item handed to a consumer. -/
inductive Ret (α : Type)
  | pushed (n : Int)
  | popped (tid : Nat) (item : α)
  | empty (tid : Nat)

/-- A queue with its history. -/
structure State (α : Type) where
  queue : List α
  accepted : List α
  popped : List α
  rets : List (Ret α)

/-- The items of a chunk that still fit. -/
def fitting (cap : Nat) (queue items : List α) : List α :=
  items.take (cap - queue.length)

inductive Step (cap : Nat) : State α → State α → Prop
  | push (s : State α) (items : List α) :
      Step cap s
        { s with
          queue := s.queue ++ fitting cap s.queue items
          accepted := s.accepted ++ fitting cap s.queue items
          rets := s.rets ++ [.pushed (fitting cap s.queue items).length] }
  | pop (s : State α) (tid : Nat) (item : α) (rest : List α) :
      s.queue = item :: rest →
      Step cap s
        { s with
          queue := rest
          popped := s.popped ++ [item]
          rets := s.rets ++ [.popped tid item] }
  | empty (s : State α) (tid : Nat) :
      s.queue = [] → Step cap s { s with rets := s.rets ++ [.empty tid] }

/-- A bounded queue shared by producers and consumers, empty at the start. -/
def machine (α : Type) (cap : Nat) : Machine (State α) where
  init s := s = ⟨[], [], [], []⟩
  step := Step cap

/-- Nothing is lost, duplicated, reordered or invented, and the capacity is kept. -/
theorem popped_append_queue {cap : Nat} {s : State α} (reached : (machine α cap).Reachable s) :
    s.popped ++ s.queue = s.accepted ∧ s.queue.length ≤ cap := by
  refine reached.invariant (P := fun s => s.popped ++ s.queue = s.accepted ∧ s.queue.length ≤ cap)
    ?_ ?_
  · intro s start
    subst start
    exact ⟨rfl, Nat.zero_le cap⟩
  · intro s t _ holds step
    rcases holds with ⟨conserved, bounded⟩
    cases step with
    | push items =>
        refine ⟨by simp [← conserved], ?_⟩
        simp only [fitting, List.length_append, List.length_take]
        omega
    | pop tid item rest front =>
        rw [front] at conserved bounded
        refine ⟨by simp [← conserved], ?_⟩
        exact Nat.le_of_succ_le bounded
    | empty tid none => exact ⟨conserved, bounded⟩

/-! ## The queue in a circular array -/

variable [Inhabited α] {n : Nat}

/-- The `len` elements of the circular array `xs` from `start` on. -/
def window (xs : Vector α n) (start len : Nat) : List α :=
  (List.range len).map fun k => xs[(start + k) % n]?.getD default

@[simp] theorem length_window (xs : Vector α n) (start len : Nat) :
    (window xs start len).length = len := by
  simp [window]

/-- The start of a window counts modulo the size. -/
theorem window_mod (xs : Vector α n) (start len : Nat) :
    window xs (start % n) len = window xs start len := by
  simp [window, Nat.mod_add_mod]

/-- The window without its first element starts one further. -/
theorem window_succ (xs : Vector α n) (start len : Nat) :
    window xs start (len + 1) =
      xs[start % n]?.getD default :: window xs (start + 1) len := by
  simp only [window, List.range_succ_eq_map, List.map_cons, List.map_map, Nat.add_zero]
  congr 1
  refine List.map_congr_left fun k _ => ?_
  simp only [Function.comp_apply, Nat.succ_eq_add_one]
  rw [show start + (k + 1) = start + 1 + k by omega]

/-- A store behind a window that does not fill the array appends to it. -/
theorem window_store (xs : Vector α n) (a : α) {start len : Nat} (room : len < n) :
    window (xs.setIfInBounds ((start + len) % n) a) start (len + 1) =
      window xs start len ++ [a] := by
  have inside : (start + len) % n < n := Nat.mod_lt _ (by omega)
  simp only [window, List.range_succ, List.map_append, List.map_cons, List.map_nil]
  congr 1
  · refine List.map_congr_left fun k member => ?_
    have before := List.mem_range.mp member
    have ne : (start + len) % n ≠ (start + k) % n := by
      intro same
      have divides : n ∣ (start + len) - (start + k) :=
        Nat.dvd_of_mod_eq_zero (Nat.sub_mod_eq_zero_of_mod_eq same)
      have small := Nat.eq_zero_of_dvd_of_lt divides (by omega)
      omega
    rw [Vector.getElem?_setIfInBounds_ne ne]
  · rw [Vector.getElem?_setIfInBounds_self_of_lt inside]
    rfl

end Alnp.Fifo
