import Mathlib.Order.Basic

/-!
# Announcements of waiting work

First, items arrive one by one and every arrival raises one flag; a flag that is up already stays
up, so one announcement may stand for many items.  The receiver takes the flag down and then deals
with items.

* `Notice.Covered`: while an item waits, the flag is up or the receiver is still at work.  A
  receiver that goes on until nothing waits keeps it, however the announcements merge.
* `Notice.Balanced`: the items that wait are those announced by the flag, the one the receiver is at
  and the arrivals that found the flag up.  It is what a receiver can rely on that deals with one
  item for every announcement.

Second, every arrival queues an announcement of its own, and the receiver deals with a bounded
amount of work for each.  `Backed` says that the announcements left are enough for the work left.
-/

namespace Alnp

/-- The items that wait, the flag, and how many arrivals have found the flag up. -/
structure Notice where
  waiting : Nat
  pending : Bool
  merged : Nat

namespace Notice

/-- An item arrives. -/
def raise (n : Notice) : Notice := ⟨n.waiting + 1, true, n.merged + n.pending.toNat⟩

/-- The receiver takes the flag down. -/
def accept (n : Notice) : Notice := { n with pending := false }

/-- The receiver deals with an item. -/
def deal (n : Notice) : Notice := { n with waiting := n.waiting - 1 }

variable {n : Notice}

/-! ## A receiver that goes on until nothing waits -/

/-- While an item waits, the flag is up or the receiver is at work. -/
def Covered (n : Notice) (working : Prop) : Prop :=
  n.waiting ≠ 0 → n.pending = true ∨ working

variable {working : Prop}

theorem covered_of_none (none : n.waiting = 0) : n.Covered working :=
  fun some => absurd none some

theorem covered_of_pending (up : n.pending = true) : n.Covered working :=
  fun _ => .inl up

/-- A receiver at work covers every item. -/
theorem covered_of_working (work : working) : n.Covered working :=
  fun _ => .inr work

/-! ## A receiver that deals with one item for every announcement -/

/-- The items that wait are announced, at the receiver or merged into another announcement. -/
def Balanced (n : Notice) (taken : Nat) : Prop :=
  n.waiting = n.pending.toNat + taken + n.merged

variable {taken : Nat}

theorem Balanced.raise (balanced : n.Balanced taken) : n.raise.Balanced taken := by
  unfold Balanced at balanced ⊢
  simp only [Notice.raise, Bool.toNat_true]
  omega

theorem Balanced.accept (balanced : n.Balanced 0) (up : n.pending = true) :
    n.accept.Balanced 1 := by
  unfold Balanced at balanced ⊢
  simp only [Notice.accept, Bool.toNat_false]
  rw [up, Bool.toNat_true] at balanced
  omega

/-- A receiver that has taken the flag down finds an item. -/
theorem Balanced.waiting_pos (balanced : n.Balanced 1) : 0 < n.waiting := by
  unfold Balanced at balanced
  omega

theorem Balanced.deal (balanced : n.Balanced 1) : n.deal.Balanced 0 := by
  unfold Balanced at balanced ⊢
  simp only [Notice.deal]
  omega

/-- With the flag down, the items left over are the merged ones and the one at the receiver. -/
theorem Balanced.waiting_eq (balanced : n.Balanced taken) (down : n.pending = false) :
    n.waiting = taken + n.merged := by
  unfold Balanced at balanced
  rw [down, Bool.toNat_false] at balanced
  omega

end Notice

/-! ## Announcements that do not merge -/

/-- With `capacity` units of work for each, the announcements are enough for the work. -/
def Backed (capacity work announced : Nat) : Prop :=
  work ≤ capacity * announced

instance (capacity work announced : Nat) : Decidable (Backed capacity work announced) :=
  inferInstanceAs (Decidable (_ ≤ _))

namespace Backed

variable {capacity work announced : Nat}

theorem none : Backed capacity 0 announced := Nat.zero_le _

theorem mono {announced' : Nat} (backed : Backed capacity work announced)
    (le : announced ≤ announced') : Backed capacity work announced' :=
  Nat.le_trans backed (Nat.mul_le_mul_left capacity le)

/-- One unit of work that is announced. -/
theorem succ (backed : Backed 1 work announced) : Backed 1 (work + 1) (announced + 1) := by
  unfold Backed at backed ⊢
  omega

/-- Dealing with one announcement takes off as much work as there is, up to the capacity. -/
theorem serve (backed : Backed capacity work (announced + 1)) :
    Backed capacity (work - min work capacity) announced := by
  unfold Backed at backed ⊢
  rw [Nat.mul_add, Nat.mul_one] at backed
  rcases Nat.le_total work capacity with small | large
  · rw [Nat.min_eq_left small, Nat.sub_self]
    exact Nat.zero_le _
  · rw [Nat.min_eq_right large]
    omega

/-- Without an announcement there is no work. -/
theorem eq_zero (backed : Backed capacity work 0) : work = 0 :=
  Nat.eq_zero_of_le_zero backed

end Backed

end Alnp
