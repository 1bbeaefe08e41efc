import Mathlib.Data.Finset.Card
import Mathlib.Order.Interval.Finset.Basic
import Mathlib.Data.Int.Interval

/-!
# Descriptor numbers

A descriptor number is an `Int`, and `-1` is no descriptor.
What a process may assume of the number behind a new descriptor.  `Fresh` is the whole contract of
`accept` and its kin: a number `>= 0` that is not open.  `LowestFree` is the stronger rule that
POSIX kernels follow; under it a new number is never larger than the number of descriptors already
open (`LowestFree.le_card`), which is what bounds the numbers a server with a bounded table sees.
-/

namespace Alnp

/-- What a failing system call leaves in `errno`. -/
abbrev Errno := { e : Int // 0 < e }

/-- A number that a new descriptor may get while `opened` are open. -/
def Fresh (opened : Finset Int) (fd : Int) : Prop :=
  0 ≤ fd ∧ fd ∉ opened

instance (opened : Finset Int) (fd : Int) : Decidable (Fresh opened fd) :=
  inferInstanceAs (Decidable (_ ∧ _))

/-- The lowest number that is not open. -/
def LowestFree (opened : Finset Int) (fd : Int) : Prop :=
  Fresh opened fd ∧ ∀ m, 0 ≤ m → m < fd → m ∈ opened

theorem LowestFree.fresh {opened : Finset Int} {fd : Int} (low : LowestFree opened fd) :
    Fresh opened fd :=
  low.1

/-- There is always a number to be had. -/
theorem exists_lowestFree (opened : Finset Int) : ∃ fd, LowestFree opened fd := by
  classical
  have some : ∃ n : Nat, (n : Int) ∉ opened := by
    obtain ⟨n, absent⟩ := Infinite.exists_notMem_finset (opened.image Int.toNat)
    exact ⟨n, fun member => absent (Finset.mem_image.mpr ⟨n, member, Int.toNat_natCast n⟩)⟩
  refine ⟨Nat.find some, ⟨Int.natCast_nonneg _, Nat.find_spec some⟩, fun m nonneg below => ?_⟩
  obtain ⟨k, rfl⟩ := Int.eq_ofNat_of_zero_le nonneg
  exact Classical.not_not.mp (Nat.find_min some (Int.ofNat_lt.mp below))

/-- Below the lowest free number every number is taken, so there are at least that many open
descriptors. -/
theorem LowestFree.le_card {opened : Finset Int} {fd : Int} (low : LowestFree opened fd) :
    fd ≤ opened.card := by
  have below : Finset.Ico 0 fd ⊆ opened := by
    intro m member
    rw [Finset.mem_Ico] at member
    exact low.2 m member.1 member.2
  have counted := Finset.card_le_card below
  rw [Int.card_Ico] at counted
  have nonneg := low.fresh.1
  omega

end Alnp
