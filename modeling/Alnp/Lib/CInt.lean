import Mathlib.Algebra.Order.Group.Int

/-!
# Signed integers of C

A signed type is given by the number of its values that are not negative.  An operation whose exact
result is not a value of the type is undefined, so that the result is an `Option`; a conversion
wraps around instead.

* `CInt.checked`: the result of an operation, `checked_eq_some_iff`.
* `CInt.convert`: the conversion from a wider type, which leaves a value of the type alone
  (`convert_of_fits`).
-/

namespace Alnp.CInt

/-- `int` of 32 bits -/
def int : Nat := 2147483648

/-- `long` of 64 bits -/
def long : Nat := 9223372036854775808

variable {half : Nat} {x y : Int}

/-- The number is a value of the type. -/
def Fits (half : Nat) (x : Int) : Prop := -half ≤ x ∧ x < half

instance : Decidable (Fits half x) := inferInstanceAs (Decidable (_ ∧ _))

/-- The result of an operation, where it is defined. -/
def checked (half : Nat) (x : Int) : Option Int := if Fits half x then some x else none

/-- A conversion to the type. -/
def convert (half : Nat) (x : Int) : Int := x.bmod (2 * half)

@[simp] theorem checked_eq_some_iff : checked half x = some y ↔ Fits half x ∧ x = y := by
  unfold checked
  split
  · next fits => simp [fits]
  · next wide => simp [wide]

theorem checked_of_fits (fits : Fits half x) : checked half x = some x := if_pos fits

theorem convert_of_fits (fits : Fits half x) : convert half x = x := by
  obtain ⟨low, high⟩ := fits
  unfold convert
  apply Int.bmod_eq_of_le <;> omega

theorem fits_of_nonneg (low : 0 ≤ x) (high : x < half) : Fits half x := by
  constructor
  · omega
  · exact high

end Alnp.CInt
