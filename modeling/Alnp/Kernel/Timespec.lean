import Alnp.Kernel.CString
import Alnp.Lib.CInt

/-!
# Times of the clocks

`struct timespec`, and the conversions with which its fields are printed.
-/

namespace Alnp

structure Timespec where
  tvSec : Int
  tvNsec : Int
  deriving DecidableEq

namespace Timespec

/-- A value that `clock_gettime` may store. -/
structure Normalised (t : Timespec) : Prop where
  long : CInt.Fits CInt.long t.tvSec
  nonneg : 0 ≤ t.tvNsec
  short : t.tvNsec < 1000000000

instance (t : Timespec) : Decidable t.Normalised :=
  decidable_of_iff (CInt.Fits CInt.long t.tvSec ∧ 0 ≤ t.tvNsec ∧ t.tvNsec < 1000000000)
    ⟨fun fields => ⟨fields.1, fields.2.1, fields.2.2⟩,
      fun normalised => ⟨normalised.long, normalised.nonneg, normalised.short⟩⟩

/-- The time in nanoseconds. -/
def nanoseconds (t : Timespec) : Int := t.tvSec * 1000000000 + t.tvNsec

end Timespec

/-! ## Numbers with leading zeros -/

/-- The conversion `%0` with a width. -/
def zeroPadded (width : Nat) (n : Int) : List Char :=
  if n < 0 then '-' :: (Nat.toDigits 10 n.natAbs).leftpad (width - 1) '0'
  else (Nat.toDigits 10 n.natAbs).leftpad width '0'

/-- `%d` pads nothing. -/
theorem decimal_eq_zeroPadded (n : Int) : decimal n = zeroPadded 0 n := by
  simp [decimal, zeroPadded, List.leftpad]

/-- A number of digits that fits the width takes the whole width. -/
theorem length_zeroPadded {width : Nat} {n : Int} (some : 0 < width) (nonneg : 0 ≤ n)
    (short : n < (10 ^ width : Nat)) : (zeroPadded width n).length = width := by
  have digits : (Nat.toDigits 10 n.natAbs).length ≤ width :=
    (Nat.length_toDigits_le_iff (by decide) some).mpr (by omega)
  rw [zeroPadded, if_neg (by omega), List.length_leftpad]
  omega

theorem isDigit_zeroPadded {width : Nat} {n : Int} (nonneg : 0 ≤ n) :
    ∀ c ∈ zeroPadded width n, c.isDigit = true := by
  rw [zeroPadded, if_neg (by omega)]
  intro c member
  rw [List.leftpad, List.mem_append] at member
  rcases member with zero | digit
  · rw [List.eq_of_mem_replicate zero]
    rfl
  · exact Nat.isDigit_of_mem_toDigits (by decide) (by decide) digit

theorem nul_notMem_zeroPadded (width : Nat) (n : Int) : nul ∉ zeroPadded width n := by
  have digits (k : Nat) : nul ∉ (Nat.toDigits 10 n.natAbs).leftpad k '0' := by
    intro member
    rw [List.leftpad, List.mem_append] at member
    rcases member with zero | digit
    · exact absurd (List.eq_of_mem_replicate zero) (by decide)
    · have isDigit := Nat.isDigit_of_mem_toDigits (by decide) (by decide) digit
      cases isDigit
  unfold zeroPadded
  split
  · exact List.not_mem_cons_of_ne_of_not_mem (by decide) (digits _)
  · exact digits _

/-! ## Reading numbers back -/

/-- The value of a string of digits. -/
theorem digitsValue_eq_ofDigitChars {s : List Char} (digits : ∀ c ∈ s, c.isDigit = true) :
    digitsValue s = Nat.ofDigitChars 10 s 0 := by
  rw [digitsValue, List.takeWhile_eq_self_iff.mpr digits, Nat.ofDigitChars_eq_foldl]
  refine List.foldl_hom (fun n : Nat => (n : Int)) fun n c => ?_
  push_cast
  rfl

theorem digitsValue_zeroPadded {width : Nat} {n : Int} (nonneg : 0 ≤ n) :
    digitsValue (zeroPadded width n) = n := by
  rw [digitsValue_eq_ofDigitChars (isDigit_zeroPadded nonneg), zeroPadded, if_neg (by omega),
    List.leftpad, Nat.ofDigitChars_append, Nat.ofDigitChars_replicate_zero, Nat.mul_zero,
    Nat.ofDigitChars_ten_toDigits]
  omega

/-- The value of the digits in front of another character. -/
theorem digitsValue_append {s rest : List Char} {c : Char} (digits : ∀ c ∈ s, c.isDigit = true)
    (other : c.isDigit = false) : digitsValue (s ++ c :: rest) = digitsValue s := by
  have front : (s ++ c :: rest).takeWhile Char.isDigit = s := by
    rw [List.takeWhile_append_of_pos digits, List.takeWhile_cons_of_neg (by simp [other]),
      List.append_nil]
  rw [digitsValue, digitsValue, front, List.takeWhile_eq_self_iff.mpr digits]

end Alnp
