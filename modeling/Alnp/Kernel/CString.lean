import Mathlib.Algebra.Group.Nat.Defs
import Mathlib.Data.List.Induction
import Mathlib.Data.List.TakeWhile

/-!
# Numbers and strings of the C library

`atoi` and `snprintf(buf, size, "%d", n)` as the standard describes them, on strings that are lists
of characters ended by the first NUL (`cString`).  `cString_snprintf` reads back what `snprintf` has
written: the decimal representation of an `int` fits a buffer of 12 characters or more.
-/

namespace Alnp

def nul : Char := Char.ofNat 0

/-- The string that begins a buffer. -/
def cString (bytes : List Char) : List Char :=
  bytes.takeWhile fun c => c != nul

/-! ## From a string to a number -/

/-- `isspace` in the C locale. -/
def isSpace (c : Char) : Bool :=
  c == ' ' || (9 ≤ c.toNat && c.toNat ≤ 13)

/-- The value of the decimal digits that begin a string. -/
def digitsValue (s : List Char) : Int :=
  (s.takeWhile Char.isDigit).foldl (fun n c => 10 * n + (c.toNat - 48 : Nat)) 0

/-- `strtol(s, NULL, 10)` with a `long` of 64 bits: a value out of range comes to the nearest. -/
def strtol (s : List Char) : Int :=
  let value := match s.dropWhile isSpace with
    | '-' :: rest => - digitsValue rest
    | '+' :: rest => digitsValue rest
    | rest => digitsValue rest
  max (-9223372036854775808) (min value 9223372036854775807)

/-- `atoi(s)` is `(int) strtol(s, NULL, 10)`. -/
def atoi (s : List Char) : Int := (strtol s).bmod 4294967296

/-- The value of digits is below the power of ten of their number. -/
theorem digitsValue_lt {s : List Char} (digits : ∀ c ∈ s, c.isDigit = true) :
    0 ≤ digitsValue s ∧ digitsValue s < (10 ^ s.length : Nat) := by
  rw [digitsValue, List.takeWhile_eq_self_iff.mpr digits]
  induction s using List.reverseRecOn with
  | nil => decide
  | append_singleton s c ih =>
      obtain ⟨low, high⟩ := ih fun d member => digits d (List.mem_append_left _ member)
      have digit : c.toNat ≤ 57 :=
        (Char.isDigit_iff_toNat.mp (digits c (List.mem_append_right _ List.mem_cons_self))).2
      rw [List.foldl_append, List.foldl_cons, List.foldl_nil, List.length_append,
        List.length_singleton, Nat.pow_succ]
      omega

theorem isSpace_of_isDigit {c : Char} (digit : c.isDigit = true) : isSpace c = false := by
  obtain ⟨low, -⟩ := Char.isDigit_iff_toNat.mp digit
  have low : 48 ≤ c.toNat := low
  have other : c ≠ ' ' := by
    rintro rfl
    cases digit
  have high : ¬ c.toNat ≤ 13 := by omega
  simp [isSpace, other, high]

/-- Up to 18 digits have a value that is a `long`. -/
theorem strtol_of_digits {s : List Char} (digits : ∀ c ∈ s, c.isDigit = true)
    (short : s.length ≤ 18) : strtol s = digitsValue s := by
  obtain ⟨low, high⟩ := digitsValue_lt digits
  have bound : 10 ^ s.length ≤ 10 ^ 18 := Nat.pow_le_pow_right (by decide) short
  have trimmed : s.dropWhile isSpace = s := by
    cases s with
    | nil => rfl
    | cons c s =>
        have digit := isSpace_of_isDigit (digits c List.mem_cons_self)
        exact List.dropWhile_cons_of_neg (by simp [digit])
  unfold strtol
  dsimp only
  rw [trimmed]
  split
  · cases digits '-' List.mem_cons_self
  · cases digits '+' List.mem_cons_self
  · omega

/-- The number is the value of an `int`. -/
def FitsInt (n : Int) : Prop := -2147483648 ≤ n ∧ n ≤ 2147483647

/-! ## From a number to a string -/

/-- The conversion `%d`. -/
def decimal (n : Int) : List Char :=
  if n < 0 then '-' :: Nat.toDigits 10 n.natAbs else Nat.toDigits 10 n.natAbs

/-- `snprintf(buf, size, "%s", text)` on a buffer that holds `bytes`. -/
def snprintf (size : Nat) (text bytes : List Char) : List Char :=
  text.take (size - 1) ++ nul :: bytes.drop (min (size - 1) text.length + 1)

theorem length_decimal_le {n : Int} (fits : FitsInt n) : (decimal n).length ≤ 11 := by
  have digits : (Nat.toDigits 10 n.natAbs).length ≤ 10 := by
    refine (Nat.length_toDigits_le_iff (by decide) (by decide)).mpr ?_
    obtain ⟨low, high⟩ := fits
    omega
  unfold decimal
  split
  · rw [List.length_cons]
    omega
  · omega

theorem nul_notMem_decimal (n : Int) : nul ∉ decimal n := by
  have digits : nul ∉ Nat.toDigits 10 n.natAbs := by
    intro member
    have digit := Nat.isDigit_of_mem_toDigits (by decide) (by decide) member
    cases digit
  unfold decimal
  split
  · exact List.not_mem_cons_of_ne_of_not_mem (by decide) digits
  · exact digits

theorem nul_notMem_cString (s : List Char) : nul ∉ cString s := by
  intro member
  have differs := List.mem_takeWhile_imp member
  simp at differs

/-- Nothing behind a NUL is read. -/
theorem cString_append_nul_cons (text rest : List Char) :
    cString (text ++ nul :: rest) = cString text := by
  induction text with
  | nil => rfl
  | cons c text ih =>
      unfold cString at ih ⊢
      rw [List.cons_append, List.takeWhile_cons, List.takeWhile_cons, ih]

theorem cString_of_notMem {text : List Char} (none : nul ∉ text) : cString text = text := by
  refine List.takeWhile_eq_self_iff.mpr fun c member => ?_
  exact bne_iff_ne.mpr fun same => none (same ▸ member)

theorem dropLast_cString_subset (text : List Char) : (cString text).dropLast ⊆ text.dropLast := by
  obtain ⟨rest, split⟩ := List.takeWhile_prefix (· != nul) (l := text)
  intro c member
  rw [← split]
  cases rest with
  | nil => rwa [List.append_nil]
  | cons d rest =>
      rw [List.dropLast_append_cons]
      exact List.mem_append_left _ (List.dropLast_subset _ member)

/-- What has been written up to its NUL is read back. -/
theorem cString_append_nul {text : List Char} (none : nul ∉ text) (rest : List Char) :
    cString (text ++ nul :: rest) = text := by
  rw [cString_append_nul_cons, cString_of_notMem none]

/-- An `int` is read back whole from a buffer of 12 characters or more. -/
theorem cString_snprintf {size : Nat} {n : Int} (fits : FitsInt n) (room : 12 ≤ size)
    (bytes : List Char) : cString (snprintf size (decimal n) bytes) = decimal n := by
  have short := length_decimal_le fits
  rw [snprintf, List.take_of_length_le (by omega)]
  exact cString_append_nul (nul_notMem_decimal n) _

end Alnp
