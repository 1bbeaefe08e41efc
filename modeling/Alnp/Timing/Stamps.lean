import Mathlib.Algebra.Order.Field.Rat
import Mathlib.Algebra.Order.Ring.Cast
import Mathlib.Tactic.Ring
import Alnp.Kernel.Timespec

/-!
# The time stamps of `io_timerfd.c`

`print_elapsed_time` of `Chapter11/io_timerfd.c` prints the time since its first call in seconds and
milliseconds.  It borrows a second where the nanoseconds are negative and then rounds them to
milliseconds on their own, so that the last half millisecond of a second comes out as 1000.

`stamped_iff`: when the stamps of a run are right.
-/

namespace Alnp.IoTimerfd

/-- What a call prints. -/
structure Stamp where
  secs : Int
  msecs : Int
  deriving DecidableEq

/-- `"%d.%03d: "` -/
def Stamp.text (stamp : Stamp) : List Char :=
  decimal stamp.secs ++ '.' :: (zeroPadded 3 stamp.msecs ++ [':', ' '])

/-- The stamp for a reading of the clock, where the arithmetic is defined. -/
def elapsed (start curr : Timespec) : Option Stamp := do
  let sec ← CInt.checked CInt.long (curr.tvSec - start.tvSec)
  let nsec ← CInt.checked CInt.long (curr.tvNsec - start.tvNsec)
  let secs := CInt.convert CInt.int sec
  let nsecs := CInt.convert CInt.int nsec
  let (secs, nsecs) ←
    if nsecs < 0 then do
      let secs ← CInt.checked CInt.int (secs - 1)
      let nsecs ← CInt.checked CInt.int (nsecs + 1000000000)
      pure (secs, nsecs)
    else pure (secs, nsecs)
  let rounded ← CInt.checked CInt.int (nsecs + 500000)
  return ⟨secs, rounded.tdiv 1000000⟩

/-- The static variables of `print_elapsed_time`, and the number of the next reading. -/
structure State where
  start : Timespec
  firstCall : Bool
  next : Nat

/-- `clock_gettime(CLOCK_MONOTONIC, ..)` that succeeds. -/
def clockGettime (clock : Nat → Timespec) (s : State) : Timespec × State :=
  (clock s.next, { s with next := s.next + 1 })

def printElapsedTime (clock : Nat → Timespec) (s : State) : Option (Stamp × State) := do
  let s :=
    if s.firstCall then
      let (start, s) := clockGettime clock s
      { s with start := start, firstCall := false }
    else s
  let (curr, s) := clockGettime clock s
  let stamp ← elapsed s.start curr
  return (stamp, s)

/-- The stamps of some calls. -/
def calls (clock : Nat → Timespec) : Nat → State → Option (List Stamp)
  | 0, _ => some []
  | n + 1, s => do
      let (stamp, s) ← printElapsedTime clock s
      let stamps ← calls clock n s
      return stamp :: stamps

/-- Nothing has been called. -/
def State.init : State := ⟨⟨0, 0⟩, true, 0⟩

variable {clock : Nat → Timespec} {start curr : Timespec} {stamps : List Stamp} {n : Nat}

/-! ## One stamp -/

/-- The nanoseconds rounded to milliseconds. -/
def toMsecs (nsecs : Int) : Int := (nsecs + 500000) / 1000000

/-- The time from `start` to `curr` is not negative and shorter than `2 ^ 31` seconds. -/
structure Since (start curr : Timespec) : Prop where
  started : start.Normalised
  normalised : curr.Normalised
  later : start.nanoseconds ≤ curr.nanoseconds
  short : curr.nanoseconds - start.nanoseconds < 2147483648 * 1000000000

/-- The stamp that the code computes from a time in nanoseconds. -/
def stampOf (nsecs : Int) : Stamp := ⟨nsecs / 1000000000, toMsecs (nsecs % 1000000000)⟩

/-- A stamp from seconds and the nanoseconds behind them. -/
theorem stampOf_add {secs nsecs : Int} (nonneg : 0 ≤ nsecs) (below : nsecs < 1000000000) :
    stampOf (secs * 1000000000 + nsecs) = ⟨secs, (nsecs + 500000).tdiv 1000000⟩ := by
  have whole : (secs * 1000000000 + nsecs) / 1000000000 = secs := by omega
  have fraction : (secs * 1000000000 + nsecs) % 1000000000 = nsecs := by omega
  rw [stampOf, toMsecs, whole, fraction, Int.tdiv_eq_ediv_of_nonneg (by omega)]

/-- The differences fit the types they are stored in first, but for the seconds as an `int`. -/
theorem Since.fits (since : Since start curr) :
    CInt.Fits CInt.long (curr.tvSec - start.tvSec) ∧
      CInt.Fits CInt.long (curr.tvNsec - start.tvNsec) ∧
      CInt.Fits CInt.int (curr.tvNsec - start.tvNsec) := by
  obtain ⟨⟨-, nonneg, below⟩, ⟨-, nonneg', below'⟩, later, short⟩ := since
  unfold Timespec.nanoseconds at later short
  unfold CInt.Fits CInt.long CInt.int
  omega

/-- The nanoseconds are already in order. -/
theorem elapsed_of_le (since : Since start curr) (le : start.tvNsec ≤ curr.tvNsec) :
    elapsed start curr = some (stampOf (curr.nanoseconds - start.nanoseconds)) := by
  obtain ⟨sec, nsec, nsec'⟩ := since.fits
  obtain ⟨⟨-, nonneg, below⟩, ⟨-, nonneg', below'⟩, later, short⟩ := since
  unfold Timespec.nanoseconds at *
  have secs : CInt.Fits CInt.int (curr.tvSec - start.tvSec) :=
    CInt.fits_of_nonneg (by omega) (by unfold CInt.int; omega)
  have rounded : CInt.Fits CInt.int (curr.tvNsec - start.tvNsec + 500000) := by
    unfold CInt.Fits CInt.int
    omega
  have time : curr.tvSec * 1000000000 + curr.tvNsec -
        (start.tvSec * 1000000000 + start.tvNsec) =
      (curr.tvSec - start.tvSec) * 1000000000 + (curr.tvNsec - start.tvNsec) := by omega
  have inOrder : ¬ curr.tvNsec - start.tvNsec < 0 := by omega
  simp only [elapsed, CInt.checked_of_fits sec, CInt.checked_of_fits nsec,
    CInt.convert_of_fits nsec', Option.bind_eq_bind, Option.bind_some, Option.pure_def]
  rw [if_neg inOrder, CInt.convert_of_fits secs, CInt.checked_of_fits rounded, Option.bind_some,
    time, stampOf_add (by omega) (by omega)]

/-- A second is borrowed, if the seconds are an `int`. -/
theorem elapsed_of_lt (since : Since start curr) (less : curr.tvNsec < start.tvNsec) :
    elapsed start curr =
      if curr.tvSec - start.tvSec < 2147483648 then
        some (stampOf (curr.nanoseconds - start.nanoseconds))
      else none := by
  obtain ⟨sec, nsec, nsec'⟩ := since.fits
  obtain ⟨⟨-, nonneg, below⟩, ⟨-, nonneg', below'⟩, later, short⟩ := since
  unfold Timespec.nanoseconds at *
  have negative : curr.tvNsec - start.tvNsec < 0 := by omega
  simp only [elapsed, CInt.checked_of_fits sec, CInt.checked_of_fits nsec,
    CInt.convert_of_fits nsec', Option.bind_eq_bind, Option.bind_some, Option.pure_def]
  rw [if_pos negative]
  split
  · next fits =>
      have secs : CInt.Fits CInt.int (curr.tvSec - start.tvSec) :=
        CInt.fits_of_nonneg (by omega) fits
      have secs' : CInt.Fits CInt.int (curr.tvSec - start.tvSec - 1) :=
        CInt.fits_of_nonneg (by omega) (by unfold CInt.int; omega)
      have borrowed : CInt.Fits CInt.int (curr.tvNsec - start.tvNsec + 1000000000) := by
        unfold CInt.Fits CInt.int
        omega
      have rounded : CInt.Fits CInt.int (curr.tvNsec - start.tvNsec + 1000000000 + 500000) := by
        unfold CInt.Fits CInt.int
        omega
      have time : curr.tvSec * 1000000000 + curr.tvNsec -
            (start.tvSec * 1000000000 + start.tvNsec) =
          (curr.tvSec - start.tvSec - 1) * 1000000000 +
            (curr.tvNsec - start.tvNsec + 1000000000) := by omega
      rw [CInt.convert_of_fits secs, CInt.checked_of_fits secs', Option.bind_some,
        CInt.checked_of_fits borrowed, Option.bind_some, CInt.checked_of_fits rounded,
        Option.bind_some, time, stampOf_add (by omega) (by omega)]
  · next wide =>
      -- `secs` has become `-2 ^ 31`, from which nothing can be subtracted.
      have exactly : curr.tvSec - start.tvSec = 2147483648 := by omega
      have wrapped : CInt.checked CInt.int (CInt.convert CInt.int 2147483648 - 1) = none := by
        decide
      rw [exactly, wrapped, Option.bind_none]

/-- The stamp is that of the elapsed time, unless the seconds in front of the borrowing are no
`int`. -/
theorem elapsed_eq (since : Since start curr) :
    elapsed start curr =
      if curr.tvSec - start.tvSec < 2147483648 then
        some (stampOf (curr.nanoseconds - start.nanoseconds))
      else none := by
  rcases Int.lt_or_le curr.tvNsec start.tvNsec with less | le
  · exact elapsed_of_lt since less
  · have short := since.short
    unfold Timespec.nanoseconds at short
    have small : curr.tvSec - start.tvSec < 2147483648 := by omega
    rw [if_pos small, elapsed_of_le since le]

/-- The elapsed time in milliseconds is right. -/
theorem secs_add_msecs (nsecs : Int) :
    (stampOf nsecs).secs * 1000 + (stampOf nsecs).msecs = toMsecs nsecs := by
  unfold stampOf toMsecs
  dsimp only
  omega

/-- The milliseconds are less than a second up to the last half millisecond. -/
theorem msecs_le_iff (nsecs : Int) :
    0 ≤ (stampOf nsecs).msecs ∧ (stampOf nsecs).msecs ≤ 999 ↔ nsecs % 1000000000 < 999500000 := by
  unfold stampOf toMsecs
  dsimp only
  omega

/-! ## A stamp as a decimal number -/

/-- The digits behind the point. -/
def decimals (s : List Char) : List Char :=
  ((s.dropWhile fun c => c != '.').drop 1).takeWhile Char.isDigit

/-- The number at the beginning of a text. -/
def reading (s : List Char) : ℚ :=
  digitsValue s + digitsValue (decimals s) / 10 ^ (decimals s).length

theorem reading_text {stamp : Stamp} (nonneg : 0 ≤ stamp.secs) (low : 0 ≤ stamp.msecs)
    (high : stamp.msecs ≤ 999) :
    reading stamp.text = ((stamp.secs * 1000 + stamp.msecs : Int) : ℚ) / 1000 := by
  have digits : ∀ c ∈ decimal stamp.secs, c.isDigit = true := by
    rw [decimal_eq_zeroPadded]
    exact isDigit_zeroPadded nonneg
  have digits' : ∀ c ∈ zeroPadded 3 stamp.msecs, c.isDigit = true := isDigit_zeroPadded low
  have whole : digitsValue stamp.text = stamp.secs := by
    rw [Stamp.text, digitsValue_append digits rfl, decimal_eq_zeroPadded,
      digitsValue_zeroPadded nonneg]
  have noPoint : ∀ c ∈ decimal stamp.secs, (c != '.') = true := by
    intro c member
    refine bne_iff_ne.mpr fun same => ?_
    subst same
    cases digits '.' member
  have fraction : decimals stamp.text = zeroPadded 3 stamp.msecs := by
    rw [decimals, Stamp.text, List.dropWhile_append_of_pos noPoint,
      List.dropWhile_cons_of_neg (by decide), List.drop_one, List.tail_cons,
      List.takeWhile_append_of_pos digits', List.takeWhile_cons_of_neg (by decide),
      List.append_nil]
  rw [reading, whole, fraction, digitsValue_zeroPadded low,
    length_zeroPadded (by decide) low (by omega)]
  push_cast
  ring

/-! ## A run -/

theorem printElapsedTime_later (i : Nat) :
    printElapsedTime clock ⟨start, false, i⟩ =
      (elapsed start (clock i)).map fun stamp => (stamp, ⟨start, false, i + 1⟩) := by
  rw [Option.map_eq_bind]
  rfl

/-- The calls behind the first one. -/
theorem calls_eq_some_iff {i : Nat} :
    calls clock n ⟨start, false, i⟩ = some stamps ↔
      stamps.length = n ∧ ∀ k < n, stamps[k]? = elapsed start (clock (i + k)) := by
  induction n generalizing i stamps with
  | zero => simp [calls, eq_comm]
  | succ n ih =>
      have call : calls clock (n + 1) ⟨start, false, i⟩ =
          (elapsed start (clock i)).bind fun stamp =>
            (calls clock n ⟨start, false, i + 1⟩).map fun stamps => stamp :: stamps := by
        rw [calls, printElapsedTime_later]
        cases elapsed start (clock i) with
        | none => rfl
        | some stamp =>
            rw [Option.map_some, Option.bind_some, Option.map_eq_bind]
            rfl
      rw [call, Option.bind_eq_some_iff]
      constructor
      · rintro ⟨stamp, first, others⟩
        obtain ⟨rest, calls', rfl⟩ := Option.map_eq_some_iff.mp others
        obtain ⟨length, each⟩ := ih.mp calls'
        refine ⟨congrArg (· + 1) length, fun k lt => ?_⟩
        cases k with
        | zero => exact first.symm
        | succ k =>
            rw [List.getElem?_cons_succ, each k (Nat.lt_of_succ_lt_succ lt),
              Nat.succ_add_eq_add_succ]
      · rintro ⟨length, each⟩
        obtain ⟨stamp, rest, rfl⟩ := List.exists_cons_of_length_eq_add_one length
        refine ⟨stamp, (each 0 (Nat.succ_pos n)).symm, Option.map_eq_some_iff.mpr ⟨rest, ?_, rfl⟩⟩
        refine ih.mpr ⟨Nat.succ.inj length, fun k lt => ?_⟩
        rw [Nat.succ_add_eq_add_succ, ← each (k + 1) (Nat.succ_lt_succ lt),
          List.getElem?_cons_succ]

/-- The first call takes the first reading as the start. -/
theorem calls_init : calls clock n .init = calls clock n ⟨clock 0, false, 1⟩ := by
  cases n with
  | zero => rfl
  | succ n => rfl

/-- The nanoseconds from the first reading to a later one. -/
def sinceStart (clock : Nat → Timespec) (k : Nat) : Int :=
  (clock k).nanoseconds - (clock 0).nanoseconds

/-- The readings for `n` calls do not decrease, and none comes `2 ^ 31` seconds after the first. -/
structure Steady (clock : Nat → Timespec) (n : Nat) : Prop where
  normalised : ∀ k ≤ n, (clock k).Normalised
  ordered : ∀ k < n, (clock k).nanoseconds ≤ (clock (k + 1)).nanoseconds
  short : ∀ k ≤ n, sinceStart clock k < 2147483648 * 1000000000

theorem Steady.mono (steady : Steady clock n) {j k : Nat} (le : j ≤ k) (last : k ≤ n) :
    sinceStart clock j ≤ sinceStart clock k := by
  induction k, le using Nat.le_induction with
  | base => exact Int.le_refl _
  | succ k _ ih =>
      have before := ih (Nat.le_of_succ_le last)
      have step := steady.ordered k last
      unfold sinceStart at before ⊢
      omega

theorem Steady.since (steady : Steady clock n) {k : Nat} (last : k ≤ n) :
    Since (clock 0) (clock k) := by
  refine ⟨steady.normalised 0 (Nat.zero_le n), steady.normalised k last, ?_, steady.short k last⟩
  have later := steady.mono (Nat.zero_le k) last
  unfold sinceStart at later
  omega

/-- Every call prints its stamp, of which the milliseconds are less than a second; the stamps are
the elapsed times to the nearest millisecond, and read as numbers they do not decrease. -/
structure Stamped (clock : Nat → Timespec) (n : Nat) (stamps : List Stamp) : Prop where
  calls : calls clock n .init = some stamps
  millis : ∀ stamp ∈ stamps, 0 ≤ stamp.msecs ∧ stamp.msecs ≤ 999
  rounded : ∀ k stamp, stamps[k]? = some stamp →
    stamp.secs * 1000 + stamp.msecs = toMsecs (sinceStart clock (k + 1))
  sorted : (stamps.map fun stamp => reading stamp.text).Pairwise (· ≤ ·)

/-- The reading for a right stamp: the time is not in the last half millisecond of a second, and
the seconds in front of the borrowing are an `int`. -/
def Unharmed (clock : Nat → Timespec) (k : Nat) : Prop :=
  (clock k).tvSec - (clock 0).tvSec < 2147483648 ∧ sinceStart clock k % 1000000000 < 999500000

instance (clock : Nat → Timespec) (k : Nat) : Decidable (Unharmed clock k) :=
  inferInstanceAs (Decidable (_ ∧ _))

theorem Stamped.unharmed (steady : Steady clock n) (stamped : Stamped clock n stamps) {k : Nat}
    (lt : k < n) : Unharmed clock (k + 1) := by
  obtain ⟨length, each⟩ := calls_eq_some_iff.mp (calls_init.symm.trans stamped.calls)
  have here := each k lt
  rw [List.getElem?_eq_getElem (length ▸ lt), Nat.add_comm 1 k,
    elapsed_eq (steady.since lt)] at here
  split at here
  · next small =>
      have millis := stamped.millis stamps[k] (List.getElem_mem _)
      rw [Option.some.inj here] at millis
      exact ⟨small, (msecs_le_iff _).mp millis⟩
  · cases here

/-- The stamps of a run whose seconds fit. -/
def stampsOf (clock : Nat → Timespec) (n : Nat) : List Stamp :=
  (List.range n).map fun k => stampOf (sinceStart clock (k + 1))

theorem getElem?_stampsOf {k : Nat} (lt : k < n) :
    (stampsOf clock n)[k]? = some (stampOf (sinceStart clock (k + 1))) := by
  rw [stampsOf, List.getElem?_map, List.getElem?_range lt, Option.map_some]

theorem length_stampsOf : (stampsOf clock n).length = n := by
  rw [stampsOf, List.length_map, List.length_range]

/-- As a number, a stamp is the elapsed time in milliseconds. -/
theorem Unharmed.reading (steady : Steady clock n) {k : Nat} (lt : k < n)
    (unharmed : Unharmed clock (k + 1)) :
    reading (stampOf (sinceStart clock (k + 1))).text =
      (toMsecs (sinceStart clock (k + 1)) : ℚ) / 1000 := by
  obtain ⟨low, high⟩ := (msecs_le_iff _).mpr unharmed.2
  have nonneg : 0 ≤ (stampOf (sinceStart clock (k + 1))).secs := by
    have later := steady.mono (Nat.zero_le (k + 1)) lt
    unfold sinceStart at later
    unfold stampOf sinceStart
    dsimp only
    omega
  rw [reading_text nonneg low high, secs_add_msecs]

theorem calls_of_unharmed (steady : Steady clock n) (unharmed : ∀ k < n, Unharmed clock (k + 1)) :
    calls clock n .init = some (stampsOf clock n) := by
  rw [calls_init]
  refine calls_eq_some_iff.mpr ⟨length_stampsOf, fun k lt => ?_⟩
  rw [getElem?_stampsOf lt, Nat.add_comm 1 k, elapsed_eq (steady.since lt),
    if_pos (unharmed k lt).1]
  rfl

theorem sorted_stampsOf (steady : Steady clock n) (unharmed : ∀ k < n, Unharmed clock (k + 1)) :
    ((stampsOf clock n).map fun stamp => reading stamp.text).Pairwise (· ≤ ·) := by
  rw [stampsOf, List.map_map, List.pairwise_map]
  refine (List.pairwise_lt_range (n := n)).imp_of_mem fun {j k} member member' lt => ?_
  have before := List.mem_range.mp member
  have below := List.mem_range.mp member'
  have order : toMsecs (sinceStart clock (j + 1)) ≤ toMsecs (sinceStart clock (k + 1)) := by
    have times := steady.mono (Nat.add_le_add_right (Nat.le_of_lt lt) 1) below
    unfold toMsecs
    omega
  simp only [Function.comp_apply]
  rw [(unharmed j before).reading steady before, (unharmed k below).reading steady below]
  exact div_le_div_of_nonneg_right (Int.cast_le.mpr order) (by norm_num)

/-- **Time stamps.**  The stamps of a run are right exactly if each of its readings is
`Unharmed`. -/
theorem stamped_iff (clock : Nat → Timespec) (n : Nat) (steady : Steady clock n) :
    (∃ stamps, Stamped clock n stamps) ↔ ∀ k < n, Unharmed clock (k + 1) := by
  constructor
  · rintro ⟨stamps, stamped⟩ k lt
    exact stamped.unharmed steady lt
  · intro unharmed
    refine ⟨stampsOf clock n, ?_, ?_, ?_, ?_⟩
    · exact calls_of_unharmed steady unharmed
    · intro stamp member
      obtain ⟨k, lt, rfl⟩ := List.mem_map.mp member
      exact (msecs_le_iff _).mpr (unharmed k (List.mem_range.mp lt)).2
    · intro k stamp found
      have inside := (List.getElem?_eq_some_iff.mp found).1
      rw [length_stampsOf] at inside
      rw [getElem?_stampsOf inside] at found
      cases found
      exact secs_add_msecs _
    · exact sorted_stampsOf steady unharmed

/-- Readings at 5.7, 6.1995 and 7.2 seconds: the stamps are 0.500 and 1.500. -/
theorem stamped_two :
    ∃ stamps, Stamped
      (fun k => if k = 0 then ⟨5, 700000000⟩ else if k = 1 then ⟨6, 199500000⟩
        else ⟨7, 200000000⟩) 2 stamps :=
  (stamped_iff _ 2 ⟨by decide, by decide, by decide⟩).mpr (by decide)

/-- Readings 0.5, 0.9999 and 1.2 seconds after the start print 0.500, 0.1000 and 1.200. -/
theorem not_forall_stamped :
    ¬ ∀ (clock : Nat → Timespec) (n : Nat), Steady clock n →
      ∃ stamps, Stamped clock n stamps := by
  intro always
  let clock (k : Nat) : Timespec :=
    if k = 0 then ⟨10, 0⟩ else if k = 1 then ⟨10, 500000000⟩
    else if k = 2 then ⟨10, 999900000⟩ else ⟨11, 200000000⟩
  have steady : Steady clock 3 := ⟨by decide, by decide, by decide⟩
  obtain ⟨stamps, stamped⟩ := always clock 3 steady
  have late : ¬ Unharmed clock 2 := by decide
  exact late (stamped.unharmed steady (k := 1) (by decide))

end Alnp.IoTimerfd
