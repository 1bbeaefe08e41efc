import Mathlib.Data.List.TakeDrop
import Alnp.Kernel.Timespec

/-!
# Differences of times

`diff_timespec` as `Chapter05/mmap_hugepage.c` and `Chapter10/cputime_process.c` have it, and what
the two programs print of its result.  The second routine takes the seconds of the earlier time from
the nanoseconds of the later one; the first program prints into 16 bytes.

`agree_iff`: when the two results are the same and right.
-/

namespace Alnp

namespace Timespec

/-- The difference of two pairs of fields, with a second borrowed where the nanoseconds are
negative. -/
def borrow (sec sec' nsec nsec' : Int) : Option Timespec := do
  let sec ← CInt.checked CInt.long (sec - sec')
  let nsec ← CInt.checked CInt.long (nsec - nsec')
  if nsec < 0 then
    let sec ← CInt.checked CInt.long (sec - 1)
    let nsec ← CInt.checked CInt.long (nsec + 1000000000)
    return ⟨sec, nsec⟩
  else return ⟨sec, nsec⟩

variable {sec sec' nsec nsec' : Int} {d s t : Timespec}

/-- Borrowing a second leaves the time as it is. -/
theorem nanoseconds_borrow (borrowed : borrow sec sec' nsec nsec' = some d) :
    d.nanoseconds = (sec - sec') * 1000000000 + (nsec - nsec') := by
  simp only [borrow, Option.bind_eq_bind, Option.bind_eq_some_iff, CInt.checked_eq_some_iff]
    at borrowed
  obtain ⟨_, ⟨-, rfl⟩, _, ⟨-, rfl⟩, borrowed⟩ := borrowed
  unfold nanoseconds
  split at borrowed
  · simp only [Option.bind_eq_some_iff, CInt.checked_eq_some_iff] at borrowed
    obtain ⟨_, ⟨-, rfl⟩, _, ⟨-, rfl⟩, borrowed⟩ := borrowed
    cases borrowed
    dsimp only
    omega
  · cases borrowed
    rfl

/-- The difference of two times is normalised. -/
theorem exists_borrow (normalised : s.Normalised) (normalised' : t.Normalised)
    (ordered : s.nanoseconds ≤ t.nanoseconds)
    (fits : CInt.Fits CInt.long (t.tvSec - s.tvSec)) :
    ∃ d, borrow t.tvSec s.tvSec t.tvNsec s.tvNsec = some d ∧ d.Normalised := by
  obtain ⟨-, nonneg, short⟩ := normalised
  obtain ⟨-, nonneg', short'⟩ := normalised'
  unfold nanoseconds at ordered
  have nsecs : CInt.Fits CInt.long (t.tvNsec - s.tvNsec) := by
    unfold CInt.Fits CInt.long
    omega
  simp only [borrow, CInt.checked_of_fits fits, CInt.checked_of_fits nsecs, Option.bind_eq_bind,
    Option.bind_some]
  by_cases less : t.tvNsec - s.tvNsec < 0
  · have secs : CInt.Fits CInt.long (t.tvSec - s.tvSec - 1) := by
      unfold CInt.Fits CInt.long at fits ⊢
      omega
    have nsecs' : CInt.Fits CInt.long (t.tvNsec - s.tvNsec + 1000000000) := by
      unfold CInt.Fits CInt.long
      omega
    rw [if_pos less, CInt.checked_of_fits secs, Option.bind_some, CInt.checked_of_fits nsecs']
    refine ⟨_, rfl, secs, ?_, ?_⟩
    · dsimp only
      omega
    · dsimp only
      omega
  · rw [if_neg less]
    refine ⟨_, rfl, fits, ?_, ?_⟩
    · dsimp only
      omega
    · dsimp only
      omega

/-! ## What is printed -/

/-- `"%ld.%09ld"` -/
def text (t : Timespec) : List Char := decimal t.tvSec ++ '.' :: zeroPadded 9 t.tvNsec

theorem nul_notMem_text (t : Timespec) : nul ∉ t.text := by
  rw [text, List.mem_append, not_or]
  exact ⟨nul_notMem_decimal t.tvSec,
    List.not_mem_cons_of_ne_of_not_mem (by decide) (nul_notMem_zeroPadded 9 t.tvNsec)⟩

/-- Up to 15 characters are enough for less than 100000 seconds. -/
theorem length_text_le_iff {t : Timespec} (normalised : t.Normalised)
    (nonneg : 0 ≤ t.tvSec) : t.text.length ≤ 15 ↔ t.tvSec < 100000 := by
  have fraction : (zeroPadded 9 t.tvNsec).length = 9 :=
    length_zeroPadded (by decide) normalised.nonneg normalised.short
  have whole : decimal t.tvSec = Nat.toDigits 10 t.tvSec.natAbs := if_neg (by omega)
  have digits : (Nat.toDigits 10 t.tvSec.natAbs).length ≤ 5 ↔ t.tvSec.natAbs < 10 ^ 5 :=
    Nat.length_toDigits_le_iff (by decide) (by decide)
  rw [text, List.length_append, List.length_cons, fraction, whole]
  omega

end Timespec

/-! ## The two programs -/

namespace MmapHugepage

def diffTimespec (tsNow tsPrev : Timespec) : Option Timespec :=
  Timespec.borrow tsNow.tvSec tsPrev.tvSec tsNow.tvNsec tsPrev.tvNsec

def sizeStrTs : Nat := 16

/-- `get_deltatimespec_str` behind its `clock_gettime`, with the bytes of `str_ts`. -/
def getDeltatimespecStr (tsNow : Timespec) (tsPrev : Option Timespec) (strTs : List Char) :
    Option (List Char) :=
  match tsPrev with
  | some tsPrev => do
      let tsDiff ← diffTimespec tsNow tsPrev
      return snprintf sizeStrTs tsDiff.text strTs
  | none => some strTs

/-- What `main` prints of the buffer. -/
def printed (tsNow tsPrev : Timespec) (strTs : List Char) : Option (List Char) :=
  (getDeltatimespecStr tsNow (some tsPrev) strTs).map cString

end MmapHugepage

namespace CputimeProcess

def diffTimespec (t1 t2 : Timespec) : Option Timespec :=
  Timespec.borrow t2.tvSec t1.tvSec t2.tvNsec t1.tvSec

/-- The text in which `main` prints the difference. -/
def printed (ts1 ts2 : Timespec) : Option (List Char) := (diffTimespec ts1 ts2).map Timespec.text

end CputimeProcess

namespace DiffTimespec

/-- The two routines return the same normalised value, it is the time from `prev` to `now`, and both
programs print it to the nanosecond. -/
def Agree (now prev : Timespec) (strTs : List Char) : Prop :=
  ∃ d, MmapHugepage.diffTimespec now prev = some d ∧
    CputimeProcess.diffTimespec prev now = some d ∧ d.Normalised ∧
    prev.nanoseconds + d.nanoseconds = now.nanoseconds ∧
    MmapHugepage.printed now prev strTs = some d.text ∧
    CputimeProcess.printed prev now = some d.text

variable {now prev d : Timespec} {strTs : List Char}

/-- The buffer holds the whole text exactly if the difference is less than 100000 seconds. -/
theorem printed_iff (diff : MmapHugepage.diffTimespec now prev = some d)
    (normalised : d.Normalised) (nonneg : 0 ≤ d.tvSec) :
    MmapHugepage.printed now prev strTs = some d.text ↔ d.tvSec < 100000 := by
  have noNul : nul ∉ d.text.take 15 := fun member =>
    d.nul_notMem_text (List.mem_of_mem_take member)
  have printed : MmapHugepage.printed now prev strTs = some (d.text.take 15) := by
    simp only [MmapHugepage.printed, MmapHugepage.getDeltatimespecStr, diff, Option.bind_eq_bind,
      Option.bind_some, Option.pure_def, Option.map_some]
    exact congrArg some (cString_append_nul noNul _)
  rw [printed, Option.some.injEq, List.take_eq_self_iff]
  exact Timespec.length_text_le_iff normalised nonneg

/-- A time that is not negative has no negative seconds. -/
theorem tvSec_nonneg (normalised : d.Normalised) (elapsed : 0 ≤ d.nanoseconds) : 0 ≤ d.tvSec := by
  obtain ⟨-, nonneg, short⟩ := normalised
  unfold Timespec.nanoseconds at elapsed
  omega

/-- **Differences.**  Of two normalised times in their order, the two routines give the same and
true difference, and both programs print it, exactly if the earlier time has as many seconds as
nanoseconds and the later one comes less than 100000 seconds after it. -/
theorem agree_iff (now prev : Timespec) (strTs : List Char) (normalised : now.Normalised)
    (normalised' : prev.Normalised) (ordered : prev.nanoseconds ≤ now.nanoseconds) :
    Agree now prev strTs ↔
      prev.tvSec = prev.tvNsec ∧
        now.nanoseconds - prev.nanoseconds < 100000 * 1000000000 := by
  constructor
  · rintro ⟨d, diff, diff', normal, sum, printed, -⟩
    have wrong := Timespec.nanoseconds_borrow diff'
    have nonneg := tvSec_nonneg normal (by omega)
    have short := (printed_iff diff normal nonneg).mp printed
    have below := normal.short
    unfold Timespec.nanoseconds at *
    omega
  · rintro ⟨same, short⟩
    have fits : CInt.Fits CInt.long (now.tvSec - prev.tvSec) := by
      obtain ⟨-, high⟩ := normalised.long
      have nonneg := normalised'.nonneg
      have below := normalised.short
      unfold Timespec.nanoseconds at ordered
      exact CInt.fits_of_nonneg (by omega) (by omega)
    obtain ⟨d, diff, normal⟩ := Timespec.exists_borrow normalised' normalised ordered fits
    have diff : MmapHugepage.diffTimespec now prev = some d := diff
    have diff' : CputimeProcess.diffTimespec prev now = some d := by
      rw [← diff, CputimeProcess.diffTimespec, MmapHugepage.diffTimespec, same]
    have sum : prev.nanoseconds + d.nanoseconds = now.nanoseconds := by
      have difference := Timespec.nanoseconds_borrow diff
      unfold Timespec.nanoseconds at difference ⊢
      omega
    have nonneg := tvSec_nonneg normal (by omega)
    refine ⟨d, diff, diff', normal, sum, (printed_iff diff normal nonneg).mpr ?_, ?_⟩
    · have below := normal.nonneg
      unfold Timespec.nanoseconds at sum short
      omega
    · rw [CputimeProcess.printed, diff', Option.map_some]

/-- 20 and a half seconds, from 5 seconds and 5 nanoseconds on. -/
theorem agree_twenty : Agree ⟨25, 500000005⟩ ⟨5, 5⟩ [] := by
  refine (agree_iff ⟨25, 500000005⟩ ⟨5, 5⟩ [] (by decide) (by decide) (by decide)).mpr ?_
  decide

/-- From 1 second to 2 seconds the second routine finds one nanosecond less than a second. -/
theorem not_forall_agree :
    ¬ ∀ (now prev : Timespec) (strTs : List Char), now.Normalised → prev.Normalised →
      prev.nanoseconds ≤ now.nanoseconds → Agree now prev strTs := by
  intro always
  obtain ⟨d, diff, diff', -⟩ := always ⟨2, 0⟩ ⟨1, 0⟩ [] (by decide) (by decide) (by decide)
  have first : MmapHugepage.diffTimespec ⟨2, 0⟩ ⟨1, 0⟩ = some ⟨1, 0⟩ := by decide
  have second : CputimeProcess.diffTimespec ⟨1, 0⟩ ⟨2, 0⟩ = some ⟨0, 999999999⟩ := by decide
  cases first.symm.trans diff
  cases second.symm.trans diff'

end DiffTimespec

end Alnp
