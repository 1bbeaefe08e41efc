import Mathlib.Algebra.BigOperators.Group.List.Basic
import Mathlib.Algebra.Ring.Nat
import Alnp.Kernel.Timespec
import Alnp.Lib.Machine
import Alnp.Lib.Since

/-!
# The expirations that `io_timerfd.c` reads

`main` of `Chapter11/io_timerfd.c` arms a timer for a moment of `CLOCK_REALTIME`, with an interval
if it has three arguments, and reads how often it has expired until the sum has come to `max_exp`.
The sum is a `uint64_t` and `max_exp` an `int`.  The clock, which counts nanoseconds in 63 bits,
does not go back, and time passes anywhere between two steps.

`ioTimerfd_correct`: what is read adds up to the expirations so far; and when `main` returns.
-/

namespace Alnp.IoTimerfdMain

/-! ## The timer -/

structure Itimerspec where
  itInterval : Timespec
  itValue : Timespec

/-- `timerfd_settime` takes these times. -/
def Itimerspec.Valid (spec : Itimerspec) : Prop :=
  (0 ≤ spec.itInterval.tvSec ∧ 0 ≤ spec.itInterval.tvNsec ∧ spec.itInterval.tvNsec < 1000000000) ∧
    0 ≤ spec.itValue.tvSec ∧ 0 ≤ spec.itValue.tvNsec ∧ spec.itValue.tvNsec < 1000000000

/-- How often a timer has expired at `t`; one that is armed for 0 is not armed. -/
def expirations (value interval t : Nat) : Nat :=
  if value = 0 ∨ t < value then 0
  else if interval = 0 then 1
  else (t - value) / interval + 1

variable {value interval t t' k : Nat}

/-- The expiration with number `k` comes `k` intervals behind the first. -/
theorem lt_expirations_iff : k < expirations value interval t ↔
    value ≠ 0 ∧ (k = 0 ∨ interval ≠ 0) ∧ value + k * interval ≤ t := by
  unfold expirations
  split
  next early =>
    refine iff_of_false (Nat.not_lt_zero k) ?_
    rintro ⟨armed, -, come⟩
    have late : value ≤ t := (Nat.le_add_right _ _).trans come
    omega
  next late =>
    split
    next once =>
      rw [once, Nat.mul_zero, Nat.lt_one_iff]
      omega
    next repeats =>
      rw [Nat.lt_succ_iff, Nat.le_div_iff_mul_le (Nat.pos_of_ne_zero repeats)]
      omega

theorem expirations_le (value interval : Nat) (later : t ≤ t') :
    expirations value interval t ≤ expirations value interval t' := by
  refine Nat.le_of_not_lt fun fewer => ?_
  obtain ⟨armed, some, come⟩ := lt_expirations_iff.mp fewer
  exact Nat.lt_irrefl _ (lt_expirations_iff.mpr ⟨armed, some, come.trans later⟩)

theorem expirations_le_succ (value interval t : Nat) : expirations value interval t ≤ t + 1 := by
  have quotient : (t - value) / interval ≤ t := (Nat.div_le_self _ _).trans (Nat.sub_le _ _)
  unfold expirations
  split
  · exact Nat.zero_le _
  · split
    · exact Nat.le_add_left _ _
    · exact Nat.succ_le_succ quotient

/-- How often the timer has expired. -/
def Itimerspec.expirations (spec : Itimerspec) (t : Nat) : Nat :=
  IoTimerfdMain.expirations spec.itValue.nanoseconds.toNat spec.itInterval.nanoseconds.toNat t

/-! ## The program -/

/-- `new_value` and `max_exp` by the arguments behind `argv[0]`, or nothing where there is another
number of them. -/
def newValue (now : Timespec) : List (List Char) → Option (Itimerspec × Int)
  | [initSecs] => some (⟨⟨0, 0⟩, ⟨now.tvSec + atoi initSecs, now.tvNsec⟩⟩, 1)
  | [initSecs, intervalSecs, maxExp] =>
      some (⟨⟨atoi intervalSecs, 0⟩, ⟨now.tvSec + atoi initSecs, now.tvNsec⟩⟩, atoi maxExp)
  | _ => none

/-- The value of an `int` as a `uint64_t`. -/
def uint64 (n : Int) : Nat := (n % 18446744073709551616).toNat

/-- The clock stays below this. -/
def clockEnd : Nat := 9223372036854775807

/-- Where `main` is. -/
inductive Main
  /-- in front of `timerfd_settime` -/
  | start
  /-- at the head of its loop -/
  | loop
  /-- in `read` -/
  | read
  | returned
  | failed
deriving DecidableEq

/-- What a `read` has led to: the time, and what is printed. -/
structure Reading where
  clock : Nat
  exp : Nat
  totExp : Nat

structure State where
  main : Main
  clock : Nat
  newValue : Itimerspec
  maxExp : Int
  /-- how many expirations `read` has returned -/
  taken : Nat
  totExp : Nat
  output : List Reading

def State.expirations (s : State) : Nat := s.newValue.expirations s.clock

/-- What `read` returns. -/
def State.read (s : State) : State :=
  let exp := s.expirations - s.taken
  let totExp := (s.totExp + exp) % 18446744073709551616
  { s with
    main := .loop
    taken := s.expirations
    totExp := totExp
    output := s.output ++ [⟨s.clock, exp, totExp⟩] }

/-- A step of `main`, which was started at `now` with these arguments behind `argv[0]`. -/
inductive Turn (now : Timespec) (args : List (List Char)) : State → State → Prop
  /-- The usage is printed, or a call fails. -/
  | fails (s : State) : s.main = .start → Turn now args s { s with main := .failed }
  | settime (s : State) (spec : Itimerspec) (maxExp : Int) :
      s.main = .start → IoTimerfdMain.newValue now args = some (spec, maxExp) → spec.Valid →
      Turn now args s { s with main := .loop, newValue := spec, maxExp := maxExp }
  | goOn (s : State) :
      s.main = .loop → s.totExp < uint64 s.maxExp → Turn now args s { s with main := .read }
  | leave (s : State) :
      s.main = .loop → uint64 s.maxExp ≤ s.totExp → Turn now args s { s with main := .returned }
  | read (s : State) : s.main = .read → s.taken < s.expirations → Turn now args s s.read

inductive Step (now : Timespec) (args : List (List Char)) : State → State → Prop
  | turn (s t : State) : Turn now args s t → Step now args s t
  | tick (s : State) (d : Nat) :
      s.clock + d < clockEnd → Step now args s { s with clock := s.clock + d }

def State.start (now : Timespec) : State :=
  ⟨.start, now.nanoseconds.toNat, ⟨⟨0, 0⟩, ⟨0, 0⟩⟩, 0, 0, 0, []⟩

/-- The program behind its first `clock_gettime`. -/
def machine (now : Timespec) (args : List (List Char)) : Machine State where
  init s := s = State.start now
  step := Step now args

/-! ## What is read -/

/-- The expiration with number `k` comes. -/
def Itimerspec.Comes (spec : Itimerspec) (k : Nat) : Prop :=
  0 < spec.itValue.nanoseconds ∧ (k = 0 ∨ 0 < spec.itInterval.nanoseconds) ∧
    spec.itValue.nanoseconds + k * spec.itInterval.nanoseconds < clockEnd

/-- Each `read` returns the expirations behind the one before it, and the sum printed is that of all
so far; it has been called with the sum below `max_exp`, and `main` returns with one that is not. -/
structure Counted (s : State) : Prop where
  each : ∀ before r after, s.output = before ++ r :: after →
    0 < r.exp ∧ r.totExp = (before.map Reading.exp).sum + r.exp ∧
      r.totExp = s.newValue.expirations r.clock ∧
      (before.map Reading.exp).sum < uint64 s.maxExp
  total : s.totExp = (s.output.map Reading.exp).sum
  returned : s.main = .returned → uint64 s.maxExp ≤ s.totExp

structure Inv (now : Timespec) (args : List (List Char)) (s : State) : Prop extends Counted s where
  clock : s.clock < clockEnd
  settings : s.main = .start ∨ s.main = .failed ∨
    newValue now args = some (s.newValue, s.maxExp) ∧ s.newValue.Valid
  unread : s.main = .start → s.output = []
  taken : s.totExp = s.taken
  come : s.taken ≤ s.expirations
  reading : s.main = .read → s.totExp < uint64 s.maxExp

variable {now : Timespec} {args : List (List Char)} {s : State}

/-- The sum is not too large for its type. -/
theorem Inv.expirations_lt (inv : Inv now args s) : s.expirations < 18446744073709551616 := by
  have few := expirations_le_succ s.newValue.itValue.nanoseconds.toNat
    s.newValue.itInterval.nanoseconds.toNat s.clock
  have clock := inv.clock
  rw [clockEnd] at clock
  rw [State.expirations, Itimerspec.expirations]
  omega

/-- What `read` makes of the sum. -/
theorem Inv.totExp_read (inv : Inv now args s) : s.read.totExp = s.expirations := by
  have fits := inv.expirations_lt
  have come := inv.come
  have same := inv.taken
  change (s.totExp + (s.expirations - s.taken)) % 18446744073709551616 = s.expirations
  rw [same, Nat.add_sub_cancel' come, Nat.mod_eq_of_lt fits]

theorem Inv.read (inv : Inv now args s) (main : s.main = .read)
    (expired : s.taken < s.expirations) : Inv now args s.read := by
  have sum : (s.output.map Reading.exp).sum = s.taken := inv.total.symm.trans inv.taken
  have now' := inv.totExp_read
  have whole : s.taken + (s.expirations - s.taken) = s.expirations :=
    Nat.add_sub_cancel' (Nat.le_of_lt expired)
  refine ⟨⟨fun before r after split => ?_, ?_, nofun⟩, inv.clock, ?_, nofun, now', Nat.le_refl _,
    nofun⟩
  · rcases split_snoc split with ⟨rfl, rfl⟩ | ⟨rest, rfl, earlier⟩
    · obtain ⟨rfl, -⟩ := List.append_inj' split rfl
      refine ⟨Nat.sub_pos_of_lt expired, ?_, now', ?_⟩
      · rw [sum]
        exact now'.trans whole.symm
      · rw [sum, ← inv.taken]
        exact inv.reading main
    · exact inv.each before r rest earlier
  · rw [now', State.read, List.map_append, List.sum_append, sum, List.map_singleton,
      List.sum_singleton]
    exact whole.symm
  · rcases inv.settings with start | failed | settings
    · cases main.symm.trans start
    · cases main.symm.trans failed
    · exact .inr (.inr settings)

theorem Inv.turn {t : State} (inv : Inv now args s) (turn : Turn now args s t) :
    Inv now args t := by
  have settings (running : s.main ≠ .start) (alive : s.main ≠ .failed) :
      newValue now args = some (s.newValue, s.maxExp) ∧ s.newValue.Valid :=
    (inv.settings.resolve_left running).resolve_left alive
  cases turn with
  | fails main =>
      exact ⟨⟨inv.each, inv.total, nofun⟩, inv.clock, .inr (.inl rfl), nofun, inv.taken, inv.come,
        nofun⟩
  | settime spec maxExp main given valid =>
      have none := inv.unread main
      have zero : s.taken = 0 := by
        rw [← inv.taken, inv.total, none]
        rfl
      refine ⟨⟨fun before r after split => ?_, inv.total, nofun⟩, inv.clock,
        .inr (.inr ⟨given, valid⟩), nofun, inv.taken, ?_, nofun⟩
      · cases (List.append_eq_nil_iff.mp (split.symm.trans none)).2
      · exact zero ▸ Nat.zero_le _
  | goOn main less =>
      have settings := settings (by rw [main]; nofun) (by rw [main]; nofun)
      exact ⟨⟨inv.each, inv.total, nofun⟩, inv.clock, .inr (.inr settings), nofun, inv.taken,
        inv.come, fun _ => less⟩
  | leave main enough =>
      have settings := settings (by rw [main]; nofun) (by rw [main]; nofun)
      exact ⟨⟨inv.each, inv.total, fun _ => enough⟩, inv.clock, .inr (.inr settings), nofun,
        inv.taken, inv.come, nofun⟩
  | read main expired => exact inv.read main expired

theorem inv_of_reachable (early : now.nanoseconds < clockEnd)
    (reached : (machine now args).Reachable s) : Inv now args s := by
  refine reached.invariant (P := Inv now args) (fun s init => ?_) fun s t _ inv step => ?_
  · cases init
    refine ⟨⟨fun before r after split => ?_, rfl, nofun⟩, ?_, .inl rfl, fun _ => rfl, rfl,
      Nat.zero_le _, nofun⟩
    · cases (List.append_eq_nil_iff.mp split.symm).2
    · have clock : (State.start now).clock = now.nanoseconds.toNat := rfl
      rw [clockEnd] at early ⊢
      omega
  · cases step with
    | turn t turn => exact inv.turn turn
    | tick d before =>
        exact ⟨⟨inv.each, inv.total, inv.returned⟩, before, inv.settings, inv.unread, inv.taken,
          inv.come.trans (expirations_le _ _ (Nat.le_add_right _ _)), inv.reading⟩

/-! ## The end -/

/-- `max_exp` is an `int`. -/
theorem maxExp_bounds {spec : Itimerspec} {maxExp : Int}
    (given : newValue now args = some (spec, maxExp)) :
    -2147483648 ≤ maxExp ∧ maxExp < 2147483648 := by
  have bounds (s : List Char) : -2147483648 ≤ atoi s ∧ atoi s < 2147483648 :=
    ⟨Int.le_bmod (by decide), Int.bmod_lt (by decide)⟩
  unfold newValue at given
  split at given
  · cases given
    decide
  · cases given
    exact bounds _
  · cases given

theorem uint64_of_nonneg {n : Int} (nonneg : 0 ≤ n) (short : n < 2147483648) :
    uint64 n = n.toNat := by
  rw [uint64, Int.emod_eq_of_lt nonneg (by omega)]

/-- The timer has expired `n` times if and only if the expiration number `n - 1` has come. -/
theorem Itimerspec.le_expirations_iff {spec : Itimerspec} (valid : spec.Valid) {n t : Nat}
    (some : 0 < n) : n ≤ spec.expirations t ↔ 0 < spec.itValue.nanoseconds ∧
      (n - 1 = 0 ∨ 0 < spec.itInterval.nanoseconds) ∧
      spec.itValue.nanoseconds + (n - 1 : Nat) * spec.itInterval.nanoseconds ≤ t := by
  obtain ⟨⟨sec, nsec, -⟩, sec', nsec', -⟩ := valid
  have interval : 0 ≤ spec.itInterval.nanoseconds := by
    rw [Timespec.nanoseconds]
    omega
  have value : 0 ≤ spec.itValue.nanoseconds := by
    rw [Timespec.nanoseconds]
    omega
  obtain ⟨i, interval⟩ := Int.eq_ofNat_of_zero_le interval
  obtain ⟨v, value⟩ := Int.eq_ofNat_of_zero_le value
  obtain ⟨k, rfl⟩ : ∃ k, n = k + 1 := ⟨n - 1, by omega⟩
  rw [Itimerspec.expirations, interval, value, Int.toNat_natCast, Int.toNat_natCast,
    Nat.succ_le_iff, lt_expirations_iff, Nat.add_sub_cancel]
  refine and_congr ?_ (and_congr ?_ ?_)
  · omega
  · omega
  · rw [← Int.natCast_mul, ← Int.natCast_add, Int.ofNat_le]

variable {t : State}

/-- With enough expirations there, `main` returns without waiting. -/
theorem Inv.returns_of_read (inv : Inv now args s) (main : s.main = .read)
    (enough : uint64 s.maxExp ≤ s.expirations) :
    ∃ t, Relation.ReflTransGen (Turn now args) s t ∧ t.main = .returned := by
  have expired : s.taken < s.expirations := by
    rw [← inv.taken]
    exact Nat.lt_of_lt_of_le (inv.reading main) enough
  have leave : Turn now args s.read _ := .leave s.read rfl (by rw [inv.totExp_read]; exact enough)
  exact ⟨_, .tail (.single (.read s main expired)) leave, rfl⟩

theorem Inv.returns (inv : Inv now args s) (running : s.main = .loop ∨ s.main = .read)
    (enough : uint64 s.maxExp ≤ s.expirations) :
    ∃ t, Relation.ReflTransGen (Turn now args) s t ∧ t.main = .returned := by
  rcases running with main | main
  · rcases Nat.lt_or_ge s.totExp (uint64 s.maxExp) with less | ge
    · have goOn : Turn now args s _ := .goOn s main less
      obtain ⟨t, run, returned⟩ := (inv.turn goOn).returns_of_read rfl enough
      exact ⟨t, .head goOn run, returned⟩
    · exact ⟨_, .single (.leave s main ge), rfl⟩
  · exact inv.returns_of_read main enough

theorem reachable_turns (reached : (machine now args).Reachable s)
    (run : Relation.ReflTransGen (Turn now args) s t) : (machine now args).Reachable t := by
  induction run with
  | refl => exact reached
  | tail _ turn ih => exact ih.tail (.turn _ _ turn)

/-- The arguments with which `main` returns. -/
def Returning (now : Timespec) (args : List (List Char)) : Prop :=
  ∃ spec maxExp, newValue now args = some (spec, maxExp) ∧ spec.Valid ∧
    (maxExp = 0 ∨ 0 < maxExp ∧ spec.Comes (maxExp.toNat - 1))

theorem Inv.returning (inv : Inv now args s) (main : s.main = .returned) :
    Returning now args := by
  obtain ⟨given, valid⟩ := (inv.settings.resolve_left (by rw [main]; nofun)).resolve_left
    (by rw [main]; nofun)
  refine ⟨s.newValue, s.maxExp, given, valid, ?_⟩
  have bounds := maxExp_bounds given
  have enough : uint64 s.maxExp ≤ s.expirations :=
    (inv.returned main).trans (inv.taken ▸ inv.come)
  have clock := inv.clock
  rcases lt_trichotomy s.maxExp 0 with negative | zero | positive
  · -- The bound is too large for a clock of 63 bits.
    have few : s.expirations ≤ s.clock + 1 := expirations_le_succ _ _ _
    rw [uint64] at enough
    rw [clockEnd] at clock
    omega
  · exact .inl zero
  · rw [uint64_of_nonneg (by omega) bounds.2] at enough
    obtain ⟨armed, some, come⟩ := (Itimerspec.le_expirations_iff valid (by omega)).mp enough
    exact .inr ⟨positive, armed, some, by omega⟩

/-- The state behind `timerfd_settime`, some time later. -/
theorem exists_armed {spec : Itimerspec} {maxExp : Int}
    (given : newValue now args = some (spec, maxExp)) (valid : spec.Valid) {d : Nat}
    (before : now.nanoseconds.toNat + d < clockEnd) :
    ∃ s, (machine now args).Reachable s ∧ s.main = .loop ∧ s.newValue = spec ∧
      s.maxExp = maxExp ∧ s.clock = now.nanoseconds.toNat + d := by
  have start : (machine now args).Reachable _ := .of_init rfl
  have armed := start.tail (.turn _ _ (.settime _ spec maxExp rfl given valid))
  exact ⟨_, armed.tail (.tick _ d before), rfl, rfl, rfl, rfl⟩

theorem exists_returned (early : now.nanoseconds < clockEnd) (returning : Returning now args) :
    ∃ s, (machine now args).Reachable s ∧ s.main = .returned := by
  obtain ⟨spec, maxExp, given, valid, comes⟩ := returning
  have bounds := maxExp_bounds given
  obtain ⟨d, before, enough⟩ : ∃ d, now.nanoseconds.toNat + d < clockEnd ∧
      uint64 maxExp ≤ spec.expirations (now.nanoseconds.toNat + d) := by
    rcases comes with rfl | ⟨positive, armed, some, come⟩
    · refine ⟨0, ?_, Nat.zero_le _⟩
      rw [clockEnd] at early ⊢
      omega
    · -- Wait for the expiration, unless it has come before the start.
      generalize last : spec.itValue.nanoseconds +
        (maxExp.toNat - 1 : Nat) * spec.itInterval.nanoseconds = moment at come
      refine ⟨moment.toNat - now.nanoseconds.toNat, ?_, ?_⟩
      · rw [clockEnd] at early come ⊢
        omega
      · rw [uint64_of_nonneg (by omega) bounds.2]
        refine (Itimerspec.le_expirations_iff valid (by omega)).mpr ⟨armed, some, ?_⟩
        rw [last]
        omega
  obtain ⟨s, reached, main, rfl, rfl, clock⟩ := exists_armed given valid before
  rw [← clock] at enough
  obtain ⟨t, run, returned⟩ := (inv_of_reachable early reached).returns (.inl main) enough
  exact ⟨t, reachable_turns reached run, returned⟩

/-- What is to be said of a run with these arguments. -/
structure Correct (now : Timespec) (args : List (List Char)) : Prop where
  counted : ∀ s, (machine now args).Reachable s → Counted s
  returns : (∃ s, (machine now args).Reachable s ∧ s.main = .returned) ↔ Returning now args
  /-- With enough expirations there `main` does not wait any more. -/
  prompt : ∀ s, (machine now args).Reachable s → s.main = .loop ∨ s.main = .read →
    uint64 s.maxExp ≤ s.expirations →
    ∃ t, Relation.ReflTransGen (Turn now args) s t ∧ t.main = .returned

/-- **Expirations.**  Each number read is positive and each sum printed is the number of expirations
up to then, the last one being the first that is not below `max_exp`; and `main` returns exactly if
`max_exp` is 0, or positive and the expiration with its number comes, and then as soon as it is
there.  With a negative `max_exp`, or with two and no interval, it never returns. -/
theorem ioTimerfd_correct (now : Timespec) (args : List (List Char))
    (early : now.nanoseconds < clockEnd) : Correct now args where
  counted s reached := (inv_of_reachable early reached).toCounted
  returns := by
    constructor
    · rintro ⟨s, reached, main⟩
      exact (inv_of_reachable early reached).returning main
    · exact exists_returned early
  prompt s reached running enough := (inv_of_reachable early reached).returns running enough

/-- Three expirations, one a second. -/
theorem ioTimerfd_three :
    ∃ s, (machine ⟨1000, 0⟩ [['2'], ['1'], ['3']]).Reachable s ∧ s.main = .returned := by
  have given : newValue ⟨1000, 0⟩ [['2'], ['1'], ['3']] =
      some (⟨⟨1, 0⟩, ⟨1002, 0⟩⟩, 3) := rfl
  have valid : Itimerspec.Valid ⟨⟨1, 0⟩, ⟨1002, 0⟩⟩ := by
    unfold Itimerspec.Valid
    decide
  have comes : Itimerspec.Comes ⟨⟨1, 0⟩, ⟨1002, 0⟩⟩ 2 := by
    unfold Itimerspec.Comes
    decide
  exact (ioTimerfd_correct ⟨1000, 0⟩ [['2'], ['1'], ['3']] (by decide)).returns.mpr
    ⟨_, _, given, valid, .inr ⟨by decide, comes⟩⟩

end Alnp.IoTimerfdMain
