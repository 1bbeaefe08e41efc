import Mathlib.Data.List.Perm.Subperm
import Alnp.IoEpoll.Dispatch
import Alnp.Lib.Access
import Alnp.Lib.CInt

/-!
# The event buffer of `io_epoll.c`

`Chapter07/io_epoll.c` allocates `max_ep_events` entries, but tells `epoll_wait` that there is room
for `max_open_files`.

* `dispatchFrom_value`: with the events inside the buffer, the loop over it is `dispatch` on them.
* `bounded_iff`: the events stay inside the buffer exactly if no more of them are ready than there
  are entries, or the limit of open files is no more than that.
-/

namespace Alnp.IoEpoll

def maxEpEvents : Nat := 256

/-- `max_open_files`; where it is -1, `pr_crt` ends the process. -/
def maxOpenFiles (sysconf : Int) : Option Int :=
  let max := CInt.convert CInt.int sysconf
  if max = -1 then none else some max

instance : Inhabited Event := ⟨⟨0, false, false, false⟩⟩

/-- Entries stored from `ep_events[i]` on. -/
def storeFrom {n : Nat} (i : Nat) : List Event → Vector Event n → Access (Vector Event n)
  | [], epEvents => pure epEvents
  | event :: rest, epEvents => do
      let epEvents ← Access.write epEvents i event
      storeFrom (i + 1) rest epEvents

/-- `epoll_wait` with what it reports, or nothing for an error. -/
def epollWait {n : Nat} (reported : Option (List Event)) (epEvents : Vector Event n) :
    Access (Int × Vector Event n) :=
  match reported with
  | none => pure (-1, epEvents)
  | some events => do
      let epEvents ← storeFrom 0 events epEvents
      pure (events.length, epEvents)

/-- The loop over `ep_events` from index `i` on, with `k` entries left; `calls` has what the calls
made for an entry return. -/
def dispatchFrom {n : Nat} (fdListener : Int) (calls : Nat → List Int × Int)
    (epEvents : Vector Event n) (i : Nat) : Nat → Server → Access (Option Server)
  | 0, s => pure (some s)
  | k + 1, s => do
      let event ← Access.read epEvents i
      match turn fdListener ⟨event, (calls i).1, (calls i).2⟩ s with
      | some s => dispatchFrom fdListener calls epEvents (i + 1) k s
      | none => pure none

/-- An iteration of the main loop. -/
def iteration {n : Nat} (fdListener : Int) (calls : Nat → List Int × Int)
    (reported : Option (List Event)) (epEvents : Vector Event n) (s : Server) :
    Access (Option Server) := do
  let (retEpoll, epEvents) ← epollWait reported epEvents
  if retEpoll = -1 then pure (some s)
  else dispatchFrom fdListener calls epEvents 0 retEpoll.toNat s

/-- What `epoll_wait` may do with these events ready: fail, or report some of them, at most
`maxevents`.  It fails if `maxevents` is not positive. -/
def MayReport (ready : List Event) (maxevents : Int) : Option (List Event) → Prop
  | none => True
  | some events => 0 < maxevents ∧ events.Subperm ready ∧ events.length ≤ maxevents

/-! ## Storing -/

variable {n : Nat} {fdListener : Int} {calls : Nat → List Int × Int} {epEvents : Vector Event n}
  {i k : Nat} {events : List Event} {s : Server}

theorem storeFrom_within (m : Nat) :
    (storeFrom i events epEvents).Within m ↔ events = [] ∨ i + events.length ≤ m := by
  induction events generalizing i epEvents with
  | nil => exact iff_of_true (Access.within_pure _) (.inl rfl)
  | cons event rest ih =>
      rw [storeFrom, Access.within_bind, Access.within_write, ih, List.length_cons]
      have nonempty : event :: rest ≠ [] := List.cons_ne_nil event rest
      simp only [nonempty, false_or]
      constructor
      · rintro ⟨⟨-, first⟩, rfl | later⟩
        · rw [List.length_nil]
          omega
        · omega
      · intro fits
        exact ⟨⟨by omega, by omega⟩, .inr (by omega)⟩

/-- The entries in front are left alone. -/
theorem getElem?_storeFrom_of_lt (lt : k < i) :
    (storeFrom i events epEvents).value[k]? = epEvents[k]? := by
  induction events generalizing i epEvents with
  | nil => rfl
  | cons event rest ih =>
      have other : i ≠ k := by omega
      rw [storeFrom, Access.value_bind, ih (Nat.lt_succ_of_lt lt), Access.value_write_nat,
        Vector.getElem?_setIfInBounds_ne other]

/-- From `i` on the entries are the events. -/
theorem getElem?_storeFrom (fits : i + events.length ≤ n) (lt : k < events.length) :
    (storeFrom i events epEvents).value[i + k]? = events[k]? := by
  induction events generalizing i k epEvents with
  | nil => cases lt
  | cons event rest ih =>
      rw [List.length_cons] at fits lt
      rw [storeFrom, Access.value_bind]
      cases k with
      | zero =>
          have inside : i < n := by omega
          have front : (storeFrom (i + 1) rest (Access.write epEvents i event).value).value[i]? =
              (Access.write epEvents i event).value[i]? :=
            getElem?_storeFrom_of_lt (Nat.lt_add_one i)
          refine front.trans ?_
          rw [Access.value_write_nat]
          simp [inside]
      | succ k =>
          have fits' : i + 1 + rest.length ≤ n := by omega
          have later : (storeFrom (i + 1) rest
              (Access.write epEvents i event).value).value[i + 1 + k]? = rest[k]? :=
            ih fits' (Nat.lt_of_succ_lt_succ lt)
          rwa [Nat.succ_add_eq_add_succ] at later

/-! ## The loop -/

/-- The events with what the calls made for them return. -/
def turnsFrom (calls : Nat → List Int × Int) : Nat → List Event → List Turn
  | _, [] => []
  | i, event :: rest => ⟨event, (calls i).1, (calls i).2⟩ :: turnsFrom calls (i + 1) rest

theorem dispatchFrom_within (fits : i + k ≤ n) :
    (dispatchFrom fdListener calls epEvents i k s).Within n := by
  induction k generalizing i s with
  | zero => exact Access.within_pure _
  | succ k ih =>
      refine Access.within_bind.mpr ⟨(Access.within_read _ _).mpr (by omega), ?_⟩
      split
      · exact ih (by omega)
      · exact Access.within_pure _

/-- The loop handles the events that stand in the buffer. -/
theorem dispatchFrom_value (stored : ∀ k < events.length, epEvents[i + k]? = events[k]?) :
    (dispatchFrom fdListener calls epEvents i events.length s).value =
      dispatch fdListener (turnsFrom calls i events) s := by
  induction events generalizing i s with
  | nil => rfl
  | cons event rest ih =>
      have first : epEvents[i]? = some event := stored 0 (Nat.succ_pos _)
      have others : ∀ k < rest.length, epEvents[i + 1 + k]? = rest[k]? := by
        intro k lt
        have later := stored (k + 1) (Nat.succ_lt_succ lt)
        rwa [List.getElem?_cons_succ, ← Nat.succ_add_eq_add_succ] at later
      rw [List.length_cons, dispatchFrom, Access.value_bind, Access.value_read_nat, first,
        Option.getD_some, turnsFrom, dispatch]
      cases turn fdListener ⟨event, (calls i).1, (calls i).2⟩ s with
      | none => rfl
      | some s => exact ih others

/-! ## An iteration -/

/-- An iteration that stays inside the buffer handles what has been reported. -/
theorem iteration_value (fits : events.length ≤ n) :
    (iteration fdListener calls (some events) epEvents s).value =
      dispatch fdListener (turnsFrom calls 0 events) s := by
  have ok : ¬ (events.length : Int) = -1 := by omega
  have stored : ∀ k < events.length, (storeFrom 0 events epEvents).value[0 + k]? = events[k]? :=
    fun k lt => getElem?_storeFrom (by omega) lt
  have loop : (iteration fdListener calls (some events) epEvents s).value =
      (dispatchFrom fdListener calls (storeFrom 0 events epEvents).value 0 events.length
        s).value := by
    rw [iteration, Access.value_bind]
    simp only [epollWait, Access.value_bind, Access.value_pure, ok, ↓reduceIte, Int.toNat_natCast]
  rw [loop, dispatchFrom_value stored]

theorem iteration_within :
    (iteration fdListener calls (some events) epEvents s).Within n ↔ events.length ≤ n := by
  have ok : ¬ (events.length : Int) = -1 := by omega
  rw [iteration, Access.within_bind]
  simp only [epollWait, Access.within_bind, Access.within_pure, Access.value_bind,
    Access.value_pure, ok, ↓reduceIte, Int.toNat_natCast, storeFrom_within, Nat.zero_add, and_true]
  constructor
  · rintro ⟨rfl | fits, -⟩
    · exact Nat.zero_le _
    · exact fits
  · intro fits
    exact ⟨.inr fits, dispatchFrom_within (by omega)⟩

/-- Whatever `epoll_wait` does with these events ready, every entry it stores and every entry the
loop reads is one of those allocated. -/
def Bounded (ready : List Event) (sysconf : Int) : Prop :=
  ∀ maxevents, maxOpenFiles sysconf = some maxevents →
    ∀ reported, MayReport ready maxevents reported →
      ∀ (fdListener : Int) (calls : Nat → List Int × Int) (epEvents : Vector Event maxEpEvents)
        (s : Server), (iteration fdListener calls reported epEvents s).Within maxEpEvents

/-- More descriptors than entries are ready, and the limit lets `epoll_wait` report them. -/
theorem not_bounded {ready : List Event} {sysconf : Int} (many : 256 < ready.length)
    (high : 256 < CInt.convert CInt.int sysconf) : ¬ Bounded ready sysconf := by
  intro bounded
  have limit : maxOpenFiles sysconf = some (CInt.convert CInt.int sysconf) := if_neg (by omega)
  have length : (ready.take 257).length = 257 := by
    rw [List.length_take]
    omega
  have may : MayReport ready (CInt.convert CInt.int sysconf) (some (ready.take 257)) :=
    ⟨by omega, (List.take_sublist 257 ready).subperm, by omega⟩
  have within := iteration_within.mp (bounded _ limit _ may 0 (fun _ => ([], 0))
    (Vector.replicate maxEpEvents default) ⟨∅, ∅, 0, [], []⟩)
  rw [length] at within
  exact absurd within (by decide)

/-- **The event buffer.**  The buffer is large enough exactly if at most 256 descriptors are ready
or the limit of open files is at most 256. -/
theorem bounded_iff (ready : List Event) (sysconf : Int) :
    Bounded ready sysconf ↔ ready.length ≤ 256 ∨ CInt.convert CInt.int sysconf ≤ 256 := by
  constructor
  · intro bounded
    by_contra large
    obtain ⟨many, high⟩ := not_or.mp large
    exact not_bounded (by omega) (by omega) bounded
  · intro small maxevents limit reported may fdListener calls epEvents s
    cases reported with
    | none =>
        refine Access.within_bind.mpr ⟨Access.within_pure _, ?_⟩
        exact Access.within_pure _
    | some events =>
        obtain ⟨-, subperm, atMost⟩ := may
        refine iteration_within.mpr ?_
        rcases small with few | low
        · exact Nat.le_trans subperm.length_le few
        · have same : CInt.convert CInt.int sysconf = maxevents := by
            unfold maxOpenFiles at limit
            dsimp only at limit
            split at limit
            · cases limit
            · exact Option.some.inj limit
          rw [same] at low
          unfold maxEpEvents
          omega

/-- 257 descriptors are ready, and 1024 files may be open. -/
theorem not_forall_inBuffer : ¬ ∀ (ready : List Event) (sysconf : Int), Bounded ready sysconf := by
  intro always
  refine not_bounded ?_ ?_ (always (List.replicate 257 ⟨4, true, false, false⟩) 1024)
  · rw [List.length_replicate]
    decide
  · decide

end Alnp.IoEpoll
