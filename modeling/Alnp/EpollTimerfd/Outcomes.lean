import Alnp.EpollTimerfd.Model
import Alnp.EpollTimerfd.Ownership

/-!
# What `add_ev` and `del_ev` can do

Both functions make a series of calls, any of which may fail or find nothing.  `AddOutcome` and
`DelOutcome` list how they can end on a server whose sessions own their descriptors (`Sane`); every
later result about them is a case analysis on these.
-/

namespace Alnp.EpollTimerfd

open Epoll

variable {fdListener fd timeout : Int} {s s' : Server} {answers : AddAnswers} {i : Nat}
  {x : Fdsession}

/-- What holds between any two events, whatever has failed before. -/
structure Sane (fdListener : Int) (s : Server) : Prop where
  le : s.fdsList.nUsed ≤ s.fdsList.nAllocated
  owned : Owned fdListener s.sessions s.kernel

/-! ## Sessions and their timers -/

/-- There is room in the list or `realloc` makes some, and a timer can be created. -/
structure AddAnswers.GiveTimer (answers : AddAnswers) (s : Server) : Prop where
  room : s.fdsList.nAllocated = s.fdsList.nUsed → ∃ entries, answers.realloc = .ok entries
  timer : ∃ t, answers.timerfdCreate = .ok t ∧ s.kernel.free t = true

theorem fdsNewTimerfd_error {ret : Errno} (le : s.fdsList.nUsed ≤ s.fdsList.nAllocated)
    (failed : fdsNewTimerfd answers fd timeout s = (.error ret, s')) :
    ¬ answers.GiveTimer s ∧ ∃ (fdsList : FdsList) (call : Call),
      fdsList.nUsed ≤ fdsList.nAllocated ∧ fdsList.sessions = s.sessions ∧
      s' = { s with fdsList := fdsList, faults := s.faults ++ [call] } := by
  unfold fdsNewTimerfd at failed
  split at failed
  · rename_i e full
    cases failed
    refine ⟨fun given => ?_, s.fdsList, .realloc, le, rfl, rfl⟩
    obtain ⟨l', room⟩ := reserve_isOk.mpr given.room
    cases room.symm.trans full
  · rename_i fdsList room
    obtain ⟨sessions, -, lt⟩ := sessions_reserve le room
    split at failed
    · rename_i e none
      cases failed
      refine ⟨fun given => ?_, fdsList, .timerfdCreate, Nat.le_of_lt lt, sessions, rfl⟩
      obtain ⟨created, done⟩ := timerfdCreate_isOk.mpr given.timer
      cases done.symm.trans none
    · cases failed

theorem fdsNewTimerfd_ok (le : s.fdsList.nUsed ≤ s.fdsList.nAllocated)
    (done : fdsNewTimerfd answers fd timeout s = (.ok i, s')) :
    answers.GiveTimer s ∧ ∃ (t : Int) (kernel : Epoll) (fdsList : FdsList),
      s.kernel.timerfdCreate answers.timerfdCreate = .ok (t, kernel) ∧
      fdsList.nUsed ≤ fdsList.nAllocated ∧
      fdsList.sessions = s.sessions ++ [⟨fd, t, timeout⟩] ∧
      fdsList.sessions[i]? = some ⟨fd, t, timeout⟩ ∧
      s' = { s with kernel := kernel, fdsList := fdsList } := by
  unfold fdsNewTimerfd at done
  split at done
  · cases done
  · rename_i fdsList room
    split at done
    · cases done
    · rename_i t kernel created
      cases done
      obtain ⟨sessions, -, lt⟩ := sessions_reserve le room
      obtain ⟨pointer, used, allocated, stored⟩ := sessions_store fd t timeout lt
      refine ⟨⟨reserve_isOk.mp ⟨_, room⟩, timerfdCreate_isOk.mp ⟨_, created⟩⟩,
        t, kernel, _, created, ?_, ?_, ?_, rfl⟩
      · rw [used, allocated]
        exact lt
      · rw [stored, sessions]
        rfl
      · rw [stored, pointer, ← length_live fdsList.list (Nat.le_of_lt lt)]
        exact List.getElem?_concat_length

/-- Arming a timer that exists fails only when `timerfd_settime` does. -/
theorem fdsSetTimerfd_failure {ret : Errno} {failure : Option Errno} {born : Nat}
    {armed : Option Arming} (entry : s.sessions[i]? = some x)
    (isTimer : s.kernel.desc x.timerfd = some (.timer born armed)) (pos : 0 < x.timeout)
    (failed : fdsSetTimerfd failure i s = (.error ret, s')) : failure ≠ none := by
  intro same
  subst same
  obtain ⟨kernel, set⟩ := timerfdSettime_of_timer isTimer pos
  unfold fdsSetTimerfd at failed
  dsimp only at failed
  rw [getElem_of_sessions entry, set] at failed
  cases failed

theorem fdsSetTimerfd_error {ret : Errno} {failure : Option Errno}
    (failed : fdsSetTimerfd failure i s = (.error ret, s')) : s' = s.fault .timerfdSettime := by
  unfold fdsSetTimerfd at failed
  dsimp only at failed
  split at failed
  · cases failed
    rfl
  · cases failed

theorem fdsSetTimerfd_ok {failure : Option Errno} (entry : s.sessions[i]? = some x)
    (done : fdsSetTimerfd failure i s = (.ok (), s')) :
    ∃ kernel, s.kernel.timerfdSettime failure x.timerfd x.timeout = .ok kernel ∧
      s' = { s with kernel := kernel } := by
  unfold fdsSetTimerfd at done
  dsimp only at done
  rw [getElem_of_sessions entry] at done
  split at done
  · cases done
  · rename_i kernel armed
    cases done
    exact ⟨kernel, armed, rfl⟩

/-! ## Registering -/

/-- How `add_ev` with a timeout can end. -/
inductive AddOutcome (answers : AddAnswers) (fd timeout : Int) (s : Server) : Res Int → Prop
  | notRegistered :
      s.kernel.ctlAdd answers.addSocket fd = none →
      AddOutcome answers fd timeout s (.exited .epollCtlAdd (s.fault .epollCtlAdd))
  | noTimer (k₁ : Epoll) (fdsList : FdsList) (ret : Errno) (call : Call) :
      s.kernel.ctlAdd answers.addSocket fd = some k₁ →
      ¬ answers.GiveTimer s →
      fdsList.nUsed ≤ fdsList.nAllocated → fdsList.sessions = s.sessions →
      AddOutcome answers fd timeout s (.returned ret
        { s with kernel := k₁, fdsList := fdsList, faults := s.faults ++ [call] })
  | notArmed (k₁ k₂ : Epoll) (t : Int) (fdsList : FdsList) (ret : Errno) :
      s.kernel.ctlAdd answers.addSocket fd = some k₁ →
      k₁.timerfdCreate answers.timerfdCreate = .ok (t, k₂) →
      answers.timerfdSettime ≠ none →
      fdsList.nUsed ≤ fdsList.nAllocated → fdsList.sessions = s.sessions ++ [⟨fd, t, timeout⟩] →
      AddOutcome answers fd timeout s (.returned ret
        { s with kernel := k₂, fdsList := fdsList, faults := s.faults ++ [.timerfdSettime] })
  | timerNotRegistered (k₁ k₂ k₃ : Epoll) (t : Int) (fdsList : FdsList) :
      s.kernel.ctlAdd answers.addSocket fd = some k₁ →
      answers.GiveTimer s →
      k₁.timerfdCreate answers.timerfdCreate = .ok (t, k₂) →
      k₂.timerfdSettime answers.timerfdSettime t timeout = .ok k₃ →
      AddOutcome answers fd timeout s (.exited .epollCtlAdd
        { s with kernel := k₃, fdsList := fdsList, faults := s.faults ++ [.epollCtlAdd] })
  | added (k₁ k₂ k₃ k₄ : Epoll) (t : Int) (fdsList : FdsList) :
      s.kernel.ctlAdd answers.addSocket fd = some k₁ →
      answers.GiveTimer s →
      k₁.timerfdCreate answers.timerfdCreate = .ok (t, k₂) →
      k₂.timerfdSettime answers.timerfdSettime t timeout = .ok k₃ →
      k₃.ctlAdd answers.addTimer t = some k₄ →
      fdsList.nUsed ≤ fdsList.nAllocated → fdsList.sessions = s.sessions ++ [⟨fd, t, timeout⟩] →
      AddOutcome answers fd timeout s (.returned 0 { s with kernel := k₄, fdsList := fdsList })

theorem addEv_outcome (le : s.fdsList.nUsed ≤ s.fdsList.nAllocated) (pos : 0 < timeout) :
    AddOutcome answers fd timeout s (addEv answers fd timeout s) := by
  unfold addEv
  cases registered : s.kernel.ctlAdd answers.addSocket fd with
  | none => exact .notRegistered registered
  | some k₁ =>
      have same : answers.GiveTimer { s with kernel := k₁ } ↔ answers.GiveTimer s := by
        obtain ⟨-, -, -, rfl⟩ := ctlAdd_eq_some registered
        exact ⟨fun given => ⟨given.room, given.timer⟩, fun given => ⟨given.room, given.timer⟩⟩
      simp only [gt_iff_lt, pos, ↓reduceIte]
      split
      · rename_i ret s₂ failed
        rcases fdsNewTimerfd_error (s := { s with kernel := k₁ }) le failed with
          ⟨notGiven, fdsList, call, le', sessions, rfl⟩
        exact .noTimer k₁ fdsList ret call registered (same.not.mp notGiven) le' sessions
      · rename_i i s₂ new
        rcases fdsNewTimerfd_ok (s := { s with kernel := k₁ }) le new with
          ⟨given, t, k₂, fdsList, created, le', sessions, entry, rfl⟩
        split
        · rename_i ret s₃ failed
          have isTimer : k₂.desc t = some (.timer k₁.tick none) := by
            obtain ⟨-, rfl⟩ := timerfdCreate_eq_ok created
            exact desc_set_self
          have unset := fdsSetTimerfd_failure entry isTimer pos failed
          rw [fdsSetTimerfd_error failed]
          exact .notArmed k₁ k₂ t fdsList ret registered created unset le' sessions
        · rename_i s₃ set
          obtain ⟨k₃, armed, rfl⟩ := fdsSetTimerfd_ok entry set
          simp only [getElem_of_sessions entry]
          split
          · exact .timerNotRegistered k₁ k₂ k₃ t fdsList registered (same.mp given) created armed
          · rename_i k₄ registered'
            exact .added k₁ k₂ k₃ k₄ t fdsList registered (same.mp given) created armed registered'
              le' sessions

/-! ## Tearing down -/

/-- How `del_ev` can end. -/
inductive DelOutcome (fd : Int) (s : Server) : Res Int → Prop
  | notRegistered :
      s.kernel.ctlDel fd = none → DelOutcome fd s (.exited .epollCtlDel s)
  | noSession :
      fd ∈ s.kernel.interest → fd ∉ s.sessions.map Fdsession.socketfd →
      DelOutcome fd s (.returned (-1) { s with kernel := s.kernel.drop fd })
  | timerNotRegistered (x : Fdsession) :
      x ∈ s.sessions → x.socketfd = fd → x.timerfd ∉ s.kernel.interest →
      DelOutcome fd s (.exited .epollCtlDel { s with kernel := s.kernel.drop fd })
  | removed (i : Nat) (x : Fdsession) :
      s.sessions[i]? = some x → x.socketfd = fd → fd ∈ s.kernel.interest →
      x.timerfd ∈ s.kernel.interest →
      (s.fdsList.removed i).sessions = swapRemove s.sessions i →
      DelOutcome fd s (.returned 0
        { s with
          kernel := (s.kernel.drop fd).drop x.timerfd
          fdsList := s.fdsList.removed i })

/-- With distinct timers, the session found by its timer is the one found by its socket. -/
theorem delete_of_entry (sane : Sane fdListener s) (entry : s.sessions[i]? = some x) :
    (fdsDeletebytimerfd x.timerfd s.fdsList).value = (0, s.fdsList.removed i) ∧
      (s.fdsList.removed i).sessions = swapRemove s.sessions i := by
  have listed : x.timerfd ∈ s.fdsList.sessions.map Fdsession.timerfd :=
    List.mem_map_of_mem (List.mem_of_getElem? entry)
  obtain ⟨j, y, entry', same, value, sessions⟩ := delete_some listed sane.le
  have onTimer : ∀ {k : Nat} {z : Fdsession}, s.sessions[k]? = some z → z.timerfd = x.timerfd →
      (s.sessions.map Fdsession.timerfd)[k]? = some x.timerfd := by
    intro k z at_k is
    rw [List.getElem?_map, at_k, ← is]
    rfl
  have place : i = j := by
    obtain ⟨lt, is⟩ := List.getElem?_eq_some_iff.mp (onTimer entry rfl)
    obtain ⟨lt', is'⟩ := List.getElem?_eq_some_iff.mp (onTimer entry' same)
    exact sane.owned.timers.getElem_inj_iff.mp (is.trans is'.symm)
  subst place
  exact ⟨value, sessions⟩

/-- `EPOLL_CTL_DEL`, then `close`. -/
theorem close_of_ctlDel {kernel : Epoll} (done : s.kernel.ctlDel fd = some kernel) :
    fd ∈ s.kernel.interest ∧
      Server.close fd { s with kernel := kernel } = { s with kernel := s.kernel.drop fd } := by
  obtain ⟨registered, closed⟩ := Epoll.close_of_ctlDel done
  exact ⟨registered, by simp only [Server.close, closed]⟩

theorem delEv_outcome (sane : Sane fdListener s) : DelOutcome fd s (delEv fd s) := by
  unfold delEv
  cases unregistered : s.kernel.ctlDel fd with
  | none => exact .notRegistered unregistered
  | some k₁ =>
      obtain ⟨registered, closed⟩ := close_of_ctlDel unregistered
      dsimp only
      rw [closed]
      cases found : (fdsFindbysocketfd fd s.fdsList).value with
      | none => exact .noSession registered ((findby_none Fdsession.socketfd sane.le).mp found)
      | some i =>
          obtain ⟨x, entry, rfl⟩ := findby_some Fdsession.socketfd sane.le found
          have member : x ∈ s.sessions := List.mem_of_getElem? entry
          have apart := sane.owned.socketfd_ne_timerfd member member
          obtain ⟨born, armed, isTimer⟩ := sane.owned.timer member
          have isOpen : (s.kernel.drop x.socketfd).desc x.timerfd ≠ none := by
            rw [desc_drop_of_ne apart.symm, isTimer]
            exact Option.some_ne_none _
          dsimp only
          rw [getElem_of_sessions entry]
          cases unregistered' : (s.kernel.drop x.socketfd).ctlDel x.timerfd with
          | none =>
              have missing := (ctlDel_eq_none isOpen).mp unregistered'
              rw [mem_interest_drop] at missing
              exact .timerNotRegistered x member rfl fun there => missing ⟨apart.symm, there⟩
          | some k₂ =>
              rcases close_of_ctlDel (s := { s with kernel := s.kernel.drop x.socketfd })
                unregistered' with ⟨registered', closed'⟩
              obtain ⟨deleted, sessions⟩ := delete_of_entry sane entry
              dsimp only at closed' ⊢
              rw [closed']
              dsimp only
              rw [deleted]
              exact .removed i x entry rfl registered (mem_interest_drop.mp registered').2 sessions

end Alnp.EpollTimerfd
