import Mathlib.Logic.Function.Basic
import Mathlib.Data.List.Count
import Alnp.Lib.Since

/-!
# Signals and their handlers

A process has a mask of blocked signals, the signals that are pending, and the handlers that run,
each interrupted by the one before it in the list.  A pending signal that is not blocked may be
delivered: while its handler runs, the signals that it `blocks` are blocked as well, and its end
restores the mask.

* `Stacked`: the mask is that of the handlers that run, and no handler runs above one that blocks
  its signal (`pairwise`, `nodup`).
* `Answered`: with a log of what was generated and what was delivered, every signal generated has
  been delivered afterwards or is pending, and none is delivered that was not generated.
-/

namespace Alnp

/-- A handler that runs, with the mask to be restored and how far it has come. -/
structure Frame (ς φ : Type) where
  signal : ς
  saved : ς → Bool
  progress : φ

/-- What has happened to a signal. -/
inductive SignalEvent (ς : Type)
  | raised (x : ς)
  | delivered (x : ς)
deriving DecidableEq

structure Handlers (ς φ : Type) where
  mask : ς → Bool
  pending : ς → Bool
  frames : List (Frame ς φ)
  log : List (SignalEvent ς)

namespace Handlers

variable {ς φ : Type} {h : Handlers ς φ} {x y : ς} {blocks : ς → ς → Bool}

/-- A signal is generated. -/
def raise [DecidableEq ς] (x : ς) (h : Handlers ς φ) : Handlers ς φ :=
  { h with pending := Function.update h.pending x true, log := h.log ++ [.raised x] }

/-- A signal is delivered, and its handler begins. -/
def deliver [DecidableEq ς] (blocks : ς → ς → Bool) (begin : φ) (x : ς) (h : Handlers ς φ) :
    Handlers ς φ where
  mask y := h.mask y || blocks x y
  pending := Function.update h.pending x false
  frames := ⟨x, h.mask, begin⟩ :: h.frames
  log := h.log ++ [.delivered x]

/-- The handler on top comes to this point. -/
def advance (progress : φ) (h : Handlers ς φ) : Handlers ς φ :=
  match h.frames with
  | [] => h
  | f :: rest => { h with frames := { f with progress := progress } :: rest }

/-- The handler on top returns. -/
def leave (h : Handlers ς φ) : Handlers ς φ :=
  match h.frames with
  | [] => h
  | f :: rest => { h with mask := f.saved, frames := rest }

/-! ## The stack of handlers -/

/-- The mask and the handlers that have come about from a mask by deliveries. -/
inductive Stacked (blocks : ς → ς → Bool) (base : ς → Bool) :
    (ς → Bool) → List (Frame ς φ) → Prop
  | nil : Stacked blocks base base []
  | cons (mask : ς → Bool) (frames : List (Frame ς φ)) (x : ς) (progress : φ) :
      Stacked blocks base mask frames → mask x = false →
      Stacked blocks base (fun y => mask y || blocks x y) (⟨x, mask, progress⟩ :: frames)

variable {base mask : ς → Bool} {frames : List (Frame ς φ)}

/-- The mask is the one at the start with what the handlers block. -/
theorem Stacked.mask_eq (stacked : Stacked blocks base mask frames) (y : ς) :
    mask y = (base y || frames.any fun f => blocks f.signal y) := by
  induction stacked with
  | nil => exact (Bool.or_false _).symm
  | cons mask frames x progress _ _ ih =>
      change (mask y || blocks x y) = _
      rw [ih, List.any_cons, Bool.or_assoc, Bool.or_comm (blocks x y)]

/-- No handler runs above one that blocks its signal. -/
theorem Stacked.pairwise (stacked : Stacked blocks base mask frames) :
    (frames.map Frame.signal).Pairwise fun upper lower => blocks lower upper = false := by
  induction stacked with
  | nil => exact .nil
  | cons mask frames x progress below free ih =>
      rw [below.mask_eq, Bool.or_eq_false_iff, List.any_eq_false] at free
      refine List.pairwise_cons.mpr ⟨fun lower member => ?_, ih⟩
      obtain ⟨f, among, rfl⟩ := List.mem_map.mp member
      exact Bool.not_eq_true _ ▸ free.2 f among

/-- Where every handler blocks its own signal, no signal has two that run. -/
theorem Stacked.nodup (stacked : Stacked blocks base mask frames)
    (self : ∀ x, blocks x x = true) : (frames.map Frame.signal).Nodup := by
  refine stacked.pairwise.imp fun free same => ?_
  rw [same, self] at free
  cases free

/-- Every handler that runs is there with its signal blocked. -/
theorem Stacked.blocked (stacked : Stacked blocks base mask frames) {f : Frame ς φ}
    (member : f ∈ frames) (blocked : blocks f.signal y = true) : mask y = true := by
  rw [stacked.mask_eq, List.any_eq_true.mpr ⟨f, member, blocked⟩, Bool.or_true]

theorem Stacked.deliver [DecidableEq ς] (stacked : Stacked blocks base h.mask h.frames)
    (free : h.mask x = false) (begin : φ) :
    Stacked blocks base (h.deliver blocks begin x).mask (h.deliver blocks begin x).frames :=
  .cons h.mask h.frames x begin stacked free

theorem Stacked.advance (stacked : Stacked blocks base h.mask h.frames) (progress : φ) :
    Stacked blocks base (h.advance progress).mask (h.advance progress).frames := by
  obtain ⟨mask, pending, frames, log⟩ := h
  cases stacked with
  | nil => exact .nil
  | cons mask frames x before below free => exact .cons mask frames x progress below free

theorem Stacked.leave (stacked : Stacked blocks base h.mask h.frames) :
    Stacked blocks base h.leave.mask h.leave.frames := by
  obtain ⟨mask, pending, frames, log⟩ := h
  cases stacked with
  | nil => exact .nil
  | cons mask frames x before below free => exact below

/-! ## What becomes of the signals generated -/

variable [DecidableEq ς]

/-- Every signal generated has been delivered since or is pending; and each delivery is that of a
signal generated. -/
structure Answered (pending : ς → Bool) (log : List (SignalEvent ς)) : Prop where
  since : ∀ (x : ς) (before after : List (SignalEvent ς)), log = before ++ .raised x :: after →
    .delivered x ∈ after ∨ pending x = true
  fewer : ∀ x, log.count (.delivered x) + (pending x).toNat ≤ log.count (.raised x)

theorem answered_nil : Answered (fun _ : ς => false) [] := by
  refine ⟨fun x before after split => ?_, fun x => Nat.le_refl 0⟩
  cases (List.append_eq_nil_iff.mp split.symm).2

variable {pending : ς → Bool} {log : List (SignalEvent ς)}

theorem Answered.raise (answered : Answered pending log) (x : ς) :
    Answered (Function.update pending x true) (log ++ [.raised x]) := by
  constructor
  · intro y before after split
    rcases split_snoc split with ⟨same, -⟩ | ⟨rest, rfl, earlier⟩
    · cases same
      exact .inr (Function.update_self ..)
    · refine (answered.since y before rest earlier).imp (List.mem_append_left _) fun up => ?_
      by_cases same : y = x
      · rw [same, Function.update_self]
      · rw [Function.update_of_ne same]
        exact up
  · intro y
    have fewer := answered.fewer y
    have none : [SignalEvent.raised x].count (.delivered y) = 0 := by simp
    rw [List.count_append, List.count_append, none]
    by_cases same : y = x
    · subst same
      have below := Bool.toNat_le (pending y)
      rw [Function.update_self, List.count_singleton_self, Bool.toNat_true]
      omega
    · rw [Function.update_of_ne same]
      omega

theorem Answered.deliver (answered : Answered pending log) (up : pending x = true) :
    Answered (Function.update pending x false) (log ++ [.delivered x]) := by
  constructor
  · intro y before after split
    rcases split_snoc split with ⟨same, -⟩ | ⟨rest, rfl, earlier⟩
    · cases same
    · by_cases same : y = x
      · subst same
        exact .inl (List.mem_append_right _ (List.mem_singleton_self _))
      · rw [Function.update_of_ne same]
        exact (answered.since y before rest earlier).imp_left (List.mem_append_left _)
  · intro y
    have fewer := answered.fewer y
    rw [List.count_append, List.count_append]
    by_cases same : y = x
    · subst same
      rw [up, Bool.toNat_true] at fewer
      rw [Function.update_self, List.count_singleton_self, Bool.toNat_false]
      omega
    · rw [Function.update_of_ne same]
      have none : [SignalEvent.delivered x].count (.delivered y) = 0 := by
        simp [Ne.symm same]
      rw [none]
      omega

end Handlers

end Alnp
