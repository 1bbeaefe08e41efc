import Mathlib.Data.List.Count
import Alnp.Lib.Machine
import Alnp.Lib.Notice

/-!
# The worker pool of `io_signalfd_chld.c`

The parent of `Chapter11/io_signalfd_chld.c` forks `MAX_POOL` children, reads `SIGCHLD` from a
`signalfd` and then calls `waitid` in a loop.  What it does with a state change depends on one flag:
`is_refork` makes it fork a new child and go on with the loop, otherwise it leaves the loop.  The
flag is set for a child that has terminated and for one that has stopped, but not for one that was
continued.

`pooled_of_reachable` gives the runs in which the pool keeps its size: no stop is reported, and a
report that ends the loop leaves no termination behind that nothing announces.
-/

namespace Alnp.SignalfdChld

def maxPool : Nat := 3

/-- `si_code` of a `SIGCHLD`. -/
inductive SiCode
  | exited
  | killed
  | dumped
  | trapped
  | stopped
  | continued
  deriving DecidableEq

/-- The `switch` of `main`: whether it sets `is_refork`. -/
def SiCode.isRefork : SiCode → Bool
  | .exited => true
  | .killed => true
  | .dumped => true
  | .stopped => true
  | .continued => false
  | .trapped => false

inductive Life
  | running
  | stopped
  | terminated
  deriving DecidableEq

/-- What can happen to a child. -/
inductive Change : Life → SiCode → Life → Prop
  | exit : Change .running .exited .terminated
  | kill (life : Life) : life ≠ .terminated → Change life .killed .terminated
  | dump : Change .running .dumped .terminated
  | stop : Change .running .stopped .stopped
  | cont : Change .stopped .continued .running

structure Child where
  life : Life
  /-- The state change that `waitid` has still to report; a later one takes its place. -/
  waitable : Option SiCode
  /-- How many children have been forked because of a report about this one. -/
  replaced : Nat
  deriving DecidableEq

/-- A child that `start_child` has just forked. -/
def Child.started : Child := ⟨.running, none, 0⟩

/-- Where the parent is. -/
inductive At
  /-- in the loop that starts the pool, with its `i` -/
  | pool (i : Nat)
  | read
  | waitid
  /-- at the `switch`, with the child and the `si_code` in `wsiginfo` -/
  | switch (child : Nat) (code : SiCode)
  /-- at `start_child` because of the report about `child` -/
  | refork (child : Nat)

structure System where
  pc : At
  children : List Child
  pending : Bool

inductive SystemStep : System → System → Prop
  | pool (s : System) (i : Nat) :
      s.pc = .pool i → i < maxPool →
      SystemStep s { s with pc := .pool (i + 1), children := s.children ++ [.started] }
  | pooled (s : System) (i : Nat) :
      s.pc = .pool i → ¬ i < maxPool → SystemStep s { s with pc := .read }
  /-- A child changes its state, and `SIGCHLD` is pending. -/
  | change (s : System) (i : Nat) (c : Child) (code : SiCode) (life : Life) :
      s.children[i]? = some c → Change c.life code life →
      SystemStep s
        { s with
          children := s.children.set i { c with life := life, waitable := some code }
          pending := true }
  | read (s : System) :
      s.pc = .read → s.pending = true → SystemStep s { s with pc := .waitid, pending := false }
  /-- `waitid` reports a state change. -/
  | waitid (s : System) (i : Nat) (c : Child) (code : SiCode) :
      s.pc = .waitid → s.children[i]? = some c → c.waitable = some code →
      SystemStep s
        { s with
          pc := .switch i code, children := s.children.set i { c with waitable := none } }
  /-- `waitid` sets `si_pid` to 0, and the loop ends. -/
  | drained (s : System) :
      s.pc = .waitid → (∀ c ∈ s.children, c.waitable = none) →
      SystemStep s { s with pc := .read }
  | switch (s : System) (i : Nat) (code : SiCode) :
      s.pc = .switch i code →
      SystemStep s { s with pc := if code.isRefork then .refork i else .read }
  | refork (s : System) (i : Nat) (c : Child) :
      s.pc = .refork i → s.children[i]? = some c →
      SystemStep s
        { s with
          pc := .waitid
          children := s.children.set i { c with replaced := c.replaced + 1 } ++ [.started] }

def machine : Machine System where
  init s := s = ⟨.pool 0, [], false⟩
  step := SystemStep

def Life.alive : Life → Bool
  | .running => true
  | .stopped => true
  | .terminated => false

def Child.alive (c : Child) : Bool := c.life.alive

/-- The child has terminated and `waitid` has still to say so. -/
def Child.unreported (c : Child) : Bool := !c.alive && c.waitable.isSome

/-- The report at the `switch` is not about a stop, and if it ends the loop, then a `SIGCHLD` is
pending or no termination has still to be reported. -/
def Sound (s : System) : Prop :=
  ∀ i code, s.pc = .switch i code →
    code ≠ .stopped ∧ (code.isRefork = false → s.pending = true ∨
      ∀ c ∈ s.children, c.unreported = false)

/-- The program in the runs whose reports are all `Sound`. -/
def sound : Machine System :=
  machine.guarded fun s _ => Sound s

/-! ## The account of the pool -/

/-- The child has terminated. -/
def SiCode.terminal : SiCode → Bool
  | .exited => true
  | .killed => true
  | .dumped => true
  | _ => false

/-- The parent has the report of a termination in hand and has not replaced the child yet. -/
def At.hand : At → Nat
  | .switch _ code => code.terminal.toNat
  | .refork _ => 1
  | _ => 0

/-- The report in hand is about child `i`. -/
def At.handOf (i : Nat) : At → Nat
  | .switch child code => if child = i then code.terminal.toNat else 0
  | .refork child => if child = i then 1 else 0
  | _ => 0

/-- How many children should be alive or on their way to be replaced. -/
def At.forked : At → Nat
  | .pool i => i
  | _ => maxPool

/-- The parent will call `waitid` before it reads again. -/
def At.Draining : At → Prop
  | .waitid => True
  | .switch _ _ => True
  | .refork _ => True
  | _ => False

/-- A terminated child is unreported, in hand or replaced, and what `waitid` reports about a child
is how it is. -/
structure Child.Fits (hand : Nat) (c : Child) : Prop where
  once : c.replaced + hand + c.unreported.toNat = (!c.alive).toNat
  code : ∀ code, c.waitable = some code → code.terminal = !c.alive

structure Sized (s : System) : Prop where
  total : s.children.countP Child.alive + s.children.countP Child.unreported + s.pc.hand =
    s.pc.forked
  forked : s.pc.forked ≤ maxPool
  fits : ∀ i (c : Child), s.children[i]? = some c → c.Fits (s.pc.handOf i)
  announced : (Notice.mk (s.children.countP Child.unreported) s.pending 0).Covered s.pc.Draining

/-- Replacing one child moves a count by what the child moves. -/
theorem countP_set {children : List Child} {i : Nat} {c : Child} (found : children[i]? = some c)
    (c' : Child) (p : Child → Bool) :
    (children.set i c').countP p + (p c).toNat = children.countP p + (p c').toNat := by
  obtain ⟨lt, rfl⟩ := List.getElem?_eq_some_iff.mp found
  have toNat (b : Bool) : (if b then 1 else 0) = b.toNat := by cases b <;> rfl
  have le : (p children[i]).toNat ≤ children.countP p := by
    cases held : p children[i] with
    | true => exact List.countP_pos_iff.mpr ⟨_, List.getElem_mem lt, held⟩
    | false => exact Nat.zero_le _
  rw [List.countP_set lt, toNat, toNat]
  omega

/-- Replacing one child keeps the account of the others. -/
theorem fits_set {children : List Child} {pc pc' : At} {i : Nat} {c' : Child}
    (fits : ∀ j (c : Child), children[j]? = some c → c.Fits (pc.handOf j))
    (others : ∀ j, j ≠ i → pc'.handOf j = pc.handOf j) (now : c'.Fits (pc'.handOf i)) :
    ∀ j (c : Child), (children.set i c')[j]? = some c → c.Fits (pc'.handOf j) := by
  intro j c found
  rcases eq_or_ne j i with rfl | other
  · obtain ⟨lt, rfl⟩ := List.getElem?_eq_some_iff.mp found
    rw [List.getElem_set_self]
    exact now
  · rw [List.getElem?_set_ne other.symm] at found
    rw [others j other]
    exact fits j c found

/-- A child started at the end keeps the account of the others. -/
theorem fits_append {children : List Child} {pc : At}
    (fits : ∀ j (c : Child), children[j]? = some c → c.Fits (pc.handOf j))
    (none : pc.handOf children.length = 0) :
    ∀ j (c : Child), (children ++ [.started])[j]? = some c → c.Fits (pc.handOf j) := by
  intro j c found
  by_cases old : j < children.length
  · rw [List.getElem?_append_left old] at found
    exact fits j c found
  · obtain ⟨lt, -⟩ := List.getElem?_eq_some_iff.mp found
    rw [List.length_append, List.length_singleton] at lt
    have last : j = children.length := by omega
    subst last
    rw [List.getElem?_concat_length] at found
    cases found
    rw [none]
    exact ⟨rfl, nofun⟩

variable {s t : System}

theorem Change.alive {life life' : Life} {code : SiCode} (change : Change life code life') :
    life.alive = true ∧ life'.alive = !code.terminal := by
  cases change with
  | kill _ alive =>
      refine ⟨?_, rfl⟩
      cases life with
      | terminated => exact absurd rfl alive
      | _ => rfl
  | _ => exact ⟨rfl, rfl⟩

/-- A live child that changes its state stays alive or is a termination to be reported. -/
theorem Change.fits {c : Child} {code : SiCode} {life : Life} {hand : Nat}
    (change : Change c.life code life) (fits : c.Fits hand) :
    Child.Fits hand { c with life := life, waitable := some code } ∧
      (Child.alive { c with life := life, waitable := some code }).toNat +
        (Child.unreported { c with life := life, waitable := some code }).toNat =
      c.alive.toNat + c.unreported.toNat := by
  have ⟨before, after⟩ := change.alive
  have once := fits.once
  simp only [Child.unreported, Child.alive, before, Bool.not_true, Bool.false_and,
    Bool.toNat_false] at once
  simp only [Child.unreported, Child.alive, before, after, Bool.not_not, Bool.not_true,
    Bool.false_and, Option.isSome_some, Bool.and_true, Bool.toNat_true, Bool.toNat_false]
  refine ⟨⟨?_, ?_⟩, ?_⟩
  · simp only [Child.unreported, Child.alive, after, Bool.not_not, Option.isSome_some,
      Bool.and_true]
    omega
  · intro reported same
    cases same
    simp only [Child.alive, after, Bool.not_not]
  · cases code.terminal <;> rfl

/-- Reporting a state change takes a termination from the child into the hand of the parent. -/
theorem Child.Fits.report {c : Child} {code : SiCode} (fits : c.Fits 0)
    (reported : c.waitable = some code) :
    Child.Fits code.terminal.toNat { c with waitable := none } ∧
      c.unreported = code.terminal := by
  have terminal := fits.code code reported
  have once := fits.once
  have unreported : c.unreported = code.terminal := by
    simp only [Child.unreported, reported, terminal, Option.isSome_some, Bool.and_true]
  rw [unreported] at once
  refine ⟨⟨?_, nofun⟩, unreported⟩
  simp only [Child.unreported, Child.alive, Option.isSome_none, Bool.and_false,
    Bool.toNat_false] at once ⊢
  omega

/-- Forking a new child settles the report in hand. -/
theorem Child.Fits.replace {c : Child} (fits : c.Fits 1) :
    Child.Fits 0 { c with replaced := c.replaced + 1 } := by
  have once := fits.once
  refine ⟨?_, fits.code⟩
  simp only [Child.unreported, Child.alive] at once ⊢
  omega

/-- Except for a stop, the `switch` asks for a new child exactly for a termination. -/
theorem SiCode.isRefork_eq {code : SiCode} (going : code ≠ .stopped) :
    code.isRefork = code.terminal := by
  cases code with
  | stopped => exact absurd rfl going
  | _ => rfl

theorem Sized.step (sized : Sized s) (step : SystemStep s t) (kept : Sound s) : Sized t := by
  obtain ⟨total, forked, fits, announced⟩ := sized
  cases step with
  | pool i starting more =>
      rw [starting] at total fits announced
      have alive : [Child.started].countP Child.alive = 1 := rfl
      have reported : [Child.started].countP Child.unreported = 0 := rfl
      refine ⟨?_, more, fits_append fits rfl, ?_⟩
      · simp only [List.countP_append, alive, reported, At.hand, At.forked] at total ⊢
        omega
      · simp only [List.countP_append, reported]
        exact announced
  | pooled i starting full =>
      rw [starting] at total forked fits announced
      have all : i = maxPool := Nat.le_antisymm forked (Nat.not_lt.mp full)
      exact ⟨total.trans all, Nat.le_refl maxPool, fits, announced⟩
  | change i c code life found change =>
      obtain ⟨fits', balance⟩ := change.fits (fits i c found)
      have alive := countP_set found { c with life := life, waitable := some code } Child.alive
      have reported :=
        countP_set found { c with life := life, waitable := some code } Child.unreported
      refine ⟨?_, forked, fits_set fits (fun _ _ => rfl) fits', Notice.covered_of_pending rfl⟩
      dsimp only
      omega
  | read reading up =>
      rw [reading] at total fits
      exact ⟨total, Nat.le_refl maxPool, fits, Notice.covered_of_working trivial⟩
  | waitid i c code waiting found reported =>
      rw [waiting] at total fits
      obtain ⟨fits', moved⟩ := (fits i c found).report reported
      have alive := countP_set found { c with waitable := none } Child.alive
      have unreported := countP_set found { c with waitable := none } Child.unreported
      refine ⟨?_, Nat.le_refl maxPool, fits_set fits ?_ ?_, Notice.covered_of_working trivial⟩
      · rw [moved] at unreported
        simp only [Child.alive, At.hand, At.forked] at total alive ⊢
        have none : (Child.unreported { c with waitable := none }).toNat = 0 := by
          simp [Child.unreported]
        omega
      · exact fun j other => if_neg (Ne.symm other)
      · simp only [At.handOf, ↓reduceIte]
        exact fits'
  | drained waiting none =>
      rw [waiting] at total fits
      refine ⟨total, Nat.le_refl maxPool, fits, Notice.covered_of_none ?_⟩
      rw [List.countP_eq_zero]
      intro c member
      simp [Child.unreported, none c member]
  | switch i code switching =>
      obtain ⟨going, ends⟩ := kept i code switching
      have same := SiCode.isRefork_eq going
      rw [switching] at total fits announced
      cases refork : code.isRefork with
      | true =>
          rw [refork] at same
          simp only [At.hand, At.handOf, ← same, Bool.toNat_true] at total fits
          simp only [↓reduceIte]
          exact ⟨total, Nat.le_refl maxPool, fits, Notice.covered_of_working trivial⟩
      | false =>
          rw [refork] at same
          simp only [At.hand, At.handOf, ← same, Bool.toNat_false, ite_self] at total fits
          simp only [Bool.false_eq_true, ↓reduceIte]
          refine ⟨total, Nat.le_refl maxPool, fits, ?_⟩
          -- The loop ends here, so a termination left over must be announced.
          rcases ends refork with up | none
          · exact Notice.covered_of_pending up
          · refine Notice.covered_of_none ?_
            rw [List.countP_eq_zero]
            intro c member
            rw [none c member]
            exact Bool.false_ne_true
  | refork i c forking found =>
      rw [forking] at total fits
      have alive := countP_set found { c with replaced := c.replaced + 1 } Child.alive
      have reported := countP_set found { c with replaced := c.replaced + 1 } Child.unreported
      have started : [Child.started].countP Child.alive = 1 := rfl
      have unreported : [Child.started].countP Child.unreported = 0 := rfl
      simp only [Child.unreported, Child.alive] at alive reported
      have held := fits i c found
      rw [At.handOf, if_pos rfl] at held
      refine ⟨?_, Nat.le_refl maxPool, fits_append (fits_set fits ?_ ?_) rfl,
        Notice.covered_of_working trivial⟩
      · simp only [List.countP_append, started, unreported, At.hand, At.forked] at total ⊢
        omega
      · exact fun j other => (if_neg (Ne.symm other)).symm
      · exact held.replace

theorem sized_of_sound (run : sound.Reachable s) : Sized s := by
  apply run.invariant (P := Sized)
  · intro s start
    subst start
    exact ⟨rfl, Nat.zero_le _, nofun, Notice.covered_of_none rfl⟩
  · exact fun s t _ sized step => sized.step step.1 step.2

/-! ## The pool between two signals -/

/-- `MAX_POOL` children are alive, each terminated one has been replaced once and no other. -/
def Pooled (s : System) : Prop :=
  s.children.countP Child.alive = maxPool ∧
    ∀ c ∈ s.children, c.replaced = if c.life = .terminated then 1 else 0

/-- **Size of the pool.**  In a run without reported stops, in which a report that ends the loop
leaves no unannounced termination behind, the pool is complete whenever the parent is blocked in
`read`. -/
theorem pooled_of_reachable (run : sound.Reachable s) (reading : s.pc = .read)
    (down : s.pending = false) : Pooled s := by
  obtain ⟨total, -, fits, announced⟩ := sized_of_sound run
  rw [reading] at total fits announced
  have none : s.children.countP Child.unreported = 0 := by
    by_contra some
    rcases announced some with up | draining
    · exact absurd (down.symm.trans up) Bool.false_ne_true
    · exact draining
  constructor
  · rw [none] at total
    exact total
  · intro c member
    obtain ⟨i, found⟩ := List.mem_iff_getElem?.mp member
    have once := (fits i c found).once
    have reported : c.unreported = false := by
      have not := List.countP_eq_zero.mp none c member
      exact Bool.eq_false_iff.mpr not
    rw [reported] at once
    simp only [At.handOf, Bool.toNat_false, Nat.add_zero, Child.alive] at once
    rw [once]
    cases c.life <;> rfl

/-! ## One report -/

/-- The parent has started its pool. -/
theorem sound_started : sound.Reachable ⟨.read, [.started, .started, .started], false⟩ := by
  have start : sound.Reachable ⟨.pool 0, [], false⟩ := .of_init rfl
  have first := start.tail ⟨SystemStep.pool _ 0 rfl (by decide), nofun⟩
  have second := first.tail ⟨SystemStep.pool _ 1 rfl (by decide), nofun⟩
  have third := second.tail ⟨SystemStep.pool _ 2 rfl (by decide), nofun⟩
  exact third.tail ⟨SystemStep.pooled _ 3 rfl (by decide), nofun⟩

/-- A child is killed and replaced. -/
theorem pooled_killed :
    ∃ s, sound.Reachable s ∧ s.children.length = 4 ∧ s.pc = .read ∧ s.pending = false ∧
      Pooled s := by
  have killed := sound_started.tail
    ⟨SystemStep.change _ 0 .started .killed .terminated rfl (.kill _ nofun), nofun⟩
  have read := killed.tail ⟨SystemStep.read _ rfl rfl, nofun⟩
  have reported := read.tail ⟨SystemStep.waitid _ 0 ⟨.terminated, some .killed, 0⟩ .killed rfl rfl
    rfl, nofun⟩
  have decided := reported.tail ⟨SystemStep.switch _ 0 .killed rfl, fun _ _ pc => by
    cases pc
    exact ⟨nofun, nofun⟩⟩
  have forked := decided.tail ⟨SystemStep.refork _ 0 ⟨.terminated, none, 0⟩ rfl rfl, nofun⟩
  have drained := forked.tail ⟨SystemStep.drained _ rfl (by decide), nofun⟩
  exact ⟨_, drained, rfl, rfl, rfl, pooled_of_reachable drained rfl rfl⟩

/-- A child stops, and the parent forks a fourth one. -/
theorem not_forall_pooled :
    ¬ ∀ s, machine.Reachable s → s.pc = .read → s.pending = false → Pooled s := by
  intro always
  have started : machine.Reachable _ := sound_started.of_guarded
  have stopped := started.tail (.change _ 0 .started .stopped .stopped rfl .stop)
  have read := stopped.tail (.read _ rfl rfl)
  have reported := read.tail
    (.waitid _ 0 ⟨.stopped, some .stopped, 0⟩ .stopped rfl rfl rfl)
  have decided := reported.tail (.switch _ 0 .stopped rfl)
  have forked := decided.tail (.refork _ 0 ⟨.stopped, none, 0⟩ rfl rfl)
  have drained := forked.tail (.drained _ rfl (by decide))
  exact absurd (always _ drained rfl rfl).1 (by decide)

end Alnp.SignalfdChld
