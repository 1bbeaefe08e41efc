import Alnp.Kernel.CString
import Alnp.Lib.Ledger
import Alnp.Lib.Machine

/-!
# The thread-specific buffers of `sum_strnum_tls.c`

Any number of threads call `sum_strnum` of `Chapter08/sum_strnum_tls.c`, each as often as it likes
(`start_func` calls it once), print the result and end.  They share the key, which the first caller
of `pthread_once` creates, and the heap; the buffer of a thread is the value of the key in that
thread, and `destroy_tls` frees it when the thread ends.  The calls of the thread library succeed.

`separate_of_reachable`: in every interleaving the key is there before it is used, the string that a
call has returned is the decimal representation of its own sum until the thread calls again or ends,
and every buffer is freed once, at the end of its thread.
-/

namespace Alnp.SumStrnumTls

def lenSumStr : Nat := 16

/-- The arguments of a call of `sum_strnum`, whose sum is an `int`. -/
structure Args where
  s1 : List Char
  s2 : List Char
  fits : FitsInt (atoi s1 + atoi s2)

def Args.sum (c : Args) : Int := atoi c.s1 + atoi c.s2

/-- Where a thread is. -/
inductive At
  /-- It has not called `sum_strnum` yet. -/
  | started
  /-- at `pthread_once` -/
  | once (c : Args)
  /-- in `init_tls_key`, at `pthread_key_create` -/
  | initTlsKey (c : Args)
  /-- at the end of `init_tls_key` -/
  | initialized (c : Args)
  | getspecific (c : Args)
  | malloc (c : Args)
  | setspecific (c : Args) (tlsStr : Int)
  | snprintf (c : Args) (tlsStr : Int)
  /-- The call has returned. -/
  | returned (c : Args) (tlsStr : Int)
  /-- in `pthread_exit`, which looks for values to destroy -/
  | exiting
  /-- in `destroy_tls`, in front of `free` -/
  | destroyTls (tls : Int)
  | ended

/-- `once_tls_key` -/
inductive Once (ι : Type)
  | init
  /-- Thread `i` runs the routine; the other callers of `pthread_once` wait. -/
  | running (i : ι)
  | done

structure Process (ι : Type) where
  onceTlsKey : Once ι
  tlsKey : Nat
  /-- The keys created, in order. -/
  keys : List Nat
  /-- The value of a key in a thread; `none` is `NULL`. -/
  value : Nat → ι → Option Int
  heap : Ledger
  /-- What the buffer at an address holds. -/
  bytes : Int → List Char
  pc : ι → At
  /-- The key of each call of `pthread_getspecific` and `pthread_setspecific`, and the keys there
  were then. -/
  uses : List (Nat × List Nat)
  mallocs : List (ι × Int)
  frees : List (ι × Int)
  /-- The arguments and the string of each line printed by `start_func`. -/
  printed : List (Args × List Char)

variable {ι : Type} [DecidableEq ι]

/-- Thread `i` has moved to `pc`. -/
def Process.setPc (s : Process ι) (i : ι) (pc : At) : Process ι :=
  { s with pc := Function.update s.pc i pc }

/-- The key has been named in a call. -/
def Process.use (s : Process ι) : Process ι := { s with uses := s.uses ++ [(s.tlsKey, s.keys)] }

/-- The value of a key in thread `i` is `v` now. -/
def Process.setValue (s : Process ι) (key : Nat) (i : ι) (v : Option Int) : Process ι :=
  { s with value := Function.update s.value key (Function.update (s.value key) i v) }

/-- The branch on the result of `pthread_getspecific`. -/
def afterGetspecific (c : Args) : Option Int → At
  | none => .malloc c
  | some tlsStr => .snprintf c tlsStr

inductive ProcessStep : Process ι → Process ι → Prop
  /-- `sum_strnum` is called, for the first time or again. -/
  | call (s : Process ι) (i : ι) (c : Args) :
      s.pc i = .started ∨ (∃ c' p, s.pc i = .returned c' p) → ProcessStep s (s.setPc i (.once c))
  | onceRun (s : Process ι) (i : ι) (c : Args) :
      s.pc i = .once c → s.onceTlsKey = .init →
      ProcessStep s { s.setPc i (.initTlsKey c) with onceTlsKey := .running i }
  | keyCreate (s : Process ι) (i : ι) (c : Args) (key : Nat) :
      s.pc i = .initTlsKey c → key ∉ s.keys →
      ProcessStep s
        { s.setPc i (.initialized c) with
          tlsKey := key
          keys := s.keys ++ [key]
          value := Function.update s.value key fun _ => none }
  | onceDone (s : Process ι) (i : ι) (c : Args) :
      s.pc i = .initialized c →
      ProcessStep s { s.setPc i (.getspecific c) with onceTlsKey := .done }
  | oncePass (s : Process ι) (i : ι) (c : Args) :
      s.pc i = .once c → s.onceTlsKey = .done → ProcessStep s (s.setPc i (.getspecific c))
  | getspecific (s : Process ι) (i : ι) (c : Args) :
      s.pc i = .getspecific c →
      ProcessStep s (s.use.setPc i (afterGetspecific c (s.value s.tlsKey i)))
  /-- `malloc` returns memory that is not in use, whatever is in it. -/
  | malloc (s : Process ι) (i : ι) (c : Args) (p : Int) (bytes : List Char) :
      s.pc i = .malloc c → ¬ s.heap.Opened p →
      ProcessStep s
        { s.setPc i (.setspecific c p) with
          heap := s.heap.accept p
          bytes := Function.update s.bytes p bytes
          mallocs := s.mallocs ++ [(i, p)] }
  | setspecific (s : Process ι) (i : ι) (c : Args) (p : Int) :
      s.pc i = .setspecific c p →
      ProcessStep s ((s.use.setValue s.tlsKey i (some p)).setPc i (.snprintf c p))
  | snprintf (s : Process ι) (i : ι) (c : Args) (p : Int) :
      s.pc i = .snprintf c p →
      ProcessStep s
        { s.setPc i (.returned c p) with
          heap := s.heap.use p
          bytes := Function.update s.bytes p
            (Alnp.snprintf lenSumStr (decimal c.sum) (s.bytes p)) }
  /-- The `printf` of `start_func`. -/
  | print (s : Process ι) (i : ι) (c : Args) (p : Int) :
      s.pc i = .returned c p →
      ProcessStep s
        { s with heap := s.heap.use p, printed := s.printed ++ [(c, cString (s.bytes p))] }
  | exit (s : Process ι) (i : ι) :
      s.pc i = .started ∨ (∃ c p, s.pc i = .returned c p) → ProcessStep s (s.setPc i .exiting)
  /-- A key has a value in the thread that ends: it is cleared, and `destroy_tls` is called. -/
  | destroy (s : Process ι) (i : ι) (key : Nat) (p : Int) :
      s.pc i = .exiting → key ∈ s.keys → s.value key i = some p →
      ProcessStep s ((s.setValue key i none).setPc i (.destroyTls p))
  /-- What the buffer held is gone. -/
  | free (s : Process ι) (i : ι) (p : Int) (bytes : List Char) :
      s.pc i = .destroyTls p →
      ProcessStep s
        { s.setPc i .exiting with
          heap := s.heap.close p
          bytes := Function.update s.bytes p bytes
          frees := s.frees ++ [(i, p)] }
  | ended (s : Process ι) (i : ι) :
      s.pc i = .exiting → (∀ key ∈ s.keys, s.value key i = none) →
      ProcessStep s (s.setPc i .ended)

/-- The process when its threads are created; `bytes` is what the memory holds. -/
def Process.start (bytes : Int → List Char) : Process ι where
  onceTlsKey := .init
  tlsKey := 0
  keys := []
  value := fun _ _ => none
  heap := .empty
  bytes := bytes
  pc := fun _ => .started
  uses := []
  mallocs := []
  frees := []
  printed := []

def machine (ι : Type) [DecidableEq ι] : Machine (Process ι) where
  init s := ∃ bytes, s = .start bytes
  step := ProcessStep

/-! ## The buffer of a thread -/

/-- The buffer of a thread at `pc` with the given value of the key: it is in the hands of the thread
itself before it is stored and after it was cleared. -/
def At.buffer (value : Option Int) : At → Option Int
  | .setspecific _ p => some p
  | .destroyTls p => some p
  | _ => value

def Process.buffer (s : Process ι) (i : ι) : Option Int := (s.pc i).buffer (s.value s.tlsKey i)

/-- The thread is ending. -/
def At.Ending : At → Prop
  | .exiting | .destroyTls _ | .ended => True
  | _ => False

/-- What the place of thread `i` says about the key, its value and the buffer. -/
def Process.Placed (s : Process ι) (i : ι) : At → Prop
  | .initTlsKey _ => s.onceTlsKey = .running i ∧ s.keys = []
  | .initialized _ => s.onceTlsKey = .running i ∧ s.keys = [s.tlsKey]
  | .getspecific _ => s.onceTlsKey = .done
  | .malloc _ => s.onceTlsKey = .done ∧ s.value s.tlsKey i = none
  | .setspecific _ _ => s.onceTlsKey = .done ∧ s.value s.tlsKey i = none
  | .snprintf _ p => s.onceTlsKey = .done ∧ s.value s.tlsKey i = some p
  | .returned c p => s.onceTlsKey = .done ∧ s.value s.tlsKey i = some p ∧
      cString (s.bytes p) = decimal c.sum
  | .destroyTls _ => s.value s.tlsKey i = none
  | .ended => s.value s.tlsKey i = none
  | _ => True

/-- The keys there are, by the state of `once_tls_key`. -/
def Process.Keyed (s : Process ι) : Prop :=
  match s.onceTlsKey with
  | .init => s.keys = []
  | .running _ => s.keys = [] ∨ s.keys = [s.tlsKey]
  | .done => s.keys = [s.tlsKey]

structure Inv (s : Process ι) : Prop where
  placed : ∀ i, s.Placed i (s.pc i)
  keyed : s.Keyed
  /-- A key that does not exist has no value. -/
  values : ∀ key, key ∉ s.keys → ∀ i, s.value key i = none
  holding : s.heap.Holding s.mallocs s.frees s.buffer
  ending : ∀ f ∈ s.frees, (s.pc f.1).Ending
  uses : ∀ u ∈ s.uses, u.2 = [u.1]
  printed : ∀ l ∈ s.printed, l.2 = decimal l.1.sum

variable {s s' : Process ι} {i j : ι} {pc : At} {p : Int}

@[simp] theorem pc_setPc_self : (s.setPc i pc).pc i = pc := Function.update_self ..

@[simp] theorem pc_setPc_of_ne (other : j ≠ i) : (s.setPc i pc).pc j = s.pc j :=
  Function.update_of_ne other ..

@[simp] theorem value_setValue_self {key : Nat} {v : Option Int} :
    (s.setValue key i v).value key i = v := by
  simp [Process.setValue]

theorem value_setValue_of_ne {key k : Nat} {v : Option Int} (other : j ≠ i) :
    (s.setValue key i v).value k j = s.value k j := by
  by_cases same : k = key
  · subst same
    simp [Process.setValue, other]
  · simp [Process.setValue, same]

theorem value_setValue_of_key_ne {key k : Nat} {v : Option Int} (other : k ≠ key) :
    (s.setValue key i v).value k = s.value k :=
  Function.update_of_ne other ..

/-! ## Steps of one thread -/

/-- A step of thread `i` leaves the key, the other threads and their buffers alone. -/
structure Frame (i : ι) (s s' : Process ι) : Prop where
  onceTlsKey : s'.onceTlsKey = s.onceTlsKey
  tlsKey : s'.tlsKey = s.tlsKey
  keys : s'.keys = s.keys
  value : ∀ key j, j ≠ i → s'.value key j = s.value key j
  pc : ∀ j, j ≠ i → s'.pc j = s.pc j
  bytes : ∀ j, j ≠ i → ∀ p, s.value s.tlsKey j = some p → s'.bytes p = s.bytes p

omit [DecidableEq ι] in
theorem Frame.placed (frame : Frame i s s') (other : j ≠ i) (placed : s.Placed j pc) :
    s'.Placed j pc := by
  have value := frame.value s.tlsKey j other
  cases pc with
  | initTlsKey c | initialized c | getspecific c | malloc c | setspecific c p | snprintf c p
  | destroyTls p | ended =>
      simpa only [Process.Placed, frame.onceTlsKey, frame.keys, value, frame.tlsKey] using placed
  | returned c p =>
      obtain ⟨done, some, text⟩ := placed
      refine ⟨frame.onceTlsKey.trans done, frame.tlsKey.symm ▸ value.trans some, ?_⟩
      rw [frame.bytes j other p some]
      exact text
  | started | once c | exiting => trivial

theorem Frame.buffer (frame : Frame i s s') :
    s'.buffer = Function.update s.buffer i (s'.buffer i) := by
  funext j
  by_cases same : j = i
  · subst same
    rw [Function.update_self]
  · rw [Function.update_of_ne same, Process.buffer, Process.buffer, frame.pc j same,
      frame.tlsKey, frame.value _ j same]

omit [DecidableEq ι] in
theorem Frame.keyed (frame : Frame i s s') (keyed : s.Keyed) : s'.Keyed := by
  simpa only [Process.Keyed, frame.onceTlsKey, frame.keys, frame.tlsKey] using keyed

/-- A value that is set is the buffer: before the store and after the clear there is none. -/
theorem Inv.buffer_of_value (inv : Inv s) (set : s.value s.tlsKey i = some p) :
    s.buffer i = some p := by
  have placed := inv.placed i
  unfold Process.buffer
  generalize s.pc i = pc at placed
  cases pc with
  | setspecific c q => cases placed.2.symm.trans set
  | destroyTls q => cases placed.symm.trans set
  | _ => exact set

/-- What a step of thread `i` has to show for itself. -/
theorem Inv.of_frame (inv : Inv s) (frame : Frame i s s') (placed : s'.Placed i (s'.pc i))
    (values : ∀ key, key ∉ s.keys → s'.value key i = none)
    (holding : s'.heap.Holding s'.mallocs s'.frees (Function.update s.buffer i (s'.buffer i)))
    (frees : ∀ f ∈ s'.frees, f.1 ≠ i → f ∈ s.frees)
    (ending : ∀ f ∈ s'.frees, f.1 = i → (s'.pc i).Ending)
    (uses : ∀ u ∈ s'.uses, u.2 = [u.1]) (printed : ∀ l ∈ s'.printed, l.2 = decimal l.1.sum) :
    Inv s' := by
  refine ⟨fun j => ?_, frame.keyed inv.keyed, fun key absent j => ?_, frame.buffer ▸ holding,
    fun f member => ?_, uses, printed⟩
  · by_cases same : j = i
    · subst same
      exact placed
    · rw [frame.pc j same]
      exact frame.placed same (inv.placed j)
  · rw [frame.keys] at absent
    by_cases same : j = i
    · subst same
      exact values key absent
    · rw [frame.value key j same]
      exact inv.values key absent j
  · by_cases same : f.1 = i
    · rw [same]
      exact ending f member same
    · rw [frame.pc f.1 same]
      exact inv.ending f (frees f member same)

/-- A step of thread `i` that leaves the heap and its buffer alone. -/
theorem Inv.of_keep (inv : Inv s) (frame : Frame i s s') (placed : s'.Placed i (s'.pc i))
    (values : ∀ key, key ∉ s.keys → s'.value key i = none)
    (heap : s'.heap = s.heap ∧ s'.mallocs = s.mallocs ∧ s'.frees = s.frees)
    (buffer : s'.buffer i = s.buffer i) (ending : (s.pc i).Ending → (s'.pc i).Ending)
    (uses : ∀ u ∈ s'.uses, u.2 = [u.1]) (printed : ∀ l ∈ s'.printed, l.2 = decimal l.1.sum) :
    Inv s' := by
  obtain ⟨ledger, mallocs, frees⟩ := heap
  refine inv.of_frame frame placed values ?_ ?_ ?_ uses printed
  · rw [buffer, Function.update_eq_self, ledger, mallocs, frees]
    exact inv.holding
  · rw [frees]
    exact fun f member _ => member
  · rw [frees]
    intro f member same
    exact ending (same ▸ inv.ending f member)

/-- A step that only moves thread `i`. -/
theorem Inv.of_setPc (inv : Inv s) (placed : s.Placed i pc)
    (buffer : pc.buffer (s.value s.tlsKey i) = (s.pc i).buffer (s.value s.tlsKey i))
    (ending : (s.pc i).Ending → pc.Ending) : Inv (s.setPc i pc) := by
  have frame : Frame i s (s.setPc i pc) :=
    ⟨rfl, rfl, rfl, fun _ _ _ => rfl, fun _ other => pc_setPc_of_ne other, fun _ _ _ _ => rfl⟩
  refine inv.of_keep frame ?_ (fun key absent => inv.values key absent i) ⟨rfl, rfl, rfl⟩ ?_ ?_
    inv.uses inv.printed
  · rw [pc_setPc_self]
    exact placed
  · rw [Process.buffer, pc_setPc_self]
    exact buffer
  · rw [pc_setPc_self]
    exact ending

/-- Naming the key once it is there. -/
theorem Inv.use (inv : Inv s) (done : s.onceTlsKey = .done) : Inv s.use := by
  have keys : s.keys = [s.tlsKey] := by
    have keyed := inv.keyed
    rwa [Process.Keyed, done] at keyed
  refine ⟨inv.placed, inv.keyed, inv.values, inv.holding, inv.ending, ?_, inv.printed⟩
  refine List.forall_mem_append.mpr ⟨inv.uses, fun u member => ?_⟩
  rw [List.mem_singleton.mp member]
  exact keys

/-! ## The key -/

/-- What the steps of `pthread_once` that run the routine in thread `i` leave alone. -/
structure OnceFrame (i : ι) (s s' : Process ι) : Prop where
  value : ∀ j, s'.value s'.tlsKey j = s.value s.tlsKey j
  pc : ∀ j, j ≠ i → s'.pc j = s.pc j
  heap : s'.heap = s.heap ∧ s'.mallocs = s.mallocs ∧ s'.frees = s.frees
  uses : s'.uses = s.uses
  printed : s'.printed = s.printed

omit [DecidableEq ι] in
/-- Until the routine is done, no thread but the one that runs it is inside or past it. -/
theorem OnceFrame.placed (frame : OnceFrame i s s') (notDone : s.onceTlsKey ≠ .done)
    (runner : ∀ k, s.onceTlsKey = .running k → k = i) (other : j ≠ i)
    (placed : s.Placed j pc) : s'.Placed j pc := by
  cases pc with
  | initTlsKey c | initialized c => exact absurd (runner j placed.1) other
  | getspecific c => exact absurd placed notDone
  | malloc c | setspecific c p | snprintf c p | returned c p => exact absurd placed.1 notDone
  | destroyTls p | ended => exact (frame.value j).trans placed
  | started | once c | exiting => trivial

theorem Inv.of_once (inv : Inv s) (frame : OnceFrame i s s') (notDone : s.onceTlsKey ≠ .done)
    (runner : ∀ k, s.onceTlsKey = .running k → k = i) (placed : s'.Placed i (s'.pc i))
    (keyed : s'.Keyed) (values : ∀ key, key ∉ s'.keys → ∀ j, s'.value key j = none)
    (buffer : ∀ v, (s'.pc i).buffer v = (s.pc i).buffer v) (ending : ¬ (s.pc i).Ending) :
    Inv s' := by
  have buffers : s'.buffer = s.buffer := by
    funext j
    unfold Process.buffer
    rw [frame.value j]
    by_cases same : j = i
    · rw [same, buffer]
    · rw [frame.pc j same]
  refine ⟨fun j => ?_, keyed, values, ?_, ?_, frame.uses ▸ inv.uses, frame.printed ▸ inv.printed⟩
  · by_cases same : j = i
    · rw [same]
      exact placed
    · rw [frame.pc j same]
      exact frame.placed notDone runner same (inv.placed j)
  · obtain ⟨heap, mallocs, frees⟩ := frame.heap
    rw [heap, mallocs, frees, buffers]
    exact inv.holding
  · rw [frame.heap.2.2]
    intro f member
    have freed := inv.ending f member
    have other : f.1 ≠ i := fun same => ending (same ▸ freed)
    rwa [frame.pc f.1 other]

theorem Inv.onceRun (inv : Inv s) {c : Args} (at' : s.pc i = .once c)
    (init : s.onceTlsKey = .init) :
    Inv { s.setPc i (.initTlsKey c) with onceTlsKey := .running i } := by
  have keys : s.keys = [] := by
    have keyed := inv.keyed
    rwa [Process.Keyed, init] at keyed
  refine inv.of_once (i := i)
    ⟨fun _ => rfl, fun _ => pc_setPc_of_ne, ⟨rfl, rfl, rfl⟩, rfl, rfl⟩ ?_ ?_ ?_ (.inl keys)
    inv.values ?_ ?_
  · rw [init]
    nofun
  · rw [init]
    nofun
  · rw [pc_setPc_self]
    exact ⟨rfl, keys⟩
  · rw [pc_setPc_self, at']
    exact fun _ => rfl
  · rw [at']
    exact not_false

theorem Inv.keyCreate (inv : Inv s) {c : Args} (at' : s.pc i = .initTlsKey c) (key : Nat) :
    Inv { s.setPc i (.initialized c) with
      tlsKey := key
      keys := s.keys ++ [key]
      value := Function.update s.value key fun _ => none } := by
  obtain ⟨running, keys⟩ : s.onceTlsKey = .running i ∧ s.keys = [] := by
    have placed := inv.placed i
    rwa [at'] at placed
  have unset : ∀ k j, s.value k j = none := fun k j => inv.values k (keys ▸ List.not_mem_nil) j
  have created : s.keys ++ [key] = [key] := by rw [keys, List.nil_append]
  refine inv.of_once (i := i)
    ⟨fun j => ?_, fun _ => pc_setPc_of_ne, ⟨rfl, rfl, rfl⟩, rfl, rfl⟩ ?_ ?_ ?_ ?_ ?_ ?_ ?_
  · dsimp only
    rw [Function.update_self, unset]
  · rw [running]
    nofun
  · exact fun k same => Once.running.inj (same.symm.trans running)
  · rw [pc_setPc_self]
    exact ⟨running, created⟩
  · have keyed : s.onceTlsKey = .running i := running
    unfold Process.Keyed
    simp only [Process.setPc, keyed]
    exact .inr created
  · intro k _ j
    by_cases same : k = key
    · subst same
      dsimp only
      rw [Function.update_self]
    · dsimp only
      rw [Function.update_of_ne same]
      exact unset k j
  · rw [pc_setPc_self, at']
    exact fun _ => rfl
  · rw [at']
    exact not_false

theorem Inv.onceDone (inv : Inv s) {c : Args} (at' : s.pc i = .initialized c) :
    Inv { s.setPc i (.getspecific c) with onceTlsKey := .done } := by
  obtain ⟨running, keys⟩ : s.onceTlsKey = .running i ∧ s.keys = [s.tlsKey] := by
    have placed := inv.placed i
    rwa [at'] at placed
  refine inv.of_once (i := i)
    ⟨fun _ => rfl, fun _ => pc_setPc_of_ne, ⟨rfl, rfl, rfl⟩, rfl, rfl⟩ ?_ ?_ ?_ keys inv.values
    ?_ ?_
  · rw [running]
    nofun
  · exact fun k same => Once.running.inj (same.symm.trans running)
  · rw [pc_setPc_self]
    rfl
  · rw [pc_setPc_self, at']
    exact fun _ => rfl
  · rw [at']
    exact not_false

/-! ## The calls of `sum_strnum` -/

/-- The thread is outside `sum_strnum` and has not begun to end. -/
def At.Outside : At → Prop
  | .started | .returned _ _ => True
  | _ => False

theorem At.Outside.of_or (pc : At) (either : pc = .started ∨ ∃ c p, pc = .returned c p) :
    pc.Outside := by
  rcases either with rfl | ⟨c, p, rfl⟩
  · trivial
  · trivial

theorem At.Outside.buffer (outside : pc.Outside) (value : Option Int) :
    pc.buffer value = value := by
  cases pc with
  | started | returned c p => rfl
  | _ => cases outside

theorem At.Outside.not_ending (outside : pc.Outside) : ¬ pc.Ending := by
  cases pc with
  | started | returned c p => exact not_false
  | _ => cases outside

theorem Inv.getspecific (inv : Inv s) {c : Args} (at' : s.pc i = .getspecific c) :
    Inv (s.use.setPc i (afterGetspecific c (s.value s.tlsKey i))) := by
  have done : s.onceTlsKey = .done := by
    have placed := inv.placed i
    rwa [at'] at placed
  have at' : s.use.pc i = .getspecific c := at'
  have unset : s.use.value s.use.tlsKey i = s.value s.tlsKey i := rfl
  refine (inv.use done).of_setPc ?_ ?_ ?_
  · cases value : s.value s.tlsKey i with
    | none => exact ⟨done, value⟩
    | some p => exact ⟨done, value⟩
  · rw [at', unset]
    cases s.value s.tlsKey i with
    | none => rfl
    | some p => rfl
  · rw [at']
    exact fun ending => ending.elim

theorem Inv.malloc (inv : Inv s) {c : Args} (at' : s.pc i = .malloc c)
    (fresh : ¬ s.heap.Opened p) (bytes : List Char) :
    Inv { s.setPc i (.setspecific c p) with
      heap := s.heap.accept p
      bytes := Function.update s.bytes p bytes
      mallocs := s.mallocs ++ [(i, p)] } := by
  obtain ⟨done, unset⟩ : s.onceTlsKey = .done ∧ s.value s.tlsKey i = none := by
    have placed := inv.placed i
    rwa [at'] at placed
  refine inv.of_frame (i := i) ⟨rfl, rfl, rfl, fun _ _ _ => rfl, fun _ => pc_setPc_of_ne, ?_⟩ ?_
    (fun key absent => inv.values key absent i) ?_ (fun f member _ => member) ?_ inv.uses
    inv.printed
  · intro j other q set
    refine Function.update_of_ne (fun same => fresh ?_) ..
    exact (inv.holding.opened p).mpr ⟨j, inv.buffer_of_value (same ▸ set)⟩
  · rw [pc_setPc_self]
    exact ⟨done, unset⟩
  · have bare : s.buffer i = none := by
      rw [Process.buffer, at']
      exact unset
    have taken := inv.holding.accept bare fresh
    rwa [Process.buffer, pc_setPc_self]
  · intro f member same
    have ending := inv.ending f member
    rw [same, at'] at ending
    cases ending

theorem Inv.setspecific (inv : Inv s) {c : Args} (at' : s.pc i = .setspecific c p) :
    Inv ((s.use.setValue s.tlsKey i (some p)).setPc i (.snprintf c p)) := by
  obtain ⟨done, -⟩ : s.onceTlsKey = .done ∧ s.value s.tlsKey i = none := by
    have placed := inv.placed i
    rwa [at'] at placed
  have keys : s.keys = [s.tlsKey] := by
    have keyed := inv.keyed
    rwa [Process.Keyed, done] at keyed
  refine (inv.use done).of_keep (i := i)
    ⟨rfl, rfl, rfl, fun _ _ => value_setValue_of_ne, fun _ => pc_setPc_of_ne,
      fun _ _ _ _ => rfl⟩ ?_ ?_ ⟨rfl, rfl, rfl⟩ ?_ ?_ (inv.use done).uses inv.printed
  · rw [pc_setPc_self]
    exact ⟨done, value_setValue_self⟩
  · intro key absent
    have other : key ≠ s.tlsKey := fun same => absent (by
      rw [same]
      exact keys ▸ List.mem_singleton_self _)
    change (s.use.setValue s.tlsKey i (some p)).value key i = none
    rw [value_setValue_of_key_ne other]
    exact inv.values key absent i
  · have here : (s.use.setValue s.tlsKey i (some p)).value s.tlsKey i = some p :=
      value_setValue_self
    have before : s.use.pc i = .setspecific c p := at'
    rw [Process.buffer, Process.buffer, pc_setPc_self, before]
    exact here
  · rw [pc_setPc_self]
    have before : s.use.pc i = .setspecific c p := at'
    rw [before]
    exact id

/-- The buffer of another thread is not at `p` if thread `i` holds that. -/
theorem Inv.bytes_of_ne (inv : Inv s) (held : s.buffer i = some p) (bytes : List Char) (j : ι)
    (other : j ≠ i) (q : Int) (set : s.value s.tlsKey j = some q) :
    Function.update s.bytes p bytes q = s.bytes q := by
  refine Function.update_of_ne (fun same => other ?_) ..
  exact inv.holding.apart j i p (inv.buffer_of_value (same ▸ set)) held

theorem Inv.snprintf (inv : Inv s) {c : Args} (at' : s.pc i = .snprintf c p) :
    Inv { s.setPc i (.returned c p) with
      heap := s.heap.use p
      bytes := Function.update s.bytes p
        (Alnp.snprintf lenSumStr (decimal c.sum) (s.bytes p)) } := by
  obtain ⟨done, set⟩ : s.onceTlsKey = .done ∧ s.value s.tlsKey i = some p := by
    have placed := inv.placed i
    rwa [at'] at placed
  have held := inv.buffer_of_value set
  refine inv.of_keep (i := i)
    ⟨rfl, rfl, rfl, fun _ _ _ => rfl, fun _ => pc_setPc_of_ne, inv.bytes_of_ne held _⟩ ?_
    (fun key absent => inv.values key absent i) ⟨inv.holding.use_of_holds held, rfl, rfl⟩ ?_ ?_
    inv.uses inv.printed
  · rw [pc_setPc_self]
    refine ⟨done, set, ?_⟩
    dsimp only
    rw [Function.update_self]
    exact cString_snprintf c.fits (by decide) _
  · rw [Process.buffer, Process.buffer, pc_setPc_self, at']
    rfl
  · rw [pc_setPc_self, at']
    exact id

theorem Inv.print (inv : Inv s) {c : Args} (at' : s.pc i = .returned c p) :
    Inv { s with
      heap := s.heap.use p, printed := s.printed ++ [(c, cString (s.bytes p))] } := by
  have placed := inv.placed i
  rw [at'] at placed
  obtain ⟨done, set, text⟩ := placed
  have same := inv.holding.use_of_holds (inv.buffer_of_value set)
  refine ⟨inv.placed, inv.keyed, inv.values, ?_, inv.ending, inv.uses, ?_⟩
  · rw [same]
    exact inv.holding
  · refine List.forall_mem_append.mpr ⟨inv.printed, fun l member => ?_⟩
    rw [List.mem_singleton.mp member]
    exact text

/-! ## The end of a thread -/

/-- There is no other key. -/
theorem Inv.key_eq (inv : Inv s) {key : Nat} (member : key ∈ s.keys) : key = s.tlsKey := by
  have keyed := inv.keyed
  unfold Process.Keyed at keyed
  cases once : s.onceTlsKey with
  | init =>
      rw [once] at keyed
      cases keyed ▸ member
  | running k =>
      rw [once] at keyed
      rcases keyed with none | one
      · cases none ▸ member
      · exact List.mem_singleton.mp (one ▸ member)
  | done =>
      rw [once] at keyed
      exact List.mem_singleton.mp (keyed ▸ member)

theorem Inv.destroy (inv : Inv s) {key : Nat} (at' : s.pc i = .exiting) (member : key ∈ s.keys)
    (set : s.value key i = some p) :
    Inv ((s.setValue key i none).setPc i (.destroyTls p)) := by
  have same := inv.key_eq member
  subst same
  refine inv.of_keep (i := i)
    ⟨rfl, rfl, rfl, fun _ _ => value_setValue_of_ne, fun _ => pc_setPc_of_ne,
      fun _ _ _ _ => rfl⟩ ?_ ?_ ⟨rfl, rfl, rfl⟩ ?_ ?_ inv.uses inv.printed
  · rw [pc_setPc_self]
    exact value_setValue_self
  · intro k absent
    change (s.setValue s.tlsKey i none).value k i = none
    rw [value_setValue_of_key_ne fun same : k = s.tlsKey => absent (same ▸ member)]
    exact inv.values k absent i
  · rw [Process.buffer, Process.buffer, pc_setPc_self, at']
    exact set.symm
  · exact fun _ => pc_setPc_self (s := s.setValue s.tlsKey i none) ▸ trivial

theorem Inv.free (inv : Inv s) (at' : s.pc i = .destroyTls p) (bytes : List Char) :
    Inv { s.setPc i .exiting with
      heap := s.heap.close p
      bytes := Function.update s.bytes p bytes
      frees := s.frees ++ [(i, p)] } := by
  have unset : s.value s.tlsKey i = none := by
    have placed := inv.placed i
    rwa [at'] at placed
  have held : s.buffer i = some p := by
    rw [Process.buffer, at']
    rfl
  refine inv.of_frame (i := i)
    ⟨rfl, rfl, rfl, fun _ _ _ => rfl, fun _ => pc_setPc_of_ne, inv.bytes_of_ne held _⟩ ?_
    (fun key absent => inv.values key absent i) ?_ ?_ ?_ inv.uses inv.printed
  · rw [pc_setPc_self]
    trivial
  · have given := inv.holding.close held
    rw [Process.buffer, pc_setPc_self]
    exact unset ▸ given
  · intro f member other
    rcases List.mem_append.mp member with old | new
    · exact old
    · rw [List.mem_singleton.mp new] at other
      exact absurd rfl other
  · intro f member same
    rw [pc_setPc_self]
    trivial

theorem Inv.step (inv : Inv s) (step : ProcessStep s s') : Inv s' := by
  cases step with
  | call i c outside =>
      have outside := At.Outside.of_or _ outside
      refine inv.of_setPc trivial ?_ fun ending => absurd ending outside.not_ending
      exact (outside.buffer _).symm
  | onceRun i c at' init => exact inv.onceRun at' init
  | keyCreate i c key at' fresh => exact inv.keyCreate at' key
  | onceDone i c at' => exact inv.onceDone at'
  | oncePass i c at' done =>
      refine inv.of_setPc done ?_ ?_
      · rw [at']
        rfl
      · rw [at']
        exact id
  | getspecific i c at' => exact inv.getspecific at'
  | malloc i c p bytes at' fresh => exact inv.malloc at' fresh bytes
  | setspecific i c p at' => exact inv.setspecific at'
  | snprintf i c p at' => exact inv.snprintf at'
  | print i c p at' => exact inv.print at'
  | exit i outside =>
      have outside := At.Outside.of_or _ outside
      refine inv.of_setPc trivial ?_ fun ending => absurd ending outside.not_ending
      exact (outside.buffer _).symm
  | destroy i key p at' member set => exact inv.destroy at' member set
  | free i p bytes at' => exact inv.free at' bytes
  | ended i at' cleared =>
      refine inv.of_setPc ?_ ?_ fun _ => trivial
      · by_cases member : s.tlsKey ∈ s.keys
        · exact cleared s.tlsKey member
        · exact inv.values s.tlsKey member i
      · rw [at']
        rfl

theorem inv_of_reachable (reached : (machine ι).Reachable s) : Inv s := by
  refine reached.invariant ?_ fun s t _ inv step => inv.step step
  rintro s ⟨bytes, rfl⟩
  refine ⟨fun _ => trivial, rfl, fun _ _ _ => rfl, ?_, ?_, ?_, ?_⟩
  · exact .empty
  all_goals nofun

/-! ## Each thread has its own result -/

structure Separate (s : Process ι) : Prop where
  /-- The key is created at most once, ... -/
  keys : s.keys.length ≤ 1
  /-- ... and before it is used. -/
  uses : ∀ u ∈ s.uses, u.2 = [u.1]
  /-- The string that a call has returned is that of its own sum. -/
  returned : ∀ i c p, s.pc i = .returned c p →
    s.buffer i = some p ∧ cString (s.bytes p) = decimal c.sum
  printed : ∀ l ∈ s.printed, l.2 = decimal l.1.sum
  /-- No two threads have the same buffer. -/
  apart : ∀ i j p, s.buffer i = some p → s.buffer j = some p → i = j
  /-- A buffer is freed once, ... -/
  freed : ∀ i p, s.mallocs.count (i, p) =
    s.frees.count (i, p) + if s.buffer i = some p then 1 else 0
  /-- ... at the end of its thread, ... -/
  ending : ∀ f ∈ s.frees, (s.pc f.1).Ending
  ended : ∀ i, s.pc i = .ended → s.buffer i = none
  /-- ... and not used afterwards. -/
  misused : s.heap.misused = 0

/-- **Per-thread results.**  Whatever the other threads do, the string returned by a call of
`sum_strnum` is the decimal representation of its sum until the thread calls again or ends. -/
theorem separate_of_reachable (reached : (machine ι).Reachable s) : Separate s := by
  have inv := inv_of_reachable reached
  have holding := inv.holding
  refine ⟨?_, inv.uses, fun i c p at' => ?_, inv.printed, holding.apart, holding.balance,
    inv.ending, fun i at' => ?_, holding.misused⟩
  · have keyed := inv.keyed
    unfold Process.Keyed at keyed
    split at keyed
    · simp [keyed]
    · rcases keyed with none | one
      · simp [none]
      · simp [one]
    · simp [keyed]
  · have placed := inv.placed i
    rw [at'] at placed
    exact ⟨inv.buffer_of_value placed.2.1, placed.2.2⟩
  · have placed := inv.placed i
    rw [at'] at placed
    rw [Process.buffer, at']
    exact placed

/-- `sum_strnum("1", "3")` -/
def oneThree : Args := ⟨['1'], ['3'], by unfold FitsInt; decide⟩

/-- The first thread to call has its result while another one waits in `pthread_once`. -/
theorem separate_called : ∃ s : Process Nat, (machine Nat).Reachable s ∧
    s.pc 0 = .returned oneThree 64 ∧ s.pc 1 = .once oneThree ∧ Separate s := by
  have start := Machine.Reachable.of_init (M := machine Nat) ⟨fun _ => [], rfl⟩
  have first := start.tail (.call _ 0 oneThree (.inl rfl))
  have second := first.tail (.call _ 1 oneThree (.inl rfl))
  have running := second.tail (.onceRun _ 0 oneThree rfl rfl)
  have created := running.tail (.keyCreate _ 0 oneThree 5 rfl (List.not_mem_nil))
  have done := created.tail (.onceDone _ 0 oneThree rfl)
  have unset := done.tail (.getspecific _ 0 oneThree rfl)
  have taken := unset.tail (.malloc _ 0 oneThree 64 [] rfl (by decide))
  have stored := taken.tail (.setspecific _ 0 oneThree 64 rfl)
  have returned := stored.tail (.snprintf _ 0 oneThree 64 rfl)
  exact ⟨_, returned, rfl, rfl, separate_of_reachable returned⟩

end Alnp.SumStrnumTls
