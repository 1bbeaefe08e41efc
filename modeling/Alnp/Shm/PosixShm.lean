import Mathlib.Data.Int.Order.Basic
import Mathlib.Logic.Function.Basic
import Alnp.Lib.Machine

/-!
# The processes of `posix_shm.c`

Any number of processes of `Chapter05/posix_shm.c` create the object with the program's name or open
the one that is there, map it, and then print it or copy a line into it as they are told; in the end
they may remove the name.  The process that has created an object gives it its length in a step of
its own, and the others do not wait for that.

An object lasts as long as it is mapped, also without its name.  A process creates at most one, so
objects are named by the processes that have created them.
-/

namespace Alnp.PosixShm

def szShmSegment : Nat := 4096

/-- Where a process is. -/
inductive At (ι : Type)
  /-- at `shm_open` with `O_CREAT | O_EXCL` -/
  | shmOpenExcl
  /-- at `shm_open` in the other branch -/
  | shmOpen
  | ftruncate
  /-- at `mmap`, with the object of its descriptor -/
  | mmap (o : ι)
  /-- at the prompt, with the object mapped -/
  | prompt (o : ι)
  /-- at the question whether to remove the object -/
  | remove
  | exited
  /-- ended by an access outside the object -/
  | killed

/-- A use of a mapping: the object with its length, and the number of bytes from its beginning. -/
structure Access (ι : Type) where
  object : ι
  size : Nat
  extent : Nat

structure System (ι : Type) where
  /-- the length of the object that a process has created -/
  size : ι → Option Nat
  /-- the object with the name -/
  name : Option ι
  pc : ι → At ι
  /-- The processes that have called `ftruncate`. -/
  truncated : List ι
  accesses : List (Access ι)

variable {ι : Type} [DecidableEq ι]

def System.set (s : System ι) (i : ι) (pc : At ι) : System ι :=
  { s with pc := Function.update s.pc i pc }

/-- Process `i` uses the first `extent` bytes of its mapping, which has to lie inside the object. -/
def System.access (s : System ι) (i o : ι) (size extent : Nat) : System ι :=
  { s.set i (if extent ≤ size then .prompt o else .killed) with
    accesses := s.accesses ++ [⟨o, size, extent⟩] }

inductive SystemStep : System ι → System ι → Prop
  /-- The object is created.  The descriptor has to be greater than 0; where it is not, `errno` is
  not `EEXIST`. -/
  | create (s : System ι) (i : ι) (shmFd : Int) :
      s.pc i = .shmOpenExcl → s.name = none → 0 ≤ shmFd →
      SystemStep s
        { s.set i (if shmFd > 0 then .ftruncate else .exited) with
          size := Function.update s.size i (some 0), name := some i }
  | exists (s : System ι) (i : ι) :
      s.pc i = .shmOpenExcl → s.name ≠ none → SystemStep s (s.set i .shmOpen)
  | shmOpen (s : System ι) (i o : ι) :
      s.pc i = .shmOpen → s.name = some o → SystemStep s (s.set i (.mmap o))
  /-- The name has been removed since. -/
  | shmOpenFails (s : System ι) (i : ι) :
      s.pc i = .shmOpen → s.name = none → SystemStep s (s.set i .exited)
  | ftruncate (s : System ι) (i : ι) :
      s.pc i = .ftruncate →
      SystemStep s
        { s.set i (.mmap i) with
          size := Function.update s.size i (some szShmSegment)
          truncated := s.truncated ++ [i] }
  | mmap (s : System ι) (i o : ι) :
      s.pc i = .mmap o → SystemStep s (s.set i (.prompt o))
  /-- `*`: `printf` reads up to the first zero byte, but no more than `SZ_SHM_SEGMENT` bytes. -/
  | print (s : System ι) (i o : ι) (size n : Nat) :
      s.pc i = .prompt o → s.size o = some size → 1 ≤ n → n ≤ szShmSegment →
      SystemStep s (s.access i o size n)
  /-- `memcpy` of a line of `n_read` bytes. -/
  | memcpy (s : System ι) (i o : ι) (size nRead : Nat) :
      s.pc i = .prompt o → s.size o = some size → 1 ≤ nRead →
      SystemStep s (s.access i o size nRead)
  /-- `.` -/
  | leave (s : System ι) (i o : ι) :
      s.pc i = .prompt o → SystemStep s (s.set i .remove)
  /-- `getline` has come to the end of the input. -/
  | eof (s : System ι) (i o : ι) :
      s.pc i = .prompt o → SystemStep s (s.set i .exited)
  | unlink (s : System ι) (i : ι) :
      s.pc i = .remove → SystemStep s { s.set i .exited with name := none }
  | keep (s : System ι) (i : ι) :
      s.pc i = .remove → SystemStep s (s.set i .exited)

/-- Nothing has been started, and there is no object. -/
def System.start : System ι := ⟨fun _ => none, none, fun _ => .shmOpenExcl, [], []⟩

def machine (ι : Type) [DecidableEq ι] : Machine (System ι) where
  init s := s = .start
  step := SystemStep

/-! ## The length of an object -/

variable {s t : System ι} {i j o : ι} {pc : At ι}

/-- An object has its full length from the call of `ftruncate` by its creator on. -/
structure Sized (s : System ι) : Prop where
  size : ∀ o n, s.size o = some n → n = if o ∈ s.truncated then szShmSegment else 0
  fresh : ∀ i, s.pc i = .shmOpenExcl → i ∉ s.truncated

theorem fresh_set (sized : Sized s) (moved : pc ≠ .shmOpenExcl) (j : ι)
    (at' : (s.set i pc).pc j = .shmOpenExcl) : j ∉ s.truncated := by
  refine (Function.forall_update_iff s.pc fun j pc => pc = .shmOpenExcl → j ∉ s.truncated).mpr
    ⟨fun at' => absurd at' moved, fun j _ => sized.fresh j⟩ j at'

theorem Sized.set (sized : Sized s) (moved : pc ≠ .shmOpenExcl) : Sized (s.set i pc) :=
  ⟨sized.size, fresh_set sized moved⟩

theorem Sized.access (sized : Sized s) (size extent : Nat) : Sized (s.access i o size extent) := by
  refine ⟨sized.size, fresh_set sized ?_⟩
  split
  · nofun
  · nofun

theorem Sized.step (sized : Sized s) (step : SystemStep s t) : Sized t := by
  cases step with
  | create i shmFd at' none fd =>
      refine ⟨?_, fresh_set sized ?_⟩
      · refine (Function.forall_update_iff s.size fun o size => ∀ n, size = some n →
          n = if o ∈ s.truncated then szShmSegment else 0).mpr ⟨?_, fun o _ => sized.size o⟩
        intro n out
        cases out
        exact (if_neg (sized.fresh i at')).symm
      · split
        · nofun
        · nofun
  | ftruncate i at' =>
      refine ⟨?_, fun j at'' => ?_⟩
      · refine (Function.forall_update_iff s.size fun o size => ∀ n, size = some n →
          n = if o ∈ s.truncated ++ [i] then szShmSegment else 0).mpr ⟨?_, fun o other => ?_⟩
        · intro n out
          cases out
          exact (if_pos (List.mem_append_right _ (List.mem_singleton_self i))).symm
        · have kept : o ∈ s.truncated ++ [i] ↔ o ∈ s.truncated := by simp [other]
          simp only [kept]
          exact sized.size o
      · have fresh := fresh_set sized (fun moved : At.mmap i = .shmOpenExcl => nomatch moved) j at''
        have other : j ≠ i := by
          intro same
          subst same
          have here : (s.set j (.mmap j)).pc j = .mmap j := Function.update_self ..
          cases here.symm.trans at''
        simp [fresh, other]
  | «exists» i => exact sized.set nofun
  | shmOpen i o => exact sized.set nofun
  | shmOpenFails i => exact sized.set nofun
  | mmap i o => exact sized.set nofun
  | print i o size n => exact sized.access size n
  | memcpy i o size nRead => exact sized.access size nRead
  | leave i o => exact sized.set nofun
  | eof i o => exact sized.set nofun
  | unlink i => exact ⟨sized.size, fresh_set sized nofun⟩
  | keep i => exact sized.set nofun

theorem sized_of_reachable (reached : (machine ι).Reachable s) : Sized s := by
  refine reached.invariant ?_ fun s t _ sized step => sized.step step
  intro s start
  subst start
  exact ⟨fun _ _ out => (by cases out), fun _ _ => List.not_mem_nil⟩

/-- The object is as long as the mapping, and the access stays inside it. -/
def Access.Within (a : Access ι) : Prop := szShmSegment ≤ a.size ∧ a.extent ≤ a.size

/-- Every use of a mapping comes after the creator of the object has called `ftruncate`, and takes
no more than `SZ_SHM_SEGMENT` bytes. -/
def afterFtruncate : System ι → System ι → Prop :=
  Machine.Logs System.accesses fun s a => a.object ∈ s.truncated ∧ a.extent ≤ szShmSegment

theorem accesses_step (step : SystemStep s t) :
    t.accesses = s.accesses ∨
      ∃ a, t.accesses = s.accesses ++ [a] ∧ s.size a.object = some a.size := by
  cases step with
  | create | «exists» | shmOpen | shmOpenFails | ftruncate | mmap | leave | eof | unlink | keep =>
      exact .inl rfl
  | print i o size n at' out | memcpy i o size n at' out => exact .inr ⟨⟨o, size, n⟩, rfl, out⟩

theorem within_iff_guarded (reached : (machine ι).Reachable s) :
    (∀ a ∈ s.accesses, a.Within) ↔ ((machine ι).guarded afterFtruncate).Reachable s := by
  refine reached.log_iff ?_ fun s t before step => ?_
  · intro s start
    rw [start]
    rfl
  · rcases accesses_step step with same | ⟨a, added, out⟩
    · exact .inl same
    · have size := (sized_of_reachable before).size a.object a.size out
      refine .inr ⟨a, added, ?_⟩
      unfold Access.Within
      split at size
      · rename_i truncated
        rw [size]
        exact ⟨fun within => ⟨truncated, within.2⟩, fun cond => ⟨Nat.le_refl _, cond.2⟩⟩
      · rename_i early
        rw [size]
        exact iff_of_false (fun within => absurd within.1 (by decide)) fun cond => early cond.1

end Alnp.PosixShm
