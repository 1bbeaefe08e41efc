import Alnp.Kernel.Stdio
import Alnp.Shm.Loops

/-!
# Where the three loops store

An input of the loops of `Chapter05/mmap_ran.c`, `posix_shm.c` and `sysv_shm.c` is as long as the
buffer of `fgets` or as any line is; the area that it is copied to has a size of its own.

`stays_iff`: which inputs stay inside the area.
-/

namespace Alnp.ShmLoop

variable {decode : List Char → Action} {inputs : List (List Char)} {area : List Char}

/-- The input is none of the commands. -/
def IsText (decode : List Char → Action) (input : List Char) : Prop :=
  ∃ bytes, decode input = .store bytes

/-- The loop stays inside an area exactly if the texts do, up to the input that ends it. -/
theorem within_run_iff_of_length {n : Nat} {size : List Char → Nat}
    (length : ∀ input bytes, decode input = .store bytes → bytes.length = size input) :
    (run decode inputs area).Within n ↔
      ∀ input ∈ executed decode inputs, IsText decode input → size input ≤ n := by
  rw [within_run_iff]
  constructor
  · rintro fits input member ⟨bytes, stored⟩
    rw [← length input bytes stored]
    exact fits bytes (mem_stores.mpr ⟨input, member, stored⟩)
  · intro fits bytes member
    obtain ⟨input, member, stored⟩ := mem_stores.mp member
    rw [length input bytes stored]
    exact fits input member ⟨bytes, stored⟩

/-! ## The number of bytes that each program copies -/

theorem MmapRan.length_store (input bytes : List Char)
    (stored : MmapRan.decode input = .store bytes) :
    bytes.length = (cString input).length - 1 := by
  unfold MmapRan.decode at stored
  split at stored
  · cases stored
  · cases stored
    rw [cString_stripNewline, List.length_dropLast]

/-- No input ends this loop. -/
theorem MmapRan.executed_eq (inputs : List (List Char)) :
    executed MmapRan.decode inputs = inputs := by
  refine List.takeWhile_eq_self_iff.mpr fun input _ => ?_
  unfold MmapRan.decode
  split <;> rfl

theorem MmapRan.isText_iff (input : List Char) :
    IsText MmapRan.decode input ↔ input.head? ≠ some '*' := by
  unfold IsText MmapRan.decode
  split
  · next star => simp [star]
  · next other => simp [other]

theorem PosixShm.length_store (input bytes : List Char)
    (stored : PosixShm.decode input = .store bytes) :
    bytes.length = sizeT (nRead input) := by
  unfold PosixShm.decode at stored
  dsimp only at stored
  split at stored
  · cases stored
  · split at stored
    · cases stored
    · split at stored
      · cases stored
      · rw [Action.store.injEq] at stored
        rw [← stored, length_bytesOf]

theorem SysvShm.length_store (input bytes : List Char)
    (stored : SysvShm.decode input = .store bytes) :
    bytes.length = sizeT (nRead input) := by
  unfold SysvShm.decode at stored
  split at stored
  · cases stored
  · split at stored
    · cases stored
    · split at stored
      · cases stored
      · split at stored
        · cases stored
        · rw [Action.store.injEq] at stored
          rw [← stored, length_bytesOf]

/-! ## The three programs on their input -/

namespace SysvShm

/-- The program with the segments that exist: it stays inside the one that it has attached. -/
def Stays (existing : Int → Option (List Char)) (stdin : List Char) : Prop :=
  ∀ first lines shm, fileLines stdin = first :: lines → segment existing first = some shm →
    (run SysvShm.decode lines shm).Within shm.length

/-- Each text is no longer than the segment. -/
def Fits (existing : Int → Option (List Char)) (stdin : List Char) : Prop :=
  ∀ first lines shm, fileLines stdin = first :: lines → segment existing first = some shm →
    ∀ input ∈ executed SysvShm.decode lines, IsText SysvShm.decode input →
      sizeT (nRead input) ≤ shm.length

end SysvShm

/-- **Stores.**  Of whatever is put in, the three programs store inside their area exactly if, up to
the end of the loop, the string of each text of `mmap_ran.c` has at most 65 characters, and each
text of the others is no longer than the segment. -/
theorem stays_iff (stdin pMap shm : List Char) (existing : Int → Option (List Char)) :
    ((run MmapRan.decode (pieces (MmapRan.sizeofInput - 1) stdin) pMap).Within MmapRan.mmapSize ↔
        ∀ piece ∈ pieces (MmapRan.sizeofInput - 1) stdin, piece.head? ≠ some '*' →
          (cString piece).length ≤ 65) ∧
      ((run PosixShm.decode (fileLines stdin) shm).Within SysvShm.szShmSegment ↔
        ∀ line ∈ executed PosixShm.decode (fileLines stdin), IsText PosixShm.decode line →
          sizeT (nRead line) ≤ 4096) ∧
      (SysvShm.Stays existing stdin ↔ SysvShm.Fits existing stdin) := by
  refine ⟨?_, ?_, ?_⟩
  · rw [within_run_iff_of_length MmapRan.length_store, MmapRan.executed_eq]
    refine forall₂_congr fun piece _ => imp_congr (MmapRan.isText_iff piece) ?_
    unfold MmapRan.mmapSize
    omega
  · exact within_run_iff_of_length PosixShm.length_store
  · unfold SysvShm.Stays SysvShm.Fits
    refine forall₃_congr fun first lines shm => forall₂_congr fun _ _ => ?_
    exact within_run_iff_of_length SysvShm.length_store

/-! ## Inputs that are too long -/

/-- An ordinary line is copied by `posix_shm.c`. -/
theorem PosixShm.stores_line {text : List Char} (absent : nul ∉ text ++ ['\n'])
    (ordinary : ∃ c, text.head? = some c ∧ c ≠ '.' ∧ c ≠ '*')
    (short : (text ++ ['\n']).length < 2147483648) :
    stores PosixShm.decode [text ++ ['\n']] = [text ++ [nul]] := by
  obtain ⟨c, first, noDot, noStar⟩ := ordinary
  have read : nRead (text ++ ['\n']) ≠ -1 := by
    rw [nRead_of_lt short]
    omega
  have head : (text ++ [nul, nul]).head? = some c := by
    rw [List.head?_append, first, Option.some_or]
  have copied : bytesOf (text ++ [nul, nul]) (sizeT (nRead (text ++ ['\n']))) = text ++ [nul] := by
    rw [sizeT_nRead short, bytesOf_of_le (by simp), List.length_append, List.length_singleton,
      List.take_length_add_append]
    rfl
  have stored : PosixShm.decode (text ++ ['\n']) = .store (text ++ [nul]) := by
    unfold PosixShm.decode
    rw [stripNewline_line absent]
    dsimp only
    rw [if_neg read, head, if_neg (by simpa using noDot), if_neg (by simpa using noStar), copied]
  rw [stores, stored]
  rfl

/-- A line of `posix_shm.c` that fills the segment leaves no room for its NUL. -/
theorem PosixShm.not_within_line {text : List Char} (plain : ∀ c ∈ text, c = 'a')
    (full : text.length = SysvShm.szShmSegment) (shm : List Char) :
    ¬ (run PosixShm.decode (fileLines (text ++ ['\n'])) shm).Within SysvShm.szShmSegment := by
  intro within
  rw [fileLines_line fun member => absurd (plain _ member) (by decide)] at within
  have noNul : nul ∉ text ++ ['\n'] := by
    intro member
    rcases List.mem_append.mp member with inside | last
    · exact absurd (plain _ inside) (by decide)
    · exact absurd (List.mem_singleton.mp last) (by decide)
  have ordinary : ∃ c, text.head? = some c ∧ c ≠ '.' ∧ c ≠ '*' := by
    cases text with
    | nil => cases full
    | cons c text =>
        have same : c = 'a' := plain c List.mem_cons_self
        rw [same]
        exact ⟨'a', rfl, by decide, by decide⟩
  have short : (text ++ ['\n']).length < 2147483648 := by
    rw [List.length_append, full]
    decide
  have fits := (within_run_iff _).mp within
  rw [PosixShm.stores_line noNul ordinary short] at fits
  have small := fits (text ++ [nul]) (List.mem_singleton_self _)
  rw [List.length_append, full] at small
  exact absurd small (by decide)

/-- 65 characters with their newline for `mmap_ran.c`, 4097 for `posix_shm.c`, and three for
`sysv_shm.c` with a segment of one byte. -/
theorem not_forall_stays :
    (¬ ∀ stdin pMap : List Char,
      (run MmapRan.decode (pieces (MmapRan.sizeofInput - 1) stdin) pMap).Within MmapRan.mmapSize) ∧
      (¬ ∀ stdin shm : List Char,
        (run PosixShm.decode (fileLines stdin) shm).Within SysvShm.szShmSegment) ∧
      ¬ ∀ (existing : Int → Option (List Char)) (stdin : List Char),
        SysvShm.Stays existing stdin := by
  refine ⟨fun always => ?_, fun always => ?_, fun always => ?_⟩
  · let text : List Char := List.replicate 65 'a'
    have line : IsLine (text ++ ['\n']) [] := ⟨by decide, .inr rfl⟩
    have piece : pieces (MmapRan.sizeofInput - 1) (text ++ ['\n']) = [text ++ ['\n']] := by
      rw [pieces_line (by decide) line (by decide)]
      exact congrArg ((text ++ ['\n']) :: ·) (pieces_nil _)
    have within := always (text ++ ['\n']) []
    rw [piece] at within
    have fits := (within_run_iff _).mp within text (by decide)
    exact absurd fits (by decide)
  · let text : List Char := List.replicate 4096 'a'
    have plain : ∀ c ∈ text, c = 'a' := fun c => List.eq_of_mem_replicate
    exact PosixShm.not_within_line plain List.length_replicate [] (always (text ++ ['\n']) [])
  · have within := always (fun _ => some ['x']) ['1', '\n', 'a', 'b', '\n'] ['1', '\n']
      [['a', 'b', '\n']] ['x'] rfl rfl
    have fits := (within_run_iff _).mp within ['a', 'b', '\n'] (by decide)
    exact absurd fits (by decide)

end Alnp.ShmLoop
