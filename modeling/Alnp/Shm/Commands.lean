import Alnp.Kernel.CString
import Alnp.Lib.Buffer
import Alnp.Shm.PosixShm

/-!
# The command loop of `posix_shm.c`

The loop of `main` in `Chapter05/posix_shm.c` with the bytes it moves: an input replaces the
beginning of the segment, with a NUL in the place of its newline, and `*` prints the segment up to
its first NUL.

`shown_of_run`: what is printed is the last text, whatever the segment held before.
-/

namespace Alnp

/-- `p[strlen(p) - 1] = '\0'` -/
def stripNewline (p : List Char) : Access (List Char) :=
  Buffer.store (((cString p).length : Int) - 1) nul p

/-- `printf("%.*s", precision, p)` -/
def printedString (precision : Nat) (p : List Char) : List Char :=
  cString (p.take precision)

/-- The buffer of `getline`, or of `fgets`, that has read a line. -/
def lineBuffer (line : List Char) : List Char := line ++ [nul]

/-- A line without NUL loses its last character. -/
theorem stripNewline_line {text : List Char} {newline : Char}
    (none : nul ∉ text ++ [newline]) :
    stripNewline (lineBuffer (text ++ [newline])) =
      ⟨text ++ [nul, nul], [(text.length : Int)]⟩ := by
  have whole : cString (lineBuffer (text ++ [newline])) = text ++ [newline] :=
    cString_append_nul none []
  have last : (((text ++ [newline]).length : Int) - 1) = (text.length : Nat) := by
    rw [List.length_append, List.length_singleton]
    omega
  rw [stripNewline, whole, last]
  simp [Buffer.store, lineBuffer, List.set_append_right]

/-- A string with its NUL is printed whole, if the precision allows it. -/
theorem printedString_of_nul {text rest : List Char} {precision : Nat} (none : nul ∉ text)
    (fits : text.length + 1 ≤ precision) :
    printedString precision (text ++ nul :: rest) = text := by
  have kept : (text ++ nul :: rest).take precision =
      text ++ nul :: rest.take (precision - text.length - 1) := by
    obtain ⟨k, rfl⟩ : ∃ k, precision = text.length + (k + 1) :=
      ⟨precision - text.length - 1, by omega⟩
    rw [List.take_length_add_append, List.take_succ_cons]
    congr 3
    omega
  rw [printedString, kept]
  exact cString_append_nul none _

namespace ShmCommands

open PosixShm (szShmSegment)

/-- What a command does. -/
inductive Outcome
  /-- `.` -/
  | leave
  /-- `*` -/
  | shown (printed : List Char)
  | stored (shm : List Char)
  deriving DecidableEq

/-- The body of the loop behind a `getline` that has read `line`, with the bytes of the segment it
stores to. -/
def command (line shm : List Char) : Access Outcome :=
  let nRead := line.length
  let pInput := (stripNewline (lineBuffer line)).value
  if pInput.head? = some '.' then pure .leave
  else if pInput.head? = some '*' then pure (.shown (printedString szShmSegment shm))
  else do
    let shm ← Buffer.copy (pInput.take nRead) shm
    pure (.stored shm)

/-- The loop over some lines: the segment in front of the next `getline`, or nothing if the loop
has been left. -/
def run : List (List Char) → List Char → Access (Option (List Char))
  | [], shm => pure (some shm)
  | line :: lines, shm => do
      match ← command line shm with
      | .leave => pure none
      | .shown _ => run lines shm
      | .stored shm => run lines shm

/-! ## Inputs -/

/-- A line without NUL, with its newline no longer than the segment. -/
structure Input where
  text : List Char
  noNul : nul ∉ text
  short : text.length + 1 ≤ szShmSegment

/-- What `getline` reads. -/
def Input.line (input : Input) : List Char := input.text ++ ['\n']

/-- `*` and anything behind it. -/
def Input.IsStar (input : Input) : Prop := input.text.head? = some '*'

/-- A text to be stored. -/
def Input.IsText (input : Input) : Prop :=
  input.text.head? ≠ some '.' ∧ input.text.head? ≠ some '*'

instance (input : Input) : Decidable input.IsText :=
  inferInstanceAs (Decidable (_ ∧ _))

/-- The most recent text, `last` before the first input. -/
def recent (last : Option (List Char)) (inputs : List Input) : Option (List Char) :=
  inputs.foldl (fun last input => if input.IsText then some input.text else last) last

/-! ## One command -/

variable {input : Input} {shm : List Char}

theorem strip_line (input : Input) :
    (stripNewline (lineBuffer input.line)).value = input.text ++ [nul, nul] := by
  have none : nul ∉ input.text ++ ['\n'] := by
    rw [List.mem_append, not_or]
    exact ⟨input.noNul, by decide⟩
  rw [Input.line, stripNewline_line none]

/-- The first character that the program looks at is that of the text. -/
theorem head_strip (input : Input) {c : Char} (other : c ≠ nul) :
    (input.text ++ [nul, nul]).head? = some c ↔ input.text.head? = some c := by
  cases input.text with
  | nil => simp [other.symm]
  | cons d text => simp

theorem command_star (star : input.IsStar) :
    command input.line shm = pure (.shown (printedString szShmSegment shm)) := by
  have noDot : ¬ (input.text ++ [nul, nul]).head? = some '.' := by
    rw [head_strip input (by decide), star]
    decide
  have here := (head_strip input (by decide)).mpr star
  rw [command, strip_line]
  rw [if_neg noDot, if_pos here]

theorem command_text (isText : input.IsText) :
    command input.line shm =
      Buffer.copy (input.text ++ [nul]) shm >>= fun shm => pure (.stored shm) := by
  have noDot := mt (head_strip input (by decide)).mp isText.1
  have noStar := mt (head_strip input (by decide)).mp isText.2
  have cut : (input.text ++ [nul, nul]).take input.line.length = input.text ++ [nul] := by
    rw [Input.line, List.length_append, List.length_singleton, List.take_length_add_append]
    rfl
  rw [command, strip_line]
  rw [if_neg noDot, if_neg noStar, cut]

theorem command_dot (dot : input.text.head? = some '.') :
    command input.line shm = pure .leave := by
  rw [command, strip_line]
  rw [if_pos ((head_strip input (by decide)).mpr dot)]

/-! ## Any inputs -/

/-- The segment has its size and begins with the most recent text and its NUL. -/
structure Holds (last : Option (List Char)) (shm : List Char) : Prop where
  size : shm.length = szShmSegment
  last : ∀ text, last = some text → nul ∉ text ∧ ∃ rest, shm = text ++ nul :: rest

variable {last : Option (List Char)} {shm' : List Char}

theorem copy_text (input : Input) (holds : Holds last shm) :
    Holds (some input.text) (Buffer.copy (input.text ++ [nul]) shm).value := by
  have fits : (input.text ++ [nul]).length ≤ shm.length := by
    rw [holds.size, List.length_append, List.length_singleton]
    exact input.short
  refine ⟨Buffer.length_copy.trans holds.size, ?_⟩
  intro text same
  cases same
  refine ⟨input.noNul, shm.drop (input.text ++ [nul]).length, ?_⟩
  rw [Buffer.value_copy fits, List.append_assoc]
  rfl

/-- The loop keeps the most recent text, and stores to the segment only. -/
theorem Holds.run (inputs : List Input) (holds : Holds last shm) :
    (run (inputs.map Input.line) shm).Within szShmSegment ∧
      ∀ shm', (run (inputs.map Input.line) shm).value = some shm' →
        Holds (recent last inputs) shm' := by
  induction inputs generalizing last shm with
  | nil =>
      refine ⟨Access.within_pure _, fun shm' same => ?_⟩
      cases same
      exact holds
  | cons input inputs ih =>
      rw [List.map_cons, ShmCommands.run]
      by_cases isText : input.IsText
      · rw [command_text isText]
        have next := ih (copy_text input holds)
        have stays : (input.text ++ [nul]).length ≤ szShmSegment := by
          rw [List.length_append, List.length_singleton]
          exact input.short
        have kept : recent last (input :: inputs) = recent (some input.text) inputs := by
          rw [recent, List.foldl_cons, if_pos isText, recent]
        rw [kept]
        refine ⟨?_, next.2⟩
        exact Access.within_bind.mpr ⟨Access.within_bind.mpr
          ⟨(Buffer.within_copy _).mpr stays, Access.within_pure _⟩, next.1⟩
      · have kept : recent last (input :: inputs) = recent last inputs := by
          rw [recent, List.foldl_cons, if_neg isText, recent]
        rw [kept]
        by_cases dot : input.text.head? = some '.'
        · rw [command_dot dot]
          exact ⟨Access.within_pure _, nofun⟩
        · have star : input.IsStar := by
            by_contra other
            exact isText ⟨dot, other⟩
          rw [command_star star]
          exact ih holds

/-- **Write, then show.**  Whatever the segment held and whatever has been put in, `*` prints the
most recent text, and no byte outside the segment has been stored to. -/
theorem shown_of_run (content : Vector Char szShmSegment) (inputs : List Input) :
    (run (inputs.map Input.line) content.toList).Within szShmSegment ∧
      ∀ shm, (run (inputs.map Input.line) content.toList).value = some shm →
        ∀ text, recent none inputs = some text →
          ∀ star : Input, star.IsStar → (command star.line shm).value = .shown text := by
  have start : Holds none content.toList := ⟨by simp, nofun⟩
  have ran := start.run inputs
  refine ⟨ran.1, ?_⟩
  intro shm reached text isLast star isStar
  obtain ⟨size, held⟩ := ran.2 shm reached
  obtain ⟨none, rest, rfl⟩ := held text isLast
  have fits : text.length + 1 ≤ szShmSegment := by
    rw [← size, List.length_append, List.length_cons]
    omega
  rw [command_star isStar, printedString_of_nul none fits]
  rfl

/-- A longer text, a shorter one over it, and the second is shown. -/
theorem shown_second :
    ∃ shm, (run [['f', 'i', 'r', 's', 't', '\n'], ['a', '\n']]
        (Vector.replicate szShmSegment 'x').toList).value = some shm ∧
      (command ['*', '\n'] shm).value = .shown ['a'] := by
  let first : Input := ⟨['f', 'i', 'r', 's', 't'], by decide, by decide⟩
  let second : Input := ⟨['a'], by decide, by decide⟩
  exact ⟨_, rfl,
    (shown_of_run (Vector.replicate szShmSegment 'x') [first, second]).2 _ rfl ['a'] rfl
      ⟨['*'], by decide, by decide⟩ rfl⟩

end ShmCommands

end Alnp
