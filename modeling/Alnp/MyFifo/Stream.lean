import Alnp.Kernel.Stdio
import Alnp.Lib.Parts
import Alnp.Lib.Pipe
import Alnp.Lib.Post
import Alnp.Lib.Progress

/-!
# The FIFO

Any number of processes of `Chapter06/fifo_write.c`, each with its standard input, and of
`Chapter06/fifo_read.c` share the FIFO "/tmp/my_fifo".  `open` waits until somebody opens the other
end.  A writer writes every line of its input with its newline, up to the first NUL; what is not
longer than `PIPE_BUF` comes in one piece.  A reader prints what it reads, at most 255 bytes at a
time, and exits when it finds the FIFO empty with no writer.

Between that `read` and the exit, its end is still open: a writer that comes now does not wait, and
nobody will read what it writes.  `late` tells that this has happened.

* `streamed_of_reachable`: the bytes read or thrown away and those in the FIFO are the bytes
  written, in this order; those of a writer are its lines, whole if they are short; and nothing is
  thrown away as long as no writer has come late.
* `fifo_terminates`: every run ends, and if no writer has come late, everything written has been
  read by then.
-/

namespace Alnp.MyFifo

/-- `PIPE_BUF` -/
def pipeBuf : Nat := 4096

/-- How much a FIFO holds. -/
def pipeSize : Nat := 65536

/-- `sizeof(a_buf)` -/
def lenBuf : Nat := 0xFF

/-- Where a process of `fifo_write.c` is. -/
inductive Writing
  | outside
  /-- blocked in `open`, with the number of readers that had come before -/
  | waiting (rCounter : Nat)
  | getline
  /-- in `write`, in one piece or not, with this left -/
  | write (whole : Bool) (rest : List Char)
  | exited
  /-- There has been no FIFO. -/
  | failed
  /-- `SIGPIPE` has come in `write`. -/
  | killed (rest : List Char)

structure Writer where
  stdin : Stream
  pc : Writing

/-- Where a process of `fifo_read.c` is. -/
inductive Reader
  | mkfifo
  | outside
  /-- blocked in `open`, with the number of writers that had come before -/
  | waiting (wCounter : Nat)
  | read
  /-- `read` has returned 0. -/
  | leaving
  | exited

/-- Its end of the FIFO is open. -/
def Writing.holds : Writing → Bool
  | waiting _ | getline | write _ _ => true
  | _ => false

/-- Its end of the FIFO is open. -/
def Reader.holds : Reader → Bool
  | waiting _ | read | leaving => true
  | _ => false

/-- It is going to read. -/
def Reader.attends : Reader → Bool
  | waiting _ | read => true
  | _ => false

/-- What is written when these are: `write` does nothing with no bytes. -/
def solid (texts : List (List Char)) : List (List Char) :=
  texts.filter fun text => !text.isEmpty

/-- What `write(fd, p_buf, strlen(p_buf))` writes for the lines of an input. -/
def blocks (content : List Char) : List (List Char) := solid ((fileLines content).map cString)

structure System where
  /-- The FIFO is there. -/
  made : Bool
  writers : List Writer
  readers : List Reader
  /-- How many times it has been opened for reading. -/
  rCounter : Nat
  wCounter : Nat
  /-- Pieces taken by nobody have been thrown away. -/
  pipe : Pipe Nat (Option Nat) Char
  /-- A writer has come while only readers about to exit had their end open. -/
  late : Bool

/-- Some process has its end for reading open. -/
def System.read (s : System) : Bool := s.readers.any Reader.holds

def System.written (s : System) : Bool := s.writers.any fun w => w.pc.holds

/-- Nobody is going to read though somebody has the end for reading open. -/
def System.ending (s : System) : Bool := s.read && !s.readers.any Reader.attends

/-- Behind a `close`: what is in a FIFO that nobody has open is thrown away. -/
def System.closed (s : System) : System :=
  if s.read || s.written then s
  else { s with pipe := s.pipe.read none s.pipe.contents.length }

/-- The process `i` of `fifo_write.c` is now here. -/
def System.writer (s : System) (i : Nat) (w : Writer) : System :=
  { s with writers := s.writers.set i w }

/-- The process `j` of `fifo_read.c` is now here. -/
def System.reader (s : System) (j : Nat) (r : Reader) : System :=
  { s with readers := s.readers.set j r }

inductive Step : System → System → Prop
  /-- `open` fails with `ENOENT`. -/
  | fail (s : System) (i : Nat) (stdin : Stream) :
      s.writers[i]? = some ⟨stdin, .outside⟩ → s.made = false →
      Step s (s.writer i ⟨stdin, .failed⟩)
  | openWrite (s : System) (i : Nat) (stdin : Stream) :
      s.writers[i]? = some ⟨stdin, .outside⟩ → s.made = true → s.read = true →
      Step s
        { s.writer i ⟨stdin, .getline⟩ with
          wCounter := s.wCounter + 1, late := s.late || s.ending }
  | waitWrite (s : System) (i : Nat) (stdin : Stream) :
      s.writers[i]? = some ⟨stdin, .outside⟩ → s.made = true → s.read = false →
      Step s { s.writer i ⟨stdin, .waiting s.rCounter⟩ with wCounter := s.wCounter + 1 }
  | openedWrite (s : System) (i : Nat) (stdin : Stream) (seen : Nat) :
      s.writers[i]? = some ⟨stdin, .waiting seen⟩ → seen < s.rCounter →
      Step s (s.writer i ⟨stdin, .getline⟩)
  /-- A line has been read.  What is written is `p_buf` with its newline, though `rc_getline` no
  longer counts it. -/
  | line (s : System) (i : Nat) (stdin fp : Stream) (pBuf : List Char) :
      s.writers[i]? = some ⟨stdin, .getline⟩ → getline stdin = (some pBuf, fp) →
      Step s (s.writer i ⟨fp, .write ((cString pBuf).length ≤ pipeBuf) (cString pBuf)⟩)
  | eof (s : System) (i : Nat) (stdin fp : Stream) :
      s.writers[i]? = some ⟨stdin, .getline⟩ → getline stdin = (none, fp) →
      Step s (s.writer i ⟨fp, .exited⟩).closed
  /-- Some of what is left goes to the FIFO, and all of it at once if it is short. -/
  | piece (s : System) (i : Nat) (stdin : Stream) (whole : Bool) (piece rest : List Char) :
      s.writers[i]? = some ⟨stdin, .write whole (piece ++ rest)⟩ → piece ≠ [] →
      (whole = true → rest = []) → s.read = true →
      s.pipe.contents.length + piece.length ≤ pipeSize →
      Step s { s.writer i ⟨stdin, .write whole rest⟩ with pipe := s.pipe.write i piece }
  | wrote (s : System) (i : Nat) (stdin : Stream) (whole : Bool) :
      s.writers[i]? = some ⟨stdin, .write whole []⟩ → Step s (s.writer i ⟨stdin, .getline⟩)
  | sigpipe (s : System) (i : Nat) (stdin : Stream) (whole : Bool) (rest : List Char) :
      s.writers[i]? = some ⟨stdin, .write whole rest⟩ → rest ≠ [] → s.read = false →
      Step s (s.writer i ⟨stdin, .killed rest⟩).closed
  /-- `mkfifo` makes the FIFO or finds it there. -/
  | mkfifo (s : System) (j : Nat) :
      s.readers[j]? = some .mkfifo → Step s { s.reader j .outside with made := true }
  | openRead (s : System) (j : Nat) :
      s.readers[j]? = some .outside → s.written = true →
      Step s { s.reader j .read with rCounter := s.rCounter + 1 }
  | waitRead (s : System) (j : Nat) :
      s.readers[j]? = some .outside → s.written = false →
      Step s { s.reader j (.waiting s.wCounter) with rCounter := s.rCounter + 1 }
  | openedRead (s : System) (j seen : Nat) :
      s.readers[j]? = some (.waiting seen) → seen < s.wCounter → Step s (s.reader j .read)
  /-- At most `sizeof(a_buf)` bytes are read and printed. -/
  | read (s : System) (j : Nat) :
      s.readers[j]? = some .read → s.pipe.contents ≠ [] →
      Step s { s with pipe := s.pipe.read (some j) lenBuf }
  | finish (s : System) (j : Nat) :
      s.readers[j]? = some .read → s.pipe.contents = [] → s.written = false →
      Step s (s.reader j .leaving)
  | exit (s : System) (j : Nat) :
      s.readers[j]? = some .leaving → Step s (s.reader j .exited).closed

/-- Writers with these inputs and `n` readers; the FIFO may be there already. -/
def machine (made : Bool) (inputs : List (List Char)) (n : Nat) : Machine System where
  init s := s =
    ⟨made, inputs.map fun input => ⟨⟨input, false⟩, .outside⟩, List.replicate n .mkfifo, 0, 0,
      .empty, false⟩
  step := Step

/-! ## The writers -/

variable {content : List Char}

/-- What a writer has not written yet, in the order in which it would write it. -/
def Writer.left (w : Writer) : List (List Char) :=
  match w.pc with
  | .exited => []
  | .write _ rest | .killed rest => solid [rest] ++ blocks w.stdin.rest
  | _ => blocks w.stdin.rest

/-- Every line can be written in one piece. -/
def Short (content : List Char) : Prop :=
  ∀ line ∈ fileLines content, (cString line).length ≤ pipeBuf

/-- What a writer has written and what it has not are the lines of its input; if they are short,
each is a piece. -/
structure Carries (input : List Char) (pieces : List (List Char)) (w : Writer) : Prop where
  whole : pieces.flatten ++ w.left.flatten = (blocks input).flatten
  lines : fileLines w.stdin.rest <:+ fileLines input
  atOnce : Short input → pieces ++ w.left = blocks input ∧
    ∀ whole rest, w.pc = .write whole rest → whole = true
  fits : ∀ rest, w.pc = .write true rest → rest.length ≤ pipeBuf

theorem solid_of_ne_nil {text : List Char} (some : text ≠ []) : solid [text] = [text] := by
  simp [solid, some]

theorem flatten_solid (text : List Char) : (solid [text]).flatten = text := by
  cases text with
  | nil => rfl
  | cons c text =>
      rw [solid_of_ne_nil (List.cons_ne_nil c text)]
      exact List.append_nil _

theorem blocks_of_lines {line rest : List Char}
    (lines : fileLines content = line :: fileLines rest) :
    blocks content = solid [cString line] ++ blocks rest := by
  rw [blocks, lines, List.map_cons, ← List.singleton_append, solid, List.filter_append]
  rfl

theorem nul_notMem_blocks (content : List Char) : nul ∉ (blocks content).flatten := by
  intro member
  obtain ⟨block, among, member⟩ := List.mem_flatten.mp member
  obtain ⟨line, -, rfl⟩ := List.mem_map.mp (List.mem_filter.mp among).1
  simpa using List.mem_takeWhile_imp member

variable {input : List Char} {pieces : List (List Char)} {w : Writer} {stdin : Stream}

/-- A step that neither reads nor writes. -/
theorem Carries.quiet {pc pc' : Writing} (carries : Carries input pieces ⟨stdin, pc⟩)
    (left : Writer.left ⟨stdin, pc'⟩ = Writer.left ⟨stdin, pc⟩)
    (atOnce : ∀ whole rest, pc' ≠ .write whole rest) : Carries input pieces ⟨stdin, pc'⟩ := by
  refine ⟨left ▸ carries.whole, carries.lines, fun short => ?_, fun rest writes => ?_⟩
  · refine ⟨left ▸ (carries.atOnce short).1, fun whole rest writes => ?_⟩
    exact absurd writes (atOnce whole rest)
  · exact absurd writes (atOnce true rest)

theorem left_write (stdin : Stream) (whole : Bool) (rest : List Char) :
    Writer.left ⟨stdin, .write whole rest⟩ = solid [rest] ++ blocks stdin.rest := rfl

theorem Carries.line {fp : Stream} {pBuf : List Char}
    (carries : Carries input pieces ⟨stdin, .getline⟩) (got : getline stdin = (some pBuf, fp)) :
    Carries input pieces ⟨fp, .write ((cString pBuf).length ≤ pipeBuf) (cString pBuf)⟩ := by
  rcases getline_cases stdin with ⟨-, fp', missed⟩ | ⟨line, rest, eof, got', -, -, lines⟩
  · cases missed.symm.trans got
  · cases got'.symm.trans got
    have left : Writer.left
        ⟨⟨rest, eof⟩, .write ((cString pBuf).length ≤ pipeBuf) (cString pBuf)⟩ =
          Writer.left ⟨stdin, .getline⟩ := (blocks_of_lines lines).symm
    have suffix := carries.lines
    rw [lines] at suffix
    refine ⟨left ▸ carries.whole, (List.suffix_cons _ _).trans suffix, fun short => ?_,
      fun rest' writes => ?_⟩
    · refine ⟨left ▸ (carries.atOnce short).1, fun whole rest' writes => ?_⟩
      cases writes
      exact decide_eq_true (short pBuf (suffix.subset List.mem_cons_self))
    · obtain ⟨fits, rfl⟩ := Writing.write.inj writes
      exact of_decide_eq_true fits

theorem Carries.eof {fp : Stream} (carries : Carries input pieces ⟨stdin, .getline⟩)
    (got : getline stdin = (none, fp)) : Carries input pieces ⟨fp, .exited⟩ := by
  rcases getline_cases stdin with ⟨done, eof, missed⟩ | ⟨line, rest, eof, got', -⟩
  · cases missed.symm.trans got
    have left : Writer.left ⟨stdin, .getline⟩ = [] := by
      rw [Writer.left, done]
      rfl
    have whole := carries.whole
    refine ⟨?_, List.nil_suffix, fun short => ⟨?_, nofun⟩, nofun⟩
    · rw [left] at whole
      exact whole
    · have all := (carries.atOnce short).1
      rw [left] at all
      exact all
  · cases got'.symm.trans got

/-- Some of what is left is written. -/
theorem Carries.piece {whole : Bool} {piece rest : List Char}
    (carries : Carries input pieces ⟨stdin, .write whole (piece ++ rest)⟩) (some : piece ≠ [])
    (all : whole = true → rest = []) :
    Carries input (pieces ++ [piece]) ⟨stdin, .write whole rest⟩ := by
  refine ⟨?_, carries.lines, fun short => ?_, fun rest' writes => ?_⟩
  · have text := carries.whole
    rw [left_write, List.flatten_append, flatten_solid] at text
    rw [List.flatten_append, List.flatten_singleton, left_write, List.flatten_append, flatten_solid,
      ← text]
    simp only [List.append_assoc]
  · obtain ⟨eq, atOnce⟩ := carries.atOnce short
    have one := atOnce whole _ rfl
    obtain rfl := all one
    refine ⟨?_, fun whole' rest' writes => ?_⟩
    · rw [left_write, List.append_nil, solid_of_ne_nil some] at eq
      rw [← eq, List.append_assoc]
      rfl
    · cases writes
      exact one
  · cases writes
    have fits := carries.fits _ rfl
    rw [List.length_append] at fits
    exact Nat.le_trans (Nat.le_add_left _ _) fits

theorem Carries.wrote {whole : Bool} (carries : Carries input pieces ⟨stdin, .write whole []⟩) :
    Carries input pieces ⟨stdin, .getline⟩ :=
  ⟨carries.whole, carries.lines, fun short => ⟨(carries.atOnce short).1, nofun⟩, nofun⟩

theorem Carries.kill {whole : Bool} {rest : List Char}
    (carries : Carries input pieces ⟨stdin, .write whole rest⟩) :
    Carries input pieces ⟨stdin, .killed rest⟩ :=
  ⟨carries.whole, carries.lines, fun short => ⟨(carries.atOnce short).1, nofun⟩, nofun⟩

/-- A writer with the input at its index. -/
def CarriesOf (inputs : List (List Char)) (i : Nat) (pieces : List (List Char)) (w : Writer) :
    Prop :=
  ∀ input, inputs[i]? = some input → Carries input pieces w

/-! ## Who is there -/

/-- A writer that need not wait in `open`. -/
def Writing.opened (rCounter : Nat) : Writing → Bool
  | waiting seen => seen < rCounter
  | getline | write _ _ => true
  | _ => false

/-- A reader that need not wait in `open`, and is going to read. -/
def Reader.awake (wCounter : Nat) : Reader → Bool
  | waiting seen => seen < wCounter
  | read => true
  | _ => false

theorem Writing.holds_of_opened {pc : Writing} {rCounter : Nat}
    (opened : pc.opened rCounter = true) :
    pc.holds = true := by
  cases pc <;> first | rfl | cases opened

theorem Reader.attends_of_awake {r : Reader} {wCounter : Nat} (awake : r.awake wCounter = true) :
    r.attends = true := by
  cases r <;> first | rfl | cases awake

theorem Reader.holds_of_attends {r : Reader} (attends : r.attends = true) : r.holds = true := by
  cases r <;> first | rfl | cases attends

theorem Reader.awake_succ {r : Reader} {wCounter : Nat} (awake : r.awake wCounter = true) :
    r.awake (wCounter + 1) = true := by
  cases r with
  | waiting seen => exact decide_eq_true (Nat.lt_succ_of_lt (of_decide_eq_true awake))
  | read => rfl
  | _ => cases awake

variable {s t : System}

theorem read_eq_false : s.read = false ↔ ∀ r ∈ s.readers, r.holds = false := by
  simp [System.read]

theorem written_eq_false : s.written = false ↔ ∀ w ∈ s.writers, w.pc.holds = false := by
  simp [System.written]

/-- Somebody is going to read, or a writer has come late. -/
def System.Attended (s : System) : Prop := s.late = true ∨ ∃ r ∈ s.readers, r.attends = true

/-- Somebody reads what is in the FIFO, or a writer has come late. -/
def System.Awake (s : System) : Prop := s.late = true ∨ ∃ r ∈ s.readers, r.awake s.wCounter = true

structure Inv (inputs : List (List Char)) (s : System) : Prop where
  whole : s.pipe.Whole
  noNul : ∀ piece ∈ s.pipe.put, nul ∉ piece.2
  many : s.writers.length = inputs.length
  carried : Post.Told (CarriesOf inputs) (s.pipe.put) s.writers
  attended : ∀ w ∈ s.writers, w.pc.opened s.rCounter = true → s.Attended
  full : s.pipe.contents ≠ [] → s.Awake
  waitsWrite : ∀ w ∈ s.writers, ∀ seen, w.pc = .waiting seen →
    seen ≤ s.rCounter ∧ (seen = s.rCounter → s.read = false)
  waitsRead : ∀ r ∈ s.readers, ∀ seen, r = .waiting seen →
    seen ≤ s.wCounter ∧ (seen = s.wCounter → s.written = false)
  killed : ∀ w ∈ s.writers, ∀ rest, w.pc = .killed rest → s.late = true
  lost : ∀ text, (none, text) ∈ s.pipe.taken → text ≠ [] → s.late = true

variable {inputs : List (List Char)}

/-! ## The invariant is kept -/

/-- A writer goes on. -/
theorem Inv.writer (inv : Inv inputs s) {i : Nat} {w w' : Writer} (here : s.writers[i]? = some w)
    (carried : Post.Told (CarriesOf inputs) s.pipe.put (s.writers.set i w'))
    (opened : w'.pc.opened s.rCounter = true → w.pc.opened s.rCounter = true)
    (holds : w.pc.holds = false → w'.pc.holds = false) (waits : ∀ seen, w'.pc ≠ .waiting seen)
    (killed : ∀ rest, w'.pc = .killed rest → s.late = true) : Inv inputs (s.writer i w') where
  whole := inv.whole
  noNul := inv.noNul
  many := List.length_set.trans inv.many
  carried := carried
  attended := forall_mem_set inv.attended fun now =>
    inv.attended w (List.mem_of_getElem? here) (opened now)
  full := inv.full
  waitsWrite := forall_mem_set inv.waitsWrite fun seen now => absurd now (waits seen)
  waitsRead r member seen waiting := by
    obtain ⟨le, last⟩ := inv.waitsRead r member seen waiting
    refine ⟨le, fun same => written_eq_false.mpr ?_⟩
    have before := written_eq_false.mp (last same)
    exact forall_mem_set before (holds (before w (List.mem_of_getElem? here)))
  killed := forall_mem_set inv.killed killed
  lost := inv.lost

/-- A reader goes on. -/
theorem Inv.reader (inv : Inv inputs s) {j : Nat} {r r' : Reader} (here : s.readers[j]? = some r)
    (attends : s.written = true → r.attends = true → r'.attends = true)
    (awake : s.pipe.contents ≠ [] → r.awake s.wCounter = true → r'.awake s.wCounter = true)
    (holds : r.holds = false → r'.holds = false) (waits : ∀ seen, r' ≠ .waiting seen) :
    Inv inputs (s.reader j r') where
  whole := inv.whole
  noNul := inv.noNul
  many := inv.many
  carried := inv.carried
  attended w member opened := by
    have written : s.written = true :=
      List.any_eq_true.mpr ⟨w, member, Writing.holds_of_opened opened⟩
    exact (inv.attended w member opened).imp_right (exists_mem_set here (attends written))
  full some := (inv.full some).imp_right (exists_mem_set here (awake some))
  waitsWrite w member seen waiting := by
    obtain ⟨le, last⟩ := inv.waitsWrite w member seen waiting
    refine ⟨le, fun same => read_eq_false.mpr ?_⟩
    have before := read_eq_false.mp (last same)
    exact forall_mem_set before (holds (before r (List.mem_of_getElem? here)))
  waitsRead := forall_mem_set inv.waitsRead fun seen now => absurd now (waits seen)
  killed := inv.killed
  lost := inv.lost

theorem Inv.closed (inv : Inv inputs s) : Inv inputs s.closed := by
  unfold System.closed
  split
  · exact inv
  · next nobody =>
      obtain ⟨read, -⟩ := Bool.or_eq_false_iff.mp (Bool.eq_false_iff.mpr nobody)
      refine { inv with
        whole := inv.whole.read none _
        full := fun some => absurd List.drop_length some
        lost := fun text member some => ?_ }
      rcases List.mem_append.mp member with old | new
      · exact inv.lost text old some
      · -- What is thrown away has been written by a writer that has come late.
        cases List.mem_singleton.mp new
        rw [List.take_length] at some
        refine (inv.full some).resolve_right ?_
        rintro ⟨r, there, awake⟩
        have holds := Reader.holds_of_attends (Reader.attends_of_awake awake)
        rw [read_eq_false.mp read r there] at holds
        cases holds

/-- Where a writer has its end open, who attends need not wait. -/
theorem Inv.awake_of_attends (inv : Inv inputs s) (written : s.written = true)
    (attended : s.Attended) : s.Awake := by
  refine attended.imp_right fun ⟨r, member, attends⟩ => ⟨r, member, ?_⟩
  cases r with
  | waiting seen =>
      obtain ⟨le, last⟩ := inv.waitsRead _ member seen rfl
      refine decide_eq_true (Nat.lt_of_le_of_ne le fun same => ?_)
      cases written.symm.trans (last same)
  | read => rfl
  | _ => cases attends

theorem Inv.piece (inv : Inv inputs s) {i : Nat} {stdin : Stream} {whole : Bool}
    {piece rest : List Char} (here : s.writers[i]? = some ⟨stdin, .write whole (piece ++ rest)⟩)
    (some : piece ≠ []) (all : whole = true → rest = []) :
    Inv inputs { s.writer i ⟨stdin, .write whole rest⟩ with pipe := s.pipe.write i piece } := by
  have member := List.mem_of_getElem? here
  have written : s.written = true := List.any_eq_true.mpr ⟨_, member, rfl⟩
  have attended := inv.attended _ member rfl
  have carried : Post.Told (CarriesOf inputs) (s.pipe.put ++ [(i, piece)])
      (s.writers.set i ⟨stdin, .write whole rest⟩) :=
    inv.carried.send here fun carries input from' => (carries input from').piece some all
  refine { inv with
    whole := inv.whole.write i piece
    noNul := fun p among => ?_
    many := List.length_set.trans inv.many
    carried := carried
    attended := forall_mem_set inv.attended fun _ => attended
    full := fun _ => inv.awake_of_attends written attended
    waitsWrite := forall_mem_set inv.waitsWrite nofun
    waitsRead := fun r there seen waiting => ?_
    killed := forall_mem_set inv.killed nofun }
  · rcases List.mem_append.mp among with old | new
    · exact inv.noNul p old
    · cases List.mem_singleton.mp new
      have inside : i < inputs.length := inv.many ▸ (List.getElem?_eq_some_iff.mp here).1
      have carries := carried i ⟨stdin, .write whole rest⟩
        (List.getElem?_set_self (List.getElem?_eq_some_iff.mp here).1) inputs[i]
        (List.getElem?_eq_getElem inside)
      have none := nul_notMem_blocks inputs[i]
      rw [← carries.whole, Post.contents_append, Post.contents_singleton_self, List.flatten_append,
        List.flatten_singleton] at none
      exact fun nul' => none (List.mem_append_left _ (List.mem_append_right _ nul'))
  · obtain ⟨le, last⟩ := inv.waitsRead r there seen waiting
    refine ⟨le, fun same => ?_⟩
    cases written.symm.trans (last same)

/-- A writer opens the FIFO, and waits if there is no reader. -/
theorem Inv.openWrite (inv : Inv inputs s) {i : Nat} {stdin : Stream} (pc : Writing)
    (carried : Post.Told (CarriesOf inputs) s.pipe.put (s.writers.set i ⟨stdin, pc⟩))
    (place : pc = .getline ∧ s.read = true ∨ pc = .waiting s.rCounter ∧ s.read = false) :
    Inv inputs { s.writer i ⟨stdin, pc⟩ with
      wCounter := s.wCounter + 1, late := s.late || s.ending } := by
  have later {P : Prop} (before : s.late = true ∨ P) : (s.late || s.ending) = true ∨ P :=
    before.imp_left fun late => Bool.or_eq_true_iff.mpr (.inl late)
  refine { inv with
    many := List.length_set.trans inv.many
    carried := carried
    attended := forall_mem_set (fun v member opened => later (inv.attended v member opened)) ?_
    full := fun some => later ((inv.full some).imp_right fun ⟨r, member, awake⟩ =>
      ⟨r, member, Reader.awake_succ awake⟩)
    waitsWrite := forall_mem_set inv.waitsWrite ?_
    waitsRead := fun r member seen waiting => ?_
    killed := forall_mem_set
      (fun v member rest killed => Bool.or_eq_true_iff.mpr (.inl (inv.killed v member rest killed)))
      ?_
    lost := fun text member some => Bool.or_eq_true_iff.mpr (.inl (inv.lost text member some)) }
  · intro opened
    rcases place with ⟨rfl, read⟩ | ⟨rfl, -⟩
    · by_cases attended : s.readers.any Reader.attends = true
      · exact .inr (List.any_eq_true.mp attended)
      · left
        rw [System.ending, read, Bool.eq_false_iff.mpr attended]
        exact Bool.or_true _
    · exact absurd (of_decide_eq_true opened) (Nat.lt_irrefl _)
  · rintro seen rfl
    rcases place with ⟨wrong, -⟩ | ⟨same, none⟩
    · cases wrong
    · cases same
      exact ⟨Nat.le_refl _, fun _ => none⟩
  · obtain ⟨le, -⟩ := inv.waitsRead r member seen waiting
    exact ⟨Nat.le_succ_of_le le, fun same => absurd (same ▸ le) (Nat.not_succ_le_self _)⟩
  · rintro rest rfl
    rcases place with ⟨wrong, -⟩ | ⟨wrong, -⟩ <;> cases wrong

/-- A reader opens the FIFO, and waits if there is no writer. -/
theorem Inv.openRead (inv : Inv inputs s) {j : Nat} {r : Reader}
    (here : s.readers[j]? = some .outside)
    (place : r = .read ∨ r = .waiting s.wCounter ∧ s.written = false) :
    Inv inputs { s.reader j r with rCounter := s.rCounter + 1 } := by
  have attends : r.attends = true := by
    rcases place with rfl | ⟨rfl, -⟩ <;> rfl
  refine { inv with
    attended := fun _ _ _ => .inr ⟨r, mem_set_of_getElem? here r, attends⟩
    full := fun some => (inv.full some).imp_right (exists_mem_set here nofun)
    waitsWrite := fun w member seen waiting => ?_
    waitsRead := forall_mem_set inv.waitsRead ?_ }
  · obtain ⟨le, -⟩ := inv.waitsWrite w member seen waiting
    exact ⟨Nat.le_succ_of_le le, fun same => absurd (same ▸ le) (Nat.not_succ_le_self _)⟩
  · rintro seen rfl
    rcases place with wrong | ⟨same, none⟩
    · cases wrong
    · cases same
      exact ⟨Nat.le_refl _, fun _ => none⟩

theorem Inv.step (inv : Inv inputs s) (step : Step s t) : Inv inputs t := by
  cases step with
  | fail i stdin here none =>
      refine inv.writer here ?_ nofun (fun _ => rfl) nofun nofun
      exact inv.carried.quiet here fun carries input from' => (carries input from').quiet rfl nofun
  | openWrite i stdin here made read =>
      refine inv.openWrite .getline ?_ (.inl ⟨rfl, read⟩)
      exact inv.carried.quiet here fun carries input from' =>
        (carries input from').quiet rfl nofun
  | waitWrite i stdin here made read =>
      have next := inv.openWrite (.waiting s.rCounter)
        (inv.carried.quiet here fun carries input from' =>
          (carries input from').quiet rfl nofun) (.inr ⟨rfl, read⟩)
      rw [System.ending, read, Bool.false_and, Bool.or_false] at next
      exact next
  | openedWrite i stdin seen here less =>
      refine inv.writer here ?_ (fun _ => decide_eq_true less) nofun nofun nofun
      exact inv.carried.quiet here fun carries input from' =>
        (carries input from').quiet rfl nofun
  | line i stdin fp pBuf here got =>
      refine inv.writer here ?_ (fun _ => rfl) nofun nofun nofun
      exact inv.carried.quiet here fun carries input from' => (carries input from').line got
  | eof i stdin fp here got =>
      have next : Inv inputs (s.writer i ⟨fp, .exited⟩) := by
        refine inv.writer here ?_ nofun (fun _ => rfl) nofun nofun
        exact inv.carried.quiet here fun carries input from' => (carries input from').eof got
      exact next.closed
  | piece i stdin whole piece rest here some all read room => exact inv.piece here some all
  | wrote i stdin whole here =>
      refine inv.writer here ?_ (fun _ => rfl) nofun nofun nofun
      exact inv.carried.quiet here fun carries input from' => (carries input from').wrote
  | sigpipe i stdin whole rest here some read =>
      have late : s.late = true := by
        -- A reader that attends would have its end open.
        refine (inv.attended _ (List.mem_of_getElem? here) rfl).resolve_right ?_
        rintro ⟨r, member, attends⟩
        have holds := Reader.holds_of_attends attends
        rw [read_eq_false.mp read r member] at holds
        cases holds
      have next : Inv inputs (s.writer i ⟨stdin, .killed rest⟩) := by
        refine inv.writer here ?_ nofun (fun _ => rfl) nofun fun _ _ => late
        exact inv.carried.quiet here fun carries input from' => (carries input from').kill
      exact next.closed
  | mkfifo j here =>
      have next : Inv inputs (s.reader j .outside) :=
        inv.reader here nofun nofun (fun _ => rfl) nofun
      exact { next with }
  | openRead j here written => exact inv.openRead here (.inl rfl)
  | waitRead j here written => exact inv.openRead here (.inr ⟨rfl, written⟩)
  | openedRead j seen here less =>
      exact inv.reader here (fun _ _ => rfl) (fun _ _ => rfl) nofun nofun
  | read j here some =>
      refine { inv with
        whole := inv.whole.read _ _
        full := fun _ => .inr ⟨.read, List.mem_of_getElem? here, rfl⟩
        lost := fun text member => ?_ }
      rcases List.mem_append.mp member with old | new
      · exact inv.lost text old
      · cases List.mem_singleton.mp new
  | finish j here none written =>
      refine inv.reader here (fun written' => ?_) (fun some => absurd none some) nofun nofun
      cases written'.symm.trans written
  | exit j here =>
      have next : Inv inputs (s.reader j .exited) :=
        inv.reader here nofun nofun (fun _ => rfl) nofun
      exact next.closed

variable {made : Bool} {n : Nat}

theorem inv_of_reachable (reached : (machine made inputs n).Reachable s) : Inv inputs s := by
  apply reached.invariant (P := Inv inputs)
  · rintro s rfl
    refine ⟨rfl, nofun, List.length_map _, fun i w here input from' => ?_, fun w member => ?_,
      absurd rfl, fun w member => ?_, fun r member => ?_, fun w member => ?_, nofun⟩
    · rw [List.getElem?_map, from'] at here
      cases here
      exact ⟨rfl, List.suffix_refl _, fun _ => ⟨rfl, nofun⟩, nofun⟩
    · obtain ⟨input, -, rfl⟩ := List.mem_map.mp member
      nofun
    · obtain ⟨input, -, rfl⟩ := List.mem_map.mp member
      nofun
    · obtain rfl := List.eq_of_mem_replicate member
      nofun
    · obtain ⟨input, -, rfl⟩ := List.mem_map.mp member
      nofun
  · exact fun s t _ inv step => inv.step step

/-! ## What arrives -/

/-- Only what comes late is thrown away. -/
theorem Inv.nothingLost (inv : Inv inputs s) (early : s.late = false) (text : List Char)
    (among : (none, text) ∈ s.pipe.taken) : text = [] := by
  by_contra some
  cases early.symm.trans (inv.lost text among some)

structure Delivered (inputs : List (List Char)) (s : System) : Prop where
  /-- What has been read or thrown away is what has been written, up to what is in the FIFO. -/
  whole : Pipe.text s.pipe.taken ++ s.pipe.contents = Pipe.text s.pipe.put
  /-- What a writer has written and what it has not are its lines. -/
  text : ∀ (i : Nat) (input : List Char) (w : Writer), inputs[i]? = some input →
    s.writers[i]? = some w →
    (Post.contents s.pipe.put i).flatten ++ w.left.flatten = (blocks input).flatten
  /-- Short lines are not mixed with those of other writers. -/
  pieces : ∀ (i : Nat) (input : List Char) (w : Writer), inputs[i]? = some input →
    s.writers[i]? = some w → Short input →
    Post.contents s.pipe.put i ++ w.left = blocks input
  /-- `%.*s` prints all that has been read. -/
  printed : ∀ piece ∈ s.pipe.taken, cString piece.2 = piece.2
  lost : s.late = false → ∀ text, (none, text) ∈ s.pipe.taken → text = []
  killed : s.late = false → ∀ w ∈ s.writers, ∀ rest, w.pc ≠ .killed rest

/-- **The stream.**  The bytes read or thrown away and those in the FIFO are the bytes written, in
this order; those of a writer are its lines in order, in one piece each if they are short.  Unless a
writer has come late, nothing has been thrown away, and no writer killed. -/
theorem streamed_of_reachable (made : Bool) (inputs : List (List Char)) (n : Nat) (s : System)
    (reached : (machine made inputs n).Reachable s) : Delivered inputs s := by
  have inv := inv_of_reachable reached
  refine ⟨inv.whole, fun i input w from' here => (inv.carried i w here input from').whole,
    fun i input w from' here short => ((inv.carried i w here input from').atOnce short).1,
    fun piece among => ?_, inv.nothingLost, fun early w member rest killed => ?_⟩
  · refine cString_of_notMem fun nul' => ?_
    have text : nul ∈ Pipe.text s.pipe.put :=
      inv.whole ▸ List.mem_append_left _ (Pipe.mem_text.mpr ⟨piece, among, nul'⟩)
    obtain ⟨written, there, nul'⟩ := Pipe.mem_text.mp text
    exact inv.noNul written there nul'
  · cases early.symm.trans (inv.killed w member rest killed)

/-- The second writer opens the FIFO behind the last `read` of the only reader, and its line is
thrown away. -/
theorem exists_lost :
    ∃ s, (machine false [[], ['a', '\n']] 1).Reachable s ∧ s.late = true ∧
      s.pipe.put = [(1, ['a', '\n'])] ∧ (none, ['a', '\n']) ∈ s.pipe.taken := by
  have start : (machine false [[], ['a', '\n']] 1).Reachable _ := .of_init rfl
  have opened := (((start.tail (.mkfifo _ 0 rfl)).tail (.waitRead _ 0 rfl rfl)).tail
    (.openWrite _ 0 _ rfl rfl rfl)).tail (.openedRead _ 0 0 rfl (by decide))
  have leaving := (opened.tail (.eof _ 0 _ ⟨[], true⟩ rfl rfl)).tail (.finish _ 0 rfl rfl rfl)
  have late := ((leaving.tail (.openWrite _ 1 _ rfl rfl rfl)).tail
    (.line _ 1 _ ⟨[], false⟩ ['a', '\n'] rfl rfl)).tail
    (.piece _ 1 _ _ ['a', '\n'] [] rfl nofun (fun _ => rfl) rfl (by decide))
  have thrown := ((late.tail (.wrote _ 1 _ _ rfl)).tail (.exit _ 0 rfl)).tail
    (.eof _ 1 _ ⟨[], true⟩ rfl rfl)
  exact ⟨_, thrown, rfl, rfl, List.mem_singleton_self _⟩

theorem streamed_lost :
    ∃ s, (machine false [[], ['a', '\n']] 1).Reachable s ∧ s.late = true ∧
      (none, ['a', '\n']) ∈ s.pipe.taken ∧ Delivered [[], ['a', '\n']] s := by
  obtain ⟨s, reached, late, -, thrown⟩ := exists_lost
  exact ⟨s, reached, late, thrown, streamed_of_reachable false _ 1 s reached⟩

/-! ## Every run ends -/

/-- What is left to do for a writer. -/
def Writer.rank (w : Writer) : Nat :=
  match w.pc with
  | .outside => 4 * w.stdin.rest.length + 3
  | .waiting _ => 4 * w.stdin.rest.length + 2
  | .getline => 4 * w.stdin.rest.length + 1
  | .write _ rest => 4 * w.stdin.rest.length + 2 * rest.length + 2
  | .exited | .failed | .killed _ => 0

/-- What is left to do for a reader. -/
def Reader.rank : Reader → Nat
  | mkfifo => 5
  | outside => 4
  | waiting _ => 3
  | read => 2
  | leaving => 1
  | exited => 0

def System.left (s : System) : Nat :=
  total Writer.rank s.writers + total Reader.rank s.readers + s.pipe.contents.length

theorem left_closed_le (s : System) : s.closed.left ≤ s.left := by
  unfold System.closed
  split
  · exact Nat.le_refl _
  · exact Nat.add_le_add_left (by simp [Pipe.read]) _

/-- A step of a writer. -/
theorem left_writer_lt {i : Nat} {w w' : Writer} (here : s.writers[i]? = some w)
    (less : w'.rank < w.rank) : (s.writer i w').left < s.left := by
  have balance := total_set Writer.rank w' here
  simp only [System.left, System.writer]
  omega

/-- A step of a reader. -/
theorem left_reader_lt {j : Nat} {r r' : Reader} (here : s.readers[j]? = some r)
    (less : r'.rank < r.rank) : (s.reader j r').left < s.left := by
  have balance := total_set Reader.rank r' here
  simp only [System.left, System.reader]
  omega

theorem length_cString_le (bytes : List Char) : (cString bytes).length ≤ bytes.length :=
  (List.takeWhile_prefix _).length_le

theorem left_lt (step : Step s t) : t.left < s.left := by
  cases step with
  | fail i stdin here none => exact left_writer_lt here (Nat.succ_pos _)
  | openWrite i stdin here made read => exact left_writer_lt here (by simp [Writer.rank])
  | waitWrite i stdin here made read => exact left_writer_lt here (by simp [Writer.rank])
  | openedWrite i stdin seen here less => exact left_writer_lt here (by simp [Writer.rank])
  | line i stdin fp pBuf here got =>
      refine left_writer_lt here ?_
      rcases getline_cases stdin with ⟨-, eof, missed⟩ | ⟨line, rest, eof, got', some, split, -⟩
      · cases missed.symm.trans got
      · cases got'.symm.trans got
        have short := length_cString_le pBuf
        have long := List.length_pos_iff.mpr some
        simp only [Writer.rank, split, List.length_append]
        omega
  | eof i stdin fp here got =>
      exact Nat.lt_of_le_of_lt (left_closed_le _) (left_writer_lt here (Nat.succ_pos _))
  | piece i stdin whole piece rest here some all read room =>
      have balance := total_set Writer.rank ⟨stdin, .write whole rest⟩ here
      have long := List.length_pos_iff.mpr some
      simp only [Writer.rank, List.length_append] at balance
      simp only [System.left, System.writer, Pipe.write, List.length_append]
      omega
  | wrote i stdin whole here => exact left_writer_lt here (by simp [Writer.rank])
  | sigpipe i stdin whole rest here some read =>
      exact Nat.lt_of_le_of_lt (left_closed_le _) (left_writer_lt here (Nat.succ_pos _))
  | mkfifo j here => exact left_reader_lt here (Nat.lt_succ_self _)
  | openRead j here written => exact left_reader_lt here (by decide)
  | waitRead j here written => exact left_reader_lt here (Nat.lt_succ_self _)
  | openedRead j seen here less => exact left_reader_lt here (Nat.lt_succ_self _)
  | read j here some =>
      have long := List.length_pos_iff.mpr some
      simp only [System.left, Pipe.read, List.length_drop, lenBuf]
      omega
  | finish j here none written => exact left_reader_lt here (Nat.lt_succ_self _)
  | exit j here =>
      exact Nat.lt_of_le_of_lt (left_closed_le _) (left_reader_lt here (Nat.succ_pos _))

/-! ## Where a run ends -/

/-- A writer is blocked in `open` without a reader, or in `write` with a reader and bytes in the
FIFO, or it is gone. -/
theorem writer_goes (inv : Inv inputs s) {w : Writer} (member : w ∈ s.writers)
    (stuck : (machine made inputs n).Stuck s) :
    w.pc.holds = false ∧ w.pc ≠ .outside ∨ (∃ seen, w.pc = .waiting seen) ∧ s.read = false ∨
      (∃ whole rest, w.pc = .write whole rest) ∧ s.read = true ∧ s.pipe.contents ≠ [] := by
  obtain ⟨i, here⟩ := List.mem_iff_getElem?.mp member
  obtain ⟨stdin, pc⟩ := w
  cases pc with
  | outside =>
      cases made' : s.made with
      | false => exact absurd (.fail s i stdin here made') (stuck _)
      | true =>
          cases read : s.read with
          | false => exact absurd (.waitWrite s i stdin here made' read) (stuck _)
          | true => exact absurd (.openWrite s i stdin here made' read) (stuck _)
  | waiting seen =>
      obtain ⟨le, last⟩ := inv.waitsWrite _ member seen rfl
      rcases Nat.lt_or_eq_of_le le with less | same
      · exact absurd (.openedWrite s i stdin seen here less) (stuck _)
      · exact .inr (.inl ⟨⟨seen, rfl⟩, last same⟩)
  | getline =>
      rcases getline_cases stdin with ⟨-, eof, got⟩ | ⟨line, rest, eof, got, -⟩
      · exact absurd (.eof s i stdin _ here got) (stuck _)
      · exact absurd (.line s i stdin _ line here got) (stuck _)
  | write whole rest =>
      by_cases done : rest = []
      · subst done
        exact absurd (.wrote s i stdin whole here) (stuck _)
      · cases read : s.read with
        | false => exact absurd (.sigpipe s i stdin whole rest here done read) (stuck _)
        | true =>
            refine .inr (.inr ⟨⟨whole, rest, rfl⟩, rfl, fun empty => ?_⟩)
            cases whole with
            | true =>
                -- A short write finds room in the empty FIFO.
                have inside : i < inputs.length :=
                  inv.many ▸ (List.getElem?_eq_some_iff.mp here).1
                have fits := (inv.carried i _ here inputs[i]
                  (List.getElem?_eq_getElem inside)).fits rest rfl
                refine stuck _ (.piece s i stdin true rest [] ?_ done (fun _ => rfl) read ?_)
                · rw [List.append_nil]
                  exact here
                · rw [empty, List.length_nil, Nat.zero_add]
                  exact Nat.le_trans fits (by decide)
            | false =>
                obtain ⟨c, rest, rfl⟩ := List.exists_cons_of_ne_nil done
                refine stuck _ (.piece s i stdin false [c] rest here (List.cons_ne_nil c [])
                  nofun read ?_)
                rw [empty]
                exact (by decide : 1 ≤ pipeSize)
  | exited => exact .inl ⟨rfl, nofun⟩
  | failed => exact .inl ⟨rfl, nofun⟩
  | killed rest => exact .inl ⟨rfl, nofun⟩

/-- A reader is blocked in `open` without a writer, or in `read` with a writer and an empty FIFO, or
it is gone. -/
theorem reader_goes (inv : Inv inputs s) {r : Reader} (member : r ∈ s.readers)
    (stuck : (machine made inputs n).Stuck s) :
    r = .exited ∨ (∃ seen, r = .waiting seen ∧ seen = s.wCounter) ∧ s.written = false ∨
      r = .read ∧ s.written = true ∧ s.pipe.contents = [] := by
  obtain ⟨j, here⟩ := List.mem_iff_getElem?.mp member
  cases r with
  | mkfifo => exact absurd (.mkfifo s j here) (stuck _)
  | outside =>
      cases written : s.written with
      | false => exact absurd (.waitRead s j here written) (stuck _)
      | true => exact absurd (.openRead s j here written) (stuck _)
  | waiting seen =>
      obtain ⟨le, last⟩ := inv.waitsRead _ member seen rfl
      rcases Nat.lt_or_eq_of_le le with less | same
      · exact absurd (.openedRead s j seen here less) (stuck _)
      · exact .inr (.inl ⟨⟨seen, rfl, same⟩, last same⟩)
  | read =>
      by_cases empty : s.pipe.contents = []
      · cases written : s.written with
        | false => exact absurd (.finish s j here empty written) (stuck _)
        | true => exact .inr (.inr ⟨rfl, rfl, empty⟩)
      · exact absurd (.read s j here empty) (stuck _)
  | leaving => exact absurd (.exit s j here) (stuck _)
  | exited => exact .inl rfl

structure Ended (inputs : List (List Char)) (s : System) : Prop where
  writers : ∀ w ∈ s.writers,
    (w.pc = .exited ∨ w.pc = .failed ∨ ∃ rest, w.pc = .killed rest) ∨ ∃ seen, w.pc = .waiting seen
  readers : ∀ r ∈ s.readers, r = .exited ∨ ∃ seen, r = .waiting seen
  /-- At most one side is waiting for the other. -/
  oneSide : s.read = false ∨ s.written = false
  /-- A writer that has come to its end has written its lines. -/
  text : ∀ (i : Nat) (input : List Char) (w : Writer), inputs[i]? = some input →
    s.writers[i]? = some w → w.pc = .exited →
    (Post.contents s.pipe.put i).flatten = (blocks input).flatten
  /-- All that has been written has been read: nothing is left in the FIFO, and nothing has been
  thrown away. -/
  empty : s.late = false → s.pipe.contents = [] ∧ Pipe.text s.pipe.taken = Pipe.text s.pipe.put
  lost : s.late = false → ∀ text, (none, text) ∈ s.pipe.taken → text = []

/-- **The end of a run.**  Every run ends, with writers and readers gone or those of one side
waiting for the other, and unless a writer has come late, everything that has been written
has been read. -/
theorem fifo_terminates (made : Bool) (inputs : List (List Char)) (n : Nat) :
    (machine made inputs n).Terminates (Ended inputs) := by
  refine Machine.terminates_of_descends (fun s t _ step => left_lt step) fun s reached stuck => ?_
  have inv := inv_of_reachable reached
  have noReading : ∀ r ∈ s.readers, r ≠ .read := by
    rintro r member rfl
    rcases reader_goes inv member stuck with wrong | ⟨⟨seen, wrong, -⟩, -⟩ | ⟨-, written, empty⟩
    · cases wrong
    · cases wrong
    · obtain ⟨w, among, holds⟩ := List.any_eq_true.mp written
      rcases writer_goes inv among stuck with ⟨gone, -⟩ | ⟨-, none⟩ | ⟨-, -, full⟩
      · cases gone.symm.trans holds
      · cases read_eq_false.mp none _ member
      · exact full empty
  have noWriting : ∀ w ∈ s.writers, ∀ whole rest, w.pc ≠ .write whole rest := by
    intro w member whole rest writes
    have written : s.written = true :=
      List.any_eq_true.mpr ⟨w, member, by rw [writes]; rfl⟩
    rcases writer_goes inv member stuck with ⟨gone, -⟩ | ⟨⟨seen, wrong⟩, -⟩ | ⟨-, read, -⟩
    · rw [writes] at gone
      cases gone
    · cases writes.symm.trans wrong
    · obtain ⟨r, among, holds⟩ := List.any_eq_true.mp read
      rcases reader_goes inv among stuck with rfl | ⟨-, none⟩ | ⟨rfl, -⟩
      · cases holds
      · cases written.symm.trans none
      · exact noReading _ among rfl
  have writers : ∀ w ∈ s.writers,
      (w.pc = .exited ∨ w.pc = .failed ∨ ∃ rest, w.pc = .killed rest) ∨
        (∃ seen, w.pc = .waiting seen) ∧ s.read = false := by
    intro w member
    rcases writer_goes inv member stuck with ⟨gone, inside⟩ | waits | ⟨⟨whole, rest, writes⟩, -⟩
    · left
      cases pc : w.pc with
      | exited => exact .inl rfl
      | failed => exact .inr (.inl rfl)
      | killed rest => exact .inr (.inr ⟨rest, rfl⟩)
      | outside => exact absurd pc inside
      | _ => rw [pc] at gone; cases gone
    · exact .inr waits
    · exact absurd writes (noWriting w member whole rest)
  refine ⟨fun w member => (writers w member).imp_right And.left, fun r member => ?_, ?_,
    fun i input w from' here exited => ?_, fun early => ?_, inv.nothingLost⟩
  · rcases reader_goes inv member stuck with gone | ⟨⟨seen, waits, -⟩, -⟩ | ⟨reads, -⟩
    · exact .inl gone
    · exact .inr ⟨seen, waits⟩
    · exact absurd reads (noReading r member)
  · refine or_iff_not_imp_right.mpr fun some => ?_
    obtain ⟨w, member, holds⟩ := List.any_eq_true.mp (Bool.not_eq_false _ ▸ some)
    rcases writers w member with gone | ⟨-, none⟩
    · rcases gone with pc | pc | ⟨rest, pc⟩ <;> rw [pc] at holds <;> cases holds
    · exact none
  · have whole := (inv.carried i w here input from').whole
    rw [Writer.left, exited] at whole
    exact (List.append_nil _).symm.trans whole
  · have empty : s.pipe.contents = [] := by
      by_contra some
      rcases inv.full some with late | ⟨r, member, awake⟩
      · cases early.symm.trans late
      · rcases reader_goes inv member stuck with rfl | ⟨⟨seen, rfl, rfl⟩, -⟩ | ⟨rfl, -⟩
        · cases awake
        · exact Nat.lt_irrefl _ (of_decide_eq_true awake)
        · exact noReading _ member rfl
    have whole := inv.whole
    rw [Pipe.Whole, empty, List.append_nil] at whole
    exact ⟨empty, whole⟩

end Alnp.MyFifo
