import Alnp.Kernel.CString
import Alnp.Lib.Buffer
import Mathlib.Data.List.TakeDrop

/-!
# Reading lines from a file

`fgets` on a stream that is the rest of a file.  A call takes the characters up to the first
newline, but no more than its buffer has room for, so that a line can come in pieces;
`readLine_cases` tells the three ways in which a piece ends, and `pieces_eq_flatMap` that the pieces
of a file are those of its lines.
-/

namespace Alnp

/-- A file open for reading: what has not been read, and the end-of-file indicator. -/
structure Stream where
  rest : List Char
  eof : Bool

/-- A text file. -/
structure TextFile where
  content : List Char
  noNul : nul ∉ content

/-- The file behind `fopen`. -/
def TextFile.open (file : TextFile) : Stream := ⟨file.content, false⟩

/-- Read up to a newline, but at most `n` characters: the piece, what is left, and whether the end
of the file was met. -/
def readLine : Nat → List Char → List Char × List Char × Bool
  | 0, rest => ([], rest, false)
  | _ + 1, [] => ([], [], true)
  | n + 1, c :: rest =>
      if c = '\n' then ([c], rest, false)
      else
        let (piece, left, ended) := readLine n rest
        (c :: piece, left, ended)

/-- `fgets(buf, size, fp)`: the buffer, or nothing for a null pointer. -/
def fgets (size : Nat) (buf : List Char) (fp : Stream) : Option (List Char) × Stream :=
  match readLine (size - 1) fp.rest with
  | ([], left, ended) => (none, ⟨left, fp.eof || ended⟩)
  | (piece, left, ended) =>
      (some (Buffer.copy (piece ++ [nul]) buf).value, ⟨left, fp.eof || ended⟩)

/-- `getline(&line, &n, fp)`: the line, without the NUL behind it, or nothing for -1. -/
def getline (fp : Stream) : Option (List Char) × Stream :=
  match readLine (fp.rest.length + 1) fp.rest with
  | ([], left, ended) => (none, ⟨left, fp.eof || ended⟩)
  | (line, left, ended) => (some line, ⟨left, fp.eof || ended⟩)

/-- `strnlen(s, maxlen)` -/
def strnlen (s : List Char) (maxlen : Nat) : Nat := (cString (s.take maxlen)).length

/-! ## How a piece ends -/

/-- The piece is a line with its newline, or it is as long as it can be, or it ends the file. -/
inductive ReadLine (n : Nat) : List Char → List Char × List Char × Bool → Prop
  | line (text left : List Char) :
      '\n' ∉ text → text.length + 1 ≤ n →
      ReadLine n (text ++ '\n' :: left) (text ++ ['\n'], left, false)
  | full (piece left : List Char) :
      '\n' ∉ piece → piece.length = n → ReadLine n (piece ++ left) (piece, left, false)
  | last (piece : List Char) :
      '\n' ∉ piece → piece.length < n → ReadLine n piece (piece, [], true)

theorem ReadLine.cons {n : Nat} {c : Char} {rest : List Char} {read : List Char × List Char × Bool}
    (other : c ≠ '\n') (read' : ReadLine n rest read) :
    ReadLine (n + 1) (c :: rest) (c :: read.1, read.2.1, read.2.2) := by
  have absent {piece : List Char} (none : '\n' ∉ piece) : '\n' ∉ c :: piece :=
    List.not_mem_cons_of_ne_of_not_mem other.symm none
  cases read' with
  | line text left none short =>
      exact .line (c :: text) left (absent none) (Nat.succ_le_succ short)
  | full piece left none whole =>
      exact .full (c :: piece) left (absent none) (congrArg (· + 1) whole)
  | last _ none short =>
      exact .last (c :: rest) (absent none) (Nat.succ_lt_succ short)

theorem readLine_cases (n : Nat) (rest : List Char) : ReadLine n rest (readLine n rest) := by
  induction n generalizing rest with
  | zero => exact .full [] rest List.not_mem_nil rfl
  | succ n ih =>
      cases rest with
      | nil => exact .last [] List.not_mem_nil (Nat.succ_pos n)
      | cons c rest =>
          rw [readLine]
          split
          · next newline =>
              subst newline
              exact .line [] rest List.not_mem_nil (Nat.succ_le_succ (Nat.zero_le n))
          · next other => exact .cons other (ih rest)

variable {n : Nat} {rest : List Char} {read : List Char × List Char × Bool}

/-- The pieces are the file, one behind the other. -/
theorem ReadLine.append (read' : ReadLine n rest read) : read.1 ++ read.2.1 = rest := by
  cases read' with
  | line text left none short => simp
  | full piece left none whole => rfl
  | last _ none short => exact List.append_nil rest

theorem ReadLine.length_le (read' : ReadLine n rest read) : read.1.length ≤ n := by
  cases read' with
  | line text left none short => simpa using short
  | full piece left none whole => exact Nat.le_of_eq whole
  | last _ none short => exact Nat.le_of_lt short

/-- There is a piece as long as there is something to read. -/
theorem ReadLine.ne_nil (read' : ReadLine n rest read) (room : 0 < n) (more : rest ≠ []) :
    read.1 ≠ [] := by
  cases read' with
  | line text left none short => simp
  | full piece left none whole =>
      rintro rfl
      exact absurd whole (Nat.ne_of_lt room)
  | last _ none short => exact more

/-- Every piece leaves less to read. -/
theorem ReadLine.length_left_lt (read' : ReadLine n rest read) (room : 0 < n) (more : rest ≠ []) :
    read.2.1.length < rest.length := by
  have some := List.length_pos_iff.mpr (read'.ne_nil room more)
  have lengths := congrArg List.length read'.append
  rw [List.length_append] at lengths
  omega

/-- A newline ends a piece. -/
theorem ReadLine.newline_last (read' : ReadLine n rest read) : '\n' ∉ read.1.dropLast := by
  cases read' with
  | line text left none short =>
      rw [List.dropLast_concat]
      exact none
  | full piece left none whole => exact fun member => none (List.dropLast_subset piece member)
  | last _ none short => exact fun member => none (List.dropLast_subset rest member)

/-- The end of the file is met behind its last character only. -/
theorem ReadLine.left_of_ended (read' : ReadLine n rest read) (ended : read.2.2 = true) :
    read.2.1 = [] := by
  cases read' with
  | line text left none short => cases ended
  | full piece left none whole => cases ended
  | last _ none short => rfl

/-! ## Files of short lines -/

/-- The content consists of lines that each have a newline and fit a piece with it. -/
def Lined (n : Nat) (content : List Char) : Prop :=
  ∃ lines : List (List Char), content = lines.flatMap (· ++ ['\n']) ∧
    ∀ line ∈ lines, '\n' ∉ line ∧ line.length + 1 ≤ n

/-- The lines of such a content, without their newlines. -/
structure LinesOf (n : Nat) (content : List Char) (lines : List (List Char)) : Prop where
  content_eq : content = lines.flatMap (· ++ ['\n'])
  short : ∀ line ∈ lines, '\n' ∉ line ∧ line.length + 1 ≤ n

theorem lined_nil (n : Nat) : Lined n [] := ⟨[], rfl, nofun⟩

/-- The first newline splits a content in one way. -/
theorem append_newline_inj {text text' left left' : List Char} (none : '\n' ∉ text)
    (none' : '\n' ∉ text') (same : text ++ '\n' :: left = text' ++ '\n' :: left') :
    text = text' ∧ left = left' := by
  induction text generalizing text' with
  | nil =>
      cases text' with
      | nil => exact ⟨rfl, (List.cons.inj same).2⟩
      | cons c text' =>
          have first : '\n' = c := (List.cons.inj same).1
          exact absurd (first ▸ List.mem_cons_self) none'
  | cons c text ih =>
      cases text' with
      | nil =>
          have first : c = '\n' := (List.cons.inj same).1
          exact absurd (first ▸ List.mem_cons_self) none
      | cons c' text' =>
          obtain ⟨rfl, rest⟩ := List.cons.inj same
          obtain ⟨rfl, rfl⟩ := ih (mt (List.mem_cons_of_mem c) none)
            (mt (List.mem_cons_of_mem c) none') rest
          exact ⟨rfl, rfl⟩

/-- A content of short lines that is not empty begins with one. -/
theorem Lined.uncons (lined : Lined n rest) (more : rest ≠ []) :
    ∃ line left, rest = line ++ '\n' :: left ∧ '\n' ∉ line ∧ line.length + 1 ≤ n ∧
      Lined n left := by
  obtain ⟨lines, rfl, short⟩ := lined
  cases lines with
  | nil => exact absurd rfl more
  | cons line lines =>
      obtain ⟨⟨none, fits⟩, others⟩ := List.forall_mem_cons.mp short
      exact ⟨line, lines.flatMap (· ++ ['\n']), by simp, none, fits, lines, rfl, others⟩

/-- A short line in front changes nothing. -/
theorem lined_append_iff {text left : List Char} (none : '\n' ∉ text)
    (short : text.length + 1 ≤ n) : Lined n (text ++ '\n' :: left) ↔ Lined n left := by
  constructor
  · intro lined
    obtain ⟨line, left', same, none', -, lined'⟩ := lined.uncons (by simp)
    rw [(append_newline_inj none none' same).2]
    exact lined'
  · rintro ⟨lines, rfl, others⟩
    exact ⟨text :: lines, by simp, List.forall_mem_cons.mpr ⟨⟨none, short⟩, others⟩⟩

/-- A piece without newline is not the beginning of such a content, unless it could be longer. -/
theorem not_lined_append {piece left : List Char} (none : '\n' ∉ piece) (some : piece ≠ [])
    (ends : piece.length = n ∨ left = []) : ¬ Lined n (piece ++ left) := by
  intro lined
  obtain ⟨line, left', same, -, short, -⟩ := lined.uncons (by simp [some])
  have inside : line.length < piece.length := by
    rcases ends with whole | rfl
    · omega
    · have lengths := congrArg List.length same
      simp only [List.append_nil, List.length_append, List.length_cons] at lengths
      omega
  have newline : (piece ++ left)[line.length]? = Option.some '\n' := by
    rw [same]
    simp
  rw [List.getElem?_append_left inside] at newline
  exact none (List.mem_of_getElem? newline)

/-! ## Lines and their pieces -/

/-- The lines of a file, each with its newline. -/
def fileLines : List Char → List (List Char)
  | [] => []
  | c :: rest =>
      if c = '\n' then [c] :: fileLines rest
      else (c :: (fileLines rest).headD []) :: (fileLines rest).tail

/-- The strings that `fgets` with room for `n` characters returns, up to the end of the file. -/
def pieces (n : Nat) (content : List Char) : List (List Char) :=
  if _ : 0 < n ∧ content ≠ [] then
    (readLine n content).1 :: pieces n (readLine n content).2.1
  else []
termination_by content.length
decreasing_by
  next room => exact (readLine_cases n content).length_left_lt room.1 room.2

/-- A line in front of the rest of a file. -/
structure IsLine (line rest : List Char) : Prop where
  newline : '\n' ∉ line.dropLast
  ends : line.getLast? = some '\n' ∨ rest = []

variable {line : List Char}

theorem isLine_cons_iff {c : Char} (other : c ≠ '\n') :
    IsLine (c :: line) rest ↔ IsLine line rest := by
  cases line with
  | nil =>
      constructor
      · rintro ⟨-, ends⟩
        exact ⟨List.not_mem_nil, .inr (ends.resolve_left (by simpa using other))⟩
      · rintro ⟨-, ends⟩
        exact ⟨List.not_mem_nil, .inr (ends.resolve_left nofun)⟩
  | cons d line =>
      constructor
      · rintro ⟨newline, ends⟩
        exact ⟨mt (List.mem_cons_of_mem c) newline, ends⟩
      · rintro ⟨newline, ends⟩
        exact ⟨List.not_mem_cons_of_ne_of_not_mem other.symm newline, ends⟩

theorem IsLine.drop (isLine : IsLine line rest) {n : Nat} (more : n < line.length) :
    IsLine (line.drop n) rest := by
  obtain ⟨newline, ends⟩ := isLine
  refine ⟨fun member => newline ?_, ?_⟩
  · rw [List.dropLast_drop_eq_drop_dropLast] at member
    exact List.mem_of_mem_drop member
  · rw [List.getLast?_drop, if_neg (Nat.not_le_of_lt more)]
    exact ends

/-- The lines are what newlines end. -/
theorem fileLines_cases (content : List Char) (some : content ≠ []) :
    ∃ line rest, content = line ++ rest ∧ line ≠ [] ∧ IsLine line rest ∧
      fileLines content = line :: fileLines rest := by
  induction content with
  | nil => exact absurd rfl some
  | cons c content ih =>
      rw [fileLines]
      split
      · next newline =>
          subst newline
          exact ⟨['\n'], content, rfl, List.cons_ne_nil _ _, ⟨List.not_mem_nil, .inl rfl⟩, rfl⟩
      · next other =>
          cases content with
          | nil => exact ⟨[c], [], rfl, List.cons_ne_nil _ _, ⟨List.not_mem_nil, .inr rfl⟩, rfl⟩
          | cons d content =>
              obtain ⟨line, rest, split, -, isLine, lines⟩ := ih (List.cons_ne_nil d content)
              refine ⟨c :: line, rest, congrArg (c :: ·) split, List.cons_ne_nil _ _,
                (isLine_cons_iff other).mpr isLine, ?_⟩
              rw [lines, List.headD_cons, List.tail_cons]

/-- A file of one line. -/
theorem fileLines_line {text : List Char} (absent : '\n' ∉ text) :
    fileLines (text ++ ['\n']) = [text ++ ['\n']] := by
  induction text with
  | nil => rfl
  | cons c text ih =>
      have other : c ≠ '\n' := fun same => absent (same ▸ List.mem_cons_self)
      rw [List.cons_append, fileLines, if_neg other, ih (mt (List.mem_cons_of_mem c) absent)]
      rfl

/-- Induction on the lines. -/
@[elab_as_elim]
theorem fileLines_induction {P : List Char → Prop} (nil : P [])
    (line : ∀ line rest, line ≠ [] → IsLine line rest →
      fileLines (line ++ rest) = line :: fileLines rest → P rest → P (line ++ rest))
    (content : List Char) : P content := by
  induction length : content.length using Nat.strongRecOn generalizing content with
  | ind k ih =>
      by_cases some : content = []
      · subst some
        exact nil
      · obtain ⟨first, rest, rfl, nonempty, isLine, lines⟩ := fileLines_cases content some
        have shorter := List.length_pos_iff.mpr nonempty
        rw [List.length_append] at length
        exact line first rest nonempty isLine lines (ih rest.length (by omega) rest rfl)

theorem flatten_fileLines (content : List Char) : (fileLines content).flatten = content := by
  induction content using fileLines_induction with
  | nil => rfl
  | line line rest _ _ lines ih => rw [lines, List.flatten_cons, ih]

theorem IsLine.alone (isLine : IsLine line rest) : IsLine line [] := ⟨isLine.newline, .inr rfl⟩

/-- What `fileLines` returns are lines. -/
theorem isLine_of_mem {content : List Char} (member : line ∈ fileLines content) :
    line ≠ [] ∧ IsLine line [] := by
  induction content using fileLines_induction with
  | nil => cases member
  | line first rest some isLine lines ih =>
      rw [lines] at member
      rcases List.mem_cons.mp member with rfl | later
      · exact ⟨some, isLine.alone⟩
      · exact ih later

/-- A piece of a line is as much of it as there is room for. -/
theorem readLine_line {n : Nat} (isLine : IsLine line rest) :
    (readLine n (line ++ rest)).1 = line.take n ∧
      (readLine n (line ++ rest)).2.1 = line.drop n ++ rest := by
  induction n generalizing line with
  | zero => exact ⟨rfl, rfl⟩
  | succ n ih =>
      cases line with
      | nil =>
          obtain rfl := isLine.ends.resolve_left nofun
          exact ⟨rfl, rfl⟩
      | cons c line =>
          rw [List.cons_append, readLine]
          split
          · next newline =>
              subst newline
              cases line with
              | nil => exact ⟨by simp, by simp⟩
              | cons d line => exact absurd List.mem_cons_self isLine.newline
          · next other =>
              obtain ⟨piece, left⟩ := ih ((isLine_cons_iff other).mp isLine)
              exact ⟨congrArg (c :: ·) piece, left⟩

theorem pieces_nil (n : Nat) : pieces n [] = [] := by
  rw [pieces, dif_neg (by simp)]

theorem pieces_of_ne_nil {n : Nat} (room : 0 < n) {content : List Char} (some : content ≠ []) :
    pieces n content = (readLine n content).1 :: pieces n (readLine n content).2.1 := by
  rw [pieces, dif_pos ⟨room, some⟩]

/-- A newline ends a piece. -/
theorem newline_of_mem_pieces {n : Nat} {content piece : List Char}
    (member : piece ∈ pieces n content) : '\n' ∉ piece.dropLast := by
  fun_induction pieces n content with
  | case1 content _ ih =>
      rcases List.mem_cons.mp member with rfl | later
      · exact (readLine_cases n content).newline_last
      · exact ih later
  | case2 => cases member

/-- The pieces of a line are those of its first characters and the others. -/
theorem pieces_line_append {n : Nat} (room : 0 < n) (isLine : IsLine line rest) (some : line ≠ []) :
    pieces n (line ++ rest) = line.take n :: pieces n (line.drop n ++ rest) := by
  obtain ⟨piece, left⟩ := readLine_line (n := n) isLine
  rw [pieces_of_ne_nil room (by simp [some]), piece, left]

theorem pieces_line {n : Nat} (room : 0 < n) (isLine : IsLine line rest) (some : line ≠ []) :
    pieces n line = line.take n :: pieces n (line.drop n) := by
  have first := pieces_line_append room isLine.alone some
  rwa [List.append_nil, List.append_nil] at first

/-- A line comes in its own pieces. -/
theorem pieces_append {n : Nat} (room : 0 < n) (isLine : IsLine line rest) :
    pieces n (line ++ rest) = pieces n line ++ pieces n rest := by
  induction length : line.length using Nat.strongRecOn generalizing line with
  | ind k ih =>
      by_cases some : line = []
      · subst some
        rw [pieces_nil, List.nil_append, List.nil_append]
      · rw [pieces_line_append room isLine some, pieces_line room isLine some, List.cons_append]
        by_cases more : n < line.length
        · rw [ih (line.drop n).length (by rw [List.length_drop]; omega) (isLine.drop more) rfl]
        · rw [List.drop_of_length_le (Nat.le_of_not_lt more), pieces_nil, List.nil_append,
            List.nil_append]

/-- The pieces of a file are those of its lines. -/
theorem pieces_eq_flatMap {n : Nat} (room : 0 < n) (content : List Char) :
    pieces n content = (fileLines content).flatMap (pieces n) := by
  induction content using fileLines_induction with
  | nil => exact pieces_nil n
  | line line rest _ isLine lines ih =>
      rw [pieces_append room isLine, lines, List.flatMap_cons, ih]

/-- Short lines come in one piece each. -/
theorem LinesOf.pieces_eq {n : Nat} {content : List Char} {lines : List (List Char)}
    (linesOf : LinesOf n content lines) : pieces n content = lines.map (· ++ ['\n']) := by
  obtain ⟨rfl, short⟩ := linesOf
  induction lines with
  | nil => exact pieces_nil n
  | cons line lines ih =>
      obtain ⟨⟨none, fits⟩, others⟩ := List.forall_mem_cons.mp short
      have isLine : IsLine (line ++ ['\n']) (lines.flatMap (· ++ ['\n'])) := by
        refine ⟨?_, .inl List.getLast?_concat⟩
        rw [List.dropLast_concat]
        exact none
      have length : (line ++ ['\n']).length ≤ n := by
        rw [List.length_append, List.length_singleton]
        exact fits
      rw [List.flatMap_cons, pieces_line_append (by omega) isLine (by simp),
        List.take_of_length_le length, List.drop_of_length_le length, List.nil_append, ih others,
        List.map_cons]

/-! ## `fgets` -/

theorem fgets_of_nil (size : Nat) (buf : List Char) {fp : Stream} (done : fp.rest = []) :
    ∃ fp', fgets size buf fp = (none, fp') := by
  unfold fgets
  rw [done]
  cases size - 1 with
  | zero => exact ⟨_, rfl⟩
  | succ n => exact ⟨_, rfl⟩

/-- A piece with its NUL at the beginning of the buffer. -/
theorem fgets_of_ne_nil (size : Nat) {buf : List Char} {fp : Stream} (room : 1 < size)
    (whole : buf.length = size) (more : fp.rest ≠ []) :
    ∃ behind, (readLine (size - 1) fp.rest).1.length + 1 + behind.length = size ∧
      fgets size buf fp =
        (some ((readLine (size - 1) fp.rest).1 ++ nul :: behind),
          ⟨(readLine (size - 1) fp.rest).2.1, fp.eof || (readLine (size - 1) fp.rest).2.2⟩) := by
  have cases' := readLine_cases (size - 1) fp.rest
  have some := cases'.ne_nil (by omega) more
  have short := cases'.length_le
  unfold fgets
  generalize readLine (size - 1) fp.rest = read at some short ⊢
  obtain ⟨piece, left, ended⟩ := read
  dsimp only at some short ⊢
  have fits : (piece ++ [nul]).length ≤ buf.length := by
    rw [List.length_append, List.length_singleton, whole]
    omega
  refine ⟨buf.drop (piece ++ [nul]).length, ?_, ?_⟩
  · rw [List.length_drop, List.length_append, List.length_singleton, whole]
    omega
  · cases piece with
    | nil => exact absurd rfl some
    | cons c piece =>
        dsimp only
        rw [Buffer.value_copy fits]
        simp

/-- What `fgets` has filled a buffer with. -/
theorem line_of_fgets {size : Nat} {buf rbuf : List Char} {fp fp' : Stream} (room : 1 < size)
    (whole : buf.length = size) (got : fgets size buf fp = (some rbuf, fp')) :
    ∃ piece behind, rbuf = piece ++ nul :: behind ∧ '\n' ∉ piece.dropLast ∧
      piece.length + 1 + behind.length = size := by
  by_cases done : fp.rest = []
  · obtain ⟨fp'', missed⟩ := fgets_of_nil size buf done
    cases missed.symm.trans got
  · obtain ⟨behind, fits, filled⟩ := fgets_of_ne_nil size room whole done
    cases filled.symm.trans got
    exact ⟨_, behind, rfl, (readLine_cases (size - 1) fp.rest).newline_last, fits⟩

/-- The length of a string that has no NUL of its own. -/
theorem strnlen_append_nul {text behind : List Char} {maxlen : Nat} (none : nul ∉ text)
    (fits : text.length ≤ maxlen) : strnlen (text ++ nul :: behind) maxlen = text.length := by
  obtain ⟨k, rfl⟩ : ∃ k, maxlen = text.length + k := ⟨maxlen - text.length, by omega⟩
  rw [strnlen, List.take_length_add_append]
  cases k with
  | zero =>
      rw [List.take_zero, List.append_nil, cString_of_notMem none]
  | succ k => rw [List.take_succ_cons, cString_append_nul none]

/-- `getline` reads the lines one by one. -/
theorem getline_cases (fp : Stream) :
    fp.rest = [] ∧ (∃ eof, getline fp = (none, ⟨[], eof⟩)) ∨
      ∃ line rest eof, getline fp = (some line, ⟨rest, eof⟩) ∧ line ≠ [] ∧
        fp.rest = line ++ rest ∧ fileLines fp.rest = line :: fileLines rest := by
  by_cases done : fp.rest = []
  · refine .inl ⟨done, fp.eof || true, ?_⟩
    unfold getline
    rw [done]
    rfl
  · obtain ⟨line, rest, split, some, isLine, lines⟩ := fileLines_cases fp.rest done
    obtain ⟨first, left⟩ := readLine_line (n := fp.rest.length + 1) isLine
    have long : line.length ≤ fp.rest.length + 1 := by
      rw [split, List.length_append]
      omega
    rw [← split, List.take_of_length_le long] at first
    rw [← split, List.drop_of_length_le long] at left
    refine .inr ⟨line, rest, fp.eof || (readLine (fp.rest.length + 1) fp.rest).2.2, ?_, some, split,
      lines⟩
    unfold getline
    generalize readLine (fp.rest.length + 1) fp.rest = read at first left ⊢
    obtain ⟨piece, rest', ended⟩ := read
    cases first
    cases left
    obtain ⟨c, line, rfl⟩ := List.exists_cons_of_ne_nil some
    rfl

end Alnp
