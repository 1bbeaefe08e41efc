import Alnp.Kernel.Stdio
import Alnp.Lib.Loop

/-!
# The line senders

`start_msq_sender` of `Chapter05/sysv_msg.c` and `Chapter05/posix_msq.c` sends a file through a
message queue, a message for each string that `fgets` returns, without its last character.  The last
character is a newline unless the line was longer than the buffer or the file ends without one.

`lossless_iff`: the texts of the messages are the file without its newlines exactly if every line
ends with a newline within the buffer.
-/

namespace Alnp.LineTransport

/-! ## `sysv_msg.c` -/

namespace SysvMsg

def lenMqMtext : Nat := 512

/-- The variables of `start_msq_sender`, and the messages sent, each with its `mtype`. -/
structure Sender where
  fpSrcfile : Stream
  rbuf : List Char
  mtext : List Char
  number : Int
  sent : List (Int × List Char)

/-- `len_mtext`, when `fgets` has filled `rbuf`. -/
def lenMtext (rbuf : List Char) : Int := (strnlen rbuf lenMqMtext : Int) - 1

/-- A turn of the loop; `msgsnd` says whether `msgsnd` succeeds. -/
def turn (msgsnd : Bool) (s : Sender) : Flow Sender :=
  if s.fpSrcfile.eof then .leave s
  else
    match fgets lenMqMtext s.rbuf s.fpSrcfile with
    | (none, fp) => .leave { s with fpSrcfile := fp }
    | (some rbuf, fp) =>
        let len := (lenMtext rbuf).toNat
        let mtext := (Buffer.copy (rbuf.take len) s.mtext).value
        let t : Sender := ⟨fp, rbuf, mtext, s.number + 1, s.sent⟩
        if msgsnd then .next { t with sent := s.sent ++ [(s.number, mtext.take len)] }
        else .leave t

/-- In front of the loop, whatever the buffers hold. -/
def start (rbuf mtext : Vector Char lenMqMtext) (file : TextFile) : Sender :=
  ⟨file.open, rbuf.toList, mtext.toList, 1, []⟩

end SysvMsg

/-! ## `posix_msq.c` -/

namespace PosixMsq

def lenRbuf : Nat := 512

/-- The variables of `start_msq_sender`, and the messages sent. -/
structure Sender where
  fpSrcfile : Stream
  rbuf : List Char
  sent : List (List Char)

/-- `len_rbuf`, when `fgets` has filled `rbuf`. -/
def lenOf (rbuf : List Char) : Int := (strnlen rbuf lenRbuf : Int) - 1

/-- A turn of the loop; `mqSend` says whether `mq_send` succeeds.  The loop goes on where it does
not. -/
def turn (mqSend : Bool) (s : Sender) : Flow Sender :=
  if s.fpSrcfile.eof then .leave s
  else
    match fgets lenRbuf s.rbuf s.fpSrcfile with
    | (none, fp) => .leave { s with fpSrcfile := fp }
    | (some rbuf, fp) =>
        let len := (lenOf rbuf).toNat
        let t : Sender := ⟨fp, rbuf, s.sent⟩
        if mqSend then .next { t with sent := s.sent ++ [rbuf.take len] } else .next t

/-- In front of the loop, whatever the buffer holds. -/
def start (rbuf : Vector Char lenRbuf) (file : TextFile) : Sender :=
  ⟨file.open, rbuf.toList, []⟩

end PosixMsq

/-! ## What the two have in common -/

/-- A loop that sends every piece of a file without its last character. -/
structure LineSender (σ : Type) where
  turn : σ → Flow σ
  fp : σ → Stream
  /-- The texts of the messages sent. -/
  texts : σ → List (List Char)
  /-- The buffers have their sizes. -/
  Sized : σ → Prop
  size : Nat
  room : 1 < size
  atEof : ∀ s, (fp s).eof = true → turn s = .leave s
  atEnd : ∀ s, (fp s).eof = false → (fp s).rest = [] →
    ∃ t, turn s = .leave t ∧ texts t = texts s
  sends : ∀ s, Sized s → (fp s).eof = false → (fp s).rest ≠ [] → nul ∉ (fp s).rest →
    let read := readLine (size - 1) (fp s).rest
    ∃ t, turn s = .next t ∧ Sized t ∧ fp t = ⟨read.2.1, read.2.2⟩ ∧
      texts t = texts s ++ [read.1.dropLast]

/-- A content without its newlines. -/
def strip (content : List Char) : List Char := content.filter (· ≠ '\n')

variable {text left content : List Char}

theorem strip_append (content left : List Char) :
    strip (content ++ left) = strip content ++ strip left :=
  List.filter_append _ _

theorem strip_of_not_mem (none : '\n' ∉ text) : strip text = text := by
  refine List.filter_eq_self.mpr fun c member => ?_
  simpa using fun same : c = '\n' => none (same ▸ member)

theorem strip_line (none : '\n' ∉ text) : strip (text ++ '\n' :: left) = text ++ strip left := by
  rw [strip_append, strip_of_not_mem none]
  rfl

/-- The texts of the messages for a file: its pieces without their last characters. -/
def textsOf (n : Nat) (content : List Char) : List (List Char) :=
  (pieces n content).map List.dropLast

theorem textsOf_nil (n : Nat) : textsOf n [] = [] := by rw [textsOf, pieces_nil, List.map_nil]

/-- The texts for a file of short lines are its lines. -/
theorem textsOf_of_linesOf {n : Nat} {lines : List (List Char)}
    (linesOf : LinesOf n content lines) : textsOf n content = lines := by
  rw [textsOf, linesOf.pieces_eq, List.map_map]
  exact List.map_id'' (fun line => List.dropLast_concat) lines

/-- The texts sent so far with the rest of the file are the file without its newlines, or a
character has been lost and a line was too long for its piece or had no newline. -/
def Accounts (n : Nat) (content : List Char) (texts : List (List Char)) (rest : List Char) : Prop :=
  texts.flatten ++ strip rest = strip content ∧ (Lined n rest ↔ Lined n content) ∨
    texts.flatten.length + (strip rest).length < (strip content).length ∧ ¬ Lined n content

variable {n : Nat} {texts : List (List Char)} {rest : List Char}

/-- At the end of the file the texts tell whether the lines were short. -/
theorem Accounts.done (accounts : Accounts n content texts []) :
    texts.flatten = strip content ↔ Lined n content := by
  rcases accounts with ⟨same, lined⟩ | ⟨shorter, long⟩
  · exact iff_of_true ((List.append_nil _).symm.trans same) (lined.mp (lined_nil n))
  · refine iff_of_false (fun whole => ?_) long
    rw [whole] at shorter
    omega

/-- A line is sent whole. -/
theorem Accounts.line (accounts : Accounts n content texts (text ++ '\n' :: left))
    (none : '\n' ∉ text) (short : text.length + 1 ≤ n) :
    Accounts n content (texts ++ [text]) left := by
  unfold Accounts at accounts ⊢
  rw [strip_line none, lined_append_iff none short, List.length_append,
    ← List.append_assoc] at accounts
  rw [List.flatten_append, List.flatten_singleton, List.length_append]
  rcases accounts with same | ⟨shorter, long⟩
  · exact .inl same
  · exact .inr ⟨by omega, long⟩

/-- A piece without newline loses a character. -/
theorem Accounts.cut {piece : List Char} (accounts : Accounts n content texts (piece ++ left))
    (none : '\n' ∉ piece) (some : piece ≠ []) (ends : piece.length = n ∨ left = []) :
    Accounts n content (texts ++ [piece.dropLast]) left := by
  have long := not_lined_append none some ends
  have nonempty : 0 < piece.length := List.length_pos_iff.mpr some
  unfold Accounts at accounts ⊢
  rw [strip_append, strip_of_not_mem none] at accounts
  rw [List.flatten_append, List.flatten_singleton, List.length_append, List.length_dropLast]
  right
  rcases accounts with ⟨same, lined⟩ | ⟨shorter, long'⟩
  · refine ⟨?_, mt lined.mpr long⟩
    have lengths := congrArg List.length same
    rw [List.length_append, List.length_append] at lengths
    omega
  · refine ⟨?_, long'⟩
    rw [List.length_append] at shorter
    omega

theorem Accounts.send {read : List Char × List Char × Bool}
    (accounts : Accounts n content texts rest) (read' : ReadLine n rest read) (some : read.1 ≠ []) :
    Accounts n content (texts ++ [read.1.dropLast]) read.2.1 := by
  cases read' with
  | line text left none short =>
      rw [List.dropLast_concat]
      exact accounts.line none short
  | full piece left none whole => exact accounts.cut none some (.inl whole)
  | last _ none short =>
      rw [← List.append_nil rest] at accounts
      exact accounts.cut none some (.inr rfl)

namespace LineSender

variable {σ : Type} (sender : LineSender σ) {s t : σ}

/-- The loop is at work on a file. -/
structure Carries (content : List Char) (s : σ) : Prop where
  sized : sender.Sized s
  noNul : nul ∉ (sender.fp s).rest
  ended : (sender.fp s).eof = true → (sender.fp s).rest = []
  accounts : Accounts (sender.size - 1) content (sender.texts s) (sender.fp s).rest
  sent : sender.texts s ++ textsOf (sender.size - 1) (sender.fp s).rest =
    textsOf (sender.size - 1) content

/-- In front of the loop. -/
structure Starts (file : TextFile) (s : σ) : Prop where
  sized : sender.Sized s
  fp : sender.fp s = file.open
  texts : sender.texts s = []

variable {sender} {file : TextFile}

theorem Starts.carries (starts : sender.Starts file s) : sender.Carries file.content s := by
  refine ⟨starts.sized, ?_, ?_, ?_, ?_⟩
  · rw [starts.fp]
    exact file.noNul
  · rw [starts.fp]
    nofun
  · rw [starts.fp, starts.texts]
    exact .inl ⟨rfl, Iff.rfl⟩
  · rw [starts.fp, starts.texts]
    rfl

/-- A message more. -/
theorem Carries.next (carries : sender.Carries content s) (eof : (sender.fp s).eof = false)
    (more : (sender.fp s).rest ≠ []) :
    ∃ t, sender.turn s = .next t ∧ sender.Carries content t ∧
      (sender.fp t).rest.length < (sender.fp s).rest.length := by
  obtain ⟨t, turn, sized, fp, texts⟩ := sender.sends s carries.sized eof more carries.noNul
  have read := readLine_cases (sender.size - 1) (sender.fp s).rest
  have some := read.ne_nil (Nat.sub_pos_of_lt sender.room) more
  have noNul := carries.noNul
  rw [← read.append, List.mem_append, not_or] at noNul
  refine ⟨t, turn, ⟨sized, ?_, ?_, ?_, ?_⟩, ?_⟩
  · rw [fp]
    exact noNul.2
  · rw [fp]
    exact read.left_of_ended
  · rw [fp, texts]
    exact carries.accounts.send read some
  · have first := pieces_of_ne_nil (Nat.sub_pos_of_lt sender.room) more
    rw [fp, texts, ← carries.sent, textsOf, textsOf, first, List.map_cons, List.append_assoc]
    rfl
  · rw [fp]
    exact read.length_left_lt (Nat.sub_pos_of_lt sender.room) more

/-- A turn sends a message, or it is the last one and a message for each piece of the file has been
sent. -/
theorem Carries.turn_cases (carries : sender.Carries content s) :
    (∃ t text, sender.turn s = .next t ∧ sender.texts t = sender.texts s ++ [text] ∧
      sender.Carries content t ∧ (sender.fp t).rest.length < (sender.fp s).rest.length) ∨
    ∃ t, sender.turn s = .leave t ∧ sender.texts t = sender.texts s ∧
      sender.texts s = textsOf (sender.size - 1) content ∧
      ((sender.texts s).flatten = strip content ↔ Lined (sender.size - 1) content) := by
  have accounts := carries.accounts
  have sent := carries.sent
  cases eof : (sender.fp s).eof with
  | true =>
      rw [carries.ended eof] at accounts
      rw [carries.ended eof, textsOf_nil, List.append_nil] at sent
      exact .inr ⟨s, sender.atEof s eof, rfl, sent, accounts.done⟩
  | false =>
      by_cases done : (sender.fp s).rest = []
      · obtain ⟨t, left, texts⟩ := sender.atEnd s eof done
        rw [done] at accounts
        rw [done, textsOf_nil, List.append_nil] at sent
        exact .inr ⟨t, left, texts, sent, accounts.done⟩
      · obtain ⟨t, next, carries', less⟩ := carries.next eof done
        obtain ⟨t', next', -, -, texts⟩ := sender.sends s carries.sized eof done carries.noNul
        cases Flow.next.inj (next.symm.trans next')
        exact .inl ⟨t, _, next, texts, carries', less⟩

theorem Carries.of_next (carries : sender.Carries content s) (next : sender.turn s = .next t) :
    sender.Carries content t ∧ (sender.fp t).rest.length < (sender.fp s).rest.length := by
  rcases carries.turn_cases with ⟨t', text, next', -, carries', less⟩ | ⟨t', left, -⟩
  · cases Flow.next.inj (next.symm.trans next')
    exact ⟨carries', less⟩
  · cases next.symm.trans left

theorem Carries.of_leave (carries : sender.Carries content s) (leave : sender.turn s = .leave t) :
    sender.texts t = sender.texts s ∧ sender.texts s = textsOf (sender.size - 1) content ∧
      ((sender.texts s).flatten = strip content ↔ Lined (sender.size - 1) content) := by
  rcases carries.turn_cases with ⟨t', text, next, -⟩ | ⟨t', left, same, sent, done⟩
  · cases leave.symm.trans next
  · cases Flow.leave.inj (leave.symm.trans left)
    exact ⟨same, sent, done⟩

/-- The loop ends with the file sent, up to what was lost. -/
theorem Carries.ends (carries : sender.Carries content s) :
    Loop.Ends (fun _ : Unit => sender.turn)
      (fun t => (sender.texts t).flatten = strip content ↔ Lined (sender.size - 1) content) s := by
  refine Loop.ends_of_measure (fun t => (sender.fp t).rest.length) ?_ carries
  intro _ s carries
  have accounts := carries.accounts
  cases eof : (sender.fp s).eof with
  | true =>
      rw [carries.ended eof] at accounts
      exact .inl ⟨s, sender.atEof s eof, accounts.done⟩
  | false =>
      by_cases done : (sender.fp s).rest = []
      · obtain ⟨t, left, texts⟩ := sender.atEnd s eof done
        rw [done, ← texts] at accounts
        exact .inl ⟨t, left, accounts.done⟩
      · exact .inr (carries.next eof done)

/-- The loop sends the whole file exactly if its lines are short. -/
theorem Starts.ends_iff (starts : sender.Starts file s) :
    Loop.Ends (fun _ : Unit => sender.turn)
        (fun t => (sender.texts t).flatten = strip file.content) s ↔
      Lined (sender.size - 1) file.content := by
  have ends := starts.carries.ends
  constructor
  · intro whole
    obtain ⟨t, same, either⟩ := (whole.and ends).exists
    exact either.mp same
  · intro lined
    exact ends.mono fun t either => either.mpr lined

end LineSender

/-! ## Both programs are such loops -/

/-- The length that the programs compute for a piece. -/
theorem toNat_strnlen_sub_one {size : Nat} {piece behind : List Char} (none : nul ∉ piece)
    (fits : piece.length + 1 + behind.length = size) :
    ((strnlen (piece ++ nul :: behind) size : Int) - 1).toNat = piece.length - 1 := by
  rw [strnlen_append_nul none (by omega)]
  omega

/-- What they take of it. -/
theorem take_piece (piece behind : List Char) :
    (piece ++ nul :: behind).take (piece.length - 1) = piece.dropLast := by
  rw [List.take_append_of_le_length (Nat.sub_le _ _), List.dropLast_eq_take]

theorem nul_not_mem_readLine {n : Nat} {rest : List Char} (noNul : nul ∉ rest) :
    nul ∉ (readLine n rest).1 := by
  intro member
  rw [← (readLine_cases n rest).append] at noNul
  exact noNul (List.mem_append_left _ member)

theorem SysvMsg.turn_sends (s : SysvMsg.Sender)
    (sized : s.rbuf.length = lenMqMtext ∧ s.mtext.length = lenMqMtext)
    (eof : s.fpSrcfile.eof = false) (more : s.fpSrcfile.rest ≠ [])
    (noNul : nul ∉ s.fpSrcfile.rest) :
    let read := readLine (lenMqMtext - 1) s.fpSrcfile.rest
    ∃ t, turn true s = .next t ∧ (t.rbuf.length = lenMqMtext ∧ t.mtext.length = lenMqMtext) ∧
      t.fpSrcfile = ⟨read.2.1, read.2.2⟩ ∧
      t.sent.map Prod.snd = s.sent.map Prod.snd ++ [read.1.dropLast] := by
  intro read
  obtain ⟨behind, fits, got⟩ := fgets_of_ne_nil lenMqMtext (by decide) sized.1 more
  have fits : read.1.length + 1 + behind.length = lenMqMtext := fits
  have len : (lenMtext (read.1 ++ nul :: behind)).toNat = read.1.length - 1 :=
    toNat_strnlen_sub_one (nul_not_mem_readLine noNul) fits
  have short : read.1.dropLast.length ≤ s.mtext.length := by
    rw [List.length_dropLast, sized.2]
    omega
  have copied : (Buffer.copy read.1.dropLast s.mtext).value.take (read.1.length - 1) =
      read.1.dropLast := by
    rw [← List.length_dropLast]
    exact Buffer.take_copy short
  refine ⟨⟨⟨read.2.1, read.2.2⟩, read.1 ++ nul :: behind,
    (Buffer.copy read.1.dropLast s.mtext).value, s.number + 1,
    s.sent ++ [(s.number, read.1.dropLast)]⟩, ?_, ⟨?_, ?_⟩, rfl, ?_⟩
  · simp only [turn, eof, got, Bool.false_eq_true, ↓reduceIte, Bool.false_or]
    rw [len, take_piece, copied]
  · rw [List.length_append, List.length_cons]
    omega
  · rw [Buffer.length_copy, sized.2]
  · rw [List.map_append, List.map_singleton]

theorem PosixMsq.turn_sends (s : PosixMsq.Sender) (sized : s.rbuf.length = lenRbuf)
    (eof : s.fpSrcfile.eof = false) (more : s.fpSrcfile.rest ≠ [])
    (noNul : nul ∉ s.fpSrcfile.rest) :
    let read := readLine (lenRbuf - 1) s.fpSrcfile.rest
    ∃ t, turn true s = .next t ∧ t.rbuf.length = lenRbuf ∧ t.fpSrcfile = ⟨read.2.1, read.2.2⟩ ∧
      t.sent = s.sent ++ [read.1.dropLast] := by
  intro read
  obtain ⟨behind, fits, got⟩ := fgets_of_ne_nil lenRbuf (by decide) sized more
  have fits : read.1.length + 1 + behind.length = lenRbuf := fits
  have len : (lenOf (read.1 ++ nul :: behind)).toNat = read.1.length - 1 :=
    toNat_strnlen_sub_one (nul_not_mem_readLine noNul) fits
  refine ⟨⟨⟨read.2.1, read.2.2⟩, read.1 ++ nul :: behind, s.sent ++ [read.1.dropLast]⟩, ?_, ?_, rfl,
    rfl⟩
  · simp only [turn, eof, got, Bool.false_eq_true, ↓reduceIte, Bool.false_or]
    rw [len, take_piece]
  · rw [List.length_append, List.length_cons]
    omega

def sysvMsg : LineSender SysvMsg.Sender where
  turn := SysvMsg.turn true
  fp := SysvMsg.Sender.fpSrcfile
  texts s := s.sent.map Prod.snd
  Sized s := s.rbuf.length = SysvMsg.lenMqMtext ∧ s.mtext.length = SysvMsg.lenMqMtext
  size := SysvMsg.lenMqMtext
  room := by decide
  atEof s eof := if_pos eof
  atEnd s eof done := by
    obtain ⟨fp, got⟩ := fgets_of_nil SysvMsg.lenMqMtext s.rbuf done
    exact ⟨{ s with fpSrcfile := fp }, by simp [SysvMsg.turn, eof, got], rfl⟩
  sends := SysvMsg.turn_sends

def posixMsq : LineSender PosixMsq.Sender where
  turn := PosixMsq.turn true
  fp := PosixMsq.Sender.fpSrcfile
  texts := PosixMsq.Sender.sent
  Sized s := s.rbuf.length = PosixMsq.lenRbuf
  size := PosixMsq.lenRbuf
  room := by decide
  atEof s eof := if_pos eof
  atEnd s eof done := by
    obtain ⟨fp, got⟩ := fgets_of_nil PosixMsq.lenRbuf s.rbuf done
    exact ⟨{ s with fpSrcfile := fp }, by simp [PosixMsq.turn, eof, got], rfl⟩
  sends := PosixMsq.turn_sends

theorem starts_sysvMsg (rbuf mtext : Vector Char SysvMsg.lenMqMtext) (file : TextFile) :
    sysvMsg.Starts file (SysvMsg.start rbuf mtext file) :=
  ⟨⟨rbuf.length_toList, mtext.length_toList⟩, rfl, rfl⟩

theorem starts_posixMsq (rbuf : Vector Char PosixMsq.lenRbuf) (file : TextFile) :
    posixMsq.Starts file (PosixMsq.start rbuf file) :=
  ⟨rbuf.length_toList, rfl, rfl⟩

/-- **Line transport.**  With every send succeeding, each of the two senders ends, and the texts of
its messages are the file without its newlines, exactly if the file consists of lines that end with
a newline among the first 511 characters. -/
theorem lossless_iff (file : TextFile) (rbuf mtext rbuf' : Vector Char 512) :
    (Loop.Ends (fun _ : Unit => SysvMsg.turn true)
        (fun s => (s.sent.map Prod.snd).flatten = strip file.content)
        (SysvMsg.start rbuf mtext file) ↔ Lined 511 file.content) ∧
      (Loop.Ends (fun _ : Unit => PosixMsq.turn true)
        (fun s => s.sent.flatten = strip file.content) (PosixMsq.start rbuf' file) ↔
          Lined 511 file.content) :=
  ⟨(starts_sysvMsg rbuf mtext file).ends_iff, (starts_posixMsq rbuf' file).ends_iff⟩

/-- The one character of a file without newline is lost, in both programs. -/
theorem not_forall_whole :
    (¬ ∀ (file : TextFile) (rbuf mtext : Vector Char 512),
      Loop.Ends (fun _ : Unit => SysvMsg.turn true)
        (fun s => (s.sent.map Prod.snd).flatten = strip file.content)
        (SysvMsg.start rbuf mtext file)) ∧
      ¬ ∀ (file : TextFile) (rbuf : Vector Char 512),
        Loop.Ends (fun _ : Unit => PosixMsq.turn true)
          (fun s => s.sent.flatten = strip file.content) (PosixMsq.start rbuf file) := by
  let file : TextFile := ⟨['a'], by decide⟩
  let buf : Vector Char 512 := Vector.replicate 512 nul
  have long : ¬ Lined 511 (['a'] ++ []) := not_lined_append (by decide) (by decide) (.inr rfl)
  constructor
  · intro always
    exact long ((starts_sysvMsg buf buf file).ends_iff.mp (always file buf buf))
  · intro always
    exact long ((starts_posixMsq buf file).ends_iff.mp (always file buf))

/-- A file of one line. -/
def oneLine : TextFile := ⟨['a', '\n'], by decide⟩

end Alnp.LineTransport
