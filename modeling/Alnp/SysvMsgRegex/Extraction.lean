import Alnp.Lib.Loop
import Alnp.SysvMsgRegex.Bounds
import Mathlib.Data.List.Basic

/-!
# The messages of the regex sender

`start_msq_sender` of `Chapter05/sysv_msg_regex.c` sends a message for each string of `fgets` that
matches.  A line of more than 511 characters comes in several of them, each of which begins a line
for `regexec`, and a message of type 0 ends the loop.

`extraction_iff`: the messages are those of the lines exactly if every line that matches has a
number other than 0 and a text inside its first piece, and no other piece matches.
-/

namespace Alnp.SysvMsgRegex

/-- The variables of `start_msq_sender`, the messages sent, and whether a send has failed. -/
structure Sender where
  fpSrcfile : Stream
  rbuf : List Char
  mbuf : List Char
  mtext : List Char
  sent : List (Int × List Char)
  stopped : Bool

/-- `msgsnd` to a queue that is not full and takes texts of `msgmax` bytes: it succeeds unless the
type or the size is invalid. -/
def msgsnd (msgmax : Nat) (mtype : Int) (msgsz : Nat) : Bool := decide (1 ≤ mtype ∧ msgsz ≤ msgmax)

/-- A turn of the loop. -/
def turn (msgmax : Nat) (s : Sender) : Flow Sender :=
  if s.fpSrcfile.eof then .leave s
  else
    match fgets lenMqMtext s.rbuf s.fpSrcfile with
    | (none, fp) => .leave { s with fpSrcfile := fp }
    | (some rbuf, fp) =>
        match regexec (cString rbuf) with
        | none => .next { s with fpSrcfile := fp, rbuf := rbuf }
        | some m =>
            let mbuf := (copyRmtab s.mbuf rbuf m.first).value
            let mtype := strtol (cString mbuf)
            let mtext := (copyRmtab s.mtext rbuf m.second).value
            let lenMtext := m.second.eo - m.second.so
            let t : Sender := ⟨fp, rbuf, mbuf, mtext, s.sent, s.stopped⟩
            if msgsnd msgmax mtype lenMtext then
              .next { t with sent := s.sent ++ [(mtype, mtext.take lenMtext)] }
            else .leave { t with stopped := true }

/-- In front of the loop, whatever the buffers hold. -/
def start (rbuf : Vector Char lenMqMtext) (mbuf : Vector Char sizeofMbuf)
    (mtext : Vector Char lenMqMtext) (file : TextFile) : Sender :=
  ⟨file.open, rbuf.toList, mbuf.toList, mtext.toList, [], false⟩

/-! ## What the lines ask for -/

/-- The message for a line that matches: the value of the first group and the second. -/
def lineMessage (line : List Char) : Option (Int × List Char) :=
  (regexec line).map fun m => (digitsValue (m.first.slice line), m.second.slice line)

/-- The sender does with the line what it asks for. -/
structure Fits (line : List Char) : Prop where
  value : ∀ m, regexec line = some m → digitsValue (m.first.slice line) ≠ 0
  inside : ∀ m, regexec line = some m → m.second.eo ≤ lenMqMtext - 1
  later : ∀ piece ∈ pieces (lenMqMtext - 1) (line.drop (lenMqMtext - 1)), regexec piece = none

/-! ## A turn -/

/-- The message for a piece, where `mbuf` holds ten digits of its number. -/
def pieceMessage (piece : List Char) : Option (Int × List Char) :=
  (matchHere piece).map fun (number, text) => (strtol (number.take sizeofMbuf), text)

variable {msgmax : Nat} {s t : Sender} {piece line : List Char}

theorem pieceMessage_eq_none_iff (newline : '\n' ∉ piece.dropLast) :
    pieceMessage piece = none ↔ regexec piece = none := by
  rw [pieceMessage, regexec_line newline, Option.map_eq_none_iff, Option.map_eq_none_iff]

/-- The loop is at the head of a turn. -/
structure Running (s : Sender) : Prop where
  rbuf : s.rbuf.length = lenMqMtext
  mbuf : s.mbuf.length = sizeofMbuf
  mtext : s.mtext.length = lenMqMtext
  noNul : nul ∉ s.fpSrcfile.rest
  ended : s.fpSrcfile.eof = true → s.fpSrcfile.rest = []
  stopped : s.stopped = false

/-- What a turn does with a piece. -/
inductive Turned (msgmax : Nat) (s : Sender) (piece left : List Char) : Prop
  | skip (t : Sender) :
      turn msgmax s = .next t → Running t → t.fpSrcfile.rest = left →
      pieceMessage piece = none → t.sent = s.sent → Turned msgmax s piece left
  | send (t : Sender) (message : Int × List Char) :
      turn msgmax s = .next t → Running t → t.fpSrcfile.rest = left →
      pieceMessage piece = some message → 1 ≤ message.1 → t.sent = s.sent ++ [message] →
      Turned msgmax s piece left
  | fail (t : Sender) (message : Int × List Char) :
      turn msgmax s = .leave t → pieceMessage piece = some message → message.1 < 1 →
      t.stopped = true → Turned msgmax s piece left

/-- The text of a match in a piece, when it has been copied. -/
theorem Begins.take_mtext {s number text behind : List Char} (begins : Begins s number text behind)
    (short : s.length < lenMqMtext) {mtext : List Char} (whole : mtext.length = lenMqMtext)
    (rest : List Char) :
    let m := matchtab 0 number text
    (copyRmtab mtext (s ++ rest) m.second).value.take text.length = text ∧
      m.second.eo - m.second.so = text.length := by
  intro m
  have groups := begins.groups rest
  have len := groups.secondLength
  have inside := begins.length_le
  rw [groups.second] at len
  refine ⟨?_, len.symm⟩
  rw [value_copyRmtab groups.secondLength (by rw [groups.second]; omega), groups.second,
    List.take_left]

/-- A turn takes a piece, and what it does with it is told by the message for the piece. -/
theorem Running.turned (running : Running s) (limit : lenMqMtext ≤ msgmax)
    (eof : s.fpSrcfile.eof = false) (more : s.fpSrcfile.rest ≠ []) :
    Turned msgmax s (readLine (lenMqMtext - 1) s.fpSrcfile.rest).1
      (readLine (lenMqMtext - 1) s.fpSrcfile.rest).2.1 := by
  have read := readLine_cases (lenMqMtext - 1) s.fpSrcfile.rest
  obtain ⟨behind, fits, got⟩ := fgets_of_ne_nil lenMqMtext (by decide) running.rbuf more
  have newline := read.newline_last
  have ended := read.left_of_ended
  have noNul := running.noNul
  rw [← read.append, List.mem_append, not_or] at noNul
  clear read
  generalize readLine (lenMqMtext - 1) s.fpSrcfile.rest = read at *
  obtain ⟨piece, left, ended'⟩ := read
  dsimp only at *
  have whole : cString (piece ++ nul :: behind) = piece := cString_append_nul noNul.1 behind
  have filled : (piece ++ nul :: behind).length = lenMqMtext := by
    rw [List.length_append, List.length_cons]
    omega
  rw [eof, Bool.false_or] at got
  cases found : matchHere piece with
  | none =>
      have missed : regexec piece = none := by rw [regexec_line newline, found, Option.map_none]
      refine .skip ⟨⟨left, ended'⟩, piece ++ nul :: behind, s.mbuf, s.mtext, s.sent, s.stopped⟩ ?_
        ⟨filled, running.mbuf, running.mtext, noNul.2, ended, running.stopped⟩ rfl
        ((pieceMessage_eq_none_iff newline).mpr missed) rfl
      simp only [turn, eof, got, whole, missed, Bool.false_eq_true, ↓reduceIte]
  | some groups =>
      obtain ⟨number, text⟩ := groups
      obtain ⟨behind', begins⟩ := begins_of_matchHere found
      have matched : regexec piece = some (matchtab 0 number text) := by
        rw [regexec_line newline, found, Option.map_some]
      have message : pieceMessage piece = some (strtol (number.take sizeofMbuf), text) := by
        rw [pieceMessage, found, Option.map_some]
      have mtype := (begins.groups (nul :: behind)).strtol_mbuf s.mbuf
      obtain ⟨copied, len⟩ := begins.take_mtext (by omega) running.mtext (nul :: behind)
      have inside := begins.length_le
      rw [running.mbuf] at mtype
      let mbuf := (copyRmtab s.mbuf (piece ++ nul :: behind) (matchtab 0 number text).first).value
      let mtext :=
        (copyRmtab s.mtext (piece ++ nul :: behind) (matchtab 0 number text).second).value
      by_cases value : 1 ≤ strtol (number.take sizeofMbuf)
      · have taken : msgsnd msgmax (strtol (number.take sizeofMbuf)) text.length = true :=
          decide_eq_true ⟨value, by omega⟩
        refine .send ⟨⟨left, ended'⟩, piece ++ nul :: behind, mbuf, mtext,
          s.sent ++ [(strtol (number.take sizeofMbuf), text)], s.stopped⟩ _ ?_
          ⟨filled, ?_, ?_, noNul.2, ended, running.stopped⟩ rfl message value rfl
        · simp only [turn, eof, got, whole, matched, mtype, len, copied, taken, Bool.false_eq_true,
            ↓reduceIte, mbuf, mtext]
        · exact length_copyRmtab.trans running.mbuf
        · exact length_copyRmtab.trans running.mtext
      · have refused : msgsnd msgmax (strtol (number.take sizeofMbuf)) text.length = false :=
          decide_eq_false fun valid => value valid.1
        refine .fail ⟨⟨left, ended'⟩, piece ++ nul :: behind, mbuf, mtext, s.sent, true⟩ _ ?_
          message (Int.not_le.mp value) rfl
        simp only [turn, eof, got, whole, matched, mtype, len, refused, Bool.false_eq_true,
          ↓reduceIte, mbuf, mtext]

/-! ## The loop -/

/-- The messages that the pieces of a content ask for. -/
def pieceMessages (content : List Char) : List (Int × List Char) :=
  (pieces (lenMqMtext - 1) content).filterMap pieceMessage

theorem pieceMessages_of_none {content : List Char} (some : content ≠ [])
    (missed : pieceMessage (readLine (lenMqMtext - 1) content).1 = none) :
    pieceMessages content = pieceMessages (readLine (lenMqMtext - 1) content).2.1 := by
  rw [pieceMessages, pieces_of_ne_nil (by decide) some, List.filterMap_cons_none missed]
  rfl

theorem pieceMessages_of_some {content : List Char} {message : Int × List Char}
    (some : content ≠ [])
    (found : pieceMessage (readLine (lenMqMtext - 1) content).1 = Option.some message) :
    pieceMessages content = message :: pieceMessages (readLine (lenMqMtext - 1) content).2.1 := by
  rw [pieceMessages, pieces_of_ne_nil (by decide) some, List.filterMap_cons_some found]
  rfl

/-- The messages sent so far, with those that the rest of the file asks for. -/
structure Carries (messages : List (Int × List Char)) (s : Sender) : Prop where
  running : Running s
  valid : ∀ message ∈ s.sent, 1 ≤ message.1
  account : s.sent ++ pieceMessages s.fpSrcfile.rest = messages

/-- The end of the loop: with all messages sent, or with one of an invalid type. -/
def Done (messages : List (Int × List Char)) (t : Sender) : Prop :=
  (t.sent = messages ∧ t.stopped = false ∧ ∀ message ∈ messages, 1 ≤ message.1) ∨
    (t.stopped = true ∧ ∃ message ∈ messages, message.1 < 1)

variable {messages : List (Int × List Char)}

/-- At the end of the file. -/
theorem Carries.done (carries : Carries messages s) (read : s.fpSrcfile.rest = [])
    (sent : t.sent = s.sent) (stopped : t.stopped = s.stopped) : Done messages t := by
  obtain ⟨running, valid, account⟩ := carries
  rw [read, pieceMessages, pieces_nil, List.filterMap_nil, List.append_nil] at account
  subst account
  exact .inl ⟨sent, stopped.trans running.stopped, valid⟩

/-- A turn of the loop. -/
theorem Carries.turned (carries : Carries messages s) (limit : lenMqMtext ≤ msgmax) :
    (∃ t, turn msgmax s = .leave t ∧ Done messages t) ∨
      ∃ t, turn msgmax s = .next t ∧ Carries messages t ∧
        t.fpSrcfile.rest.length < s.fpSrcfile.rest.length := by
  have running := carries.running
  cases eof : s.fpSrcfile.eof with
  | true => exact .inl ⟨s, if_pos eof, carries.done (running.ended eof) rfl rfl⟩
  | false =>
      by_cases more : s.fpSrcfile.rest = []
      · obtain ⟨fp, got⟩ := fgets_of_nil lenMqMtext s.rbuf more
        refine .inl ⟨{ s with fpSrcfile := fp }, ?_, carries.done more rfl rfl⟩
        simp only [turn, eof, got, Bool.false_eq_true, ↓reduceIte]
      · have shorter := (readLine_cases (lenMqMtext - 1) s.fpSrcfile.rest).length_left_lt
          (by decide) more
        have account := carries.account
        cases running.turned limit eof more with
        | skip t went running' left missed sent =>
            rw [pieceMessages_of_none more missed, ← left, ← sent] at account
            exact .inr ⟨t, went, ⟨running', sent ▸ carries.valid, account⟩, left ▸ shorter⟩
        | send t message went running' left found valid sent =>
            rw [pieceMessages_of_some more found, ← left, ← List.singleton_append,
              ← List.append_assoc, ← sent] at account
            refine .inr ⟨t, went, ⟨running', ?_, account⟩, left ▸ shorter⟩
            rw [sent, List.forall_mem_append]
            exact ⟨carries.valid, by simpa using valid⟩
        | fail t message left found invalid stopped =>
            rw [pieceMessages_of_some more found] at account
            refine .inl ⟨t, left, .inr ⟨stopped, message, ?_, invalid⟩⟩
            rw [← account]
            exact List.mem_append_right _ List.mem_cons_self

theorem Carries.ends (carries : Carries messages s) (limit : lenMqMtext ≤ msgmax) :
    Loop.Ends (fun _ : Unit => turn msgmax) (Done messages) s := by
  refine Loop.ends_of_measure (fun t => t.fpSrcfile.rest.length) ?_ carries
  intro _ s carries
  exact carries.turned limit

/-- The loop sends messages, all of them, exactly if they are those of the pieces and valid. -/
theorem ends_iff (rbuf : Vector Char lenMqMtext) (mbuf : Vector Char sizeofMbuf)
    (mtext : Vector Char lenMqMtext) (file : TextFile) (limit : lenMqMtext ≤ msgmax) :
    Loop.Ends (fun _ : Unit => turn msgmax) (fun t => t.sent = messages ∧ t.stopped = false)
        (start rbuf mbuf mtext file) ↔
      pieceMessages file.content = messages ∧ ∀ message ∈ messages, 1 ≤ message.1 := by
  have running : Running (start rbuf mbuf mtext file) :=
    ⟨rbuf.length_toList, mbuf.length_toList, mtext.length_toList, file.noNul, nofun, rfl⟩
  have ends := Carries.ends ⟨running, nofun, rfl⟩ limit
  constructor
  · intro whole
    obtain ⟨t, ⟨sent, stopped⟩, done⟩ := (whole.and ends).exists
    rcases done with ⟨all, -, valid⟩ | ⟨failed, -⟩
    · have same : pieceMessages file.content = messages := all.symm.trans sent
      exact ⟨same, same ▸ valid⟩
    · exact nomatch failed.symm.trans stopped
  · rintro ⟨same, valid⟩
    refine ends.mono fun t done => ?_
    rcases done with ⟨all, stopped, -⟩ | ⟨-, message, member, invalid⟩
    · exact ⟨all.trans same, stopped⟩
    · have member : message ∈ messages := same ▸ member
      exact absurd (valid message member) (Int.not_le.mpr invalid)

/-! ## The pieces of a line -/

theorem pieceMessages_flatMap (content : List Char) :
    pieceMessages content = (fileLines content).flatMap pieceMessages := by
  rw [pieceMessages, pieces_eq_flatMap (by decide), List.filterMap_flatMap]
  rfl

/-- The first piece of a line and the others. -/
theorem pieceMessages_line (some : line ≠ []) (isLine : IsLine line []) :
    pieceMessages line = (pieceMessage (line.take (lenMqMtext - 1))).toList ++
      pieceMessages (line.drop (lenMqMtext - 1)) := by
  rw [pieceMessages, pieces_line (by decide) isLine some]
  cases found : pieceMessage (line.take (lenMqMtext - 1)) with
  | none => exact List.filterMap_cons_none found
  | some message => exact List.filterMap_cons_some found

theorem pieceMessages_eq_nil_iff (content : List Char) : pieceMessages content = [] ↔
    ∀ piece ∈ pieces (lenMqMtext - 1) content, regexec piece = none := by
  rw [pieceMessages, List.filterMap_eq_nil_iff]
  exact forall₂_congr fun piece member => pieceMessage_eq_none_iff (newline_of_mem_pieces member)

/-- A line that does not match has no first piece that does. -/
theorem matchHere_take_of_none (missed : matchHere line = none) (n : Nat) :
    matchHere (line.take n) = none := by
  cases found : matchHere (line.take n) with
  | none => rfl
  | some groups =>
      obtain ⟨behind, begins⟩ := begins_of_matchHere found
      have whole := begins.append (line.drop n)
      rw [List.take_append_drop] at whole
      obtain ⟨more, found'⟩ := matchHere_of_begins whole
      exact nomatch missed.symm.trans found'

/-- The first piece of a line that matches has the number and a part of the text. -/
theorem matchHere_take_of_some {number text : List Char} {n : Nat}
    (found : matchHere line = some (number, text)) (room : number.length + 1 < n) :
    matchHere (line.take n) = some (number, text.take (n - (number.length + 1))) := by
  obtain ⟨first, some, rest, rfl, rfl⟩ := matchHere_eq_some_iff.mp found
  obtain ⟨k, rfl⟩ : ∃ k, n = number.length + (k + 1) := ⟨n - number.length - 1, by omega⟩
  have left : number.length + (k + 1) - (number.length + 1) = k := by omega
  refine matchHere_eq_some_iff.mpr ⟨first, ?_, rest.take k, ?_, ?_⟩
  · rw [left, Ne, List.take_eq_nil_iff, not_or]
    exact ⟨by omega, some⟩
  · rw [List.take_length_add_append, List.take_succ_cons]
  · rw [left, List.take_takeWhile]

theorem lineMessage_line (isLine : IsLine line []) : lineMessage line =
    (matchHere line).map fun (number, text) => (digitsValue number, text) := by
  rw [lineMessage, regexec_line isLine.newline, Option.map_map]
  cases found : matchHere line with
  | none => rfl
  | some groups =>
      obtain ⟨behind, begins⟩ := begins_of_matchHere found
      rw [Option.map_some, Option.map_some, Function.comp_apply, begins.slice_first,
        begins.slice_second]

/-- The messages of the pieces of a line that does not match. -/
theorem line_of_none (some : line ≠ []) (isLine : IsLine line []) (missed : matchHere line = none) :
    lineMessage line = none ∧
      pieceMessages line = pieceMessages (line.drop (lenMqMtext - 1)) := by
  refine ⟨by rw [lineMessage_line isLine, missed, Option.map_none], ?_⟩
  rw [pieceMessages_line some isLine, pieceMessage, matchHere_take_of_none missed]
  rfl

/-- The messages of the pieces of a line that matches. -/
theorem line_of_some {number text : List Char} (some : line ≠ []) (isLine : IsLine line [])
    (nine : (line.takeWhile Char.isDigit).length ≤ 9)
    (found : matchHere line = Option.some (number, text)) :
    lineMessage line = Option.some (digitsValue number, text) ∧
      pieceMessages line =
        (digitsValue number, text.take (lenMqMtext - 1 - (number.length + 1))) ::
          pieceMessages (line.drop (lenMqMtext - 1)) := by
  obtain ⟨behind, begins⟩ := begins_of_matchHere found
  rw [begins.takeWhile_isDigit] at nine
  have ten : number.length ≤ sizeofMbuf := Nat.le_succ_of_le nine
  have room : number.length + 1 < lenMqMtext - 1 :=
    Nat.lt_of_le_of_lt (Nat.succ_le_succ nine) (by decide)
  have value : strtol (number.take sizeofMbuf) = digitsValue number := by
    rw [List.take_of_length_le ten]
    exact strtol_of_digits begins.number.2 (by omega)
  refine ⟨by rw [lineMessage_line isLine, found, Option.map_some], ?_⟩
  rw [pieceMessages_line some isLine, pieceMessage, matchHere_take_of_some found room,
    Option.map_some]
  dsimp only
  rw [value]
  rfl

/-- The pieces of a line ask for no fewer messages than the line. -/
theorem length_lineMessage_le (some : line ≠ []) (isLine : IsLine line [])
    (nine : (line.takeWhile Char.isDigit).length ≤ 9) :
    (lineMessage line).toList.length ≤ (pieceMessages line).length := by
  cases found : matchHere line with
  | none =>
      rw [(line_of_none some isLine found).1]
      exact Nat.zero_le _
  | some groups =>
      obtain ⟨message, pieces⟩ := line_of_some some isLine nine found
      rw [message, pieces]
      exact Nat.succ_le_succ (Nat.zero_le _)

/-- The pieces of a line ask for what the line does, and that is valid, exactly if it fits. -/
theorem fits_iff (some : line ≠ []) (isLine : IsLine line [])
    (nine : (line.takeWhile Char.isDigit).length ≤ 9) :
    (pieceMessages line = (lineMessage line).toList ∧
      ∀ message ∈ (lineMessage line).toList, 1 ≤ message.1) ↔ Fits line := by
  have later := pieceMessages_eq_nil_iff (line.drop (lenMqMtext - 1))
  have matched := regexec_line isLine.newline
  cases found : matchHere line with
  | none =>
      obtain ⟨message, pieces⟩ := line_of_none some isLine found
      rw [found, Option.map_none] at matched
      rw [message, pieces]
      constructor
      · rintro ⟨none, -⟩
        refine ⟨fun m other => ?_, fun m other => ?_, later.mp none⟩
        · exact nomatch matched.symm.trans other
        · exact nomatch matched.symm.trans other
      · rintro ⟨-, -, none⟩
        exact ⟨later.mpr none, nofun⟩
  | some groups =>
      obtain ⟨number, text⟩ := groups
      obtain ⟨behind, begins⟩ := begins_of_matchHere found
      obtain ⟨message, pieces⟩ := line_of_some some isLine nine found
      have low := (digitsValue_lt begins.number.2).1
      have value := begins.slice_first
      have inside : text.take (lenMqMtext - 1 - (number.length + 1)) = text ↔
          (matchtab 0 number text).second.eo ≤ lenMqMtext - 1 := by
        rw [begins.takeWhile_isDigit] at nine
        have room : number.length + 1 < lenMqMtext - 1 :=
          Nat.lt_of_le_of_lt (Nat.succ_le_succ nine) (by decide)
        rw [List.take_eq_self_iff]
        simp only [matchtab]
        omega
      rw [found, Option.map_some] at matched
      rw [message, pieces, Option.toList_some]
      constructor
      · rintro ⟨same, valid⟩
        obtain ⟨first, none⟩ := List.cons.inj same
        have positive : 1 ≤ digitsValue number := valid _ List.mem_cons_self
        refine ⟨fun m other => ?_, fun m other => ?_, later.mp none⟩
        · cases matched.symm.trans other
          rw [value]
          omega
        · cases matched.symm.trans other
          exact inside.mp (Prod.mk.inj first).2
      · rintro ⟨nonzero, short, none⟩
        have nonzero := nonzero _ matched
        rw [value] at nonzero
        rw [inside.mpr (short _ matched), later.mpr none]
        refine ⟨rfl, fun message member => ?_⟩
        obtain rfl := List.mem_singleton.mp member
        dsimp only
        omega

/-! ## The file -/

theorem length_flatMap_le {α β : Type} {f g : α → List β} {l : List α}
    (longer : ∀ a ∈ l, (g a).length ≤ (f a).length) :
    (l.flatMap g).length ≤ (l.flatMap f).length := by
  induction l with
  | nil => exact Nat.le_refl _
  | cons a l ih =>
      obtain ⟨first, others⟩ := List.forall_mem_cons.mp longer
      rw [List.flatMap_cons, List.flatMap_cons, List.length_append, List.length_append]
      exact Nat.add_le_add first (ih others)

/-- Concatenations of lists, those of the one no shorter, are the same only if all lists are. -/
theorem flatMap_eq_iff {α β : Type} {f g : α → List β} {l : List α}
    (longer : ∀ a ∈ l, (g a).length ≤ (f a).length) :
    l.flatMap f = l.flatMap g ↔ ∀ a ∈ l, f a = g a := by
  constructor
  · intro same
    induction l with
    | nil => nofun
    | cons a l ih =>
        obtain ⟨first, others⟩ := List.forall_mem_cons.mp longer
        rw [List.flatMap_cons, List.flatMap_cons] at same
        have rest := length_flatMap_le others
        have total := congrArg List.length same
        rw [List.length_append, List.length_append] at total
        obtain ⟨here, there⟩ := List.append_inj same (by omega)
        exact List.forall_mem_cons.mpr ⟨here, ih others there⟩
  · intro same
    rw [List.flatMap_def, List.flatMap_def, List.map_congr_left same]

/-- **Message extraction.**  The sender sends the messages of the lines that match, in their order,
and does not stop early, exactly if every such line has a number other than 0 and its text among the
first 511 characters, and no later piece of a line matches. -/
theorem extraction_iff (file : TextFile) (rbuf : Vector Char lenMqMtext)
    (mbuf : Vector Char sizeofMbuf) (mtext : Vector Char lenMqMtext) (msgmax : Nat)
    (limit : 512 ≤ msgmax)
    (nine : ∀ line ∈ fileLines file.content, (line.takeWhile Char.isDigit).length ≤ 9) :
    Loop.Ends (fun _ : Unit => turn msgmax)
        (fun s => s.sent = (fileLines file.content).filterMap lineMessage ∧ s.stopped = false)
        (start rbuf mbuf mtext file) ↔
      ∀ line ∈ fileLines file.content, Fits line := by
  have isLine {line : List Char} (member : line ∈ fileLines file.content) := isLine_of_mem member
  have lengths : ∀ line ∈ fileLines file.content,
      (lineMessage line).toList.length ≤ (pieceMessages line).length := fun line member =>
    length_lineMessage_le (isLine member).1 (isLine member).2 (nine line member)
  rw [ends_iff rbuf mbuf mtext file limit, pieceMessages_flatMap, List.filterMap_eq_flatMap_toList,
    flatMap_eq_iff lengths, List.forall_mem_flatMap, ← forall₂_and]
  exact forall₂_congr fun line member =>
    fits_iff (isLine member).1 (isLine member).2 (nine line member)

/-- The pieces behind the first of a line that is not too long are its lines. -/
theorem fits_of_linesOf {line : List Char} {lines : List (List Char)}
    (value : ∀ m ∈ regexec line, digitsValue (m.first.slice line) ≠ 0)
    (inside : ∀ m ∈ regexec line, m.second.eo ≤ lenMqMtext - 1)
    (behind : LinesOf (lenMqMtext - 1) (line.drop (lenMqMtext - 1)) lines)
    (later : ∀ text ∈ lines, regexec (text ++ ['\n']) = none) : Fits line := by
  refine ⟨value, inside, ?_⟩
  rw [behind.pieces_eq]
  exact List.forall_mem_map.mpr later

/-- A line in two pieces, with its match at the beginning. -/
def longLine : List Char := "3,ab".toList ++ List.replicate 600 '.' ++ ['\n']

/-- Three lines that match, one of them long, and one that does not. -/
def mixedFile : TextFile :=
  ⟨"1,ab\nab,1\n".toList ++ longLine ++ "22,c d\n".toList, by decide +kernel⟩

theorem fileLines_mixedFile : fileLines mixedFile.content =
    ["1,ab\n".toList, "ab,1\n".toList, longLine, "22,c d\n".toList] := by
  decide +kernel

theorem extraction_mixedFile : Loop.Ends (fun _ : Unit => turn 8192)
    (fun s => s.sent = [(1, "ab".toList), (3, "ab".toList), (22, "c d".toList)] ∧
      s.stopped = false)
    (start (Vector.replicate lenMqMtext nul) (Vector.replicate sizeofMbuf nul)
      (Vector.replicate lenMqMtext nul) mixedFile) := by
  have messages : (fileLines mixedFile.content).filterMap lineMessage =
      [(1, "ab".toList), (3, "ab".toList), (22, "c d".toList)] := by decide +kernel
  have short (line : List Char) (le : line.length ≤ lenMqMtext - 1) :
      LinesOf (lenMqMtext - 1) (line.drop (lenMqMtext - 1)) [] :=
    ⟨List.drop_of_length_le le, nofun⟩
  have behind : LinesOf (lenMqMtext - 1) (longLine.drop (lenMqMtext - 1))
      [List.replicate 93 '.'] := ⟨by decide +kernel, by decide +kernel⟩
  have ends := extraction_iff mixedFile (Vector.replicate lenMqMtext nul)
    (Vector.replicate sizeofMbuf nul) (Vector.replicate lenMqMtext nul) 8192 (by decide)
    (by decide +kernel)
  rw [messages, fileLines_mixedFile] at ends
  refine ends.mpr ?_
  simp only [List.forall_mem_cons]
  exact ⟨fits_of_linesOf (by decide) (by decide) (short _ (by decide)) nofun,
    fits_of_linesOf (by decide) (by decide) (short _ (by decide)) nofun,
    fits_of_linesOf (by decide +kernel) (by decide +kernel) behind (by decide +kernel),
    fits_of_linesOf (by decide) (by decide) (short _ (by decide)) nofun, nofun⟩

/-- A number 0 stops the sender. -/
theorem not_forall_extraction : ¬ ∀ (file : TextFile) (rbuf : Vector Char lenMqMtext)
    (mbuf : Vector Char sizeofMbuf) (mtext : Vector Char lenMqMtext) (msgmax : Nat),
    512 ≤ msgmax →
    (∀ line ∈ fileLines file.content, (line.takeWhile Char.isDigit).length ≤ 9) →
    Loop.Ends (fun _ : Unit => turn msgmax)
      (fun s => s.sent = (fileLines file.content).filterMap lineMessage ∧ s.stopped = false)
      (start rbuf mbuf mtext file) := by
  intro always
  have ends := always ⟨"0,a\n".toList, by decide⟩ (Vector.replicate lenMqMtext nul)
    (Vector.replicate sizeofMbuf nul) (Vector.replicate lenMqMtext nul) 8192 (by decide) (by decide)
  obtain ⟨-, valid⟩ := (ends_iff _ _ _ _ (by decide)).mp ends
  exact absurd (valid (0, ['a']) (by decide)) (by decide)

end Alnp.SysvMsgRegex
