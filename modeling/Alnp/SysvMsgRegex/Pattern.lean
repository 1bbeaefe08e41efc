import Alnp.Kernel.CString
import Alnp.Lib.Regex

/-!
# The expression of `sysv_msg_regex.c`

`DEFAULT_REGEX_STR` of `Chapter05/sysv_msg_regex.c`, a number and a text at the beginning of a line,
and `regexec` with it, compiled with `REG_EXTENDED | REG_NEWLINE`: `matchHere` tries one place and
`searchFrom` all from the left.  `first_of_regexec` and `regexec_eq_none` say that this is the
search of POSIX.
-/

namespace Alnp.SysvMsgRegex

open Regex (AtLineStart Match Occurs First)

/-- `[a-zA-Z ]` in the C locale. -/
def isLetter (c : Char) : Bool :=
  ('a' ≤ c && c ≤ 'z') || ('A' ≤ c && c ≤ 'Z') || c == ' '

/-- `DEFAULT_REGEX_STR`: `^([0-9]+),([a-zA-Z ]+)` -/
def defaultRegexStr : Regex :=
  .seq .bol (.seq (.group (.plus (.cls Char.isDigit)))
    (.seq (.cls (· == ',')) (.group (.plus (.cls isLetter)))))

/-- `regmatch_t` -/
structure Regmatch where
  so : Nat
  eo : Nat
  deriving DecidableEq

/-- The entries of `rm_matchtab` that are used. -/
structure Matchtab where
  whole : Regmatch
  first : Regmatch
  second : Regmatch
  deriving DecidableEq

/-- The part of a string that an entry stands for. -/
def Regmatch.slice (m : Regmatch) (s : List Char) : List Char := (s.drop m.so).take (m.eo - m.so)

/-- A match at the beginning of a string: the number and the text. -/
def matchHere (s : List Char) : Option (List Char × List Char) :=
  match s.dropWhile Char.isDigit with
  | ',' :: rest =>
      let number := s.takeWhile Char.isDigit
      let text := rest.takeWhile isLetter
      if number ≠ [] ∧ text ≠ [] then some (number, text) else none
  | _ => none

/-- The first match from offset `so` on, where a line begins at `so` if `lineStart`. -/
def searchFrom : Nat → Bool → List Char → Option (Nat × List Char × List Char)
  | _, _, [] => none
  | so, lineStart, c :: rest =>
      match if lineStart then matchHere (c :: rest) else none with
      | some (number, text) => some (so, number, text)
      | none => searchFrom (so + 1) (c == '\n') rest

/-- The offsets of a match. -/
def matchtab (so : Nat) (number text : List Char) : Matchtab where
  whole := ⟨so, so + (number.length + 1 + text.length)⟩
  first := ⟨so, so + number.length⟩
  second := ⟨so + number.length + 1, so + number.length + 1 + text.length⟩

/-- `regexec` with the expression of the program. -/
def regexec (s : List Char) : Option Matchtab :=
  (searchFrom 0 true s).map fun (so, number, text) => matchtab so number text

/-! ## One place -/

/-- The string begins with what the expression describes. -/
structure Begins (s number text behind : List Char) : Prop where
  split : s = number ++ ',' :: (text ++ behind)
  number : number ≠ [] ∧ ∀ c ∈ number, c.isDigit = true
  text : text ≠ [] ∧ ∀ c ∈ text, isLetter c = true

variable {s number text behind : List Char}

theorem takeWhile_append_cons {p : Char → Bool} {c : Char} (all : ∀ d ∈ number, p d = true)
    (stop : p c = false) : (number ++ c :: behind).takeWhile p = number ∧
      (number ++ c :: behind).dropWhile p = c :: behind := by
  constructor
  · rw [List.takeWhile_append_of_pos all, List.takeWhile_cons_of_neg (by simp [stop]),
      List.append_nil]
  · rw [List.dropWhile_append_of_pos all, List.dropWhile_cons_of_neg (by simp [stop])]

/-- A match takes all the digits, and all the letters behind the comma. -/
theorem matchHere_eq_some_iff : matchHere s = some (number, text) ↔
    (number ≠ [] ∧ ∀ c ∈ number, c.isDigit = true) ∧ text ≠ [] ∧
      ∃ rest, s = number ++ ',' :: rest ∧ rest.takeWhile isLetter = text := by
  constructor
  · intro found
    unfold matchHere at found
    split at found
    · next rest comma =>
        dsimp only at found
        split at found
        · next some =>
            cases found
            refine ⟨⟨some.1, fun c member => List.mem_takeWhile_imp member⟩, some.2, rest, ?_, rfl⟩
            rw [← comma, List.takeWhile_append_dropWhile]
        · cases found
    · cases found
  · rintro ⟨⟨someNumber, digits⟩, someText, rest, rfl, rfl⟩
    obtain ⟨taken, dropped⟩ : (number ++ ',' :: rest).takeWhile Char.isDigit = number ∧
        (number ++ ',' :: rest).dropWhile Char.isDigit = ',' :: rest :=
      takeWhile_append_cons digits (by decide)
    rw [matchHere, dropped]
    simp only [taken]
    rw [if_pos ⟨someNumber, someText⟩]

/-- What is found is there. -/
theorem begins_of_matchHere (found : matchHere s = some (number, text)) :
    ∃ behind, Begins s number text behind := by
  obtain ⟨first, some, rest, rfl, rfl⟩ := matchHere_eq_some_iff.mp found
  refine ⟨rest.dropWhile isLetter, ?_, first, some, fun c member => List.mem_takeWhile_imp member⟩
  rw [List.takeWhile_append_dropWhile]

/-- What is there is found, up to the length of the text. -/
theorem matchHere_of_begins (begins : Begins s number text behind) :
    ∃ more, matchHere s = some (number, text ++ more) := by
  obtain ⟨rfl, first, some, letters⟩ := begins
  refine ⟨behind.takeWhile isLetter, matchHere_eq_some_iff.mpr
    ⟨first, by simp [some], text ++ behind, rfl, List.takeWhile_append_of_pos letters⟩⟩

/-! ## All places -/

/-- The groups of a match. -/
def groupsAt (so : Nat) (number text : List Char) : List (Nat × Nat) :=
  [(so, so + number.length), (so + number.length + 1, so + number.length + 1 + text.length)]

/-- A match of the expression is a number and a text at the beginning of a line. -/
theorem match_iff {before x : List Char} {groups : List (Nat × Nat)} :
    Match defaultRegexStr before x groups ↔
      AtLineStart before ∧ ∃ number text, Begins x number text [] ∧
        groups = groupsAt before.length number text := by
  unfold defaultRegexStr
  simp only [Regex.match_seq_iff, Regex.match_bol_iff, Regex.match_group_iff, Regex.match_cls_iff,
    Regex.match_plus_cls_iff]
  constructor
  · rintro ⟨_, _, _, _, ⟨start, rfl, rfl⟩, ⟨number, _, _, _, ⟨_, ⟨some, digits, rfl⟩, rfl⟩,
      ⟨_, text, _, _, ⟨c, comma, rfl, rfl⟩, ⟨_, ⟨some', letters, rfl⟩, rfl⟩, rfl, rfl⟩, rfl, rfl⟩,
      rfl, rfl⟩
    have comma : c = ',' := beq_iff_eq.mp comma
    subst comma
    refine ⟨start, number, text, ⟨by simp, ⟨some, digits⟩, some', letters⟩, ?_⟩
    simp [groupsAt, Nat.add_assoc]
  · rintro ⟨start, number, text, ⟨rfl, ⟨some, digits⟩, some', letters⟩, rfl⟩
    refine ⟨[], number ++ ([','] ++ text), [], _, ⟨start, rfl, rfl⟩, ⟨number, [','] ++ text, _, _,
      ⟨[], ⟨some, digits, rfl⟩, rfl⟩, ⟨[','], text, [], _, ⟨',', rfl, rfl, rfl⟩,
        ⟨[], ⟨some', letters, rfl⟩, rfl⟩, rfl, rfl⟩, rfl, rfl⟩, by simp, ?_⟩
    simp [groupsAt, Nat.add_assoc]

/-- The expression matches at a place exactly if the string begins so there. -/
theorem occurs_iff {before rest x : List Char} {groups : List (Nat × Nat)} :
    Occurs defaultRegexStr (before ++ rest) before x groups ↔
      AtLineStart before ∧ ∃ number text behind, Begins rest number text behind ∧
        x = number ++ ',' :: text ∧ groups = groupsAt before.length number text := by
  unfold Occurs
  rw [List.prefix_append_right_inj, match_iff]
  constructor
  · rintro ⟨⟨behind, rfl⟩, start, number, text, ⟨rfl, first, second⟩, rfl⟩
    exact ⟨start, number, text, behind, ⟨by simp, first, second⟩, by simp, rfl⟩
  · rintro ⟨start, number, text, behind, ⟨rfl, first, second⟩, rfl, rfl⟩
    exact ⟨⟨behind, by simp⟩, start, number, text, ⟨by simp, first, second⟩, rfl⟩

/-- A line begins behind `front`, where one begins in front of it if `lineStart`. -/
def startsLine (lineStart : Bool) (front : List Char) : Prop :=
  match front.getLast? with
  | none => lineStart = true
  | some c => c = '\n'

theorem startsLine_cons {lineStart : Bool} {c : Char} {front : List Char} :
    startsLine lineStart (c :: front) ↔ startsLine (c == '\n') front := by
  cases front with
  | nil => simp [startsLine]
  | cons d front =>
      unfold startsLine
      rw [List.getLast?_cons_cons, List.getLast?_cons]

theorem startsLine_true {front : List Char} : startsLine true front ↔ AtLineStart front := by
  unfold startsLine AtLineStart
  cases last : front.getLast? with
  | none => simp [List.getLast?_eq_none_iff.mp last]
  | some c =>
      have some : front ≠ [] := by
        rintro rfl
        cases last
      simp [some]

/-- No match is missed. -/
theorem searchFrom_eq_none {rest : List Char} {so : Nat} {lineStart : Bool}
    (missed : searchFrom so lineStart rest = none) {front behind : List Char}
    (split : rest = front ++ behind) (starts : startsLine lineStart front) :
    matchHere behind = none := by
  induction rest generalizing so lineStart front with
  | nil =>
      obtain ⟨-, rfl⟩ := List.append_eq_nil_iff.mp split.symm
      rfl
  | cons c rest ih =>
      rw [searchFrom] at missed
      split at missed
      · cases missed
      · next here =>
          cases front with
          | nil =>
              have starts : lineStart = true := starts
              rw [if_pos starts] at here
              rw [← split.trans (List.nil_append behind)]
              exact here
          | cons d front =>
              obtain ⟨rfl, rest⟩ := List.cons.inj split
              exact ih missed rest (startsLine_cons.mp starts)

/-- A match that is found is there, and none in front of it. -/
theorem searchFrom_eq_some {rest : List Char} {so k : Nat} {lineStart : Bool}
    (found : searchFrom so lineStart rest = some (k, number, text)) :
    ∃ front behind, rest = front ++ behind ∧ k = so + front.length ∧
      startsLine lineStart front ∧ matchHere behind = some (number, text) ∧
      ∀ front' behind', rest = front' ++ behind' → front'.length < front.length →
        startsLine lineStart front' → matchHere behind' = none := by
  induction rest generalizing so lineStart with
  | nil => cases found
  | cons c rest ih =>
      rw [searchFrom] at found
      split at found
      · next here =>
          cases found
          split at here
          · next starts => exact ⟨[], c :: rest, rfl, rfl, starts, here, nofun⟩
          · cases here
      · next here =>
          obtain ⟨front, behind, rfl, rfl, starts, there, before⟩ := ih found
          refine ⟨c :: front, behind, rfl, ?_, startsLine_cons.mpr starts, there, ?_⟩
          · rw [List.length_cons]
            omega
          · intro front' behind' split shorter starts'
            cases front' with
            | nil =>
                have starts' : lineStart = true := starts'
                rw [if_pos starts'] at here
                rw [← split.trans (List.nil_append behind')]
                exact here
            | cons d front' =>
                obtain ⟨rfl, rest⟩ := List.cons.inj split
                exact before front' behind' rest (Nat.lt_of_succ_lt_succ shorter)
                  (startsLine_cons.mp starts')

/-! ## The search is that of POSIX -/

/-- An occurrence is a match that `matchHere` finds, if not a shorter one. -/
theorem matchHere_of_occurs {before x : List Char} {groups : List (Nat × Nat)}
    (occurs : Occurs defaultRegexStr s before x groups) :
    ∃ rest number text more, s = before ++ rest ∧ startsLine true before ∧
      matchHere rest = some (number, text ++ more) ∧ x = number ++ ',' :: text := by
  obtain ⟨behind, rfl⟩ := occurs.1
  rw [List.append_assoc] at occurs
  obtain ⟨start, number, text, behind', begins, same, -⟩ := occurs_iff.mp occurs
  obtain ⟨more, found⟩ := matchHere_of_begins begins
  exact ⟨x ++ behind, number, text, more, List.append_assoc _ _ _, startsLine_true.mpr start, found,
    same⟩

/-- `regexec` returns the leftmost and there the longest match, with its groups. -/
theorem first_of_regexec {m : Matchtab} (found : regexec s = some m) :
    ∃ before x, First defaultRegexStr s before x
        [(m.first.so, m.first.eo), (m.second.so, m.second.eo)] ∧
      m.whole = ⟨before.length, before.length + x.length⟩ := by
  unfold regexec at found
  obtain ⟨⟨so, number, text⟩, searched, rfl⟩ := Option.map_eq_some_iff.mp found
  obtain ⟨before, rest, rfl, rfl, starts, here, earlier⟩ := searchFrom_eq_some searched
  obtain ⟨behind, begins⟩ := begins_of_matchHere here
  refine ⟨before, number ++ ',' :: text, ⟨?_, ?_, ?_⟩, ?_⟩
  · refine occurs_iff.mpr ⟨startsLine_true.mp starts, number, text, behind, begins, rfl, ?_⟩
    simp [matchtab, groupsAt]
  · intro before' x' groups' occurs
    obtain ⟨rest', number', text', more, split, starts', here', -⟩ := matchHere_of_occurs occurs
    by_contra shorter
    have none := earlier before' rest' split (Nat.lt_of_not_le shorter) starts'
    exact nomatch none.symm.trans here'
  · intro x' groups' occurs
    obtain ⟨rest', number', text', more, split, -, here', rfl⟩ := matchHere_of_occurs occurs
    obtain rfl := List.append_cancel_left split
    obtain ⟨rfl, rfl⟩ := Prod.mk.inj (Option.some.inj (here.symm.trans here'))
    simp only [List.length_append, List.length_cons]
    omega
  · simp [matchtab, Nat.add_assoc, Nat.add_comm 1]

/-- Where `regexec` returns `REG_NOMATCH` there is no match. -/
theorem regexec_eq_none (missed : regexec s = none) (before x : List Char)
    (groups : List (Nat × Nat)) : ¬ Occurs defaultRegexStr s before x groups := by
  intro occurs
  obtain ⟨rest, number, text, more, split, starts, here, -⟩ := matchHere_of_occurs occurs
  have absent := searchFrom_eq_none (Option.map_eq_none_iff.mp missed) split starts
  exact nomatch absent.symm.trans here

/-! ## Strings of one line -/

/-- Behind the beginning of a line there is no other before its end. -/
theorem searchFrom_line {so : Nat} {lineStart : Bool} (newline : '\n' ∉ s.dropLast) :
    searchFrom so lineStart s =
      if lineStart then (matchHere s).map fun (number, text) => (so, number, text) else none := by
  induction s generalizing so lineStart with
  | nil => cases lineStart <;> rfl
  | cons c rest ih =>
      have later : searchFrom (so + 1) (c == '\n') rest = none := by
        cases rest with
        | nil => rfl
        | cons d rest =>
            rw [List.dropLast_cons_cons, List.mem_cons, not_or] at newline
            rw [ih newline.2, if_neg (by simpa using Ne.symm newline.1)]
      rw [searchFrom]
      cases lineStart with
      | false => exact later
      | true =>
          rw [if_pos rfl, if_pos rfl]
          cases matchHere (c :: rest) with
          | none => exact later
          | some found => rfl

/-- With one line, `regexec` tries its beginning only. -/
theorem regexec_line (newline : '\n' ∉ s.dropLast) :
    regexec s = (matchHere s).map fun (number, text) => matchtab 0 number text := by
  rw [regexec, searchFrom_line newline, if_pos rfl, Option.map_map]
  rfl

/-- Where `regexec` matches, the line begins so. -/
theorem begins_of_regexec {m : Matchtab} (newline : '\n' ∉ s.dropLast)
    (found : regexec s = some m) :
    ∃ number text behind, m = matchtab 0 number text ∧ Begins s number text behind := by
  rw [regexec_line newline] at found
  obtain ⟨⟨number, text⟩, here, rfl⟩ := Option.map_eq_some_iff.mp found
  obtain ⟨behind, begins⟩ := begins_of_matchHere here
  exact ⟨number, text, behind, rfl, begins⟩

theorem Begins.append (begins : Begins s number text behind) (rest : List Char) :
    Begins (s ++ rest) number text (behind ++ rest) := by
  obtain ⟨rfl, first, second⟩ := begins
  exact ⟨by simp, first, second⟩

/-- The first group is the number. -/
theorem Begins.slice_first (begins : Begins s number text behind) :
    (matchtab 0 number text).first.slice s = number := by
  obtain ⟨rfl, -, -⟩ := begins
  simp [matchtab, Regmatch.slice]

/-- The second group is the text. -/
theorem Begins.slice_second (begins : Begins s number text behind) :
    (matchtab 0 number text).second.slice s = text := by
  obtain ⟨rfl, -, -⟩ := begins
  simp [matchtab, Regmatch.slice, ← List.drop_drop]

theorem Begins.length_le (begins : Begins s number text behind) :
    number.length + 1 + text.length ≤ s.length := by
  have lengths := congrArg List.length begins.split
  simp only [List.length_append, List.length_cons] at lengths
  omega

/-- The number is as long as the digits in front. -/
theorem Begins.takeWhile_isDigit (begins : Begins s number text behind) :
    s.takeWhile Char.isDigit = number := by
  obtain ⟨rfl, ⟨-, digits⟩, -⟩ := begins
  exact (takeWhile_append_cons digits (by decide)).1

end Alnp.SysvMsgRegex
