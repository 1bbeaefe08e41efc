import Alnp.Kernel.Stdio
import Alnp.SysvMsgRegex.Pattern

/-!
# The buffers of the regex sender

`COPY_RMTAB` of `Chapter05/sysv_msg_regex.c` copies a group with a NUL behind it, the number to
`mbuf` and the text to `mq_buf.mtext`.  The text is shorter than the line; the number has 10 bytes
for itself and its NUL.

`copyRmtab_iff`: both copies stay inside, and `atol` reads the number, exactly if it has at most
nine digits.
-/

namespace Alnp.SysvMsgRegex

def lenMqMtext : Nat := 512

/-- `sizeof(mbuf)` -/
def sizeofMbuf : Nat := 0xa

/-- `COPY_RMTAB(dest, src, m)` -/
def copyRmtab (dest src : List Char) (m : Regmatch) : Access (List Char) := do
  let dest ← Buffer.copy (m.slice src) dest
  Buffer.store (m.eo - m.so : Nat) nul dest

variable {dest src : List Char} {m : Regmatch}

theorem length_copyRmtab : (copyRmtab dest src m).value.length = dest.length := by
  rw [copyRmtab, Access.value_bind, Buffer.length_store, Buffer.length_copy]

/-- The NUL is the last byte written. -/
theorem within_copyRmtab (n : Nat) (whole : (m.slice src).length = m.eo - m.so) :
    (copyRmtab dest src m).Within n ↔ (m.slice src).length < n := by
  rw [copyRmtab, Access.within_bind, Buffer.within_copy, Buffer.within_store, whole]
  omega

/-- A group that fits is copied with its NUL. -/
theorem value_copyRmtab (whole : (m.slice src).length = m.eo - m.so)
    (fits : (m.slice src).length < dest.length) :
    (copyRmtab dest src m).value =
      m.slice src ++ nul :: dest.drop ((m.slice src).length + 1) := by
  rw [copyRmtab, Access.value_bind, Buffer.value_copy (Nat.le_of_lt fits), Buffer.value_store_nat,
    ← whole, List.set_append_right _ _ (Nat.le_refl _), Nat.sub_self,
    List.drop_eq_getElem_cons fits, List.set_cons_zero]

/-- What a copy of a group is read as: a longer one lacks its end. -/
theorem cString_copyRmtab (whole : (m.slice src).length = m.eo - m.so)
    (none : nul ∉ m.slice src) :
    cString (copyRmtab dest src m).value = (m.slice src).take dest.length := by
  by_cases fits : (m.slice src).length < dest.length
  · rw [value_copyRmtab whole fits, cString_append_nul none,
      List.take_of_length_le (Nat.le_of_lt fits)]
  · have long := Nat.le_of_not_lt fits
    have copied : (Buffer.copy (m.slice src) dest).value = (m.slice src).take dest.length := by
      rw [Buffer.copy, List.drop_of_length_le long, List.append_nil]
    have full : (copyRmtab dest src m).value = (m.slice src).take dest.length := by
      rw [copyRmtab, Access.value_bind, copied, Buffer.value_store_nat, ← whole]
      refine List.set_eq_of_length_le ?_
      rw [List.length_take]
      omega
    rw [full]
    exact cString_of_notMem (mt List.mem_of_mem_take none)

/-! ## The groups of a match -/

variable {s number text behind : List Char}

/-- The two groups of a match, in any buffer that begins with the string. -/
structure Groups (rbuf : List Char) (m : Matchtab) (number text : List Char) : Prop where
  first : m.first.slice rbuf = number
  second : m.second.slice rbuf = text
  firstLength : (m.first.slice rbuf).length = m.first.eo - m.first.so
  secondLength : (m.second.slice rbuf).length = m.second.eo - m.second.so
  noNul : nul ∉ number

theorem Begins.groups (begins : Begins s number text behind) (rest : List Char) :
    Groups (s ++ rest) (matchtab 0 number text) number text := by
  have first := (begins.append rest).slice_first
  have second := (begins.append rest).slice_second
  refine ⟨first, second, ?_, ?_, ?_⟩
  · rw [first]
    simp [matchtab]
  · rw [second]
    simp [matchtab]
  · intro member
    cases begins.number.2 nul member

/-- `atol(mbuf)` with the copy of a number in `mbuf`: it has the digits that `mbuf` holds. -/
theorem Groups.strtol_mbuf {rbuf : List Char} {m : Matchtab} (groups : Groups rbuf m number text)
    (mbuf : List Char) :
    strtol (cString (copyRmtab mbuf rbuf m.first).value) = strtol (number.take mbuf.length) := by
  have noNul := groups.noNul
  rw [← groups.first] at noNul
  rw [cString_copyRmtab groups.firstLength noNul, groups.first]

/-- The string that `fgets` has read is a number and a text, if it matches. -/
theorem begins_of_fgets {fp fp' : Stream} {buf rbuf : List Char} {m : Matchtab}
    (whole : buf.length = lenMqMtext) (got : fgets lenMqMtext buf fp = (some rbuf, fp'))
    (found : regexec (cString rbuf) = some m) :
    ∃ line rest number text behind, rbuf = line ++ rest ∧ line.length < lenMqMtext ∧
      m = matchtab 0 number text ∧ Begins line number text behind := by
  obtain ⟨piece, behind, rfl, newline, fits⟩ := line_of_fgets (by decide) whole got
  rw [cString_append_nul_cons] at found
  obtain ⟨number, text, behind', rfl, begins⟩ :=
    begins_of_regexec (fun member => newline (dropLast_cString_subset piece member)) found
  refine ⟨cString piece, piece.dropWhile (· != nul) ++ nul :: behind, number, text, behind', ?_, ?_,
    rfl, begins⟩
  · rw [← List.append_assoc, cString, List.takeWhile_append_dropWhile]
  · have shorter := (List.takeWhile_prefix (· != nul) (l := piece)).length_le
    unfold cString
    omega

/-- The copies stay inside and `atol` converts the complete first group. -/
def Bounded (rbuf : List Char) (mbuf : Vector Char sizeofMbuf) (mtext : Vector Char lenMqMtext)
    (m : Matchtab) : Prop :=
  (copyRmtab mbuf.toList rbuf m.first).Within sizeofMbuf ∧
    (copyRmtab mtext.toList rbuf m.second).Within lenMqMtext ∧
    strtol (cString (copyRmtab mbuf.toList rbuf m.first).value) = digitsValue (m.first.slice rbuf)

/-- **Buffer bounds.**  For every line that `fgets` reads and that matches, the two copies stay
inside their buffers and `atol` converts the complete first group exactly if the line begins with at
most nine digits. -/
theorem copyRmtab_iff (fp fp' : Stream) (buf : Vector Char lenMqMtext) (rbuf : List Char)
    (mbuf : Vector Char sizeofMbuf) (mtext : Vector Char lenMqMtext) (m : Matchtab)
    (got : fgets lenMqMtext buf.toList fp = (some rbuf, fp'))
    (found : regexec (cString rbuf) = some m) :
    Bounded rbuf mbuf mtext m ↔ (rbuf.takeWhile Char.isDigit).length ≤ 9 := by
  obtain ⟨line, rest, number, text, behind, rfl, short, rfl, begins⟩ :=
    begins_of_fgets buf.length_toList got found
  have groups := begins.groups rest
  have inside : text.length < lenMqMtext := by
    have within := begins.length_le
    omega
  rw [Bounded, within_copyRmtab _ groups.firstLength, within_copyRmtab _ groups.secondLength,
    groups.strtol_mbuf, groups.first, groups.second, (begins.append rest).takeWhile_isDigit,
    mbuf.length_toList]
  constructor
  · rintro ⟨fits, -, -⟩
    exact Nat.le_of_lt_succ fits
  · intro nine
    have ten : number.length ≤ sizeofMbuf := Nat.le_succ_of_le nine
    refine ⟨Nat.lt_succ_of_le nine, inside, ?_⟩
    rw [List.take_of_length_le ten]
    exact strtol_of_digits begins.number.2 (by omega)

/-- A stream that `fgets` reads a whole line from. -/
theorem fgets_line (line : List Char) (buf : Vector Char lenMqMtext)
    (read : readLine (lenMqMtext - 1) line = (line, [], false)) (some : line ≠ []) :
    ∃ behind, fgets lenMqMtext buf.toList ⟨line, false⟩ =
      (Option.some (line ++ nul :: behind), ⟨[], false⟩) := by
  obtain ⟨behind, -, got⟩ := fgets_of_ne_nil lenMqMtext (by decide) buf.length_toList
    (show (Stream.mk line false).rest ≠ [] from some)
  dsimp only at got
  rw [read] at got
  exact ⟨behind, got⟩

theorem copyRmtab_three : ∃ rbuf fp',
    fgets lenMqMtext (Vector.replicate lenMqMtext nul).toList ⟨"123,abc\n".toList, false⟩ =
      (some rbuf, fp') ∧
    (Bounded rbuf (Vector.replicate sizeofMbuf nul) (Vector.replicate lenMqMtext nul)
      (matchtab 0 "123".toList "abc".toList) ↔ (rbuf.takeWhile Char.isDigit).length ≤ 9) := by
  obtain ⟨behind, got⟩ := fgets_line "123,abc\n".toList
    (Vector.replicate lenMqMtext nul) (by decide) (by decide)
  refine ⟨_, _, got, copyRmtab_iff _ _ _ _ _ _ _ got ?_⟩
  rw [cString_append_nul (by decide)]
  decide

/-- Ten digits and their NUL are 11 bytes. -/
theorem not_forall_bounded : ¬ ∀ (fp fp' : Stream) (buf : Vector Char lenMqMtext)
    (rbuf : List Char) (mbuf : Vector Char sizeofMbuf) (mtext : Vector Char lenMqMtext)
    (m : Matchtab), fgets lenMqMtext buf.toList fp = (some rbuf, fp') →
    regexec (cString rbuf) = some m → Bounded rbuf mbuf mtext m := by
  intro always
  let line := List.replicate 10 '1' ++ [',', 'a', '\n']
  obtain ⟨behind, got⟩ := fgets_line line (Vector.replicate lenMqMtext nul) (by decide) (by decide)
  have begins : Begins line (List.replicate 10 '1') ['a'] ['\n'] :=
    ⟨rfl, by simp, by simp [isLetter]⟩
  have found : regexec (cString (line ++ nul :: behind)) =
      some (matchtab 0 (List.replicate 10 '1') ['a']) := by
    rw [cString_append_nul (by decide)]
    decide
  have groups := begins.groups (nul :: behind)
  obtain ⟨inside, -, -⟩ := always _ _ _ _ (Vector.replicate sizeofMbuf nul)
    (Vector.replicate lenMqMtext nul) _ got found
  rw [within_copyRmtab _ groups.firstLength, groups.first] at inside
  exact absurd inside (by decide)

end Alnp.SysvMsgRegex
