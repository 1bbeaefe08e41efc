import Alnp.Shm.Loops

/-!
# What the area shows

`Chapter05/mmap_ran.c` and `sysv_shm.c` copy a text to the beginning of their area without the NUL
behind it, so that the string in the area goes on with what has been there before.

* `printed_overwrite_iff`: when the area shows the last of the texts copied to it.
* `displays_iff`: the same for the inputs of the two programs.
-/

namespace Alnp.ShmLoop

section

variable {precision k : Nat} {text area rest : List Char} {texts : List (List Char)}

/-! ## Copies one over the other -/

theorem overwrite_cons :
    overwrite (text :: texts) area = overwrite texts (Buffer.copy text area).value := rfl

theorem length_overwrite : (overwrite texts area).length = area.length := by
  induction texts generalizing area with
  | nil => rfl
  | cons text texts ih => rw [overwrite_cons, ih, Buffer.length_copy]

theorem getElem?_copy (fits : text.length ≤ area.length) :
    (Buffer.copy text area).value[k]? = if k < text.length then text[k]? else area[k]? := by
  rw [Buffer.value_copy fits]
  split
  · next inside => exact List.getElem?_append_left inside
  · next beyond =>
      have le : text.length ≤ k := Nat.le_of_not_lt beyond
      rw [List.getElem?_append_right le, List.getElem?_drop, Nat.add_sub_cancel' le]

/-- Behind all texts the area is as it was. -/
theorem getElem?_overwrite_of_beyond (fits : ∀ t ∈ texts, t.length ≤ area.length)
    (beyond : ∀ t ∈ texts, t.length ≤ k) : (overwrite texts area)[k]? = area[k]? := by
  induction texts generalizing area with
  | nil => rfl
  | cons text texts ih =>
      obtain ⟨fits', fits⟩ := List.forall_mem_cons.mp fits
      obtain ⟨beyond', beyond⟩ := List.forall_mem_cons.mp beyond
      rw [overwrite_cons, ih (by rwa [Buffer.length_copy]) beyond, getElem?_copy fits',
        if_neg (Nat.not_lt_of_le beyond')]

/-- Where a text has been there is a character other than NUL. -/
theorem getElem?_overwrite_of_covered (fits : ∀ t ∈ texts, t.length ≤ area.length)
    (noNul : ∀ t ∈ texts, nul ∉ t) (covered : ∃ t ∈ texts, k < t.length) :
    ∃ c, c ≠ nul ∧ (overwrite texts area)[k]? = some c := by
  induction texts generalizing area with
  | nil => exact absurd covered nofun
  | cons text texts ih =>
      obtain ⟨fits', fits⟩ := List.forall_mem_cons.mp fits
      obtain ⟨noNul', noNul⟩ := List.forall_mem_cons.mp noNul
      have fits'' : ∀ t ∈ texts, t.length ≤ (Buffer.copy text area).value.length := by
        rwa [Buffer.length_copy]
      rw [overwrite_cons]
      by_cases later : ∃ t ∈ texts, k < t.length
      · exact ih fits'' noNul later
      · have beyond : ∀ t ∈ texts, t.length ≤ k := fun t member =>
          Nat.le_of_not_lt fun inside => later ⟨t, member, inside⟩
        have here : k < text.length := by
          obtain ⟨t, member, inside⟩ := covered
          rcases List.mem_cons.mp member with rfl | member
          · exact inside
          · exact absurd ⟨t, member, inside⟩ later
        refine ⟨text[k], fun same => noNul' (same ▸ List.getElem_mem here), ?_⟩
        rw [getElem?_overwrite_of_beyond fits'' beyond, getElem?_copy fits', if_pos here,
          List.getElem?_eq_getElem here]

/-- The last text is at the beginning. -/
theorem overwrite_last (fits : ∀ t ∈ texts, t.length ≤ area.length)
    (last : texts.getLast? = some text) : ∃ rest, overwrite texts area = text ++ rest := by
  obtain ⟨earlier, rfl⟩ := List.getLast?_eq_some_iff.mp last
  have inside : text.length ≤ (overwrite earlier area).length := by
    rw [length_overwrite]
    exact fits text (List.mem_append_right _ (List.mem_singleton_self text))
  have whole : overwrite (earlier ++ [text]) area =
      (Buffer.copy text (overwrite earlier area)).value := List.foldl_append
  exact ⟨_, whole.trans (Buffer.value_copy inside)⟩

/-! ## What is printed -/

/-- What comes behind a string without a NUL is shown with it. -/
theorem printed_ne_of_ne_nul {c : Char} (noNul : nul ∉ text) (long : text.length < precision)
    (other : c ≠ nul) : printed precision (text ++ c :: rest) ≠ some text := by
  intro shown
  obtain ⟨d, rfl⟩ : ∃ d, precision = text.length + (d + 1) :=
    ⟨precision - text.length - 1, by omega⟩
  have goes : (c != nul) = true := bne_iff_ne.mpr other
  have differs : ∀ d ∈ text, (d != nul) = true := fun d member =>
    bne_iff_ne.mpr fun same => noNul (same ▸ member)
  unfold printed at shown
  split at shown
  · rw [printedString, List.take_length_add_append, List.take_succ_cons, cString,
      List.takeWhile_append_of_pos differs, List.takeWhile_cons, if_pos goes,
      Option.some.injEq, List.append_right_eq_self] at shown
    cases shown
  · cases shown

/-- Of a longer string not more is shown than the precision allows. -/
theorem printed_ne_of_lt (short : precision < text.length) :
    printed precision (text ++ rest) ≠ some text := by
  intro same
  have atMost : (printedString precision (text ++ rest)).length ≤ precision :=
    Nat.le_trans (List.takeWhile_prefix _).length_le (List.length_take_le _ _)
  rw [printed, if_pos (.inl (by rw [List.length_append]; omega)), Option.some.injEq] at same
  rw [same] at atMost
  omega

/-- A string is shown alone if the precision ends it, or the NUL that comes next. -/
theorem printed_append_iff (noNul : nul ∉ text) :
    printed precision (text ++ rest) = some text ↔
      text.length ≤ precision ∧ (text.length = precision ∨ rest.head? = some nul) := by
  rcases Nat.lt_trichotomy precision text.length with short | whole | long
  · exact iff_of_false (printed_ne_of_lt short) fun fits => absurd fits.1 (Nat.not_le_of_lt short)
  · refine iff_of_true ?_ ⟨Nat.le_of_eq whole.symm, .inl whole.symm⟩
    rw [printed, if_pos (.inl (by rw [List.length_append]; omega)), printedString, whole,
      List.take_left, cString_of_notMem noNul]
  · have other : text.length ≠ precision := Nat.ne_of_lt long
    rw [and_iff_right (Nat.le_of_lt long), or_iff_right other]
    cases rest with
    | nil =>
        have undefined : ¬ (precision ≤ (text ++ []).length ∨ nul ∈ text ++ []) := by
          rw [List.append_nil]
          exact not_or.mpr ⟨Nat.not_le_of_lt long, noNul⟩
        rw [printed, if_neg undefined, List.head?_nil]
        exact iff_of_false (Option.some_ne_none text).symm (Option.some_ne_none nul).symm
    | cons c rest =>
        rw [List.head?_cons, Option.some.injEq]
        by_cases same : c = nul
        · subst same
          rw [printed, if_pos (.inr (by simp)), printedString_of_nul noNul long]
          exact iff_of_true rfl rfl
        · exact iff_of_false (printed_ne_of_ne_nul noNul long same) same

/-- **Texts over texts.**  The area shows the last text exactly if the precision allows it and
either ends it or no earlier text was longer and the area had a NUL behind it before. -/
theorem printed_overwrite_iff (fits : ∀ t ∈ texts, t.length ≤ area.length)
    (noNul : ∀ t ∈ texts, nul ∉ t) (last : texts.getLast? = some text) :
    printed precision (overwrite texts area) = some text ↔
      text.length ≤ precision ∧
        (text.length = precision ∨
          (∀ t ∈ texts, t.length ≤ text.length) ∧ area[text.length]? = some nul) := by
  obtain ⟨rest, whole⟩ := overwrite_last fits last
  have member : text ∈ texts := List.mem_of_getLast? last
  have next : rest.head? = (overwrite texts area)[text.length]? := by
    rw [whole, List.getElem?_append_right (Nat.le_refl _), Nat.sub_self, List.head?_eq_getElem?]
  rw [whole, printed_append_iff (noNul text member), next]
  refine and_congr_right fun _ => or_congr_right ?_
  by_cases longest : ∀ t ∈ texts, t.length ≤ text.length
  · rw [getElem?_overwrite_of_beyond fits longest]
    exact (and_iff_right longest).symm
  · have covered : ∃ t ∈ texts, text.length < t.length := by
      simpa only [not_forall, exists_prop, Nat.not_le] using longest
    obtain ⟨c, other, found⟩ := getElem?_overwrite_of_covered fits noNul covered
    rw [found]
    exact iff_of_false (fun same => other (Option.some.inj same)) fun both => longest both.1

end

/-! ## The inputs of the programs -/

/-- An input without NUL, a line with its newline, whose text has at most `n` characters. -/
structure Input (n : Nat) where
  text : List Char
  noNul : nul ∉ text
  noNewline : '\n' ∉ text
  short : text.length ≤ n

variable {n : Nat}

def Input.line (input : Input n) : List Char := input.text ++ ['\n']

theorem Input.nul_notMem_line (input : Input n) : nul ∉ input.line := by
  rw [line, List.mem_append, not_or]
  exact ⟨input.noNul, by decide⟩

/-- The input that shows the area. -/
def star : List Char := ['*', '\n']

/-- The first character of a line. -/
theorem Input.head_line (input : Input n) {c : Char} (other : c ≠ '\n') :
    input.line.head? = some c ↔ input.text.head? = some c := by
  rw [line]
  cases input.text with
  | nil => simp [other.symm]
  | cons d text => simp

namespace MmapRan

/-- The texts to be stored, without their newlines. -/
def texts (inputs : List (Input n)) : List (List Char) :=
  (inputs.map Input.text).filter fun text => text.head? ≠ some '*'

/-- The next `*` shows the most recent text. -/
def Displays (pMap : List Char) (inputs : List (Input n)) : Prop :=
  ∀ text, (texts inputs).getLast? = some text →
    ∃ area, (run decode (inputs.map Input.line) pMap).value = some area ∧
      shown decode mmapSize star area = some text

theorem decode_line (input : Input n) :
    decode input.line = if input.text.head? = some '*' then .print else .store input.text := by
  unfold decode
  simp only [input.head_line (by decide : '*' ≠ '\n'), cString_stripNewline,
    cString_of_notMem input.nul_notMem_line]
  rw [Input.line, List.dropLast_concat]

/-- The loop copies the texts. -/
theorem stores_eq (inputs : List (Input n)) :
    stores decode (inputs.map Input.line) = texts inputs := by
  induction inputs with
  | nil => rfl
  | cons input inputs ih =>
      unfold texts at ih ⊢
      rw [List.map_cons, List.map_cons, List.filter_cons, stores, decode_line]
      by_cases star : input.text.head? = some '*'
      · simp [star, ih]
      · simp [star, ih]

end MmapRan

namespace SysvShm

/-- An input with which the loop goes on. -/
structure Input (n : Nat) extends ShmLoop.Input n where
  goesOn : text.head? ≠ some '.'

/-- The texts to be stored, with their newlines. -/
def texts (inputs : List (Input n)) : List (List Char) :=
  (inputs.map fun input => input.line).filter fun line =>
    line.head? ≠ some '?' ∧ line.head? ≠ some '*'

/-- Nothing outside the segment is stored to, and the next `*` shows the most recent text. -/
def Displays (shm : List Char) (inputs : List (Input n)) : Prop :=
  ∀ text, (texts inputs).getLast? = some text →
    (run decode (inputs.map fun input => input.line) shm).Within shm.length ∧
      ∃ area, (run decode (inputs.map fun input => input.line) shm).value = some area ∧
        shown decode szShmSegment star area = some text

/-- What is copied of a text. -/
def copied (line : List Char) : List Char := bytesOf (lineBuffer line) (sizeT (nRead line))

theorem decode_line (input : Input n) :
    decode input.line =
      if nRead input.line = -1 then .leave
      else if input.line.head? = some '?' then .info
      else if input.line.head? = some '*' then .print
      else .store (copied input.line) := by
  have stays : ¬ input.line.head? = some '.' := by
    rw [input.head_line (by decide)]
    exact input.goesOn
  rw [decode, if_neg stays]
  rfl

/-- The loop copies the texts, unless the length of an input comes to -1. -/
theorem stores_eq (inputs : List (Input n)) (read : ∀ input ∈ inputs, nRead input.line ≠ -1) :
    stores decode (inputs.map fun input => input.line) = (texts inputs).map copied := by
  induction inputs with
  | nil => rfl
  | cons input inputs ih =>
      obtain ⟨here, later⟩ := List.forall_mem_cons.mp read
      have ih := ih later
      unfold texts at ih ⊢
      simp only [List.map_cons, List.filter_cons]
      rw [stores, decode_line, if_neg here]
      by_cases info : input.line.head? = some '?'
      · simp [info, ih]
      · by_cases star : input.line.head? = some '*'
        · simp [star, ih]
        · simp [info, star, ih]

/-- An input does not end the loop exactly if its length does not come to -1. -/
theorem decode_ne_leave (input : Input n) :
    decode input.line ≠ .leave ↔ nRead input.line ≠ -1 := by
  rw [decode_line]
  split
  · next minus => simp [minus]
  · next read =>
      refine iff_of_true ?_ read
      split
      · nofun
      · split
        · nofun
        · nofun

/-- The length of a text, where it is not negative as an `int`. -/
theorem length_copied {line : List Char} (nonneg : 0 ≤ nRead line) :
    ((copied line).length : Int) = nRead line := by
  have below : nRead line < 2147483648 := by
    have lt := Int.bmod_lt (x := line.length) (m := 2 * CInt.int) (by decide)
    exact lt
  rw [copied, length_bytesOf, sizeT]
  omega

/-- A length that is negative as an `int` is too large for any object as a `size_t`. -/
theorem nonneg_of_fits {line : List Char} (fits : (copied line).length ≤ n + 1)
    (object : n < 9223372036854775808) : 0 ≤ nRead line := by
  have above : -2147483648 ≤ nRead line := by
    have le := Int.le_bmod (x := line.length) (m := 2 * CInt.int) (by decide)
    exact le
  rw [copied, length_bytesOf, sizeT] at fits
  omega

theorem nRead_le (line : List Char) : nRead line ≤ line.length := by
  unfold nRead CInt.convert CInt.int
  rw [Int.bmod_def]
  split <;> omega

/-- The bytes that are copied begin the text. -/
theorem copied_begins {line : List Char} (nonneg : 0 ≤ nRead line) : copied line <+: line := by
  have length := length_copied nonneg
  have le := nRead_le line
  rw [copied, length_bytesOf] at length
  rw [copied, bytesOf_of_le (by rw [lineBuffer, List.length_append]; omega), lineBuffer,
    List.take_append_of_le_length (by omega)]
  exact List.take_prefix _ _

/-- A text whose length fits the precision is copied whole. -/
theorem copied_of_le {line : List Char} (short : line.length ≤ szShmSegment) :
    copied line = line :=
  bytesOf_lineBuffer (Nat.lt_of_le_of_lt short (by decide))

end SysvShm

/-! ## When the most recent text is shown -/

theorem MmapRan.mem_texts {inputs : List (Input n)} {text : List Char}
    (member : text ∈ MmapRan.texts inputs) : nul ∉ text ∧ text.length ≤ n := by
  obtain ⟨input, -, rfl⟩ := List.mem_map.mp (List.mem_filter.mp member).1
  exact ⟨input.noNul, input.short⟩

theorem SysvShm.mem_texts {inputs : List (SysvShm.Input n)} {text : List Char}
    (member : text ∈ SysvShm.texts inputs) : nul ∉ text ∧ text.length ≤ n + 1 := by
  obtain ⟨input, -, rfl⟩ := List.mem_map.mp (List.mem_filter.mp member).1
  refine ⟨input.nul_notMem_line, ?_⟩
  rw [Input.line, List.length_append, List.length_singleton]
  exact Nat.add_le_add_right input.short 1

/-- The most recent text of `mmap_ran.c` fills the mapping, or no text has been longer and the file
had a NUL behind it. -/
def MmapRan.Clean (pMap : List Char) (inputs : List (Input n)) : Prop :=
  ∀ text, (MmapRan.texts inputs).getLast? = some text →
    text.length = 64 ∨
      (∀ t ∈ MmapRan.texts inputs, t.length ≤ text.length) ∧ pMap[text.length]? = some nul

/-- The same for `sysv_shm.c`, where the precision may end the text too; every length is an `int`
that is not negative. -/
def SysvShm.Clean (shm : List Char) (inputs : List (SysvShm.Input n)) : Prop :=
  ∀ text, (SysvShm.texts inputs).getLast? = some text →
    (∀ input ∈ inputs, nRead input.line ≠ -1) ∧ (∀ t ∈ SysvShm.texts inputs, 0 ≤ nRead t) ∧
      text.length ≤ 4096 ∧
        (text.length = 4096 ∨
          (∀ t ∈ SysvShm.texts inputs, nRead t ≤ text.length) ∧ shm[text.length]? = some nul)

theorem MmapRan.displays_iff_clean (pMap : List Char) (inputs : List (Input 64))
    (size : pMap.length = 64) : MmapRan.Displays pMap inputs ↔ MmapRan.Clean pMap inputs := by
  refine forall₂_congr fun text last => ?_
  have stays : ∀ line ∈ inputs.map Input.line, MmapRan.decode line ≠ .leave := by
    intro line member
    obtain ⟨input, -, rfl⟩ := List.mem_map.mp member
    rw [MmapRan.decode_line]
    split
    · nofun
    · nofun
  have value : (run MmapRan.decode (inputs.map Input.line) pMap).value =
      some (overwrite (MmapRan.texts inputs) pMap) := by
    rw [← MmapRan.stores_eq]
    exact value_run stays
  have fits : ∀ t ∈ MmapRan.texts inputs, t.length ≤ pMap.length := fun t member =>
    size ▸ (MmapRan.mem_texts member).2
  have short : text.length ≤ 64 := (MmapRan.mem_texts (List.mem_of_getLast? last)).2
  have here : printed 64 (overwrite (MmapRan.texts inputs) pMap) = some text ↔
      text.length = 64 ∨
        (∀ t ∈ MmapRan.texts inputs, t.length ≤ text.length) ∧ pMap[text.length]? = some nul := by
    rw [printed_overwrite_iff fits (fun t member => (MmapRan.mem_texts member).1) last]
    exact and_iff_right short
  rw [← here]
  constructor
  · rintro ⟨area, reached, shown⟩
    cases value.symm.trans reached
    exact shown
  · intro printed
    exact ⟨_, value, printed⟩

theorem length_printed_le {precision : Nat} {text area : List Char}
    (shown : printed precision area = some text) : text.length ≤ precision := by
  unfold printed at shown
  split at shown
  · cases shown
    exact Nat.le_trans (List.takeWhile_prefix _).length_le (List.length_take_le _ _)
  · cases shown

namespace SysvShm

variable {shm : List Char} {inputs : List (Input n)} {text : List Char}

/-- With lengths that are not negative, the area shows the most recent text or not as the general
result tells. -/
theorem printed_iff (size : shm.length = n + 1) (nonneg : ∀ t ∈ texts inputs, 0 ≤ nRead t)
    (last : (texts inputs).getLast? = some text) (short : text.length ≤ 4096) :
    printed szShmSegment (overwrite ((texts inputs).map copied) shm) = some text ↔
      text.length = 4096 ∨
        (∀ t ∈ texts inputs, nRead t ≤ text.length) ∧ shm[text.length]? = some nul := by
  have last' : ((texts inputs).map copied).getLast? = some text := by
    rw [List.getLast?_map, last, Option.map_some, copied_of_le short]
  have lengths (t : List Char) (member : t ∈ texts inputs) : copied t <+: t :=
    copied_begins (nonneg t member)
  have fits : ∀ t ∈ (texts inputs).map copied, t.length ≤ shm.length := by
    rw [List.forall_mem_map]
    intro t member
    rw [size]
    exact Nat.le_trans (lengths t member).length_le (mem_texts member).2
  have noNul : ∀ t ∈ (texts inputs).map copied, nul ∉ t := by
    rw [List.forall_mem_map]
    exact fun t member inside => (mem_texts member).1 ((lengths t member).subset inside)
  have longest : (∀ t ∈ (texts inputs).map copied, t.length ≤ text.length) ↔
      ∀ t ∈ texts inputs, nRead t ≤ text.length := by
    rw [List.forall_mem_map]
    refine forall₂_congr fun t member => ?_
    rw [← length_copied (nonneg t member)]
    omega
  rw [printed_overwrite_iff fits noNul last', longest]
  exact and_iff_right short

/-- A loop that goes on has copied its texts. -/
theorem value_of_read (shm : List Char) (read : ∀ input ∈ inputs, nRead input.line ≠ -1) :
    (run decode (inputs.map fun input => input.line) shm).value =
      some (overwrite ((texts inputs).map copied) shm) := by
  rw [← stores_eq inputs read]
  refine value_run ?_
  rw [List.forall_mem_map]
  exact fun input member => (decode_ne_leave input).mpr (read input member)

theorem displays_iff_clean (size : shm.length = n + 1) (object : n < 9223372036854775808) :
    Displays shm inputs ↔ Clean shm inputs := by
  refine forall₂_congr fun text last => ?_
  constructor
  · rintro ⟨within, area, reached, shown⟩
    have read : ∀ input ∈ inputs, nRead input.line ≠ -1 := fun input member =>
      (decode_ne_leave input).mp (ne_leave_of_value reached _ (List.mem_map_of_mem member))
    have value := value_of_read shm read
    cases value.symm.trans reached
    rw [within_run_iff, stores_eq inputs read, List.forall_mem_map] at within
    have nonneg : ∀ t ∈ texts inputs, 0 ≤ nRead t := fun t member =>
      nonneg_of_fits (size ▸ within t member) object
    have short := length_printed_le shown
    exact ⟨read, nonneg, short, (printed_iff size nonneg last short).mp shown⟩
  · rintro ⟨read, nonneg, short, clean⟩
    have value := value_of_read shm read
    refine ⟨?_, _, value, (printed_iff size nonneg last short).mpr clean⟩
    rw [within_run_iff, stores_eq inputs read, List.forall_mem_map]
    intro t member
    rw [size]
    exact Nat.le_trans (copied_begins (nonneg t member)).length_le (mem_texts member).2

end SysvShm

/-- **Write, then show.**  In both programs, for a segment of any size, the next `*` shows the most
recent text exactly if the inputs so far are `Clean`. -/
theorem displays_iff (object : n < 9223372036854775808) (pMap : Vector Char 64)
    (inputs : List (Input 64)) (shm : Vector Char (n + 1)) (inputs' : List (SysvShm.Input n)) :
    (MmapRan.Displays pMap.toList inputs ↔ MmapRan.Clean pMap.toList inputs) ∧
      (SysvShm.Displays shm.toList inputs' ↔ SysvShm.Clean shm.toList inputs') :=
  ⟨MmapRan.displays_iff_clean pMap.toList inputs pMap.length_toList,
    SysvShm.displays_iff_clean shm.length_toList object⟩

/-- Texts that get longer, over NULs. -/
theorem displays_growing :
    MmapRan.Displays (Vector.replicate 64 nul).toList
        [(⟨['a'], by decide, by decide, by decide⟩ : Input 64),
          ⟨['x', 'y'], by decide, by decide, by decide⟩] ∧
      SysvShm.Displays (Vector.replicate 4096 nul).toList
        [(⟨⟨['a'], by decide, by decide, by decide⟩, by decide⟩ : SysvShm.Input 4095),
          ⟨⟨['x', 'y'], by decide, by decide, by decide⟩, by decide⟩] := by
  have both := displays_iff (n := 4095) (by decide) (Vector.replicate 64 nul)
    [⟨['a'], by decide, by decide, by decide⟩, ⟨['x', 'y'], by decide, by decide, by decide⟩]
    (Vector.replicate 4096 nul)
    [⟨⟨['a'], by decide, by decide, by decide⟩, by decide⟩,
      ⟨⟨['x', 'y'], by decide, by decide, by decide⟩, by decide⟩]
  refine ⟨both.1.mpr ?_, both.2.mpr ?_⟩
  · intro text last
    cases last
    refine .inr ⟨by decide, ?_⟩
    rw [Vector.toList_replicate]
    exact List.getElem?_replicate_of_lt (by decide)
  · intro text last
    cases last
    refine ⟨by decide, by decide, by decide, .inr ⟨by decide, ?_⟩⟩
    rw [Vector.toList_replicate]
    exact List.getElem?_replicate_of_lt (by decide)

/-- A longer text has been there before: `mmap_ran.c` shows `xbc`, and `sysv_shm.c` a `c` behind the
newline. -/
theorem not_forall_displays :
    (¬ ∀ (pMap : Vector Char 64) (inputs : List (Input 64)),
      MmapRan.Displays pMap.toList inputs) ∧
      ¬ ∀ (n : Nat) (shm : Vector Char (n + 1)) (inputs : List (SysvShm.Input n)),
        SysvShm.Displays shm.toList inputs := by
  let long : Input 64 := ⟨['a', 'b', 'c'], by decide, by decide, by decide⟩
  let short : Input 64 := ⟨['x'], by decide, by decide, by decide⟩
  let long' : SysvShm.Input 4095 := ⟨⟨['a', 'b', 'c'], by decide, by decide, by decide⟩, by decide⟩
  let short' : SysvShm.Input 4095 := ⟨⟨['x'], by decide, by decide, by decide⟩, by decide⟩
  constructor
  · intro always
    have clean := (MmapRan.displays_iff_clean _ [long, short] Vector.length_toList).mp
      (always (Vector.replicate 64 nul) [long, short])
    rcases clean ['x'] rfl with full | ⟨longest, -⟩
    · exact absurd full (by decide)
    · exact absurd (longest ['a', 'b', 'c'] (by decide)) (by decide)
  · intro always
    have clean := (SysvShm.displays_iff_clean Vector.length_toList (by decide)).mp
      (always 4095 (Vector.replicate 4096 nul) [long', short'])
    obtain ⟨-, -, -, full | ⟨longest, -⟩⟩ := clean ['x', '\n'] rfl
    · exact absurd full (by decide)
    · exact absurd (longest ['a', 'b', 'c', '\n'] (by decide)) (by decide)

end Alnp.ShmLoop
