import Alnp.LineTransport.Senders
import Alnp.Shm.Loops

/-!
# Strings that begin with a NUL

Four loops take the length of what `fgets` or `getline` has read, up to the first NUL, and subtract
one for the newline: `start_msq_sender` of `Chapter05/sysv_msg.c` and `posix_msq.c`, and `main` of
`mmap_ran.c` and `posix_shm.c`.

`noUnderflow_iff`: the result is -1 exactly where the input goes on with a NUL.
-/

namespace Alnp.LineTransport

variable {fp : Stream} {buf s : List Char} {size : Nat} {c : Char}

/-! ## What is delivered -/

/-- A string is empty if it begins with a NUL. -/
theorem length_cString_pos_iff : 0 < (cString (c :: s)).length ↔ c ≠ nul := by
  unfold cString
  rw [List.takeWhile_cons]
  by_cases same : c = nul
  · simp [same]
  · simp [same]

/-- A piece begins with the next character of the file. -/
theorem exists_cons_readLine (size : Nat) (more : fp.rest ≠ []) :
    ∃ c s, (readLine (size + 1) fp.rest).1 = c :: s ∧ fp.rest.head? = some c := by
  have read := readLine_cases (size + 1) fp.rest
  obtain ⟨c, s, first⟩ := List.exists_cons_of_ne_nil (read.ne_nil (Nat.succ_pos size) more)
  have whole := read.append
  rw [first] at whole
  exact ⟨c, s, first, by rw [← whole, List.cons_append, List.head?_cons]⟩

/-- What holds of a string exactly if it does not begin with a NUL holds of the next one that
`fgets` delivers exactly if the file does not go on with a NUL. -/
theorem fgets_iff {P : List Char → Prop} (room : 1 < size) (whole : buf.length = size)
    (tests : ∀ c s, P (c :: s) ↔ c ≠ nul) :
    (∀ rbuf ∈ (fgets size buf fp).1, P rbuf) ↔ fp.rest.head? ≠ some nul := by
  by_cases done : fp.rest = []
  · obtain ⟨fp', missed⟩ := fgets_of_nil size buf done
    rw [missed, done]
    exact iff_of_true nofun nofun
  · obtain ⟨behind, -, filled⟩ := fgets_of_ne_nil size room whole done
    obtain ⟨k, rfl⟩ : ∃ k, size = k + 2 := ⟨size - 2, by omega⟩
    obtain ⟨c, s, piece, head⟩ := exists_cons_readLine k done
    have filled : (fgets (k + 2) buf fp).1 = some (c :: (s ++ nul :: behind)) := by
      rw [filled, ← List.cons_append, ← piece]
      rfl
    rw [filled, head]
    simp [tests]

/-- The same for `getline`. -/
theorem getline_iff {P : List Char → Prop} (tests : ∀ c s, P (c :: s) ↔ c ≠ nul) :
    (∀ line ∈ (getline fp).1, P line) ↔ fp.rest.head? ≠ some nul := by
  by_cases done : fp.rest = []
  · have missed : (getline fp).1 = none := by
      unfold getline
      rw [done]
      rfl
    rw [missed, done]
    exact iff_of_true nofun nofun
  · obtain ⟨c, s, first, head⟩ := exists_cons_readLine fp.rest.length done
    have read : (getline fp).1 = some (c :: s) := by
      unfold getline
      generalize readLine (fp.rest.length + 1) fp.rest = found at first ⊢
      obtain ⟨line, left, ended⟩ := found
      dsimp only at first
      rw [first]
    rw [read, head]
    simp [tests]

/-! ## The four computations -/

/-- The string of a buffer has at most as many characters as are looked at. -/
theorem strnlen_le (maxlen : Nat) : strnlen s maxlen ≤ maxlen :=
  Nat.le_trans (List.takeWhile_prefix _).length_le (List.length_take_le _ _)

theorem strnlen_pos_iff {maxlen : Nat} : 0 < strnlen (c :: s) (maxlen + 1) ↔ c ≠ nul := by
  rw [strnlen, List.take_succ_cons]
  exact length_cString_pos_iff

theorem lenMtext_iff (c : Char) (s : List Char) :
    0 ≤ SysvMsg.lenMtext (c :: s) ∧ SysvMsg.lenMtext (c :: s) ≤ 511 ↔ c ≠ nul := by
  have below : strnlen (c :: s) 512 ≤ 512 := strnlen_le 512
  have positive : 0 < strnlen (c :: s) 512 ↔ c ≠ nul := strnlen_pos_iff
  rw [← positive]
  unfold SysvMsg.lenMtext SysvMsg.lenMqMtext
  omega

/-- The index that `stripNewline` uses. -/
theorem strip_iff (c : Char) (s : List Char) :
    (∀ i ∈ (stripNewline (c :: s)).indices, 0 ≤ i) ↔ c ≠ nul := by
  rw [← length_cString_pos_iff (s := s)]
  simp only [stripNewline, Buffer.store, List.mem_singleton, forall_eq]
  omega

/-- **Lengths.**  Of whatever stands in the file, the two lengths are in 0 to 511, and the two
indices not negative, exactly if the file does not go on with a NUL. -/
theorem noUnderflow_iff (fp : Stream) (rbuf : Vector Char 512) (aInput : Vector Char 100) :
    ((∀ buf ∈ (fgets SysvMsg.lenMqMtext rbuf.toList fp).1,
        0 ≤ SysvMsg.lenMtext buf ∧ SysvMsg.lenMtext buf ≤ 511) ↔ fp.rest.head? ≠ some nul) ∧
      ((∀ buf ∈ (fgets PosixMsq.lenRbuf rbuf.toList fp).1,
        0 ≤ PosixMsq.lenOf buf ∧ PosixMsq.lenOf buf ≤ 511) ↔ fp.rest.head? ≠ some nul) ∧
      ((∀ buf ∈ (fgets ShmLoop.MmapRan.sizeofInput aInput.toList fp).1, buf.head? ≠ some '*' →
        ∀ i ∈ (stripNewline buf).indices, 0 ≤ i) ↔ fp.rest.head? ≠ some nul) ∧
      ((∀ line ∈ (getline fp).1, ∀ i ∈ (stripNewline (lineBuffer line)).indices, 0 ≤ i) ↔
        fp.rest.head? ≠ some nul) := by
  refine ⟨?_, ?_, ?_, ?_⟩
  · exact fgets_iff (by decide) rbuf.length_toList lenMtext_iff
  · exact fgets_iff (by decide) rbuf.length_toList lenMtext_iff
  · refine fgets_iff (by decide) aInput.length_toList fun c s => ?_
    by_cases star : c = '*'
    · subst star
      exact iff_of_true (fun other => absurd rfl other) (by decide)
    · rw [← strip_iff c s]
      simp [star]
  · exact getline_iff fun c s => strip_iff c (s ++ [nul])

/-- A NUL and a newline. -/
theorem not_forall_noUnderflow :
    ¬ ∀ (fp : Stream) (rbuf : Vector Char 512) (aInput : Vector Char 100),
      (∀ buf ∈ (fgets SysvMsg.lenMqMtext rbuf.toList fp).1,
        0 ≤ SysvMsg.lenMtext buf ∧ SysvMsg.lenMtext buf ≤ 511) ∧
      (∀ buf ∈ (fgets PosixMsq.lenRbuf rbuf.toList fp).1,
        0 ≤ PosixMsq.lenOf buf ∧ PosixMsq.lenOf buf ≤ 511) ∧
      (∀ buf ∈ (fgets ShmLoop.MmapRan.sizeofInput aInput.toList fp).1, buf.head? ≠ some '*' →
        ∀ i ∈ (stripNewline buf).indices, 0 ≤ i) ∧
      ∀ line ∈ (getline fp).1, ∀ i ∈ (stripNewline (lineBuffer line)).indices, 0 ≤ i := by
  intro always
  obtain ⟨-, -, -, shm⟩ := always ⟨[nul, '\n'], false⟩ (Vector.replicate 512 nul)
    (Vector.replicate 100 nul)
  exact (getline_iff fun c s => strip_iff c (s ++ [nul])).mp shm rfl

end Alnp.LineTransport
