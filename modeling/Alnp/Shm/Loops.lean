import Mathlib.Data.List.TakeDrop
import Mathlib.Data.List.TakeWhile
import Alnp.Lib.CInt
import Alnp.Shm.Commands

/-!
# The command loops over a mapped area

The loops of `Chapter05/mmap_ran.c` and `sysv_shm.c`: an input tells what to do with an area of
memory, and what it tells depends on the input only.  The loop of `posix_shm.c` is one of them too
(`posixShm_run`).

* `within_run_iff`: the loop stores inside an area exactly if nothing longer is copied.
* `value_run`: in the end the area has been overwritten with one text after the other.
-/

namespace Alnp.ShmLoop

/-- What an input tells the loop to do. -/
inductive Action
  | leave
  /-- to print something about the area -/
  | info
  /-- to print the string in the area -/
  | print
  /-- `memcpy` of some bytes to the beginning of the area -/
  | store (bytes : List Char)
  deriving DecidableEq

/-- The loop over some inputs: the area in front of the next one, or nothing if the loop has been
left. -/
def run (decode : List Char → Action) :
    List (List Char) → List Char → Access (Option (List Char))
  | [], area => pure (some area)
  | input :: inputs, area =>
      match decode input with
      | .leave => pure none
      | .info => run decode inputs area
      | .print => run decode inputs area
      | .store bytes => do
          let area ← Buffer.copy bytes area
          run decode inputs area

/-- `n_read = (int) getline(..)` -/
def nRead (input : List Char) : Int := CInt.convert CInt.int input.length

/-- A number as the `size_t` that `memcpy` takes. -/
def sizeT (n : Int) : Nat := (n % 18446744073709551616).toNat

/-- What `memcpy` finds in a buffer; bytes behind the buffer count as NUL. -/
def bytesOf (buffer : List Char) (size : Nat) : List Char := buffer.takeD size nul

/-- `printf("%.*s", precision, area)`, which is undefined if it leaves the area. -/
def printed (precision : Nat) (area : List Char) : Option (List Char) :=
  if precision ≤ area.length ∨ nul ∈ area then some (printedString precision area) else none

/-- What an input shows of the area. -/
def shown (decode : List Char → Action) (precision : Nat) (input area : List Char) :
    Option (List Char) :=
  match decode input with
  | .print => printed precision area
  | _ => none

/-! ## The three programs -/

namespace MmapRan

def mmapSize : Nat := 64

/-- `sizeof(a_input)` -/
def sizeofInput : Nat := 100

/-- The body of the loop for the string that `fgets` has stored. -/
def decode (input : List Char) : Action :=
  if input.head? = some '*' then .print
  else .store (cString (stripNewline (lineBuffer input)).value)

end MmapRan

namespace SysvShm

def szShmSegment : Nat := 4096

/-- The body of the loop for a line that `getline` has read. -/
def decode (input : List Char) : Action :=
  if nRead input = -1 then .leave
  else if input.head? = some '.' then .leave
  else if input.head? = some '?' then .info
  else if input.head? = some '*' then .print
  else .store (bytesOf (lineBuffer input) (sizeT (nRead input)))

/-- The segment for the first line: a new one, or the one with the number that the line holds. -/
def segment (existing : Int → Option (List Char)) (first : List Char) : Option (List Char) :=
  if first.head? = some 'c' then some (List.replicate szShmSegment nul) else existing (atoi first)

end SysvShm

namespace PosixShm

/-- The body of the loop for a line that `getline` has read. -/
def decode (input : List Char) : Action :=
  let pInput := (stripNewline (lineBuffer input)).value
  if nRead input = -1 then .leave
  else if pInput.head? = some '.' then .leave
  else if pInput.head? = some '*' then .print
  else .store (bytesOf pInput (sizeT (nRead input)))

end PosixShm

variable {decode : List Char → Action} {input : List Char} {inputs : List (List Char)}
  {area : List Char}

/-- The length of a line that is an `int`. -/
theorem nRead_of_lt (short : input.length < 2147483648) : nRead input = input.length :=
  CInt.convert_of_fits (CInt.fits_of_nonneg (Int.natCast_nonneg _) (by unfold CInt.int; omega))

theorem sizeT_nRead (short : input.length < 2147483648) : sizeT (nRead input) = input.length := by
  rw [nRead_of_lt short, sizeT]
  omega

theorem bytesOf_of_le {buffer : List Char} {size : Nat} (inside : size ≤ buffer.length) :
    bytesOf buffer size = buffer.take size := List.takeD_eq_take nul inside

theorem length_bytesOf (buffer : List Char) (size : Nat) : (bytesOf buffer size).length = size :=
  List.takeD_length size buffer nul

/-- What is copied of a line that has not been changed. -/
theorem bytesOf_lineBuffer (short : input.length < 2147483648) :
    bytesOf (lineBuffer input) (sizeT (nRead input)) = input := by
  rw [sizeT_nRead short, bytesOf_of_le (by simp [lineBuffer]), lineBuffer, List.take_left]

/-- The loop of `posix_shm.c` as it has been modelled for itself, for lines whose length is an
`int`. -/
theorem posixShm_run (short : ∀ input ∈ inputs, input.length < 2147483648) :
    ShmCommands.run inputs area = run PosixShm.decode inputs area := by
  induction inputs generalizing area with
  | nil => rfl
  | cons input inputs ih =>
      obtain ⟨here, later⟩ := List.forall_mem_cons.mp short
      have read : nRead input ≠ -1 := by
        rw [nRead_of_lt here]
        omega
      have copied : bytesOf (stripNewline (lineBuffer input)).value (sizeT (nRead input)) =
          (stripNewline (lineBuffer input)).value.take input.length := by
        rw [sizeT_nRead here]
        exact bytesOf_of_le (by simp [stripNewline, lineBuffer])
      rw [ShmCommands.run, run, ShmCommands.command, PosixShm.decode, if_neg read, copied]
      split
      · rfl
      · split
        · exact ih later
        · rw [Access.bind_pure_bind]
          exact congrArg _ (funext fun area => ih later)

/-- The string loses its last character, if it has one. -/
theorem cString_stripNewline (input : List Char) :
    cString (stripNewline (lineBuffer input)).value = (cString input).dropLast := by
  have whole : cString (lineBuffer input) = cString input := cString_append_nul_cons input []
  obtain ⟨rest, split⟩ := List.takeWhile_prefix (· != nul) (l := lineBuffer input)
  have split : cString input ++ rest = lineBuffer input := whole ▸ split
  rw [stripNewline, whole]
  rcases List.eq_nil_or_concat (cString input) with empty | ⟨text, last, found⟩
  · rw [empty] at whole ⊢
    exact whole
  · rw [List.concat_eq_append] at found
    have absent : nul ∉ text := by
      intro member
      apply nul_notMem_cString input
      rw [found]
      exact List.mem_append_left _ member
    have index : (((text ++ [last]).length : Int) - 1) = (text.length : Nat) := by
      rw [List.length_append, List.length_singleton]
      omega
    rw [← split, found, index, Buffer.value_store_nat, List.dropLast_concat, List.append_assoc,
      List.set_append_right _ _ (Nat.le_refl _), Nat.sub_self]
    exact cString_append_nul absent rest

/-! ## Where the loop stores -/

/-- The inputs up to the one that ends the loop. -/
def executed (decode : List Char → Action) (inputs : List (List Char)) : List (List Char) :=
  inputs.takeWhile fun input => decode input != .leave

/-- What the loop copies. -/
def stores (decode : List Char → Action) : List (List Char) → List (List Char)
  | [] => []
  | input :: inputs =>
      match decode input with
      | .leave => []
      | .info => stores decode inputs
      | .print => stores decode inputs
      | .store bytes => bytes :: stores decode inputs

theorem mem_stores {bytes : List Char} :
    bytes ∈ stores decode inputs ↔
      ∃ input ∈ executed decode inputs, decode input = .store bytes := by
  induction inputs with
  | nil => simp [stores, executed]
  | cons input inputs ih =>
      unfold executed at ih ⊢
      rw [stores, List.takeWhile_cons]
      cases action : decode input with
      | leave => simp
      | info => simp [action, ih]
      | print => simp [action, ih]
      | store text =>
          have goes : (Action.store text != .leave) = true := by simp
          rw [List.mem_cons, ih, if_pos goes, List.exists_mem_cons_iff, action, Action.store.injEq]
          exact or_congr_left eq_comm

/-- The loop stays inside an area exactly if nothing that it copies is longer. -/
theorem within_run_iff (n : Nat) :
    (run decode inputs area).Within n ↔ ∀ bytes ∈ stores decode inputs, bytes.length ≤ n := by
  induction inputs generalizing area with
  | nil => exact iff_of_true (Access.within_pure _) nofun
  | cons input inputs ih =>
      rw [run, stores]
      cases decode input with
      | leave => exact iff_of_true (Access.within_pure _) nofun
      | info => exact ih
      | print => exact ih
      | store bytes =>
          rw [List.forall_mem_cons]
          exact Access.within_bind.trans (and_congr (Buffer.within_copy n) ih)

/-! ## What is in the area -/

/-- Copies to the beginning of the area, one after the other. -/
def overwrite (texts : List (List Char)) (area : List Char) : List Char :=
  texts.foldl (fun area text => (Buffer.copy text area).value) area

/-- A loop that has not been left has copied what it was told to. -/
theorem value_run (stays : ∀ input ∈ inputs, decode input ≠ .leave) :
    (run decode inputs area).value = some (overwrite (stores decode inputs) area) := by
  induction inputs generalizing area with
  | nil => rfl
  | cons input inputs ih =>
      obtain ⟨here, later⟩ := List.forall_mem_cons.mp stays
      rw [run, stores]
      cases action : decode input with
      | leave => exact absurd action here
      | info => exact ih later
      | print => exact ih later
      | store bytes =>
          rw [Access.value_bind]
          exact ih later

/-- A loop that goes on has not been left. -/
theorem ne_leave_of_value {area' : List Char}
    (reached : (run decode inputs area).value = some area') :
    ∀ input ∈ inputs, decode input ≠ .leave := by
  induction inputs generalizing area with
  | nil => nofun
  | cons input inputs ih =>
      rw [run] at reached
      rw [List.forall_mem_cons]
      cases action : decode input with
      | leave =>
          rw [action] at reached
          cases reached
      | info =>
          rw [action] at reached
          exact ⟨nofun, ih reached⟩
      | print =>
          rw [action] at reached
          exact ⟨nofun, ih reached⟩
      | store bytes =>
          rw [action] at reached
          exact ⟨nofun, ih reached⟩

end Alnp.ShmLoop
