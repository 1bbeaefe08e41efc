import Mathlib.Logic.Function.Basic
import Alnp.Kernel.CString
import Alnp.Lib.Buffer
import Alnp.Lib.CInt
import Alnp.Lib.Loop

/-!
# The array of `mmap_hugepage.c`

`main` of `Chapter05/mmap_hugepage.c` maps an array of as many MiB as it is told, numbers its
elements and then adds to elements picked at random.  The number of elements is a `long`, but the
index of the first loop is an `int`.

`initialised_iff`: up to which size the loop comes to its end.
-/

namespace Alnp.MmapHugepage

structure ElemData where
  num : Int
  str : List Char
  sized : str.length = 28

/-- `num = i` and `stpncpy(str, "test", 4)` -/
def ElemData.init (i : Int) (elem : ElemData) : ElemData :=
  ⟨i, (Buffer.copy ['t', 'e', 's', 't'] elem.str).value, Buffer.length_copy.trans elem.sized⟩

/-- `sizeof(ELEM_DATA)` -/
def sizeofElemData : Nat := 32

/-- `n_array`, computed as a `size_t`. -/
def nArray (argv2 : List Char) : Int :=
  CInt.convert CInt.long (atoi argv2 * (1024 * (1024 / sizeofElemData) : Nat) % 2 ^ 64)

def cntRandomwalking : Int := 800000000

/-- The variables of `main`, the indices of `p_array` that a loop has used, and whether an addition
to an `int` was undefined. -/
structure Main where
  i : Int
  nArray : Int
  pArray : Int → ElemData
  indices : List Int
  overflow : Bool

/-- An access to `p_array[k]` that changes the element. -/
def Main.store (k : Int) (elem : ElemData) (m : Main) : Main :=
  { m with pArray := Function.update m.pArray k elem, indices := m.indices ++ [k] }

/-- `i++`, and on to the next iteration. -/
def Main.increment (m : Main) : Flow Main :=
  match CInt.checked CInt.int (m.i + 1) with
  | some i => .next { m with i := i }
  | none => .leave { m with overflow := true }

/-- The loop that numbers the elements. -/
def initTurn (_ : Unit) (m : Main) : Flow Main :=
  if m.i < m.nArray then (m.store m.i ((m.pArray m.i).init m.i)).increment
  else .leave m

/-- A value of `rand()`. -/
def Rand : Type := { r : Int // 0 ≤ r ∧ r ≤ 2147483647 }

/-- The random walk. -/
def walkTurn (rand : Rand) (m : Main) : Flow Main :=
  if m.i < cntRandomwalking then
    let idx := CInt.convert CInt.int (rand.val.tmod m.nArray)
    let elem := m.pArray idx
    match CInt.checked CInt.int (elem.num + 2) with
    | some num => (m.store idx { elem with num := num }).increment
    | none => .leave { m.store idx elem with overflow := true }
  else .leave m

/-- In front of the first loop, behind a `mmap` that succeeds. -/
def Main.start (argv2 : List Char) (pArray : Int → ElemData) : Main :=
  ⟨0, MmapHugepage.nArray argv2, pArray, [], false⟩

/-- In front of the random walk. -/
def Main.startWalk (m : Main) : Main := { m with i := 0, indices := [] }

/-! ## The size -/

variable {argv2 : List Char} {pArray : Int → ElemData} {m : Main} {n : Int}

theorem atoi_lt (s : List Char) : atoi s < 2147483648 := by
  have below := Int.bmod_lt (x := strtol s) (m := 4294967296) (by decide)
  exact below

theorem nArray_eq (one : 1 ≤ atoi argv2) : nArray argv2 = atoi argv2 * 32768 := by
  have below := atoi_lt argv2
  have exact : atoi argv2 * (1024 * (1024 / sizeofElemData) : Nat) % 2 ^ 64 =
      atoi argv2 * 32768 := by
    refine Int.emod_eq_of_lt ?_ ?_ <;> dsimp only [sizeofElemData] <;> omega
  rw [nArray, exact]
  exact CInt.convert_of_fits (CInt.fits_of_nonneg (by omega) (by unfold CInt.long; omega))

/-! ## The first loop -/

/-- The first `k` elements have been visited in their order, and only they have been numbered. -/
structure Numbered (n k : Int) (m : Main) : Prop where
  nArray : m.nArray = n
  defined : m.overflow = false
  indices : m.indices = (List.range k.toNat).map Int.ofNat
  num : ∀ j, 0 ≤ j → j < k → (m.pArray j).num = j
  str : ∀ j, 0 ≤ j → j < k → (m.pArray j).str.take 4 = ['t', 'e', 's', 't']

theorem numbered_start (argv2 : List Char) (pArray : Int → ElemData) :
    Numbered (nArray argv2) 0 (.start argv2 pArray) where
  nArray := rfl
  defined := rfl
  indices := rfl
  num j low high := by omega
  str j low high := by omega

/-- An element more. -/
theorem Numbered.store {k : Int} (numbered : Numbered n k m) (nonneg : 0 ≤ k) :
    Numbered n (k + 1) (m.store k ((m.pArray k).init k)) where
  nArray := numbered.nArray
  defined := numbered.defined
  indices := by
    have next : (k + 1).toNat = k.toNat + 1 := by omega
    have here : Int.ofNat k.toNat = k := Int.toNat_of_nonneg nonneg
    rw [next, List.range_succ, List.map_append, ← numbered.indices, List.map_singleton, here]
    rfl
  num j low high := by
    by_cases here : j = k
    · subst here
      simp [Main.store, ElemData.init]
    · rw [Main.store]
      simp only [Function.update_of_ne here]
      exact numbered.num j low (by omega)
  str j low high := by
    by_cases here : j = k
    · subst here
      have fits : ['t', 'e', 's', 't'].length ≤ (m.pArray j).str.length := by
        rw [(m.pArray j).sized]
        decide
      simp only [Main.store, Function.update_self]
      exact Buffer.take_copy fits
    · rw [Main.store]
      simp only [Function.update_of_ne here]
      exact numbered.str j low (by omega)

theorem increment_of_lt (nonneg : 0 ≤ m.i) (lt : m.i + 1 < 2147483648) :
    m.increment = .next { m with i := m.i + 1 } := by
  have fits : CInt.Fits CInt.int (m.i + 1) := CInt.fits_of_nonneg (by omega) lt
  rw [Main.increment, CInt.checked_of_fits fits]

/-- Fewer than `2 ^ 31` elements are all numbered. -/
theorem ends_numbered {n : Int} (small : n < 2147483648) {m : Main} (numbered : Numbered n 0 m)
    (zero : m.i = 0) (nonneg : 0 ≤ n) :
    Loop.Ends initTurn (fun m => Numbered n n m) m := by
  refine Loop.ends_of_measure (I := fun m => 0 ≤ m.i ∧ m.i ≤ n ∧ Numbered n m.i m)
    (fun m => (n - m.i).toNat) ?_ ⟨by omega, by omega, zero ▸ numbered⟩
  rintro - m ⟨nonneg, le, numbered⟩
  by_cases more : m.i < n
  · right
    have next : initTurn () m =
        .next { m.store m.i ((m.pArray m.i).init m.i) with i := m.i + 1 } := by
      rw [initTurn, numbered.nArray, if_pos more]
      exact increment_of_lt nonneg (by dsimp only [Main.store]; omega)
    obtain ⟨size, defined, indices, num, str⟩ := numbered.store nonneg
    refine ⟨_, next, ⟨?_, ?_, size, defined, indices, num, str⟩, ?_⟩
    · dsimp only
      omega
    · dsimp only
      omega
    · dsimp only
      omega
  · left
    have last : m.i = n := by omega
    refine ⟨m, ?_, last ▸ numbered⟩
    rw [initTurn, numbered.nArray, if_neg more]

/-- With `2 ^ 31` elements or more the index overflows. -/
theorem ends_overflow {n : Int} (large : 2147483648 ≤ n) {m : Main} (size : m.nArray = n)
    (zero : m.i = 0) : Loop.Ends initTurn (fun m => m.overflow = true) m := by
  refine Loop.ends_of_measure (I := fun m => 0 ≤ m.i ∧ m.i < 2147483648 ∧ m.nArray = n)
    (fun m => (2147483648 - m.i).toNat) ?_ ⟨by omega, by omega, size⟩
  rintro - m ⟨nonneg, below, size⟩
  have more : m.i < n := by omega
  rw [initTurn, size, if_pos more]
  by_cases last : m.i + 1 < 2147483648
  · right
    refine ⟨_, increment_of_lt nonneg last, ⟨?_, last, size⟩, ?_⟩
    · dsimp only [Main.store]
      omega
    · dsimp only [Main.store]
      omega
  · left
    have wide : CInt.checked CInt.int (m.i + 1) = none := if_neg fun fits => last fits.2
    refine ⟨{ m.store m.i ((m.pArray m.i).init m.i) with overflow := true }, ?_, rfl⟩
    simp only [Main.increment, Main.store, wide]

/-! ## The random walk -/

/-- Every index used is that of an element. -/
def InRange (n : Int) (m : Main) : Prop := ∀ k ∈ m.indices, 0 ≤ k ∧ k < n

theorem InRange.store {k : Int} (elem : ElemData) (inRange : InRange n m) (low : 0 ≤ k)
    (high : k < n) : InRange n (m.store k elem) := by
  intro j member
  rcases List.mem_append.mp member with old | new
  · exact inRange j old
  · rw [List.mem_singleton.mp new]
    exact ⟨low, high⟩

/-- The index of a step of the walk. -/
theorem idx_inRange (rand : Rand) (positive : 0 < n) :
    0 ≤ CInt.convert CInt.int (rand.val.tmod n) ∧ CInt.convert CInt.int (rand.val.tmod n) < n := by
  obtain ⟨r, low, high⟩ := rand
  have low' : 0 ≤ r.tmod n := Int.tmod_nonneg n low
  have below : r.tmod n < n := Int.tmod_lt_of_pos r positive
  have le : (r.tmod n).natAbs ≤ r.natAbs := by
    rw [Int.natAbs_tmod]
    exact Nat.mod_le _ _
  have same : CInt.convert CInt.int (r.tmod n) = r.tmod n :=
    CInt.convert_of_fits (CInt.fits_of_nonneg low' (by unfold CInt.int; omega))
  rw [same]
  exact ⟨low', below⟩

/-- The walk stays inside the array, whatever the elements hold. -/
theorem ends_inRange (positive : 0 < n) (size : m.nArray = n) :
    Loop.Ends walkTurn (InRange n) m.startWalk := by
  refine Loop.ends_of_measure
    (I := fun m => 0 ≤ m.i ∧ m.i ≤ cntRandomwalking ∧ m.nArray = n ∧ InRange n m)
    (fun m => (cntRandomwalking - m.i).toNat) ?_
    ⟨Int.le_refl 0, (by decide : (0 : Int) ≤ cntRandomwalking), size, nofun⟩
  rintro rand m ⟨nonneg, le, size, inRange⟩
  unfold walkTurn
  by_cases more : m.i < cntRandomwalking
  · obtain ⟨low, high⟩ := idx_inRange rand positive
    rw [if_pos more, size]
    generalize CInt.convert CInt.int (rand.val.tmod n) = idx at low high ⊢
    dsimp only
    split
    · next num _ =>
        right
        unfold cntRandomwalking at more ⊢
        refine ⟨_, increment_of_lt nonneg (by dsimp only [Main.store]; omega),
          ⟨?_, ?_, size, inRange.store { m.pArray idx with num := num } low high⟩, ?_⟩
        · dsimp only [Main.store]
          omega
        · dsimp only [Main.store]
          omega
        · dsimp only [Main.store]
          omega
    · left
      exact ⟨_, rfl, inRange.store (m.pArray idx) low high⟩
  · left
    exact ⟨m, if_neg more, inRange⟩

/-- The loop ends with all elements visited in their order and numbered, without an overflow of its
index, and from there the walk stays inside the array. -/
def Initialised (argv2 : List Char) (pArray : Int → ElemData) : Prop :=
  Loop.Ends initTurn
    (fun m => Numbered (nArray argv2) (nArray argv2) m ∧
      Loop.Ends walkTurn (InRange (nArray argv2)) m.startWalk)
    (.start argv2 pArray)

theorem not_initialised (large : 65536 ≤ atoi argv2) : ¬ Initialised argv2 pArray := by
  intro initialised
  have size : nArray argv2 = atoi argv2 * 32768 := nArray_eq (by omega)
  have overflow : Loop.Ends initTurn (fun m => m.overflow = true) (.start argv2 pArray) :=
    ends_overflow (n := nArray argv2) (by omega) rfl rfl
  obtain ⟨m, ⟨numbered, -⟩, overflow⟩ := (initialised.and overflow).exists
  cases numbered.defined.symm.trans overflow

/-- **The array.**  For a size of at least one MiB, the array is initialised as it should be exactly
if the size is at most 65535 MiB. -/
theorem initialised_iff (argv2 : List Char) (pArray : Int → ElemData) (one : 1 ≤ atoi argv2) :
    Initialised argv2 pArray ↔ atoi argv2 ≤ 65535 := by
  have size := nArray_eq one
  constructor
  · intro initialised
    by_contra large
    exact not_initialised (by omega) initialised
  · intro small
    have ends : Loop.Ends initTurn (fun m => Numbered (nArray argv2) (nArray argv2) m)
        (.start argv2 pArray) :=
      ends_numbered (by omega) (numbered_start argv2 pArray) rfl (by omega)
    exact ends.mono fun m numbered =>
      ⟨numbered, ends_inRange (by omega) numbered.nArray⟩

/-- A mapping of zeros. -/
def zeros (_ : Int) : ElemData := ⟨0, List.replicate 28 nul, List.length_replicate⟩

/-- 64 MiB -/
theorem initialised_64 : Initialised ['6', '4'] zeros :=
  (initialised_iff ['6', '4'] zeros (by decide)).mpr (by decide)

/-- 65536 MiB are `2 ^ 31` elements. -/
theorem not_forall_initialised :
    ¬ ∀ (argv2 : List Char) (pArray : Int → ElemData), 1 ≤ atoi argv2 →
      Initialised argv2 pArray := by
  intro always
  exact not_initialised (by decide) (always ['6', '5', '5', '3', '6'] zeros (by decide))

end Alnp.MmapHugepage
