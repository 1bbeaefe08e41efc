import Mathlib.Algebra.BigOperators.Group.List.Basic
import Mathlib.Algebra.Ring.Nat
import Alnp.Kernel.CString
import Alnp.Lib.Progress

/-!
# The counter of `io_eventfd.c`

`main` of `Chapter11/io_eventfd.c` forks; the child writes its arguments to an `eventfd`, from
`argv[0]` on, and the parent reads the counter in a loop that never ends.  A read takes all that has
been written since the read before.

* `grouped_of_reachable`: what the parent prints are the sums of consecutive groups of arguments.
* `eventfd_terminates`: every run comes to the parent waiting for ever with all of it printed.
-/

namespace Alnp

/-! ## `strtoull` -/

/-- The value of a digit, of which the letters are some too. -/
def digitOf (c : Char) : Option Nat :=
  if c.isDigit then some (c.toNat - 48)
  else if 'a' ≤ c ∧ c ≤ 'z' then some (c.toNat - 87)
  else if 'A' ≤ c ∧ c ≤ 'Z' then some (c.toNat - 55)
  else none

/-- The value of the digits that begin a string, behind digits of value `n`. -/
def digitsIn (base : Nat) : Nat → List Char → Nat
  | n, [] => n
  | n, c :: rest =>
      match digitOf c with
      | some digit => if digit < base then digitsIn base (base * n + digit) rest else n
      | none => n

/-- The number that begins a string, by its prefix hexadecimal, octal or decimal. -/
def magnitude : List Char → Nat
  | '0' :: 'x' :: rest => digitsIn 16 0 rest
  | '0' :: 'X' :: rest => digitsIn 16 0 rest
  | '0' :: rest => digitsIn 8 0 rest
  | rest => digitsIn 10 0 rest

def ullongMax : Nat := 18446744073709551615

/-- A number with a sign as an `unsigned long long`; one that is too large comes to the largest. -/
def unsigned (negative : Bool) (value : Nat) : Nat :=
  if ullongMax < value then ullongMax
  else if negative then (ullongMax + 1 - value) % (ullongMax + 1)
  else value

/-- `strtoull(s, NULL, 0)` -/
def strtoull (s : List Char) : Nat :=
  match s.dropWhile isSpace with
  | '-' :: rest => unsigned true (magnitude rest)
  | '+' :: rest => unsigned false (magnitude rest)
  | rest => unsigned false (magnitude rest)

theorem unsigned_le (negative : Bool) (value : Nat) : unsigned negative value ≤ ullongMax := by
  unfold unsigned
  split
  · exact Nat.le_refl _
  · next short =>
      split
      · exact Nat.le_of_lt_succ (Nat.mod_lt _ (Nat.succ_pos _))
      · exact Nat.le_of_not_lt short

theorem strtoull_le (s : List Char) : strtoull s ≤ ullongMax := by
  unfold strtoull
  split <;> exact unsigned_le _ _

namespace IoEventfd

/-! ## The two processes -/

/-- Where the child is. -/
inductive Child
  /-- at the head of the loop, with its `i` -/
  | loop (i : Nat)
  /-- It has completed the loop. -/
  | completed
  /-- `write` of `argv[i]` has failed. -/
  | failed (i : Nat)

structure System where
  child : Child
  /-- The counter of `efd`. -/
  efd : Nat
  /-- The numbers that the parent has printed. -/
  printed : List Nat

inductive SystemStep (argv : List (List Char)) : System → System → Prop
  /-- `write` waits as long as the counter would get larger than `ULLONG_MAX - 1`. -/
  | write (s : System) (i : Nat) (arg : List Char) :
      s.child = .loop i → argv[i]? = some arg → strtoull arg ≠ ullongMax →
      s.efd + strtoull arg < ullongMax →
      SystemStep argv s { s with child := .loop (i + 1), efd := s.efd + strtoull arg }
  /-- `write` of `ULLONG_MAX` fails. -/
  | writeFailed (s : System) (i : Nat) (arg : List Char) :
      s.child = .loop i → argv[i]? = some arg → strtoull arg = ullongMax →
      SystemStep argv s { s with child := .failed i }
  | completed (s : System) :
      s.child = .loop argv.length → SystemStep argv s { s with child := .completed }
  /-- `read` waits as long as the counter is 0, and resets it. -/
  | read (s : System) :
      s.efd ≠ 0 → SystemStep argv s { s with efd := 0, printed := s.printed ++ [s.efd] }

/-- The program behind its `fork`. -/
def machine (argv : List (List Char)) : Machine System where
  init s := s = ⟨.loop 0, 0, []⟩
  step := SystemStep argv

variable {argv : List (List Char)} {s t : System}

/-- How many arguments have been written. -/
def System.wrote (argv : List (List Char)) (s : System) : Nat :=
  match s.child with
  | .loop i => i
  | .completed => argv.length
  | .failed i => i

/-- The numbers written. -/
def System.written (argv : List (List Char)) (s : System) : List Nat :=
  (argv.take (s.wrote argv)).map strtoull

/-- `printed` are the sums of consecutive groups of numbers, and `rest` the sum of those behind. -/
def Grouped (numbers printed : List Nat) (rest : Nat) : Prop :=
  ∃ (groups : List (List Nat)) (open' : List Nat),
    numbers = groups.flatten ++ open' ∧ printed = groups.map List.sum ∧ rest = open'.sum

variable {numbers printed : List Nat} {rest : Nat}

theorem grouped_nil : Grouped [] [] 0 := ⟨[], [], rfl, rfl, rfl⟩

theorem Grouped.add (grouped : Grouped numbers printed rest) (number : Nat) :
    Grouped (numbers ++ [number]) printed (rest + number) := by
  obtain ⟨groups, open', rfl, rfl, rfl⟩ := grouped
  refine ⟨groups, open' ++ [number], List.append_assoc _ _ _, rfl, ?_⟩
  rw [List.sum_append, List.sum_singleton]

theorem Grouped.take (grouped : Grouped numbers printed rest) :
    Grouped numbers (printed ++ [rest]) 0 := by
  obtain ⟨groups, open', rfl, rfl, rfl⟩ := grouped
  refine ⟨groups ++ [open'], [], ?_, ?_, rfl⟩
  · rw [List.flatten_append, List.flatten_singleton, List.append_nil]
  · rw [List.map_append, List.map_singleton]

/-- Nothing is lost. -/
theorem Grouped.sum_eq (grouped : Grouped numbers printed rest) :
    printed.sum + rest = numbers.sum := by
  obtain ⟨groups, open', rfl, rfl, rfl⟩ := grouped
  rw [List.sum_append, List.sum_flatten]

structure Inv (argv : List (List Char)) (s : System) : Prop where
  grouped : Grouped (s.written argv) s.printed s.efd
  some : ∀ number ∈ s.printed, 0 < number
  inside : ∀ i, s.child = .loop i → i ≤ argv.length
  /-- `write` has failed for none of the arguments before. -/
  below : ∀ arg ∈ argv.take (s.wrote argv), strtoull arg ≠ ullongMax
  failed : ∀ i, s.child = .failed i → ∃ arg, argv[i]? = .some arg ∧ strtoull arg = ullongMax

theorem Inv.step (inv : Inv argv s) (step : SystemStep argv s t) : Inv argv t := by
  obtain ⟨grouped, some, inside, below, failed⟩ := inv
  cases step with
  | write i arg loop here short _ =>
      have wrote : s.wrote argv = i := by rw [System.wrote, loop]
      have next : argv.take (i + 1) = argv.take i ++ [arg] := by rw [List.take_add_one, here]; rfl
      refine ⟨?_, some, fun j next => ?_, ?_, nofun⟩
      · rw [System.written, wrote] at grouped
        have after := grouped.add (strtoull arg)
        rw [← List.map_singleton, ← List.map_append] at after
        change Grouped ((argv.take (i + 1)).map strtoull) _ _
        rw [next]
        exact after
      · cases next
        exact (List.getElem?_eq_some_iff.mp here).1
      · rw [wrote] at below
        change ∀ arg ∈ argv.take (i + 1), strtoull arg ≠ ullongMax
        rw [next]
        refine List.forall_mem_append.mpr ⟨below, fun last mem => ?_⟩
        rw [List.mem_singleton.mp mem]
        exact short
  | writeFailed i arg loop here max =>
      have wrote : s.wrote argv = i := by rw [System.wrote, loop]
      rw [System.written, wrote] at grouped
      rw [wrote] at below
      refine ⟨grouped, some, nofun, below, fun j failed => ?_⟩
      cases failed
      exact ⟨arg, here, max⟩
  | completed loop =>
      have wrote : s.wrote argv = argv.length := by rw [System.wrote, loop]
      rw [System.written, wrote] at grouped
      rw [wrote] at below
      exact ⟨grouped, some, nofun, below, nofun⟩
  | read nonzero =>
      refine ⟨grouped.take, ?_, inside, below, failed⟩
      refine List.forall_mem_append.mpr ⟨some, fun number last => ?_⟩
      rw [List.mem_singleton.mp last]
      exact Nat.pos_of_ne_zero nonzero

theorem inv_of_reachable (reached : (machine argv).Reachable s) : Inv argv s := by
  apply reached.invariant (P := Inv argv)
  · rintro s rfl
    exact ⟨grouped_nil, nofun, fun i loop => by cases loop; exact Nat.zero_le _, nofun, nofun⟩
  · exact fun s t _ inv step => inv.step step

/-- **Nothing lost.**  Whenever the parent reads, the numbers that it has printed are positive and
the sums of consecutive groups of the arguments, and the counter is the sum of those written since;
so together they are all that has been written. -/
theorem grouped_of_reachable (argv : List (List Char)) (s : System)
    (reached : (machine argv).Reachable s) :
    Grouped (s.written argv) s.printed s.efd ∧ (∀ number ∈ s.printed, 0 < number) ∧
      s.printed.sum + s.efd = (s.written argv).sum := by
  have inv := inv_of_reachable reached
  exact ⟨inv.grouped, inv.some, inv.grouped.sum_eq⟩

/-- The arguments `./io_eventfd`, 3, 0x10 and 010: the parent reads 3 and then 24. -/
theorem grouped_four :
    let argv : List (List Char) :=
      [['.', '/', 'i', 'o', '_', 'e', 'v', 'e', 'n', 't', 'f', 'd'], ['3'], ['0', 'x', '1', '0'],
        ['0', '1', '0']]
    ∃ s, (machine argv).Reachable s ∧ s.child = .completed ∧ s.printed = [3, 24] ∧
      Grouped (s.written argv) [3, 24] 0 := by
  intro argv
  have start : (machine argv).Reachable _ := .of_init rfl
  have name := start.tail (.write _ 0 _ rfl rfl (by decide) (by decide))
  have first := (name.tail (.write _ 1 _ rfl rfl (by decide) (by decide))).tail
    (.read _ (by decide))
  have second := first.tail (.write _ 2 _ rfl rfl (by decide) (by decide))
  have third := second.tail (.write _ 3 _ rfl rfl (by decide) (by decide))
  have last := (third.tail (.read _ (by decide))).tail (.completed _ rfl)
  exact ⟨_, last, rfl, rfl, (grouped_of_reachable argv _ last).1⟩

/-! ## Every run ends -/

/-- What is left to do: two for each argument, and one for a read. -/
def System.left (argv : List (List Char)) (s : System) : Nat :=
  (match s.child with
    | .loop i => 2 * (argv.length + 1 - i)
    | _ => 0) + if s.efd = 0 then 0 else 1

theorem descends (argv : List (List Char)) : (machine argv).Descends (System.left argv) := by
  intro s t reached step
  have inside := (inv_of_reachable reached).inside
  unfold System.left
  cases step with
  | write i arg loop here _ _ =>
      have lt := (List.getElem?_eq_some_iff.mp here).1
      simp only [loop]
      split <;> split <;> omega
  | writeFailed i arg loop here _ =>
      have le := inside i loop
      simp only [loop]
      omega
  | completed loop =>
      simp only [loop]
      omega
  | read nonzero =>
      simp only [if_neg nonzero, ↓reduceIte]
      omega

/-- **The end of a run.**  Every run comes to the parent waiting for ever at the counter 0.  Then
the child has written all its arguments, none of them `ULLONG_MAX`, and what has been printed adds
up to them, or it has met the first argument that is `ULLONG_MAX` and what has been printed adds up
to those before. -/
theorem eventfd_terminates (argv : List (List Char)) :
    (machine argv).Terminates fun s =>
      s.efd = 0 ∧
        (s.child = .completed ∧ (∀ arg ∈ argv, strtoull arg ≠ ullongMax) ∧
            s.printed.sum = (argv.map strtoull).sum ∨
          ∃ i arg, s.child = .failed i ∧ argv[i]? = some arg ∧ strtoull arg = ullongMax ∧
            (∀ before ∈ argv.take i, strtoull before ≠ ullongMax) ∧
            s.printed.sum = ((argv.take i).map strtoull).sum) := by
  refine Machine.terminates_of_descends (descends argv) fun s reached stuck => ?_
  have inv := inv_of_reachable reached
  have zero : s.efd = 0 := by
    by_contra nonzero
    exact stuck _ (.read s nonzero)
  have sum := inv.grouped.sum_eq
  rw [zero, Nat.add_zero] at sum
  refine ⟨zero, ?_⟩
  cases child : s.child with
  | loop i =>
      rcases Nat.lt_or_eq_of_le (inv.inside i child) with lt | rfl
      · have here : argv[i]? = some argv[i] := List.getElem?_eq_getElem lt
        by_cases max : strtoull argv[i] = ullongMax
        · exact absurd (.writeFailed s i _ child here max) (stuck _)
        · have room : s.efd + strtoull argv[i] < ullongMax := by
            have le := strtoull_le argv[i]
            omega
          exact absurd (.write s i _ child here max room) (stuck _)
      · exact absurd (.completed s child) (stuck _)
  | completed =>
      have below := inv.below
      rw [System.written, System.wrote, child, List.take_length] at sum
      rw [System.wrote, child, List.take_length] at below
      exact .inl ⟨rfl, below, sum⟩
  | failed i =>
      have below := inv.below
      rw [System.written, System.wrote, child] at sum
      rw [System.wrote, child] at below
      obtain ⟨arg, here, max⟩ := inv.failed i child
      exact .inr ⟨i, arg, rfl, here, max, below, sum⟩

end IoEventfd

end Alnp
