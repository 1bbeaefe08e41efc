import Mathlib.Logic.Function.Basic
import Mathlib.Data.Int.Order.Basic
import Alnp.Lib.Descriptor

/-!
# System V message queues by key and identifier

`MsgTable` says which key the queue with an identifier has.  Identifiers are not negative, and no
two queues have one key unless it is `IPC_PRIVATE`.  `Msgget` is what a call of `msgget` may come
to.
-/

namespace Alnp

def ipcPrivate : Int := 0

/-- `ftok` of a file with these numbers: the low bytes of `proj_id` and of the device and the low 16
bits of the i-node, in a `key_t` of 32 bits. -/
def ftok (ino dev projId : Nat) : Int :=
  (projId % 256 * 16777216 + dev % 256 * 65536 + ino % 65536 : Int).bmod 4294967296

/-- The message queues of the system. -/
structure MsgTable where
  /-- the key of the queue with the identifier, if there is one -/
  keyOf : Int → Option Int
  nonneg : ∀ id key, keyOf id = some key → 0 ≤ id
  unique : ∀ id id' key, key ≠ ipcPrivate → keyOf id = some key → keyOf id' = some key → id = id'

def eexist : Errno := ⟨17, by decide⟩

namespace MsgTable

/-- There is no queue. -/
def empty : MsgTable := ⟨fun _ => none, nofun, nofun⟩

/-- A queue with a key that no queue has is created, under an identifier that is not in use. -/
def create (t : MsgTable) (id key : Int) (nonneg : 0 ≤ id) (absent : ∀ i, t.keyOf i ≠ some key) :
    MsgTable where
  keyOf := Function.update t.keyOf id (some key)
  nonneg i k out := by
    by_cases same : i = id
    · exact same ▸ nonneg
    · rw [Function.update_of_ne same] at out
      exact t.nonneg i k out
  unique i j k shared out out' := by
    by_cases hi : i = id <;> by_cases hj : j = id
    · exact hi.trans hj.symm
    · rw [hi, Function.update_self] at out
      rw [Function.update_of_ne hj, ← Option.some.inj out] at out'
      exact absurd out' (absent j)
    · rw [hj, Function.update_self] at out'
      rw [Function.update_of_ne hi, ← Option.some.inj out'] at out
      exact absurd out (absent i)
    · rw [Function.update_of_ne hi] at out
      rw [Function.update_of_ne hj] at out'
      exact t.unique i j k shared out out'

/-- `msgget(key, IPC_CREAT | IPC_EXCL | mode)`: the result, `errno` and the queues afterwards. -/
inductive MsggetExcl (t : MsgTable) (key : Int) : Int → Option Errno → MsgTable → Prop
  | created (id : Int) (nonneg : 0 ≤ id) (absent : ∀ i, t.keyOf i ≠ some key) :
      t.keyOf id = none → MsggetExcl t key id none (t.create id key nonneg absent)
  | exists (id : Int) : t.keyOf id = some key → MsggetExcl t key (-1) (some eexist) t
  | failed (errno : Errno) : errno ≠ eexist → MsggetExcl t key (-1) (some errno) t

/-- `msgget(key, 0)`: the result. -/
inductive Msgget (t : MsgTable) (key : Int) : Int → Prop
  | found (id : Int) : t.keyOf id = some key → Msgget t key id
  | failed : Msgget t key (-1)

end MsgTable

/-- With the project number of the programs the key is neither that of private queues nor -1. -/
theorem ftok_ne (ino dev : Nat) : ftok ino dev 1234 ≠ ipcPrivate ∧ ftok ino dev 1234 ≠ -1 := by
  have device : (dev : Int) % 256 < 256 := Int.emod_lt_of_pos _ (by decide)
  have inode : (ino : Int) % 65536 < 65536 := Int.emod_lt_of_pos _ (by decide)
  have negative : ftok ino dev 1234 < -1 := by
    unfold ftok
    rw [Int.bmod_def]
    omega
  unfold ipcPrivate
  omega

end Alnp
