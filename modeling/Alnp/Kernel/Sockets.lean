import Alnp.Lib.Descriptor

/-!
# The open descriptors of a server

The part of the kernel's state that the `select` and `poll` servers act on: which descriptors of
the process are open, and which of those came from `accept`.
-/

namespace Alnp

/-- The open descriptors of a process. -/
structure Sockets where
  /-- open, but not handed out by `accept`: the listener, the standard streams -/
  others : Finset Int
  /-- handed out by `accept` and not yet closed -/
  accepted : Finset Int

namespace Sockets

/-- Every open descriptor. -/
def opened (k : Sockets) : Finset Int :=
  k.others ∪ k.accepted

/-- `accept` returned `fd`. -/
def accept (k : Sockets) (fd : Int) : Sockets :=
  { k with accepted := insert fd k.accepted }

/-- `close(fd)`. -/
def close (k : Sockets) (fd : Int) : Sockets where
  others := k.others.erase fd
  accepted := k.accepted.erase fd

variable {k : Sockets} {fd other : Int}

@[simp] theorem mem_opened : other ∈ k.opened ↔ other ∈ k.others ∨ other ∈ k.accepted :=
  Finset.mem_union

@[simp] theorem mem_accepted_accept :
    other ∈ (k.accept fd).accepted ↔ other = fd ∨ other ∈ k.accepted :=
  Finset.mem_insert

@[simp] theorem mem_accepted_close :
    other ∈ (k.close fd).accepted ↔ other ≠ fd ∧ other ∈ k.accepted :=
  Finset.mem_erase

/-- Closing a descriptor that has just been accepted undoes the `accept`. -/
theorem close_accept (new : fd ∉ k.opened) : (k.accept fd).close fd = k := by
  have notOther : fd ∉ k.others := fun old => new (mem_opened.mpr (.inl old))
  have notAccepted : fd ∉ k.accepted := fun old => new (mem_opened.mpr (.inr old))
  simp [accept, close, notOther, notAccepted]

end Sockets

end Alnp
