import Mathlib.Algebra.Group.Nat.Defs
import Mathlib.Logic.Function.Basic
import Mathlib.Data.List.Perm.Basic
import Alnp.Lib.Machine
import Alnp.Lib.Patch

/-!
# The file copy of `aio_listio.c`

`main` of `Chapter10/aio_listio.c` reads the source block by block, fills in one `aiocb` for each
and submits them with `lio_listio` when all `NUM_AIOCB_ARRAY` are in use or the source is at its
end.  The requests of one call run in any order.

The destination is opened without `O_TRUNC`.  `copied_iff_of_reachable`: the copy is the source
exactly if the destination was not longer before; otherwise the rest of the older file stays behind
it.
-/

namespace Alnp.AioListio

def numAiocbArray : Nat := 5

/-- `sizeof(rbuf[i])` -/
def sizeRbuf : Nat := 1024 * 256

/-- The fields of `struct aiocb` in which the requests differ. -/
structure Aiocb where
  /-- `aio_buf`: the index of the buffer in `rbuf`, or null. -/
  aioBuf : Option Nat
  aioNbytes : Int
  aioOffset : Int

/-- A block that `memset` has cleared. -/
def Aiocb.zero : Aiocb := ⟨none, 0, 0⟩

/-- The variables of `main`. -/
structure Main where
  i : Nat
  totLen : Int
  rbuf : Nat → List UInt8
  aioBlk : Nat → Aiocb

/-- What `lio_listio` is asked to write. -/
structure Request where
  offset : Int
  bytes : List UInt8
  deriving DecidableEq

def Aiocb.request (rbuf : Nat → List UInt8) (block : Aiocb) : Request where
  offset := block.aioOffset
  bytes :=
    match block.aioBuf with
    | some j => (rbuf j).take block.aioNbytes.toNat
    | none => []

/-- The requests of `lio_listio(LIO_WAIT, aiolist, nent, NULL)`. -/
def Main.lioListio (nent : Nat) (m : Main) : List Request :=
  (List.range nent).map fun k => (m.aioBlk k).request m.rbuf

/-- The value of an `int` after an addition. -/
def int32 (x : Int) : Int := x.bmod (2 ^ 32)

/-- `read` has put `bytes` into `rbuf[i]`: fill in `aio_blk[i]` and count. -/
def Main.fill (bytes : List UInt8) (m : Main) : Main where
  i := m.i + 1
  totLen := int32 (m.totLen + bytes.length)
  rbuf := Function.update m.rbuf m.i (bytes ++ (m.rbuf m.i).drop bytes.length)
  aioBlk := Function.update m.aioBlk m.i ⟨some m.i, bytes.length, m.totLen⟩

/-- One iteration of the loop, with the requests it submits. -/
def Main.turn (bytes : List UInt8) (m : Main) : List Request × Main :=
  let m := m.fill bytes
  if m.i = numAiocbArray ∨ bytes.length = 0 then
    (m.lioListio (if bytes.length = 0 then m.i - 1 else m.i),
      { m with aioBlk := fun _ => .zero, i := 0 })
  else ([], m)

/-- Where `main` is. -/
inductive At
  | loop
  /-- behind the loop -/
  | done
  | exited

/-- The source from the position of `fd_rd` on, and the destination. -/
structure System where
  pc : At
  main : Main
  remaining : List UInt8
  content : List UInt8

/-- `open` of the destination for writing, with `O_CREAT`: its content afterwards. -/
def openWronly (oTrunc : Bool) (old : Option (List UInt8)) : List UInt8 :=
  if oTrunc then [] else old.getD []

/-- The write that a request stands for. -/
def Request.patch (r : Request) : Patch UInt8 := ⟨r.offset.toNat, r.bytes⟩

inductive SystemStep : System → System → Prop
  /-- `read` returns at least a byte unless the source is at its end, and the requests complete in
  some order. -/
  | turn (s : System) (bytes rest : List UInt8) (order : List Request) :
      s.pc = .loop → s.remaining = bytes ++ rest → bytes.length ≤ sizeRbuf →
      (bytes = [] → rest = []) → order.Perm (s.main.turn bytes).1 → (∀ r ∈ order, 0 ≤ r.offset) →
      SystemStep s
        { pc := if bytes.length = 0 then .done else .loop
          main := (s.main.turn bytes).2
          remaining := rest
          content := Patch.applyAll 0 (order.map Request.patch) s.content }
  | readFailed (s : System) : s.pc = .loop → SystemStep s { s with pc := .exited }

/-- The program behind its two calls of `open`. -/
def machine (source : List UInt8) (old : Option (List UInt8)) : Machine System where
  init s := ∃ rbuf, s = ⟨.loop, ⟨0, 0, rbuf, fun _ => .zero⟩, source, openWronly false old⟩
  step := SystemStep

/-! ## The blocks that are filled in and not yet submitted -/

def Main.pending (m : Main) : List Request := m.lioListio m.i

/-- There is room for a block, and each block in use has the buffer of its own index. -/
structure Main.Filled (m : Main) : Prop where
  room : m.i < numAiocbArray
  own : ∀ k < m.i, (m.aioBlk k).aioBuf = some k

variable {m : Main} {bytes : List UInt8}

/-- Filling in a block leaves the blocks in use alone. -/
theorem lioListio_fill (filled : m.Filled) : (m.fill bytes).lioListio m.i = m.pending := by
  unfold Main.pending Main.lioListio
  refine List.map_congr_left fun k member => ?_
  have lt : k < m.i := List.mem_range.mp member
  have own := filled.own k lt
  simp only [Main.fill, Function.update_of_ne (Nat.ne_of_lt lt), Aiocb.request, own]

theorem lioListio_fill_succ (filled : m.Filled) :
    (m.fill bytes).lioListio (m.i + 1) = m.pending ++ [⟨m.totLen, bytes⟩] := by
  have last : ((m.fill bytes).aioBlk m.i).request (m.fill bytes).rbuf = ⟨m.totLen, bytes⟩ := by
    simp [Main.fill, Aiocb.request]
  rw [Main.lioListio, List.range_succ, List.map_append, ← Main.lioListio, lioListio_fill filled,
    List.map_singleton, last]

theorem filled_of_zero (zero : m.i = 0) : m.Filled where
  room := zero ▸ by decide
  own k lt := absurd (zero ▸ lt) (Nat.not_lt_zero k)

/-- An iteration at the end of the source submits what is left. -/
theorem turn_nil (filled : m.Filled) :
    (m.turn []).2.Filled ∧ (m.turn []).2.totLen = int32 m.totLen ∧
      (m.turn []).1 = m.pending ∧ (m.turn []).2.pending = [] := by
  have turn : m.turn [] = ((m.fill []).lioListio m.i,
      { m.fill [] with aioBlk := fun _ => .zero, i := 0 }) := by
    have submits : (m.fill []).i = numAiocbArray ∨ ([] : List UInt8).length = 0 := .inr rfl
    rw [Main.turn, if_pos submits]
    rfl
  rw [turn]
  have total : m.totLen + ([] : List UInt8).length = m.totLen := Int.add_zero _
  exact ⟨filled_of_zero rfl, congrArg int32 total, lioListio_fill filled, rfl⟩

/-- An iteration with data adds a request, and submits all or none. -/
theorem turn_spec (filled : m.Filled) (some : bytes ≠ []) :
    (m.turn bytes).2.Filled ∧ (m.turn bytes).2.totLen = int32 (m.totLen + bytes.length) ∧
      ((m.turn bytes).1 = m.pending ++ [⟨m.totLen, bytes⟩] ∧ (m.turn bytes).2.pending = [] ∨
        (m.turn bytes).1 = [] ∧
          (m.turn bytes).2.pending = m.pending ++ [⟨m.totLen, bytes⟩]) := by
  have nonzero : bytes.length ≠ 0 := mt List.length_eq_zero_iff.mp some
  have added : (m.fill bytes).lioListio (m.i + 1) = m.pending ++ [⟨m.totLen, bytes⟩] :=
    lioListio_fill_succ filled
  by_cases full : m.i + 1 = numAiocbArray
  · have turn : m.turn bytes = ((m.fill bytes).lioListio (m.i + 1),
        { m.fill bytes with aioBlk := fun _ => .zero, i := 0 }) := by
      have submits : (m.fill bytes).i = numAiocbArray ∨ bytes.length = 0 := .inl full
      rw [Main.turn, if_pos submits, if_neg nonzero]
      rfl
    rw [turn]
    exact ⟨filled_of_zero rfl, rfl, .inl ⟨added, rfl⟩⟩
  · have turn : m.turn bytes = ([], m.fill bytes) := by
      have waits : ¬ ((m.fill bytes).i = numAiocbArray ∨ bytes.length = 0) :=
        not_or.mpr ⟨full, nonzero⟩
      rw [Main.turn, if_neg waits]
    rw [turn]
    refine ⟨⟨Nat.lt_of_le_of_ne filled.room full, fun k lt => ?_⟩, rfl, .inr ⟨rfl, added⟩⟩
    rcases Nat.lt_succ_iff_lt_or_eq.mp lt with old | rfl
    · simp only [Main.fill, Function.update_of_ne (Nat.ne_of_lt old)]
      exact filled.own k old
    · simp only [Main.fill, Function.update_self]

/-! ## The requests tile the source -/

/-- The requests are blocks of the source, one behind the other, from `start` to `stop`. -/
def Tiles (source : List UInt8) : Nat → List Request → Nat → Prop
  | start, [], stop => start = stop
  | start, r :: rest, stop =>
      r.offset = start ∧ (∀ k, r.patch.Covers k → r.bytes[k - start]? = source[k]?) ∧
        Tiles source (start + r.bytes.length) rest stop

variable {source : List UInt8} {start stop : Nat} {rs : List Request}

theorem Tiles.append (tiles : Tiles source start rs stop) {r : Request} (offset : r.offset = stop)
    (cut : ∀ k, r.patch.Covers k → r.bytes[k - stop]? = source[k]?) :
    Tiles source start (rs ++ [r]) (stop + r.bytes.length) := by
  induction rs generalizing start with
  | nil =>
      have same : start = stop := tiles
      subst same
      exact ⟨offset, cut, rfl⟩
  | cons q rs ih =>
      obtain ⟨offset', cut', rest⟩ := tiles
      exact ⟨offset', cut', ih rest⟩

theorem Tiles.le (tiles : Tiles source start rs stop) : start ≤ stop := by
  induction rs generalizing start with
  | nil => exact Nat.le_of_eq tiles
  | cons r rs ih => exact Nat.le_trans (Nat.le_add_right _ _) (ih tiles.2.2)

/-- Each request is cut from the source and ends before `stop`. -/
theorem Tiles.mem (tiles : Tiles source start rs stop) :
    ∀ r ∈ rs, r.patch.CutFrom source ∧ r.patch.offset + r.patch.values.length ≤ stop := by
  induction rs generalizing start with
  | nil => nofun
  | cons r rs ih =>
      obtain ⟨offset, cut, rest⟩ := tiles
      have start' : r.patch.offset = start := by
        rw [Request.patch, offset]
        rfl
      intro q member
      rcases List.mem_cons.mp member with rfl | member
      · refine ⟨fun k covers => ?_, ?_⟩
        · rw [start']
          exact cut k covers
        · rw [start']
          exact rest.le
      · exact ih rest q member

/-- Every position from `start` to `stop` lies in a request. -/
theorem Tiles.covers (tiles : Tiles source start rs stop) {k : Nat} (from' : start ≤ k)
    (below : k < stop) : ∃ r ∈ rs, r.patch.Covers k := by
  induction rs generalizing start with
  | nil =>
      have same : start = stop := tiles
      omega
  | cons r rs ih =>
      obtain ⟨offset, cut, rest⟩ := tiles
      have start' : r.patch.offset = start := by
        rw [Request.patch, offset]
        rfl
      rcases Nat.lt_or_ge k (start + r.bytes.length) with here | later
      · exact ⟨r, List.mem_cons_self, start' ▸ from', start' ▸ here⟩
      · obtain ⟨q, member, covers⟩ := ih rest later
        exact ⟨q, List.mem_cons_of_mem r member, covers⟩

/-- The content is the source up to `stop` and the older file from there on. -/
structure Written (source before : List UInt8) (stop : Nat) (content : List UInt8) : Prop where
  done : ∀ k < stop, content[k]? = source[k]?
  kept : ∀ k, stop ≤ k → content[k]? = before[k]?

/-- Requests that tile a part of the source write it, in whatever order they complete. -/
theorem Written.applyAll {before content : List UInt8} {order : List Request}
    (written : Written source before start content) (tiles : Tiles source start rs stop)
    (perm : order.Perm rs) (bound : stop ≤ source.length) :
    Written source before stop (Patch.applyAll 0 (order.map Request.patch) content) := by
  have cut : ∀ p ∈ order.map Request.patch, p.CutFrom source := by
    simp only [List.forall_mem_map]
    exact fun r member => (tiles.mem r (perm.mem_iff.mp member)).1
  constructor
  · intro k below
    have inside := Nat.lt_of_lt_of_le below bound
    rcases Nat.lt_or_ge k start with old | new
    · have agrees := written.done k old
      refine Patch.getElem?_applyAll_of_agrees cut ?_ inside agrees
      rw [List.getElem?_eq_getElem inside] at agrees
      exact (List.getElem?_eq_some_iff.mp agrees).1
    · obtain ⟨r, member, covers⟩ := tiles.covers new below
      exact Patch.getElem?_applyAll_of_covers cut inside
        ⟨r.patch, List.mem_map_of_mem (perm.mem_iff.mpr member), covers⟩
  · intro k after
    rw [Patch.getElem?_applyAll_of_beyond]
    · exact written.kept k (Nat.le_trans tiles.le after)
    · simp only [List.forall_mem_map]
      exact fun r member => Nat.le_trans (tiles.mem r (perm.mem_iff.mp member)).2 after

/-! ## The whole copy -/

/-- A total below `2 ^ 31` is counted as it is. -/
theorem int32_of_lt {n : Nat} (small : n < 2 ^ 31) : int32 n = n := by
  unfold int32
  apply Int.bmod_eq_of_le <;> omega

/-- `stop` bytes are read, and the first `start` of them are written. -/
structure Copying (source before : List UInt8) (s : System) (start stop : Nat) : Prop where
  filled : s.main.Filled
  remaining : s.remaining = source.drop stop
  bound : stop ≤ source.length
  totLen : s.main.totLen = stop
  tiles : Tiles source start s.main.pending stop
  written : Written source before start s.content
  ended : s.pc = .done → start = source.length

variable {before : List UInt8} {s t : System}

/-- A block read at position `stop` is cut from the source there. -/
theorem getElem?_read {rest : List UInt8} (read : source.drop stop = bytes ++ rest) {k : Nat}
    (from' : stop ≤ k) (below : k < stop + bytes.length) : bytes[k - stop]? = source[k]? := by
  have inside : k - stop < bytes.length := by omega
  have found : (source.drop stop)[k - stop]? = bytes[k - stop]? := by
    rw [read, List.getElem?_append_left inside]
  rw [← found, List.getElem?_drop, Nat.add_sub_cancel' from']

theorem Copying.step (small : source.length < 2 ^ 31) (copying : Copying source before s start stop)
    (step : SystemStep s t) : ∃ start' stop', Copying source before t start' stop' := by
  obtain ⟨filled, remaining, bound, totLen, tiles, written, ended⟩ := copying
  cases step with
  | readFailed looping =>
      exact ⟨start, stop, filled, remaining, bound, totLen, tiles, written, nofun⟩
  | turn bytes rest order looping read size whole perm nonneg =>
      rw [remaining] at read
      by_cases none : bytes = []
      · subst none
        obtain ⟨filled', total, submitted, empty⟩ := turn_nil filled
        rw [submitted] at perm
        have whole' : stop = source.length := by
          rw [whole rfl, List.append_nil, List.drop_eq_nil_iff] at read
          exact Nat.le_antisymm bound read
        refine ⟨stop, stop, filled', read.symm, bound, ?_, ?_,
          written.applyAll tiles perm bound, fun _ => whole'⟩
        · dsimp only
          rw [total, totLen]
          exact int32_of_lt (by omega)
        · dsimp only
          rw [empty]
          rfl
      · obtain ⟨filled', total, requests⟩ := turn_spec filled none
        have nonzero : bytes.length ≠ 0 := mt List.length_eq_zero_iff.mp none
        have bound' : stop + bytes.length ≤ source.length := by
          have lengths := congrArg List.length read
          rw [List.length_drop, List.length_append] at lengths
          omega
        have tiles' : Tiles source start (s.main.pending ++ [⟨s.main.totLen, bytes⟩])
            (stop + bytes.length) := by
          refine tiles.append (r := ⟨s.main.totLen, bytes⟩) totLen fun k covers => ?_
          have at' : (Request.mk s.main.totLen bytes).patch.offset = stop := by
            rw [Request.patch, totLen]
            rfl
          rw [Patch.Covers, at'] at covers
          exact getElem?_read read covers.1 covers.2
        have remaining' : rest = source.drop (stop + bytes.length) := by
          rw [← List.drop_drop, read, List.drop_left]
        have totLen' : (s.main.turn bytes).2.totLen = (stop + bytes.length : Nat) := by
          rw [total, totLen]
          exact int32_of_lt (by omega)
        have goes : (if bytes.length = 0 then At.done else At.loop) ≠ At.done := by
          rw [if_neg nonzero]
          nofun
        rcases requests with ⟨submitted, empty⟩ | ⟨submitted, added⟩
        · rw [submitted] at perm
          refine ⟨stop + bytes.length, stop + bytes.length, filled', remaining', bound', totLen',
            ?_, written.applyAll tiles' perm bound', fun done => absurd done goes⟩
          dsimp only
          rw [empty]
          rfl
        · rw [submitted, List.perm_nil] at perm
          subst perm
          refine ⟨start, stop + bytes.length, filled', remaining', bound', totLen', ?_, written,
            fun done => absurd done goes⟩
          dsimp only
          rw [added]
          exact tiles'

theorem copying_of_reachable {old : Option (List UInt8)} (small : source.length < 2 ^ 31)
    (reached : (machine source old).Reachable s) :
    ∃ start stop, Copying source (old.getD []) s start stop := by
  apply reached.invariant (P := fun s => ∃ start stop, Copying source (old.getD []) s start stop)
  · intro s start
    obtain ⟨rbuf, rfl⟩ := start
    exact ⟨0, 0, filled_of_zero rfl, rfl, Nat.zero_le _, rfl, rfl, ⟨nofun, fun _ _ => rfl⟩, nofun⟩
  · intro s t _ copying step
    obtain ⟨start, stop, copying⟩ := copying
    exact copying.step small step

/-- At the end the source stands in front of what the older file had behind that position. -/
theorem Written.content_eq {content : List UInt8}
    (written : Written source before source.length content) :
    content = source ++ before.drop source.length := by
  apply List.ext_getElem?
  intro k
  rcases Nat.lt_or_ge k source.length with inside | beyond
  · rw [List.getElem?_append_left inside]
    exact written.done k inside
  · rw [List.getElem?_append_right beyond, List.getElem?_drop, Nat.add_sub_cancel' beyond]
    exact written.kept k beyond

/-- **The copy.**  When the program ends normally, the destination has the content of the source
exactly if it did not have a longer one before. -/
theorem copied_iff_of_reachable {old : Option (List UInt8)} (small : source.length < 2 ^ 31)
    (reached : (machine source old).Reachable s) (ended : s.pc = .done) :
    s.content = source ↔ (old.getD []).length ≤ source.length := by
  obtain ⟨start, stop, copying⟩ := copying_of_reachable small reached
  have written := copying.written
  rw [copying.ended ended] at written
  rw [written.content_eq, List.append_right_eq_self, List.drop_eq_nil_iff]

/-- The program before its first `read`, with empty buffers. -/
def started (source : List UInt8) (old : Option (List UInt8)) : System :=
  ⟨.loop, ⟨0, 0, fun _ => [], fun _ => .zero⟩, source, openWronly false old⟩

/-- Three bytes are copied over two, in two reads. -/
theorem copied_over :
    ∃ s, (machine [1, 2, 3] (some [9, 9])).Reachable s ∧ s.pc = .done ∧ s.content = [1, 2, 3] := by
  have start : (machine [1, 2, 3] (some [9, 9])).Reachable (started [1, 2, 3] (some [9, 9])) :=
    .of_init ⟨_, rfl⟩
  have first := start.tail (.turn _ [1, 2] [3] [] rfl rfl (by decide) nofun (.refl _) nofun)
  have second := first.tail (.turn _ [3] [] [] rfl rfl (by decide) nofun (.refl _) nofun)
  have last := second.tail
    (.turn _ [] [] [⟨2, [3]⟩, ⟨0, [1, 2]⟩] rfl rfl (by decide) (fun _ => rfl) (.swap _ _ [])
      (by decide))
  exact ⟨_, last, rfl, (copied_iff_of_reachable (by decide) last rfl).mpr (by decide)⟩

/-- One byte is copied over two. -/
theorem not_forall_copied :
    ¬ ∀ (source : List UInt8) (old : Option (List UInt8)), source.length < 2 ^ 31 →
      ∀ s, (machine source old).Reachable s → s.pc = .done → s.content = source := by
  intro always
  have start : (machine [1] (some [9, 9])).Reachable (started [1] (some [9, 9])) :=
    .of_init ⟨_, rfl⟩
  have read := start.tail (.turn _ [1] [] [] rfl rfl (by decide) nofun (.refl _) nofun)
  have last := read.tail
    (.turn _ [] [] [⟨0, [1]⟩] rfl rfl (by decide) (fun _ => rfl) (.refl _) (by decide))
  exact absurd (always _ _ (by decide) _ last rfl) (by decide)

end Alnp.AioListio
