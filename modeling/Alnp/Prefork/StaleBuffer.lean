import Mathlib.Tactic.Tauto
import Alnp.Prefork.Model

/-!
# What a reply of `inet_tcp_serv1.c` depends on

The children of `Chapter06/inet_tcp_serv1.c` use one `buf` for all chunks of all sessions and look
for a newline in it with `strchr`.  `recv` does not terminate what it stores, so behind the chunk
the search goes on in what is left of earlier ones.

`independent_iff`: what a child does with a chunk depends on the chunk alone exactly if the chunk
has a newline or a zero byte, at which the search stops.
-/

namespace Alnp.Prefork

/-! ## How far `strchr` looks -/

/-- The indices that `strchr(buf, c)` looks at. -/
def strchrLooks (c : Int8) : List Int8 → List Nat
  | [] => [0]
  | b :: rest =>
      if b = c then [0]
      else if b = 0 then [0]
      else 0 :: (strchrLooks c rest).map (· + 1)

variable {c : Int8} {bytes rest : List Int8}

/-- The search passes a byte that is neither `c` nor zero. -/
theorem strchr_cons_eq_overrun_iff {b : Int8} :
    strchr c (b :: bytes) = .overrun ↔ b ≠ c ∧ b ≠ 0 ∧ strchr c bytes = .overrun := by
  rw [strchr]
  split
  · next hit => simp [hit]
  · next other =>
      split
      · next zero => simp [zero]
      · next nonzero =>
          rw [and_iff_right other, and_iff_right nonzero]
          split
          · next found => simp [found]
          · next null => simp [null]
          · next overrun => simp [overrun]

/-- The search leaves `bytes` unless they hold what it stops at. -/
theorem strchr_eq_overrun_iff : strchr c bytes = .overrun ↔ c ∉ bytes ∧ 0 ∉ bytes := by
  induction bytes with
  | nil => simp [strchr]
  | cons b bytes ih =>
      rw [strchr_cons_eq_overrun_iff, ih]
      simp only [List.mem_cons, not_or]
      tauto

/-- A search that stops in `bytes` does not depend on what is behind them. -/
theorem strchr_append (stops : strchr c bytes ≠ .overrun) :
    strchr c (bytes ++ rest) = strchr c bytes := by
  induction bytes with
  | nil => exact absurd rfl stops
  | cons b bytes ih =>
      rw [List.cons_append, strchr, strchr]
      split
      · rfl
      · next other =>
          split
          · rfl
          · next nonzero =>
              rw [ih fun passes => stops (strchr_cons_eq_overrun_iff.mpr ⟨other, nonzero, passes⟩)]

theorem strchr_found_lt {index : Nat} (found : strchr c bytes = .found index) :
    index < bytes.length := by
  induction bytes generalizing index with
  | nil => cases found
  | cons b bytes ih =>
      rw [strchr] at found
      split at found
      · cases found
        exact Nat.succ_pos _
      · split at found
        · cases found
        · cases here : strchr c bytes with
          | found i =>
              rw [here] at found
              cases found
              exact Nat.succ_lt_succ (ih here)
          | null =>
              rw [here] at found
              cases found
          | overrun =>
              rw [here] at found
              cases found

/-- A search that stops in `bytes` has looked at nothing behind them. -/
theorem strchrLooks_lt (stops : strchr c bytes ≠ .overrun) :
    ∀ i ∈ strchrLooks c (bytes ++ rest), i < bytes.length := by
  induction bytes with
  | nil => exact absurd rfl stops
  | cons b bytes ih =>
      intro i looked
      rw [List.cons_append, strchrLooks] at looked
      rw [List.length_cons]
      split at looked
      · rw [List.mem_singleton.mp looked]
        exact Nat.succ_pos _
      · next other =>
          split at looked
          · rw [List.mem_singleton.mp looked]
            exact Nat.succ_pos _
          · next nonzero =>
              have stops' : strchr c bytes ≠ .overrun := fun passes =>
                stops (strchr_cons_eq_overrun_iff.mpr ⟨other, nonzero, passes⟩)
              rcases List.mem_cons.mp looked with rfl | later
              · exact Nat.succ_pos _
              · obtain ⟨k, looked', rfl⟩ := List.mem_map.mp later
                exact Nat.succ_lt_succ (ih stops' k looked')

/-- A search that does not stop in `bytes` looks at the place behind them. -/
theorem length_mem_strchrLooks (passes : strchr c bytes = .overrun) :
    bytes.length ∈ strchrLooks c (bytes ++ rest) := by
  induction bytes with
  | nil =>
      cases rest with
      | nil => exact List.mem_cons_self
      | cons b rest =>
          rw [List.nil_append, strchrLooks]
          split
          · exact List.mem_cons_self
          · split <;> exact List.mem_cons_self
  | cons b bytes ih =>
      obtain ⟨other, nonzero, passes'⟩ := strchr_cons_eq_overrun_iff.mp passes
      rw [List.cons_append, strchrLooks, if_neg other, if_neg nonzero]
      exact List.mem_cons_of_mem 0 (List.mem_map.mpr ⟨bytes.length, ih passes', rfl⟩)

/-! ## What a child does with a chunk -/

/-- What can be seen of a child's turn behind `recv`. -/
structure Response where
  /-- The session goes on. -/
  stays : Bool
  exited : Bool
  /-- The bytes given to `send`. -/
  sent : List (List Int8)
  deriving DecidableEq

/-- The chunk `bytes` has come in; `result` is what becomes of `send`, where it is called. -/
def respond (cfd : Int) (bytes : List Int8) (result : Sent) (c : Child) : Response :=
  let c' := InetTcpServ1.received cfd (.data bytes) result c
  ⟨decide (c'.pc = .recv cfd), decide (c'.pc = .exited), c'.replies.drop c.replies.length⟩

/-- The child is at `recv`, after any chunks of this session and of earlier ones. -/
def Receiving (cfd : Int) (c : Child) : Prop :=
  (child .inetTcpServ1).Reachable c ∧ c.pc = .recv cfd

/-- What a child does with the chunk does not depend on its history, and the search for the newline
neither looks at nor changes a byte of `buf` behind the chunk. -/
structure Independent (bytes : List Int8) : Prop where
  responds : ∀ c₁ c₂ cfd₁ cfd₂ result, Receiving cfd₁ c₁ → Receiving cfd₂ c₂ →
    respond cfd₁ bytes result c₁ = respond cfd₂ bytes result c₂
  looks : ∀ c cfd, Receiving cfd c →
    ∀ i ∈ strchrLooks 10 (c.store bytes).memory, i < bytes.length
  writes : ∀ c cfd result, Receiving cfd c → ∀ i, bytes.length ≤ i →
    (InetTcpServ1.received cfd (.data bytes) result c).memory[i]? = c.memory[i]?

/-- What a child does with a chunk in which the search stops. -/
def responseTo (bytes : List Int8) (result : Sent) : Response :=
  match strchr 10 bytes, result with
  | .found index, .sent _ => ⟨true, false, [bytes.set index 0]⟩
  | .found index, _ => ⟨false, true, [bytes.set index 0]⟩
  | _, _ => ⟨false, false, []⟩

variable {cfd : Int} {child' : Child} {result : Sent}

theorem respond_eq (pc : child'.pc = .recv cfd) (stops : strchr 10 bytes ≠ .overrun) :
    respond cfd bytes result child' = responseTo bytes result := by
  have search : strchr 10 (bytes ++ child'.memory.drop bytes.length) = strchr 10 bytes :=
    strchr_append stops
  unfold respond responseTo InetTcpServ1.received InetTcpServ1.reply
  simp only [Child.store, Child.use, search]
  cases found : strchr 10 bytes with
  | found index =>
      have inside := strchr_found_lt found
      have cut : ((bytes ++ child'.memory.drop bytes.length).set index 0).take bytes.length =
          bytes.set index 0 := by
        rw [List.set_append_left index 0 inside, List.take_append_of_le_length (by simp),
          List.take_of_length_le (by simp)]
      cases result <;> simp [Child.send, Child.use, Child.exit, cut, pc]
  | null => simp [Child.next]
  | overrun => exact absurd found stops

theorem memory_received (stops : strchr 10 bytes ≠ .overrun) (i : Nat) (behind : bytes.length ≤ i) :
    (InetTcpServ1.received cfd (.data bytes) result child').memory[i]? = child'.memory[i]? := by
  have search : strchr 10 (bytes ++ child'.memory.drop bytes.length) = strchr 10 bytes :=
    strchr_append stops
  have kept : (bytes ++ child'.memory.drop bytes.length)[i]? = child'.memory[i]? := by
    rw [List.getElem?_append_right behind, List.getElem?_drop, Nat.add_sub_cancel' behind]
  unfold InetTcpServ1.received InetTcpServ1.reply
  simp only [Child.store, Child.use, search]
  cases found : strchr 10 bytes with
  | found index =>
      have other : index ≠ i := Nat.ne_of_lt (Nat.lt_of_lt_of_le (strchr_found_lt found) behind)
      have unset : ((bytes ++ child'.memory.drop bytes.length).set index 0)[i]? =
          child'.memory[i]? := (List.getElem?_set_ne other).trans kept
      cases result <;> exact unset
  | null => exact kept
  | overrun => exact absurd found stops

/-- A child whose buffer is zero, in its first session. -/
theorem receiving_zeroed : Receiving 4 { Child.zeroed.accept 4 with pc := .recv 4 } :=
  ⟨(Machine.Reachable.of_init Child.zeroed_started).tail
    ⟨_, .accept _ (.fd 4) 0 rfl (by decide)⟩, rfl⟩

/-- **Noninterference.**  What a child does with a chunk depends on the chunk alone exactly if the
chunk has a newline or a zero byte. -/
theorem independent_iff (bytes : List Int8) : Independent bytes ↔ 10 ∈ bytes ∨ 0 ∈ bytes := by
  constructor
  · intro independent
    by_contra neither
    have passes : strchr 10 bytes = .overrun := strchr_eq_overrun_iff.mpr (not_or.mp neither)
    have looked := independent.looks _ 4 receiving_zeroed _ (length_mem_strchrLooks passes)
    exact Nat.lt_irrefl _ looked
  · intro either
    have stops : strchr 10 bytes ≠ .overrun := by
      intro passes
      exact not_or.mpr (strchr_eq_overrun_iff.mp passes) either
    refine ⟨?_, ?_, ?_⟩
    · intro c₁ c₂ cfd₁ cfd₂ result receiving₁ receiving₂
      rw [respond_eq receiving₁.2 stops, respond_eq receiving₂.2 stops]
    · intro c cfd _
      exact strchrLooks_lt stops
    · intro c cfd result _
      exact memory_received stops

/-- After two newlines in one chunk a byte without one is sent back; in a fresh buffer the same byte
ends the session. -/
theorem not_forall_independent :
    ¬ ∀ bytes : List Int8, 0 < bytes.length ∧ bytes.length ≤ sizeBuf → Independent bytes := by
  intro always
  have later := receiving_zeroed.1.tail
    ⟨_, .recv _ 4 (.data [10, 10]) (.sent 2) rfl (by decide)⟩
  have same := (always [120] (by decide)).responds _ _ 4 4 (.sent 1) ⟨later, rfl⟩ receiving_zeroed
  exact absurd same (by decide)

end Alnp.Prefork
