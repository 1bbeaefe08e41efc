import Alnp.CondVar.Threads

/-!
# Delivery from the FIFO to the jobs

`tfunc_a` drops the value that `push_item` returns.  So the bytes read from the FIFO are the items
popped, the items in the queue and the bytes still to be pushed (`Delivered`) exactly as long as
`push_item` has never ended because the queue was full (`delivered_iff_of_reachable`): the rest of
that chunk is gone for good.
-/

namespace Alnp.CondVar

variable {ι : Type}

/-- The bytes of the current chunk that are not pushed yet. -/
def TfuncA.rest : TfuncA → List Int8
  | .lock buf => buf
  | .store _ _ rest => rest
  | _ => []

/-- What has been read is popped, in the queue or still to be pushed, in this order. -/
def Delivered (s : Threads ι) : Prop :=
  s.input.map Int8.toInt = s.popped ++ s.wq.content ++ s.tfuncA.rest.map Int8.toInt

/-- The step is not the one that ends the loop of `push_item` on a full queue with bytes left. -/
def KeepsRest (s t : Threads ι) : Prop :=
  ∀ i j c rest, s.tfuncA = .store i j (c :: rest) → s.wq.cnt = maxItems → t.tfuncA = s.tfuncA

/-- How many of the bytes read are neither popped, nor in the queue, nor still to be pushed. -/
def missing (s : Threads ι) : Int :=
  s.input.length - s.popped.length - s.wq.cnt - s.tfuncA.rest.length

/-! ## The queue between two steps -/

/-- The queue is well formed between any two steps, and `push_item` in its loop is at its end. -/
structure Queued (s : Threads ι) : Prop where
  bounded : Bounded s.wq
  atEnd : ∀ i j rest, s.tfuncA = .store i j rest → AtEnd s.wq j

variable {s t : Threads ι}

/-- A step of another thread that leaves the queue alone. -/
theorem Queued.keep (queued : Queued s) (wq : t.wq = s.wq) (tfuncA : t.tfuncA = s.tfuncA) :
    Queued t := by
  refine ⟨wq ▸ queued.bounded, fun i j rest storing => ?_⟩
  rw [wq]
  exact queued.atEnd i j rest (tfuncA ▸ storing)

/-- A step of `tfunc_a` outside the loop of `push_item`. -/
theorem Queued.outside (queued : Queued s) (wq : t.wq = s.wq)
    (out : ∀ i j rest, t.tfuncA ≠ .store i j rest) : Queued t :=
  ⟨wq ▸ queued.bounded, fun i j rest storing => absurd storing (out i j rest)⟩

theorem Delivered.missing_eq_zero (delivered : Delivered s) (queued : Queued s) :
    missing s = 0 := by
  have lengths := congrArg List.length delivered
  have count := queued.bounded.length_content
  simp only [List.length_map, List.length_append] at lengths
  unfold missing
  omega

variable [DecidableEq ι]

theorem Queued.step (queued : Queued s) (inv : Coordinated s) (step : ThreadStep s t) :
    Queued t := by
  cases step with
  | read buf reading _ _ => exact queued.outside rfl nofun
  | lockA buf locking free =>
      refine ⟨queued.bounded, fun i j rest storing => ?_⟩
      cases storing
      exact atEnd_pushStart queued.bounded
  | store i j c rest storing room =>
      obtain ⟨-, bounded, atEnd, -, -⟩ :=
        pushTurn_spec c queued.bounded (queued.atEnd i j _ storing) room
      refine ⟨bounded, fun i' j' rest' storing' => ?_⟩
      cases storing'
      exact atEnd
  | full i j c rest storing _ => exact queued.outside rfl nofun
  | stored i j storing => exact queued.outside rfl nofun
  | unlockA i unlocking => exact queued.outside rfl nofun
  | broadcast broadcasting => exact queued.outside rfl nofun
  | lockB i locking free => exact queued.keep rfl rfl
  | test i testing => exact queued.keep rfl rfl
  | take i taking =>
      have some : (TfuncB.take).tested s.wq.cnt := taking ▸ inv.tested i
      have held : holds s.tfuncA s.tfuncB (.b i) := by
        simp only [holds, taking]
        trivial
      refine ⟨(popTake_spec queued.bounded some).2.1, fun i' j rest storing => ?_⟩
      -- With thread `i` inside, `tfunc_a` is not.
      have inside : holds s.tfuncA s.tfuncB .a := by
        have storing' : s.tfuncA = .store i' j rest := storing
        simp only [holds, storing']
        trivial
      cases inv.guards.unique held inside
  | wait i waiting => exact queued.keep rfl rfl
  | wake i => exact queued.keep rfl rfl
  | woken i waiting awake free => exact queued.keep rfl rfl
  | unlockB i item unlocking => exact queued.keep rfl rfl
  | job i item working => exact queued.keep rfl rfl

theorem queued_of_reachable (reached : (threads ι).Reachable s) : Queued s := by
  apply reached.invariant (P := Queued)
  · intro s start
    subst start
    exact ⟨bounded_calloc, nofun⟩
  · exact fun s t before queued step => queued.step (coordinated_of_reachable before) step

/-! ## No step but one loses a byte -/

theorem Delivered.step (delivered : Delivered s) (queued : Queued s) (inv : Coordinated s)
    (step : ThreadStep s t) (keeps : KeepsRest s t) : Delivered t := by
  unfold Delivered at delivered ⊢
  cases step with
  | read buf reading _ _ =>
      rw [reading] at delivered
      simp only [List.map_append, delivered, TfuncA.rest, List.map_nil, List.append_nil]
  | lockA buf locking free =>
      rw [locking] at delivered
      exact delivered
  | store i j c rest storing room =>
      obtain ⟨-, -, -, -, content⟩ :=
        pushTurn_spec c queued.bounded (queued.atEnd i j _ storing) room
      rw [storing] at delivered
      simp only [content, TfuncA.rest] at delivered ⊢
      simpa using delivered
  | full i j c rest storing full =>
      cases (keeps i j c rest storing full).trans storing
  | stored i j storing =>
      rw [storing] at delivered
      exact delivered
  | unlockA i unlocking =>
      rw [unlocking] at delivered
      exact delivered
  | broadcast broadcasting =>
      rw [broadcasting] at delivered
      exact delivered
  | lockB i locking free => exact delivered
  | test i testing => exact delivered
  | take i taking =>
      have some : (TfuncB.take).tested s.wq.cnt := taking ▸ inv.tested i
      have content := (popTake_spec queued.bounded some).2.2.2
      rw [content] at delivered
      simpa [Threads.setB] using delivered
  | wait i waiting => exact delivered
  | wake i => exact delivered
  | woken i waiting awake free => exact delivered
  | unlockB i item unlocking => exact delivered
  | job i item working => exact delivered

/-! ## Lost bytes stay lost -/

/-- A step that ends the loop of `push_item` on a full queue adds to the missing bytes; every other
step leaves their number as it is. -/
theorem missing_step (step : ThreadStep s t) :
    missing s ≤ missing t ∧ (missing t = missing s → KeepsRest s t) := by
  have elsewhere : ∀ {s t : Threads ι}, t.tfuncA = s.tfuncA → KeepsRest s t :=
    fun same i j c rest _ _ => same
  have outside : ∀ {s t : Threads ι}, (∀ i j rest, s.tfuncA ≠ .store i j rest) → KeepsRest s t :=
    fun out i j c rest storing _ => absurd storing (out i j _)
  cases step with
  | read buf reading _ _ =>
      refine ⟨?_, fun _ => outside (by rw [reading]; exact nofun)⟩
      simp only [missing, reading, TfuncA.rest, List.length_append, List.length_nil]
      omega
  | lockA buf locking free =>
      refine ⟨?_, fun _ => outside (by rw [locking]; exact nofun)⟩
      simp [missing, locking, TfuncA.rest]
  | store i j c rest storing room =>
      refine ⟨?_, fun _ i' j' c' rest' storing' full => absurd full room⟩
      have count : (pushTurn c j s.wq).value.2.cnt = s.wq.cnt + 1 := rfl
      simp only [missing, storing, TfuncA.rest, List.length_cons, count]
      omega
  | full i j c rest storing full =>
      have lost : missing s < missing { s with tfuncA := .unlock i } := by
        simp only [missing, storing, TfuncA.rest, List.length_cons, List.length_nil]
        omega
      exact ⟨Int.le_of_lt lost, fun same => absurd same (ne_of_gt lost)⟩
  | stored i j storing =>
      refine ⟨?_, fun _ i' j' c' rest' storing' _ => ?_⟩
      · simp [missing, storing, TfuncA.rest]
      · cases storing.symm.trans storing'
  | unlockA i unlocking =>
      refine ⟨?_, fun _ => outside (by rw [unlocking]; exact nofun)⟩
      simp [missing, unlocking, TfuncA.rest]
  | broadcast broadcasting =>
      refine ⟨?_, fun _ => outside (by rw [broadcasting]; exact nofun)⟩
      simp [missing, broadcasting, TfuncA.rest]
  | lockB i locking free => exact ⟨Int.le_refl _, fun _ => elsewhere rfl⟩
  | test i testing => exact ⟨Int.le_refl _, fun _ => elsewhere rfl⟩
  | take i taking =>
      refine ⟨?_, fun _ => elsewhere rfl⟩
      have count : (popTake s.wq).value.2.cnt = s.wq.cnt - 1 := rfl
      simp only [missing, Threads.setB, List.length_append, List.length_singleton, count]
      omega
  | wait i waiting => exact ⟨Int.le_refl _, fun _ => elsewhere rfl⟩
  | wake i => exact ⟨Int.le_refl _, fun _ => elsewhere rfl⟩
  | woken i waiting awake free => exact ⟨Int.le_refl _, fun _ => elsewhere rfl⟩
  | unlockB i item unlocking => exact ⟨Int.le_refl _, fun _ => elsewhere rfl⟩
  | job i item working => exact ⟨Int.le_refl _, fun _ => elsewhere rfl⟩

/-- The program in the runs in which `push_item` always pushes its whole chunk. -/
def unhurried (ι : Type) [DecidableEq ι] : Machine (Threads ι) :=
  (threads ι).guarded KeepsRest

theorem delivered_of_unhurried (run : (unhurried ι).Reachable s) : Delivered s := by
  apply run.invariant (P := Delivered)
  · intro s start
    subst start
    rfl
  · intro s t before delivered step
    have reached : (threads ι).Reachable s := before.of_guarded
    exact delivered.step (queued_of_reachable reached) (coordinated_of_reachable reached) step.1
      step.2

/-- A chunk has always been pushed whole, or bytes are missing and stay so. -/
theorem unhurried_or_missing (reached : (threads ι).Reachable s) :
    (unhurried ι).Reachable s ∨ 0 < missing s := by
  apply reached.or_damaged
  · exact fun s start => start
  · intro s t before run step
    have none := (delivered_of_unhurried run).missing_eq_zero (queued_of_reachable before)
    obtain ⟨grows, keeps⟩ := missing_step step
    rcases eq_or_lt_of_le grows with same | more
    · exact .inl ⟨step, keeps same.symm⟩
    · exact .inr (none ▸ more)
  · exact fun s t _ some step => some.trans_le (missing_step step).1

/-- **End-to-end delivery.**  The bytes read from the FIFO are the items popped, followed by the
queue and by the rest of the current chunk, exactly if no `push_item` has ended on a full queue with
bytes left. -/
theorem delivered_iff_of_reachable (reached : (threads ι).Reachable s) :
    Delivered s ↔ (unhurried ι).Reachable s := by
  constructor
  · intro delivered
    have none := delivered.missing_eq_zero (queued_of_reachable reached)
    rcases unhurried_or_missing reached with run | some
    · exact run
    · exact absurd none some.ne'
  · exact delivered_of_unhurried

/-- A byte is read and stored. -/
theorem delivered_stored :
    ∃ s : Threads Unit, (threads Unit).Reachable s ∧ s.input = [65] ∧ s.wq.cnt > 0 ∧
      Delivered s := by
  have start : (unhurried Unit).Reachable _ := .of_init rfl
  have read := start.tail ⟨ThreadStep.read _ [65] rfl nofun (by decide), nofun⟩
  have locked := read.tail ⟨ThreadStep.lockA _ [65] rfl rfl, nofun⟩
  have stored := locked.tail ⟨ThreadStep.store _ 0 0 65 [] rfl (by decide),
    fun i j c rest _ full => absurd full (by decide)⟩
  have reached : (threads Unit).Reachable _ := stored.of_guarded
  exact ⟨_, reached, rfl, Int.one_pos, (delivered_iff_of_reachable reached).mpr stored⟩

/-! ## Three chunks and no consumer -/

/-- `push_item` comes to the end of its loop. -/
theorem reachable_pushed (rest : List Int8) : ∀ {s : Threads ι} {i j : Int},
    (threads ι).Reachable s → s.tfuncA = .store i j rest →
      ∃ i' wq, (threads ι).Reachable { s with tfuncA := .unlock i', wq := wq } := by
  induction rest with
  | nil => exact fun reached storing => ⟨_, _, reached.tail (.stored _ _ _ storing)⟩
  | cons c rest ih =>
      intro s i j reached storing
      by_cases full : s.wq.cnt = maxItems
      · exact ⟨_, _, reached.tail (.full _ _ _ c rest storing full)⟩
      · have stored := reached.tail (ThreadStep.store s i j c rest storing full)
        obtain ⟨i', wq, pushed⟩ := ih stored rfl
        exact ⟨i', wq, pushed⟩

/-- `tfunc_a` reads a chunk, pushes what fits and is back at `read`. -/
theorem reachable_chunk (buf : List Int8) (some : buf ≠ []) (le : buf.length ≤ maxItems / 2)
    (reached : (threads ι).Reachable s) (reading : s.tfuncA = .read)
    (free : s.monitor.owner = none) :
    ∃ t, (threads ι).Reachable t ∧ t.tfuncA = .read ∧ t.monitor.owner = none ∧
      t.popped = s.popped ∧ t.input = s.input ++ buf := by
  have read := reached.tail (ThreadStep.read s buf reading some le)
  have locked := read.tail (ThreadStep.lockA _ buf rfl free)
  obtain ⟨i, wq, pushed⟩ := reachable_pushed buf locked rfl
  have unlocked := pushed.tail (ThreadStep.unlockA _ i rfl)
  exact ⟨_, unlocked.tail (ThreadStep.broadcast _ rfl), rfl, rfl, rfl, rfl⟩

/-- Three chunks of 32 bytes do not fit into the queue of 64. -/
theorem not_forall_delivered :
    ¬ ∀ s : Threads Unit, (threads Unit).Reachable s → Delivered s := by
  intro always
  have some : List.replicate 32 (65 : Int8) ≠ [] := by simp
  have start : (threads Unit).Reachable _ := .of_init rfl
  obtain ⟨s₁, reached₁, reading₁, free₁, popped₁, input₁⟩ :=
    reachable_chunk (List.replicate 32 65) some (by decide) start rfl rfl
  obtain ⟨s₂, reached₂, reading₂, free₂, popped₂, input₂⟩ :=
    reachable_chunk (List.replicate 32 65) some (by decide) reached₁ reading₁ free₁
  obtain ⟨s₃, reached₃, reading₃, -, popped₃, input₃⟩ :=
    reachable_chunk (List.replicate 32 65) some (by decide) reached₂ reading₂ free₂
  have queued := queued_of_reachable reached₃
  have none := (always s₃ reached₃).missing_eq_zero queued
  have capacity := queued.bounded.cnt.2
  simp only [missing, input₃, input₂, input₁, popped₃, popped₂, popped₁, reading₃, TfuncA.rest,
    List.length_append, List.length_replicate, List.length_nil] at none
  simp only [maxItems] at capacity
  omega

end Alnp.CondVar
