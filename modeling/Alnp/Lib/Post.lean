import Mathlib.Data.List.Count
import Mathlib.Data.List.Perm.Basic

/-!
# Messages by key

A queue to which messages are sent and from which each receiver takes the first message of some
key, with its history.  Nothing is asked about which key a receiver takes, so this is a queue of
messages by type, a queue of signals by process, and with one key for all an ordinary queue.

* `Kept`: the messages of each key are received in the order in which they were sent, and what has
  not been received is under way.  It is kept by all operations.
* `Kept.fifo`: with one key for all the queue is first in, first out.
* `Kept.perm`: whatever the keys, no message is lost or received twice.
* `Told`: what each of the senders has said so far fits with where it is.
-/

namespace Alnp

/-- The messages sent, the messages received with who has received them, and those under way. -/
structure Post (ρ α : Type) where
  sent : List α
  received : List (ρ × α)
  queue : List α

namespace Post

variable {ρ α κ : Type} {p q : Post ρ α} {r : ρ} {a : α} {key : α → κ}

def empty : Post ρ α := ⟨[], [], []⟩

/-- The messages received, whoever has received them. -/
def arrived (p : Post ρ α) : List α := p.received.map Prod.snd

def send (p : Post ρ α) (a : α) : Post ρ α :=
  { p with sent := p.sent ++ [a], queue := p.queue ++ [a] }

/-- A message goes to a waiting receiver at once. -/
def hand (p : Post ρ α) (r : ρ) (a : α) : Post ρ α :=
  { p with sent := p.sent ++ [a], received := p.received ++ [(r, a)] }

/-- The first message of its key is received. -/
inductive Receive (key : α → κ) (r : ρ) (a : α) : Post ρ α → Post ρ α → Prop
  | take (p : Post ρ α) (before after : List α) :
      p.queue = before ++ a :: after → (∀ b ∈ before, key b ≠ key a) →
      Receive key r a p { p with received := p.received ++ [(r, a)], queue := before ++ after }

/-- The first of all messages is the first of its key. -/
theorem receive_head {after : List α} (front : p.queue = a :: after) :
    Receive key r a p { p with received := p.received ++ [(r, a)], queue := after } :=
  .take p [] after front nofun

@[simp] theorem sent_send : (p.send a).sent = p.sent ++ [a] := rfl

@[simp] theorem queue_send : (p.send a).queue = p.queue ++ [a] := rfl

@[simp] theorem arrived_send : (p.send a).arrived = p.arrived := rfl

@[simp] theorem sent_hand : (p.hand r a).sent = p.sent ++ [a] := rfl

@[simp] theorem queue_hand : (p.hand r a).queue = p.queue := rfl

@[simp] theorem arrived_hand : (p.hand r a).arrived = p.arrived ++ [a] := by
  simp [hand, arrived]

theorem Receive.sent_eq (receive : Receive key r a p q) : q.sent = p.sent := by
  cases receive
  rfl

theorem Receive.arrived_eq (receive : Receive key r a p q) : q.arrived = p.arrived ++ [a] := by
  cases receive
  simp [arrived]

theorem Receive.length_queue (receive : Receive key r a p q) :
    q.queue.length + 1 = p.queue.length := by
  cases receive with
  | take before after front first =>
      rw [front, List.length_append, List.length_append, List.length_cons, Nat.add_assoc]

/-! ## What is kept -/

variable [DecidableEq κ]

/-- The messages of a key. -/
def of (key : α → κ) (k : κ) (messages : List α) : List α :=
  messages.filter fun a => key a = k

theorem of_append (k : κ) (xs ys : List α) : of key k (xs ++ ys) = of key k xs ++ of key k ys :=
  List.filter_append _ _

theorem of_cons (k : κ) (a : α) (xs : List α) : of key k (a :: xs) = of key k [a] ++ of key k xs :=
  of_append k [a] xs

theorem of_singleton_self : of key (key a) [a] = [a] := by
  simp [of]

theorem of_singleton_of_ne {k : κ} (other : key a ≠ k) : of key k [a] = [] := by
  simp [of, other]

theorem of_eq_nil {k : κ} {messages : List α} (none : ∀ b ∈ messages, key b ≠ k) :
    of key k messages = [] := by
  simpa [of] using none

/-- For each key, the messages received and then those under way are the messages sent. -/
def Kept (key : α → κ) (p : Post ρ α) : Prop :=
  ∀ k, of key k (p.arrived ++ p.queue) = of key k p.sent

theorem kept_empty : Kept key (empty : Post ρ α) := fun _ => rfl

theorem Kept.send (kept : Kept key p) (a : α) : Kept key (p.send a) := by
  intro k
  rw [arrived_send, queue_send, sent_send, ← List.append_assoc, of_append, kept k, of_append]

/-- A message may go to a receiver at once when none of its key is under way. -/
theorem Kept.hand (kept : Kept key p) (none : ∀ b ∈ p.queue, key b ≠ key a) :
    Kept key (p.hand r a) := by
  intro k
  have before := kept k
  rw [of_append] at before
  rw [arrived_hand, queue_hand, sent_hand, of_append, of_append, of_append, ← before]
  by_cases same : key a = k
  · subst same
    rw [of_eq_nil none, List.append_nil, List.append_nil]
  · rw [of_singleton_of_ne same, List.append_nil, List.append_nil]

theorem Kept.receive (kept : Kept key p) (receive : Receive key r a p q) : Kept key q := by
  intro k
  have before := kept k
  rw [receive.sent_eq, receive.arrived_eq, ← before]
  cases receive with
  | take earlier later front first =>
      rw [front, List.append_assoc, of_append, of_append, of_append, of_append, of_append,
        of_cons k a later]
      by_cases same : key a = k
      · subst same
        rw [of_eq_nil first, List.nil_append, List.nil_append]
      · rw [of_singleton_of_ne same, List.nil_append, List.nil_append]

/-- With one key for all, the messages arrive in the order in which they were sent. -/
theorem Kept.fifo (kept : Kept (fun _ : α => ()) p) : p.arrived ++ p.queue = p.sent := by
  have all (messages : List α) : of (fun _ : α => ()) () messages = messages := by
    simp [of]
  rw [← all (p.arrived ++ p.queue), ← all p.sent, kept ()]

/-- No message is lost, invented or received twice. -/
theorem Kept.perm [DecidableEq α] (kept : Kept key p) : (p.arrived ++ p.queue).Perm p.sent := by
  refine List.perm_iff_count.mpr fun a => ?_
  have self : decide (key a = key a) = true := decide_eq_true rfl
  rw [← List.count_filter (p := fun b => decide (key b = key a)) self,
    ← List.count_filter (p := fun b => decide (key b = key a)) (l := p.sent) self]
  exact congrArg (List.count a) (kept (key a))

/-- A message is the first of its key or there is one in front of it. -/
theorem exists_receive (key : α → κ) (r : ρ) (member : a ∈ p.queue) :
    ∃ b q, key b = key a ∧ b ∈ p.queue ∧ Receive key r b p q := by
  have found : ∃ b, p.queue.find? (fun b => key b = key a) = some b :=
    Option.isSome_iff_exists.mp (List.find?_isSome.mpr ⟨a, member, decide_eq_true rfl⟩)
  obtain ⟨b, found⟩ := found
  obtain ⟨same, before, after, front, first⟩ := List.find?_eq_some_iff_append.mp found
  have same : key b = key a := of_decide_eq_true same
  refine ⟨b, _, same, List.mem_of_find?_eq_some found, .take p before after front ?_⟩
  intro c among is
  have other := first c among
  rw [decide_eq_true (is.trans same)] at other
  cases other

/-! ## Messages with their senders -/

section Senders

variable {β τ : Type}

/-- What a sender has said in the messages. -/
def contents (messages : List (Nat × β)) (i : Nat) : List β :=
  (of Prod.fst i messages).map Prod.snd

theorem contents_append (xs ys : List (Nat × β)) (i : Nat) :
    contents (xs ++ ys) i = contents xs i ++ contents ys i := by
  rw [contents, of_append, List.map_append]
  rfl

theorem contents_singleton_self (i : Nat) (content : β) :
    contents [(i, content)] i = [content] := by
  rw [contents, show i = Prod.fst (i, content) from rfl, of_singleton_self]
  rfl

theorem contents_singleton_of_ne {i j : Nat} (content : β) (other : j ≠ i) :
    contents [(i, content)] j = [] := by
  rw [contents, of_singleton_of_ne (Ne.symm other)]
  rfl

/-- What each sender has said so far fits with where it is. -/
def Told (Q : Nat → List β → τ → Prop) (messages : List (Nat × β)) (senders : List τ) : Prop :=
  ∀ (i : Nat) (sender : τ), senders[i]? = some sender → Q i (contents messages i) sender

variable {Q : Nat → List β → τ → Prop} {messages : List (Nat × β)} {senders : List τ} {i : Nat}
  {sender sender' : τ}

/-- A sender says something. -/
theorem Told.send (told : Told Q messages senders) (here : senders[i]? = some sender) {content : β}
    (step : Q i (contents messages i) sender → Q i (contents messages i ++ [content]) sender') :
    Told Q (messages ++ [(i, content)]) (senders.set i sender') := by
  intro j other there
  rw [contents_append]
  by_cases same : j = i
  · subst same
    rw [List.getElem?_set_self (List.getElem?_eq_some_iff.mp here).1] at there
    cases there
    rw [contents_singleton_self]
    exact step (told j sender here)
  · rw [List.getElem?_set_ne (Ne.symm same)] at there
    rw [contents_singleton_of_ne content same, List.append_nil]
    exact told j other there

/-- A sender goes on without a word. -/
theorem Told.quiet (told : Told Q messages senders) (here : senders[i]? = some sender)
    (step : Q i (contents messages i) sender → Q i (contents messages i) sender') :
    Told Q messages (senders.set i sender') := by
  intro j other there
  by_cases same : j = i
  · subst same
    rw [List.getElem?_set_self (List.getElem?_eq_some_iff.mp here).1] at there
    cases there
    exact step (told j sender here)
  · rw [List.getElem?_set_ne (Ne.symm same)] at there
    exact told j other there

end Senders

end Post

end Alnp
