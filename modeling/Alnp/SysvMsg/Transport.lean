import Mathlib.Data.List.MinMax
import Mathlib.Data.Int.Order.Basic
import Alnp.Lib.Post
import Alnp.Lib.Progress
import Alnp.LineTransport.Senders

/-!
# Messages by type

Any number of senders and receivers of `Chapter05/sysv_msg.c` at one message queue.  A sender sends
the lines of a file without zero bytes with the types 1, 2 and so on; `msgsnd` does not wait
(`IPC_NOWAIT`), and the sender leaves its loop where the queue has no room.  A receiver takes
messages by the type that it was started with, as `msgrcv` does: the first message for 0, the first
of that type for a positive number, and for a negative one the first of the lowest type up to its
absolute value.

* `typed_of_reachable`: the messages of each type are received in the order in which they were
  sent, none is lost or received twice, and the message of type k of a sender is the k-th piece of
  its file, or its k-th line if the lines are short.
* `sysvMsg_terminates`: every run ends with no message left that a receiver asks for.
-/

namespace Alnp.SysvTransport

open LineTransport (strip sysvMsg textsOf)

/-- A message: who has sent it, its `mtype` and its text. -/
abbrev Message := Nat × Int × List Char

def mtype (m : Message) : Int := m.2.1

inductive Stage
  | running
  /-- The file has come to its end. -/
  | finished
  /-- `msgsnd` has failed. -/
  | refused
deriving DecidableEq

/-- A process in `start_msq_sender`. -/
structure Sender where
  loop : LineTransport.SysvMsg.Sender
  stage : Stage

structure System where
  senders : List Sender
  /-- What the receivers were started with. -/
  receivers : List Int
  post : Post Nat Message

/-- The bytes in a queue. -/
def cbytes (queue : List Message) : Nat := (queue.map fun m => m.2.2.length).sum

/-- `msgsnd` finds room, in a queue for `qbytes` bytes and as many messages. -/
def Fits (qbytes : Nat) (queue : List Message) (text : List Char) : Prop :=
  text.length + cbytes queue ≤ qbytes ∧ queue.length + 1 ≤ qbytes

instance (qbytes : Nat) (queue : List Message) (text : List Char) :
    Decidable (Fits qbytes queue text) :=
  inferInstanceAs (Decidable (_ ∧ _))

/-- What `msgrcv` asks for. -/
def Wanted (msgtyp : Int) (m : Message) : Prop :=
  msgtyp = 0 ∨ 0 < msgtyp ∧ mtype m = msgtyp ∨ msgtyp < 0 ∧ mtype m ≤ -msgtyp

instance (msgtyp : Int) (m : Message) : Decidable (Wanted msgtyp m) :=
  inferInstanceAs (Decidable (_ ∨ _ ∧ _ ∨ _ ∧ _))

/-- `msgrcv` may take a message of this type: the first message, or for a negative number the
lowest type. -/
def Allowed (msgtyp : Int) (queue : List Message) (m : Message) : Prop :=
  (msgtyp = 0 → queue.head? = some m) ∧ (msgtyp < 0 → ∀ b ∈ queue, mtype m ≤ mtype b)

inductive Step (qbytes : Nat) : System → System → Prop
  | send (s : System) (i : Nat) (loop t : LineTransport.SysvMsg.Sender) (m : Int × List Char) :
      s.senders[i]? = some ⟨loop, .running⟩ → LineTransport.SysvMsg.turn true loop = .next t →
      t.sent = loop.sent ++ [m] → Fits qbytes s.post.queue m.2 →
      Step qbytes s
        { s with senders := s.senders.set i ⟨t, .running⟩, post := s.post.send (i, m) }
  /-- `msgsnd` fails with `EAGAIN`. -/
  | refuse (s : System) (i : Nat) (loop t u : LineTransport.SysvMsg.Sender) (m : Int × List Char) :
      s.senders[i]? = some ⟨loop, .running⟩ → LineTransport.SysvMsg.turn true loop = .next u →
      u.sent = loop.sent ++ [m] → ¬ Fits qbytes s.post.queue m.2 →
      LineTransport.SysvMsg.turn false loop = .leave t →
      Step qbytes s { s with senders := s.senders.set i ⟨t, .refused⟩ }
  /-- The end of the file. -/
  | leave (s : System) (i : Nat) (loop t : LineTransport.SysvMsg.Sender) :
      s.senders[i]? = some ⟨loop, .running⟩ → LineTransport.SysvMsg.turn true loop = .leave t →
      Step qbytes s { s with senders := s.senders.set i ⟨t, .finished⟩ }
  | receive (s : System) (r : Nat) (msgtyp : Int) (m : Message) (post : Post Nat Message) :
      s.receivers[r]? = some msgtyp → Wanted msgtyp m → Allowed msgtyp s.post.queue m →
      s.post.Receive mtype r m post →
      Step qbytes s { s with post := post }

/-- A file without zero bytes, and what the buffers of its sender hold at the start. -/
structure Source where
  file : TextFile
  rbuf : Vector Char LineTransport.SysvMsg.lenMqMtext
  mtext : Vector Char LineTransport.SysvMsg.lenMqMtext

/-- Senders of these files and receivers started with these numbers, at an empty queue. -/
def machine (qbytes : Nat) (sources : List Source) (msgtyps : List Int) : Machine System where
  init s := s =
    ⟨sources.map fun source =>
      ⟨LineTransport.SysvMsg.start source.rbuf source.mtext source.file, .running⟩, msgtyps, .empty⟩
  step := Step qbytes

/-! ## The senders -/

variable {loop t : LineTransport.SysvMsg.Sender}

/-- The messages with these texts, with the types 1, 2 and so on. -/
def numbered (texts : List (List Char)) : List (Int × List Char) :=
  texts.mapIdx fun k text => ((k : Int) + 1, text)

theorem numbered_concat (texts : List (List Char)) (text : List Char) :
    numbered (texts ++ [text]) = numbered texts ++ [((texts.length : Int) + 1, text)] :=
  List.mapIdx_concat

theorem numbered_prefix {texts texts' : List (List Char)} (front : texts <+: texts') :
    numbered texts <+: numbered texts' := by
  obtain ⟨behind, rfl⟩ := front
  rw [numbered, numbered, List.mapIdx_append]
  exact List.prefix_append _ _

/-- A message that is sent has the next number. -/
theorem number_of_next (next : LineTransport.SysvMsg.turn true loop = .next t) :
    t.number = loop.number + 1 ∧ ∃ text, t.sent = loop.sent ++ [(loop.number, text)] := by
  unfold LineTransport.SysvMsg.turn at next
  split at next
  · cases next
  · split at next
    · cases next
    · cases next
      exact ⟨rfl, _, rfl⟩

/-- Where `msgsnd` would have sent a message but fails, the loop ends with what has been sent. -/
theorem exists_leave {u : LineTransport.SysvMsg.Sender}
    (next : LineTransport.SysvMsg.turn true loop = .next u) :
    ∃ t, LineTransport.SysvMsg.turn false loop = .leave t ∧ t.sent = loop.sent := by
  unfold LineTransport.SysvMsg.turn at next ⊢
  split at next
  · cases next
  · next more =>
      rw [if_neg more]
      split at next
      · cases next
      · exact ⟨_, rfl, rfl⟩

theorem sent_of_leave (leave : LineTransport.SysvMsg.turn true loop = .leave t) :
    t.sent = loop.sent := by
  unfold LineTransport.SysvMsg.turn at leave
  split at leave
  · cases leave
    rfl
  · split at leave
    · cases leave
      rfl
    · cases leave

/-- A sender has sent the first pieces of its file, numbered. -/
structure Carries (source : Source) (messages : List (Int × List Char)) (p : Sender) : Prop where
  messages_eq : messages = p.loop.sent
  sent_eq : p.loop.sent = numbered (p.loop.sent.map Prod.snd)
  running : p.stage = .running → sysvMsg.Carries source.file.content p.loop ∧
    p.loop.number = (p.loop.sent.length : Int) + 1
  finished : p.stage = .finished → p.loop.sent.map Prod.snd = textsOf 511 source.file.content ∧
    ((p.loop.sent.map Prod.snd).flatten = strip source.file.content ↔
      Lined 511 source.file.content)
  front : p.loop.sent.map Prod.snd <+: textsOf 511 source.file.content

variable {source : Source} {messages : List (Int × List Char)} {m : Int × List Char} {p : Sender}

theorem Carries.next (carries : Carries source messages ⟨loop, .running⟩)
    (next : LineTransport.SysvMsg.turn true loop = .next t) (sent : t.sent = loop.sent ++ [m]) :
    Carries source (messages ++ [m]) ⟨t, .running⟩ := by
  obtain ⟨running, number⟩ := carries.running rfl
  have number : loop.number = (loop.sent.length : Int) + 1 := number
  have running' := (running.of_next next).1
  obtain ⟨number', text, sent'⟩ := number_of_next next
  cases List.singleton_inj.mp (List.append_cancel_left (sent.symm.trans sent'))
  refine ⟨?_, ?_, fun _ => ⟨running', ?_⟩, nofun, ⟨_, running'.sent⟩⟩
  · rw [carries.messages_eq]
    exact sent.symm
  · have sent_eq : loop.sent = numbered (loop.sent.map Prod.snd) := carries.sent_eq
    change t.sent = numbered (t.sent.map Prod.snd)
    rw [sent, List.map_append, List.map_singleton, numbered_concat, ← sent_eq, List.length_map,
      number]
  · change t.number = (t.sent.length : Int) + 1
    rw [number', sent, List.length_append, List.length_singleton, number]
    rfl

theorem Carries.refuse (carries : Carries source messages ⟨loop, .running⟩)
    {u : LineTransport.SysvMsg.Sender} (next : LineTransport.SysvMsg.turn true loop = .next u)
    (leave : LineTransport.SysvMsg.turn false loop = .leave t) :
    Carries source messages ⟨t, .refused⟩ := by
  obtain ⟨t', left, same⟩ := exists_leave next
  cases Flow.leave.inj (leave.symm.trans left)
  have same : (⟨t, .refused⟩ : Sender).loop.sent = loop.sent := same
  obtain ⟨messages_eq, sent_eq, -, -, front⟩ := carries
  refine ⟨messages_eq.trans same.symm, ?_, nofun, nofun, ?_⟩
  · rw [same]
    exact sent_eq
  · rw [same]
    exact front

theorem Carries.leave (carries : Carries source messages ⟨loop, .running⟩)
    (leave : LineTransport.SysvMsg.turn true loop = .leave t) :
    Carries source messages ⟨t, .finished⟩ := by
  have same : (⟨t, .finished⟩ : Sender).loop.sent = loop.sent := sent_of_leave leave
  obtain ⟨-, sent, done⟩ := (carries.running rfl).1.of_leave leave
  obtain ⟨messages_eq, sent_eq, -, -, front⟩ := carries
  refine ⟨messages_eq.trans same.symm, ?_, nofun, fun _ => ?_, ?_⟩
  · rw [same]
    exact sent_eq
  · rw [same]
    exact ⟨sent, done⟩
  · rw [same]
    exact front

/-- Message by message: its number is its place, and its text the piece there. -/
theorem Carries.sent_prefix (carries : Carries source messages p) :
    p.loop.sent <+: numbered (textsOf 511 source.file.content) := by
  rw [carries.sent_eq]
  exact numbered_prefix carries.front

/-- A sender with the file at its index. -/
def CarriesOf (sources : List Source) (i : Nat) (messages : List (Int × List Char)) (p : Sender) :
    Prop :=
  ∀ source, sources[i]? = some source → Carries source messages p

/-! ## The invariant -/

structure Inv (qbytes : Nat) (sources : List Source) (msgtyps : List Int) (s : System) : Prop where
  kept : s.post.Kept mtype
  room : cbytes s.post.queue ≤ qbytes ∧ s.post.queue.length ≤ qbytes
  many : s.senders.length = sources.length
  receivers : s.receivers = msgtyps
  carried : Post.Told (CarriesOf sources) s.post.sent s.senders

theorem cbytes_append (xs ys : List Message) : cbytes (xs ++ ys) = cbytes xs + cbytes ys := by
  rw [cbytes, List.map_append, List.sum_append]
  rfl

theorem cbytes_receive {p q : Post Nat Message} {r : Nat} {m : Message}
    (receive : p.Receive mtype r m q) : cbytes q.queue ≤ cbytes p.queue := by
  cases receive with
  | take before after front first =>
      have one : cbytes (m :: after) = m.2.2.length + cbytes after := List.sum_cons
      rw [front, cbytes_append, cbytes_append, one]
      omega

variable {qbytes : Nat} {sources : List Source} {msgtyps : List Int} {s : System}

theorem Inv.step (inv : Inv qbytes sources msgtyps s) {t : System} (step : Step qbytes s t) :
    Inv qbytes sources msgtyps t := by
  cases step with
  | send i loop t m here next sent fits =>
      refine ⟨inv.kept.send (i, m), ?_, List.length_set.trans inv.many, inv.receivers,
        inv.carried.send here fun carries source from' => (carries source from').next next sent⟩
      rw [Post.queue_send, cbytes_append, List.length_append, List.length_singleton, Nat.add_comm]
      exact fits
  | refuse i loop t u m here next sent full leave =>
      exact { inv with
        many := List.length_set.trans inv.many
        carried := inv.carried.quiet here fun carries source from' =>
          (carries source from').refuse next leave }
  | leave i loop t here leave =>
      exact { inv with
        many := List.length_set.trans inv.many
        carried := inv.carried.quiet here fun carries source from' =>
          (carries source from').leave leave }
  | receive r msgtyp m post here wanted allowed received =>
      have fewer := received.length_queue
      exact { inv with
        kept := inv.kept.receive received
        room := ⟨le_trans (cbytes_receive received) inv.room.1,
          le_trans (Nat.le_of_succ_le fewer.le) inv.room.2⟩
        carried := received.sent_eq ▸ inv.carried }

theorem inv_of_reachable (reached : (machine qbytes sources msgtyps).Reachable s) :
    Inv qbytes sources msgtyps s := by
  apply reached.invariant (P := Inv qbytes sources msgtyps)
  · rintro s rfl
    refine ⟨Post.kept_empty, ⟨Nat.zero_le _, Nat.zero_le _⟩, List.length_map .., rfl, ?_⟩
    intro i p there source from'
    rw [List.getElem?_map, from'] at there
    cases there
    have starts := LineTransport.starts_sysvMsg source.rbuf source.mtext source.file
    exact ⟨rfl, rfl, fun _ => ⟨starts.carries, rfl⟩, nofun, List.nil_prefix⟩
  · exact fun s t _ inv step => inv.step step

/-- **Order by type.**  The messages of each type are received in the order in which they were
sent; with those in the queue the messages received are the messages sent.  The k-th of a sender has
the type k and as its text the k-th piece of the file without its last character; where its lines
are short, that is the k-th line without its newline. -/
theorem typed_of_reachable (qbytes : Nat) (sources : List Source) (msgtyps : List Int) (s : System)
    (reached : (machine qbytes sources msgtyps).Reachable s) :
    (∀ k, Post.of mtype k s.post.arrived ++ Post.of mtype k s.post.queue =
        Post.of mtype k s.post.sent) ∧
      (s.post.arrived ++ s.post.queue).Perm s.post.sent ∧ cbytes s.post.queue ≤ qbytes ∧
      ∀ (i : Nat) (source : Source) (p : Sender), sources[i]? = some source →
        s.senders[i]? = some p →
        (Post.contents (s.post.arrived ++ s.post.queue) i).Perm p.loop.sent ∧
          p.loop.sent <+: numbered (textsOf 511 source.file.content) ∧
          ∀ lines, LinesOf 511 source.file.content lines → p.loop.sent <+: numbered lines := by
  have inv := inv_of_reachable reached
  refine ⟨fun k => ?_, inv.kept.perm, inv.room.1, fun i source p from' here => ?_⟩
  · rw [← Post.of_append]
    exact inv.kept k
  · have carries := inv.carried i p here source from'
    refine ⟨?_, carries.sent_prefix, fun lines linesOf => ?_⟩
    · rw [← carries.messages_eq]
      exact (inv.kept.perm.filter _).map _
    · rw [← LineTransport.textsOf_of_linesOf linesOf]
      exact carries.sent_prefix

/-- A file of one line. -/
def oneLine : Source :=
  ⟨LineTransport.oneLine, Vector.replicate _ nul, Vector.replicate _ nul⟩

/-- The line is sent as a message of type 1 and received by a receiver of types up to 3. -/
theorem typed_oneLine :
    ∃ s p, (machine 16384 [oneLine] [-3]).Reachable s ∧ s.senders[0]? = some p ∧
      s.post.arrived = [(0, 1, ['a'])] ∧
      (Post.contents (s.post.arrived ++ s.post.queue) 0).Perm p.loop.sent ∧
      p.loop.sent <+: [(1, ['a'])] := by
  have start : (machine 16384 [oneLine] [-3]).Reachable _ := .of_init rfl
  obtain ⟨t, next, -, -, texts⟩ :=
    LineTransport.SysvMsg.turn_sends
      (LineTransport.SysvMsg.start oneLine.rbuf oneLine.mtext oneLine.file)
      ⟨oneLine.rbuf.length_toList, oneLine.mtext.length_toList⟩ rfl (by decide) (by decide)
  obtain ⟨-, text, sent⟩ := number_of_next next
  have only : text = ['a'] := by
    rw [sent] at texts
    exact List.singleton_inj.mp texts
  subst only
  have came := start.tail (.send _ 0 _ t _ rfl next sent ⟨by decide, by decide⟩)
  have got := came.tail
    (.receive _ 0 (-3) (0, 1, ['a']) _ rfl (by decide)
      ⟨nofun, fun _ b among => by cases List.mem_singleton.mp among; exact le_rfl⟩
      (Post.receive_head rfl))
  have typed := (typed_of_reachable _ _ _ _ got).2.2.2 0 oneLine _ rfl rfl
  exact ⟨_, _, got, rfl, rfl, typed.1, typed.2.2 [['a']] ⟨rfl, by decide⟩⟩

/-! ## Every run ends -/

/-- What is left to do for a sender. -/
def Sender.left (p : Sender) : Nat :=
  match p.stage with
  | .running => 1 + 2 * p.loop.fpSrcfile.rest.length
  | .finished | .refused => 0

/-- What is left to do. -/
def System.left (s : System) : Nat := total Sender.left s.senders + s.post.queue.length

theorem exists_source (inv : Inv qbytes sources msgtyps s) {i : Nat} {p : Sender}
    (here : s.senders[i]? = some p) :
    ∃ source, Carries source (Post.contents s.post.sent i) p := by
  have inside : i < sources.length := inv.many ▸ (List.getElem?_eq_some_iff.mp here).1
  have from' : sources[i]? = some sources[i] := List.getElem?_eq_getElem inside
  exact ⟨_, inv.carried i p here _ from'⟩

theorem descends (qbytes : Nat) (sources : List Source) (msgtyps : List Int) :
    (machine qbytes sources msgtyps).Descends System.left := by
  intro s t reached step
  have inv := inv_of_reachable reached
  cases step with
  | send i loop t m here next sent fits =>
      obtain ⟨source, carries⟩ := exists_source inv here
      have less : t.fpSrcfile.rest.length < loop.fpSrcfile.rest.length :=
        ((carries.running rfl).1.of_next next).2
      have balance := total_set Sender.left ⟨t, .running⟩ here
      have before : (⟨loop, .running⟩ : Sender).left = 1 + 2 * loop.fpSrcfile.rest.length := rfl
      have behind : (⟨t, .running⟩ : Sender).left = 1 + 2 * t.fpSrcfile.rest.length := rfl
      simp only [System.left, Post.queue_send, List.length_append, List.length_singleton]
      omega
  | refuse i loop t u m here next sent full leave =>
      have balance := total_set Sender.left ⟨t, .refused⟩ here
      have before : (⟨loop, .running⟩ : Sender).left = 1 + 2 * loop.fpSrcfile.rest.length := rfl
      have behind : (⟨t, .refused⟩ : Sender).left = 0 := rfl
      simp only [System.left]
      omega
  | leave i loop t here leave =>
      have balance := total_set Sender.left ⟨t, .finished⟩ here
      have before : (⟨loop, .running⟩ : Sender).left = 1 + 2 * loop.fpSrcfile.rest.length := rfl
      have behind : (⟨t, .finished⟩ : Sender).left = 0 := rfl
      simp only [System.left]
      omega
  | receive r msgtyp m post here wanted allowed received =>
      have fewer := received.length_queue
      simp only [System.left]
      omega

/-- Where the queue has a message of a type asked for, `msgrcv` returns. -/
theorem exists_msgrcv {msgtyp : Int} {m : Message} (r : Nat) (member : m ∈ s.post.queue)
    (wanted : Wanted msgtyp m) :
    ∃ b post, Wanted msgtyp b ∧ Allowed msgtyp s.post.queue b ∧ s.post.Receive mtype r b post := by
  rcases wanted with rfl | ⟨positive, same⟩ | ⟨negative, below⟩
  · obtain ⟨b, rest, front⟩ := List.exists_cons_of_ne_nil (List.ne_nil_of_mem member)
    refine ⟨b, _, .inl rfl, ⟨fun _ => ?_, nofun⟩, Post.receive_head front⟩
    rw [front]
    rfl
  · obtain ⟨b, post, key, -, received⟩ := Post.exists_receive mtype r member
    exact ⟨b, post, .inr (.inl ⟨positive, key.trans same⟩), ⟨by omega, by omega⟩, received⟩
  · -- The first message of the lowest type.
    obtain ⟨lowest, isLowest⟩ : ∃ a, s.post.queue.argmin mtype = some a :=
      Option.ne_none_iff_exists'.mp fun none =>
        List.ne_nil_of_mem member (List.argmin_eq_none.mp none)
    have least (b : Message) (among : b ∈ s.post.queue) : mtype lowest ≤ mtype b :=
      List.le_of_mem_argmin among isLowest
    obtain ⟨b, post, key, -, received⟩ :=
      Post.exists_receive mtype r (List.argmin_mem isLowest)
    refine ⟨b, post, .inr (.inr ⟨negative, ?_⟩), ⟨by omega, fun _ c among => ?_⟩, received⟩
    · rw [key]
      exact le_trans (least m member) below
    · rw [key]
      exact least c among

/-- No sender is at work and no receiver finds a message. -/
structure Settled (sources : List Source) (s : System) : Prop where
  ended : ∀ p ∈ s.senders, p.stage ≠ .running
  unwanted : ∀ msgtyp ∈ s.receivers, ∀ m ∈ s.post.queue, ¬ Wanted msgtyp m
  perm : (s.post.arrived ++ s.post.queue).Perm s.post.sent
  /-- A sender to which `msgsnd` has not failed has sent a message for each piece of its file. -/
  finished : ∀ (i : Nat) (source : Source) (p : Sender), sources[i]? = some source →
    s.senders[i]? = some p → p.stage = .finished →
    Post.contents s.post.sent i = numbered (textsOf 511 source.file.content)
  /-- These are its file without the newlines exactly if its lines are short. -/
  lossless : ∀ (i : Nat) (source : Source) (p : Sender), sources[i]? = some source →
    s.senders[i]? = some p → p.stage = .finished →
    (((Post.contents s.post.sent i).map Prod.snd).flatten = strip source.file.content ↔
      Lined 511 source.file.content)

/-- **The end of a run.**  Every run ends with the senders at their ends and no message in the queue
that a receiver asks for.  A sender to which `msgsnd` has not failed has sent its file without the
newlines exactly if each line, the last one too, ends with a newline among its first 511
characters. -/
theorem sysvMsg_terminates (qbytes : Nat) (sources : List Source) (msgtyps : List Int) :
    (machine qbytes sources msgtyps).Terminates (Settled sources) := by
  refine Machine.terminates_of_descends (descends qbytes sources msgtyps) fun s reached stuck => ?_
  have inv := inv_of_reachable reached
  refine ⟨?_, ?_, inv.kept.perm, ?_, ?_⟩
  · rintro ⟨loop, stage⟩ member running
    cases running
    obtain ⟨i, here⟩ := List.mem_iff_getElem?.mp member
    obtain ⟨source, carries⟩ := exists_source inv here
    rcases (carries.running rfl).1.turn_cases with ⟨t, text, next, -⟩ | ⟨t, leave, -⟩
    · obtain ⟨-, text, sent⟩ := number_of_next next
      by_cases fits : Fits qbytes s.post.queue text
      · exact stuck _ (.send s i loop t _ here next sent fits)
      · obtain ⟨u, leave, -⟩ := exists_leave next
        exact stuck _ (.refuse s i loop u t _ here next sent fits leave)
    · exact stuck _ (.leave s i loop t here leave)
  · intro msgtyp member m among wanted
    obtain ⟨r, here⟩ := List.mem_iff_getElem?.mp member
    obtain ⟨b, post, wanted', allowed, received⟩ := exists_msgrcv r among wanted
    exact stuck _ (.receive s r msgtyp b post here wanted' allowed received)
  · intro i source p from' here finished
    have carries := inv.carried i p here source from'
    rw [carries.messages_eq, carries.sent_eq, (carries.finished finished).1]
  · intro i source p from' here finished
    have carries := inv.carried i p here source from'
    rw [carries.messages_eq]
    exact (carries.finished finished).2

end Alnp.SysvTransport
