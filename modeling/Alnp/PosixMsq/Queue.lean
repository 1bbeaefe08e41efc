import Alnp.Lib.Post
import Alnp.Lib.Progress
import Alnp.LineTransport.Senders

/-!
# The POSIX message queue

Any number of senders and receivers of `Chapter05/posix_msq.c` and `Chapter05/posix_msq_sigev.c`
have opened the queue "/my_mq", which holds at most ten messages.  Senders are the same in both
programs: they send the lines of a file, and wait while the queue is full.  Receivers of
`posix_msq_sigev.c` ask for a signal with the number of their turn before each `mq_receive`
(`mq_notify`).  The queue has room for one such request; it is used up by the next message that
comes to the empty queue while nobody waits in `mq_receive`, and its signal is handled at any time
after that.

The files hold no zero byte: `mq_send` is never asked for a message of -1 characters.

* `delivered_of_reachable`: first in, first out, for the queue and for each sender, whose messages
  are the pieces of its file, or its lines if they are short.
* `notified_of_reachable`: every request granted is reported once and in order, or still stands.
* `posixMsq_terminates`: with a receiver every run ends with all messages received; what has come
  from a sender is its file without the newlines exactly if each line, the last one too, ends with a
  newline among its first 511 characters.
-/

namespace Alnp.PosixMsq

open LineTransport (strip posixMsq textsOf)

/-- `mq_attrib.mq_maxmsg` -/
def mqMaxmsg : Nat := 10

/-- A message: who has sent it, and its text. -/
abbrev Message := Nat × List Char

/-- A process in `start_msq_sender`. -/
structure Sender where
  loop : LineTransport.PosixMsq.Sender
  ended : Bool

/-- Where a receiver is in its loop. -/
inductive At
  /-- at `mq_notify` -/
  | notify
  /-- at `mq_receive` -/
  | receive
  /-- blocked there -/
  | waiting
deriving DecidableEq

/-- A process in `start_msq_receiver`. -/
structure Receiver where
  /-- The program is `posix_msq_sigev.c`. -/
  sigev : Bool
  i : Nat
  pc : At

/-- The head of the loop. -/
def head (sigev : Bool) : At := if sigev then .notify else .receive

/-- Behind `mq_receive`. -/
def Receiver.again (w : Receiver) : Receiver := { w with pc := head w.sigev }

structure System where
  senders : List Sender
  receivers : List Receiver
  post : Post Nat Message
  /-- The request that stands: whose it is, and its `sival_int`. -/
  request : Option (Nat × Nat)
  /-- The requests granted so far. -/
  granted : List (Nat × Nat)
  /-- The signals, each with its receiver and its `si_value`; received where `chk_rt` has run. -/
  signals : Post Nat (Nat × Nat)

/-- A message comes to the queue: the request is used up if the queue has been empty. -/
def System.enqueue (s : System) (m : Message) : System :=
  match s.post.queue, s.request with
  | [], some r => { s with post := s.post.send m, request := none, signals := s.signals.send r }
  | _, _ => { s with post := s.post.send m }

inductive Step : System → System → Prop
  /-- `mq_send` with a receiver that waits, which returns from `mq_receive`. -/
  | hand (s : System) (i r : Nat) (loop t : LineTransport.PosixMsq.Sender) (text : List Char)
      (w : Receiver) :
      s.senders[i]? = some ⟨loop, false⟩ → LineTransport.PosixMsq.turn true loop = .next t →
      t.sent = loop.sent ++ [text] →
      s.receivers[r]? = some w → w.pc = .waiting →
      Step s
        { s with
          senders := s.senders.set i ⟨t, false⟩
          receivers := s.receivers.set r w.again
          post := s.post.hand r (i, text) }
  /-- `mq_send` while nobody waits; it blocks as long as the queue is full. -/
  | send (s : System) (i : Nat) (loop t : LineTransport.PosixMsq.Sender) (text : List Char) :
      s.senders[i]? = some ⟨loop, false⟩ → LineTransport.PosixMsq.turn true loop = .next t →
      t.sent = loop.sent ++ [text] →
      (∀ w ∈ s.receivers, w.pc ≠ .waiting) → s.post.queue.length < mqMaxmsg →
      Step s { s.enqueue (i, text) with senders := s.senders.set i ⟨t, false⟩ }
  /-- The end of the file. -/
  | leave (s : System) (i : Nat) (loop t : LineTransport.PosixMsq.Sender) :
      s.senders[i]? = some ⟨loop, false⟩ → LineTransport.PosixMsq.turn true loop = .leave t →
      Step s { s with senders := s.senders.set i ⟨t, true⟩ }
  /-- `mq_notify` with the number of this turn. -/
  | notify (s : System) (r : Nat) (w : Receiver) :
      s.receivers[r]? = some w → w.pc = .notify → s.request = none →
      Step s
        { s with
          receivers := s.receivers.set r { w with i := w.i + 1, pc := .receive }
          request := some (r, w.i + 1)
          granted := s.granted ++ [(r, w.i + 1)] }
  /-- `mq_notify` fails with `EBUSY`, and the loop goes on. -/
  | busy (s : System) (r : Nat) (w : Receiver) :
      s.receivers[r]? = some w → w.pc = .notify → s.request ≠ none →
      Step s { s with receivers := s.receivers.set r { w with i := w.i + 1, pc := .receive } }
  | receive (s : System) (r : Nat) (w : Receiver) (m : Message) (post : Post Nat Message) :
      s.receivers[r]? = some w → w.pc = .receive →
      s.post.Receive (fun _ => ()) r m post →
      Step s { s with receivers := s.receivers.set r w.again, post := post }
  | wait (s : System) (r : Nat) (w : Receiver) :
      s.receivers[r]? = some w → w.pc = .receive → s.post.queue = [] →
      Step s { s with receivers := s.receivers.set r { w with pc := .waiting } }
  /-- `chk_rt` runs.  With `SA_RESTART` an `mq_receive` that it has interrupted begins again. -/
  | chkRt (s : System) (r v : Nat) (w : Receiver) (signals : Post Nat (Nat × Nat)) :
      s.receivers[r]? = some w → s.signals.Receive Prod.fst r (r, v) signals →
      Step s
        { s with
          receivers :=
            s.receivers.set r { w with pc := if w.pc = .waiting then .receive else w.pc }
          signals := signals }

/-- A file without zero bytes, and what the buffer of its sender holds at the start. -/
structure Source where
  file : TextFile
  rbuf : Vector Char LineTransport.PosixMsq.lenRbuf

/-- Senders of these files and receivers of these programs, with a queue that has been made. -/
def machine (sources : List Source) (sigevs : List Bool) : Machine System where
  init s := s =
    ⟨sources.map fun source => ⟨LineTransport.PosixMsq.start source.rbuf source.file, false⟩,
      sigevs.map fun sigev => ⟨sigev, 0, head sigev⟩, .empty, none, [], .empty⟩
  step := Step

/-! ## The senders -/

variable {loop t : LineTransport.PosixMsq.Sender}

/-- A sender has sent what it has read of its file. -/
structure Carries (source : Source) (texts : List (List Char)) (p : Sender) : Prop where
  texts_eq : texts = p.loop.sent
  running : p.ended = false → posixMsq.Carries source.file.content p.loop
  done : p.ended = true → p.loop.sent = textsOf 511 source.file.content ∧
    (p.loop.sent.flatten = strip source.file.content ↔ Lined 511 source.file.content)

theorem Carries.next {source : Source} {texts : List (List Char)} {text : List Char}
    (carries : Carries source texts ⟨loop, false⟩)
    (next : LineTransport.PosixMsq.turn true loop = .next t) (sent : t.sent = loop.sent ++ [text]) :
    Carries source (texts ++ [text]) ⟨t, false⟩ := by
  refine ⟨?_, fun _ => ((carries.running rfl).of_next next).1, nofun⟩
  rw [carries.texts_eq]
  exact sent.symm

theorem Carries.leave {source : Source} {texts : List (List Char)}
    (carries : Carries source texts ⟨loop, false⟩)
    (leave : LineTransport.PosixMsq.turn true loop = .leave t) :
    Carries source texts ⟨t, true⟩ := by
  obtain ⟨same, sent, done⟩ := (carries.running rfl).of_leave leave
  refine ⟨?_, nofun, fun _ => ?_⟩
  · rw [carries.texts_eq]
    exact same.symm
  · rw [show (⟨t, true⟩ : Sender).loop.sent = loop.sent from same]
    exact ⟨sent, done⟩

/-- A sender with the file at its index. -/
def CarriesOf (sources : List Source) (i : Nat) (texts : List (List Char)) (p : Sender) : Prop :=
  ∀ source, sources[i]? = some source → Carries source texts p

/-! ## The invariant -/

structure Inv (sources : List Source) (s : System) : Prop where
  kept : s.post.Kept fun _ => ()
  room : s.post.queue.length ≤ mqMaxmsg
  /-- Somebody waits only at an empty queue. -/
  idle : ∀ w ∈ s.receivers, w.pc = .waiting → s.post.queue = []
  many : s.senders.length = sources.length
  carried : Post.Told (CarriesOf sources) s.post.sent s.senders
  reported : s.signals.Kept Prod.fst
  /-- A request granted has been used up or is the one that stands. -/
  granted : s.granted = s.signals.sent ++ s.request.toList
  /-- Requests are granted in different turns. -/
  rising : ∀ r : Nat, ((Post.of Prod.fst r s.granted).map Prod.snd).Pairwise (· < ·)
  turns : ∀ g ∈ s.granted, ∃ w, s.receivers[g.1]? = some w ∧ g.2 ≤ w.i

/-- What the rest of the invariant says of the receivers is left as it is by a change of one. -/
theorem turns_set {receivers : List Receiver} {granted : List (Nat × Nat)} {r : Nat}
    {w w' : Receiver} (turns : ∀ g ∈ granted, ∃ w, receivers[g.1]? = some w ∧ g.2 ≤ w.i)
    (here : receivers[r]? = some w) (le : w.i ≤ w'.i) :
    ∀ g ∈ granted, ∃ w, (receivers.set r w')[g.1]? = some w ∧ g.2 ≤ w.i := by
  intro g member
  obtain ⟨v, there, before⟩ := turns g member
  by_cases same : r = g.1
  · subst same
    cases here.symm.trans there
    exact ⟨w', List.getElem?_set_self (List.getElem?_eq_some_iff.mp here).1, le_trans before le⟩
  · exact ⟨v, (List.getElem?_set_ne same).trans there, before⟩

theorem idle_set {receivers : List Receiver} {queue : List Message} {r : Nat} {w' : Receiver}
    (idle : ∀ w ∈ receivers, w.pc = .waiting → queue = []) (fine : w'.pc = .waiting → queue = []) :
    ∀ w ∈ receivers.set r w', w.pc = .waiting → queue = [] := by
  intro w member
  rcases List.mem_or_eq_of_mem_set member with old | rfl
  · exact idle w old
  · exact fine

theorem again_pc (w : Receiver) : w.again.pc ≠ .waiting := by
  unfold Receiver.again head
  split <;> nofun

/-- What becomes of a message that goes to the queue. -/
theorem enqueue_cases (s : System) (m : Message) :
    (∃ r, s.post.queue = [] ∧ s.request = some r ∧
      s.enqueue m = { s with
        post := s.post.send m, request := none, signals := s.signals.send r }) ∨
    (s.post.queue ≠ [] ∨ s.request = none) ∧ s.enqueue m = { s with post := s.post.send m } := by
  unfold System.enqueue
  split
  · next r none some => exact .inl ⟨r, none, some, rfl⟩
  · next other =>
      refine .inr ⟨?_, rfl⟩
      by_contra both
      obtain ⟨none, some⟩ := not_or.mp both
      obtain ⟨r, is⟩ := Option.ne_none_iff_exists'.mp some
      exact other r (not_not.mp none) is

variable {sources : List Source} {sigevs : List Bool} {s : System}

theorem Inv.enqueue (inv : Inv sources s) {m : Message} {senders : List Sender}
    (alone : ∀ w ∈ s.receivers, w.pc ≠ .waiting) (less : s.post.queue.length < mqMaxmsg)
    (many : senders.length = sources.length)
    (carried : Post.Told (CarriesOf sources) (s.post.sent ++ [m]) senders) :
    Inv sources { s.enqueue m with senders := senders } := by
  have kept := inv.kept.send m
  have room : (s.post.send m).queue.length ≤ mqMaxmsg := by
    rw [Post.queue_send, List.length_append, List.length_singleton]
    exact less
  have idle : ∀ w ∈ s.receivers, w.pc = .waiting → (s.post.send m).queue = [] :=
    fun w member waiting => absurd waiting (alone w member)
  rcases enqueue_cases s m with ⟨r, -, some, eq⟩ | ⟨-, eq⟩
  · rw [eq]
    refine ⟨kept, room, idle, many, carried, inv.reported.send r, ?_, inv.rising, inv.turns⟩
    -- The request is used up and its signal has been sent.
    have granted := inv.granted
    rw [some] at granted
    exact granted.trans (List.append_nil _).symm
  · rw [eq]
    exact ⟨kept, room, idle, many, carried, inv.reported, inv.granted, inv.rising, inv.turns⟩

theorem Inv.hand (inv : Inv sources s) {m : Message} {senders : List Sender} {r : Nat}
    {w : Receiver} (there : s.receivers[r]? = some w) (waiting : w.pc = .waiting)
    (many : senders.length = sources.length)
    (carried : Post.Told (CarriesOf sources) (s.post.sent ++ [m]) senders) :
    Inv sources { s with
      senders := senders, receivers := s.receivers.set r w.again, post := s.post.hand r m } := by
  have empty := inv.idle w (List.mem_of_getElem? there) waiting
  refine ⟨inv.kept.hand ?_, inv.room, ?_, many, carried, inv.reported, inv.granted, inv.rising,
    turns_set inv.turns there le_rfl⟩
  · rw [empty]
    nofun
  · exact idle_set inv.idle fun again => absurd again (again_pc w)

theorem Inv.notify (inv : Inv sources s) {r : Nat} {w : Receiver}
    (there : s.receivers[r]? = some w) (free : s.request = none) :
    Inv sources { s with
      receivers := s.receivers.set r { w with i := w.i + 1, pc := .receive }
      request := some (r, w.i + 1)
      granted := s.granted ++ [(r, w.i + 1)] } := by
  refine ⟨inv.kept, inv.room, ?_, inv.many, inv.carried, inv.reported, ?_, ?_, ?_⟩
  · exact idle_set inv.idle nofun
  · have granted := inv.granted
    rw [free] at granted
    rw [granted]
    simp
  · intro r'
    rw [Post.of_append, List.map_append]
    by_cases same : r = r'
    · subst same
      rw [show r = Prod.fst (r, w.i + 1) from rfl, Post.of_singleton_self]
      refine List.pairwise_append.mpr ⟨inv.rising r, List.pairwise_singleton _ _, ?_⟩
      intro v old v' new
      cases List.mem_singleton.mp new
      obtain ⟨g, among, rfl⟩ := List.mem_map.mp old
      obtain ⟨member, whose⟩ := List.mem_filter.mp among
      obtain ⟨w', here, before⟩ := inv.turns g member
      rw [of_decide_eq_true whose] at here
      cases there.symm.trans here
      exact Nat.lt_succ_of_le before
    · rw [Post.of_singleton_of_ne same, List.map_nil, List.append_nil]
      exact inv.rising r'
  · intro g member
    rcases List.mem_append.mp member with old | new
    · exact turns_set inv.turns there (Nat.le_succ _) g old
    · cases List.mem_singleton.mp new
      exact ⟨_, List.getElem?_set_self (List.getElem?_eq_some_iff.mp there).1, le_rfl⟩

theorem Inv.step (inv : Inv sources s) {t : System} (step : Step s t) : Inv sources t := by
  cases step with
  | hand i r loop t text w here next texts there waiting =>
      exact inv.hand there waiting (List.length_set.trans inv.many)
        (inv.carried.send here fun carries source from' =>
          (carries source from').next next texts)
  | send i loop t text here next texts alone less =>
      exact inv.enqueue alone less (List.length_set.trans inv.many)
        (inv.carried.send here fun carries source from' =>
          (carries source from').next next texts)
  | leave i loop t here leave =>
      exact { inv with
        many := List.length_set.trans inv.many
        carried := inv.carried.quiet here fun carries source from' =>
          (carries source from').leave leave }
  | notify r w there _ free => exact inv.notify there free
  | busy r w there _ _ =>
      exact { inv with
        idle := idle_set inv.idle nofun, turns := turns_set inv.turns there (Nat.le_succ _) }
  | receive r w m post there _ received =>
      have fewer := received.length_queue
      refine { inv with
        kept := inv.kept.receive received
        room := le_trans (Nat.le_of_succ_le fewer.le) inv.room
        idle := ?_
        carried := received.sent_eq ▸ inv.carried
        turns := turns_set inv.turns there le_rfl }
      refine idle_set (fun v member waiting => ?_) fun again => absurd again (again_pc w)
      rw [inv.idle v member waiting] at fewer
      cases fewer
  | wait r w there _ empty =>
      exact { inv with
        idle := idle_set inv.idle fun _ => empty, turns := turns_set inv.turns there le_rfl }
  | chkRt r v w signals there handled =>
      refine { inv with
        idle := idle_set inv.idle fun waiting => ?_
        reported := inv.reported.receive handled
        granted := handled.sent_eq ▸ inv.granted
        turns := turns_set inv.turns there le_rfl }
      dsimp only at waiting
      split at waiting
      · cases waiting
      · next not => exact absurd waiting not

theorem inv_of_reachable (reached : (machine sources sigevs).Reachable s) : Inv sources s := by
  apply reached.invariant (P := Inv sources)
  · rintro s rfl
    refine ⟨Post.kept_empty, Nat.zero_le _, fun _ _ _ => rfl, List.length_map .., ?_,
      Post.kept_empty, rfl, fun _ => .nil, nofun⟩
    intro i p there source from'
    rw [List.getElem?_map, from'] at there
    cases there
    exact ⟨rfl, fun _ => (LineTransport.starts_posixMsq source.rbuf source.file).carries, nofun⟩
  · exact fun s t _ inv step => inv.step step

/-! ## The results -/

/-- What a sender has not read of its file. -/
def Sender.unread (p : Sender) : List Char := if p.ended then [] else p.loop.fpSrcfile.rest

variable {source : Source} {texts : List (List Char)} {p : Sender}

/-- The messages sent are those for the file, up to what has not been read. -/
theorem Carries.sent (carries : Carries source texts p) :
    p.loop.sent ++ textsOf 511 p.unread = textsOf 511 source.file.content := by
  obtain ⟨-, running, done⟩ := carries
  unfold Sender.unread
  cases ended : p.ended with
  | true =>
      rw [if_pos rfl, LineTransport.textsOf_nil, List.append_nil]
      exact (done ended).1
  | false => exact (running ended).sent

/-- Short lines are sent one by one. -/
theorem Carries.lines (carries : Carries source texts p) {lines : List (List Char)}
    (linesOf : LinesOf 511 source.file.content lines) : p.loop.sent <+: lines := by
  rw [← LineTransport.textsOf_of_linesOf linesOf, ← carries.sent]
  exact List.prefix_append _ _

theorem Carries.flatten (carries : Carries source texts p)
    (lined : Lined 511 source.file.content) :
    texts.flatten ++ strip p.unread = strip source.file.content := by
  obtain ⟨rfl, running, done⟩ := carries
  unfold Sender.unread
  cases ended : p.ended with
  | true => exact (List.append_nil _).trans ((done ended).2.mpr lined)
  | false =>
      rcases (running ended).accounts with ⟨same, -⟩ | ⟨-, long⟩
      · exact same
      · exact absurd lined long

/-- A file of one line. -/
def oneLine : Source := ⟨LineTransport.oneLine, Vector.replicate _ nul⟩

/-- The receiver asks for a signal, the line comes to the empty queue, and the signal and then the
line are received. -/
theorem exists_run_oneLine :
    ∃ s : System, (machine [oneLine] [true]).Reachable s ∧ (∃ p, s.senders[0]? = some p) ∧
      s.post.arrived = [(0, ['a'])] ∧ s.post.queue = [] ∧ s.signals.arrived = [(0, 1)] ∧
      s.granted = [(0, 1)] := by
  have start : (machine [oneLine] [true]).Reachable _ := .of_init rfl
  have asked := start.tail (.notify _ 0 _ rfl rfl rfl)
  obtain ⟨t, next, -, -, sent⟩ :=
    LineTransport.PosixMsq.turn_sends (LineTransport.PosixMsq.start oneLine.rbuf oneLine.file)
      oneLine.rbuf.length_toList rfl (by decide) (by decide)
  have came := asked.tail
    (.send _ 0 _ t _ rfl next sent (fun w member => by cases List.mem_singleton.mp member; nofun)
      (by decide))
  have handled := came.tail (.chkRt _ 0 1 _ _ rfl (Post.receive_head rfl))
  have got := handled.tail (.receive _ 0 _ _ _ rfl rfl (Post.receive_head rfl))
  exact ⟨_, got, ⟨_, rfl⟩, rfl, rfl, rfl, rfl⟩

/-- **First in, first out.**  The messages received and then those in the queue are the messages
sent, also those of each sender by themselves.  With those for what it has not read they are the
pieces of its file, each without its last character; and where its lines are short, message by
message, they are its lines without the newlines. -/
theorem delivered_of_reachable (sources : List Source) (sigevs : List Bool) (s : System)
    (reached : (machine sources sigevs).Reachable s) :
    s.post.arrived ++ s.post.queue = s.post.sent ∧ s.post.queue.length ≤ mqMaxmsg ∧
      ∀ (i : Nat) (source : Source) (p : Sender), sources[i]? = some source →
        s.senders[i]? = some p →
        Post.contents s.post.arrived i ++ Post.contents s.post.queue i = p.loop.sent ∧
          p.loop.sent ++ textsOf 511 p.unread = textsOf 511 source.file.content ∧
          (∀ lines, LinesOf 511 source.file.content lines → p.loop.sent <+: lines) ∧
          (Lined 511 source.file.content →
            (Post.contents s.post.arrived i).flatten ++ (Post.contents s.post.queue i).flatten ++
              strip p.unread = strip source.file.content) := by
  have inv := inv_of_reachable reached
  have fifo := inv.kept.fifo
  refine ⟨fifo, inv.room, fun i source p from' here => ?_⟩
  have carries := inv.carried i p here source from'
  rw [← fifo, Post.contents_append] at carries
  refine ⟨carries.texts_eq, carries.sent, fun lines => carries.lines, fun lined => ?_⟩
  rw [← List.flatten_append]
  exact carries.flatten lined

theorem delivered_oneLine :
    ∃ s p, (machine [oneLine] [true]).Reachable s ∧ s.senders[0]? = some p ∧
      Post.contents s.post.arrived 0 = [['a']] ∧
      Post.contents s.post.arrived 0 ++ Post.contents s.post.queue 0 = p.loop.sent ∧
      p.loop.sent <+: [['a']] := by
  obtain ⟨s, reached, ⟨p, here⟩, arrived, -⟩ := exists_run_oneLine
  have delivered := (delivered_of_reachable [oneLine] [true] s reached).2.2 0 oneLine p rfl here
  exact ⟨s, p, reached, here, arrived ▸ rfl, delivered.1,
    delivered.2.2.1 [['a']] ⟨rfl, by decide⟩⟩

/-- What is left to do for a sender. -/
def Sender.left (p : Sender) : Nat := if p.ended then 0 else 1 + 5 * p.loop.fpSrcfile.rest.length

/-- How many steps a receiver is from waiting. -/
def Receiver.left (w : Receiver) : Nat :=
  match w.pc with
  | .notify => 2
  | .receive => 1
  | .waiting => 0

theorem again_left (w : Receiver) : w.again.left ≤ 2 := by
  unfold Receiver.again Receiver.left head
  split <;> omega

/-- What is left to do; a message in the queue and a signal under way count for two. -/
def System.left (s : System) : Nat :=
  total Sender.left s.senders + 2 * s.post.queue.length + total Receiver.left s.receivers +
    2 * s.signals.queue.length

theorem enqueue_left (s : System) (m : Message) :
    ({ s.enqueue m with senders := s.senders } : System).left ≤ s.left + 4 := by
  rcases enqueue_cases s m with ⟨r, -, -, eq⟩ | ⟨-, eq⟩
  · rw [eq]
    simp only [System.left, Post.queue_send, List.length_append, List.length_singleton]
    omega
  · rw [eq]
    simp only [System.left, Post.queue_send, List.length_append, List.length_singleton]
    omega

theorem exists_source (inv : Inv sources s) {i : Nat} {p : Sender}
    (here : s.senders[i]? = some p) :
    ∃ source, sources[i]? = some source ∧ Carries source (Post.contents s.post.sent i) p := by
  have inside : i < sources.length := inv.many ▸ (List.getElem?_eq_some_iff.mp here).1
  have from' : sources[i]? = some sources[i] := List.getElem?_eq_getElem inside
  exact ⟨_, from', inv.carried i p here _ from'⟩

theorem left_lt (inv : Inv sources s) {i : Nat} (here : s.senders[i]? = some ⟨loop, false⟩)
    (next : LineTransport.PosixMsq.turn true loop = .next t) :
    (⟨t, false⟩ : Sender).left + 5 ≤ (⟨loop, false⟩ : Sender).left := by
  obtain ⟨source, -, carries⟩ := exists_source inv here
  have less : t.fpSrcfile.rest.length < loop.fpSrcfile.rest.length :=
    ((carries.running rfl).of_next next).2
  change 1 + 5 * t.fpSrcfile.rest.length + 5 ≤ 1 + 5 * loop.fpSrcfile.rest.length
  omega

theorem descends (sources : List Source) (sigevs : List Bool) :
    (machine sources sigevs).Descends System.left := by
  intro s t reached step
  have inv := inv_of_reachable reached
  cases step with
  | hand i r loop t text w here next texts there waiting =>
      have less := left_lt inv here next
      have balance := total_set Sender.left ⟨t, false⟩ here
      have balance' := total_set Receiver.left w.again there
      have again := again_left w
      simp only [System.left, Post.queue_hand]
      omega
  | send i loop t text here next texts alone room =>
      have less := left_lt inv here next
      have balance := total_set Sender.left ⟨t, false⟩ here
      have more := enqueue_left s (i, text)
      simp only [System.left] at more ⊢
      omega
  | leave i loop t here leave =>
      have balance := total_set Sender.left ⟨t, true⟩ here
      have ended : (⟨t, true⟩ : Sender).left = 0 := rfl
      have running : (⟨loop, false⟩ : Sender).left = 1 + 5 * loop.fpSrcfile.rest.length := rfl
      simp only [System.left]
      omega
  | notify r w there notify free =>
      have balance := total_set Receiver.left { w with i := w.i + 1, pc := .receive } there
      have before : w.left = 2 := by rw [Receiver.left, notify]
      have behind : ({ w with i := w.i + 1, pc := .receive } : Receiver).left = 1 := rfl
      simp only [System.left]
      omega
  | busy r w there notify busy =>
      have balance := total_set Receiver.left { w with i := w.i + 1, pc := .receive } there
      have before : w.left = 2 := by rw [Receiver.left, notify]
      have behind : ({ w with i := w.i + 1, pc := .receive } : Receiver).left = 1 := rfl
      simp only [System.left]
      omega
  | receive r w m post there receive received =>
      have balance := total_set Receiver.left w.again there
      have before : w.left = 1 := by rw [Receiver.left, receive]
      have again := again_left w
      have fewer := received.length_queue
      simp only [System.left]
      omega
  | wait r w there receive empty =>
      have balance := total_set Receiver.left { w with pc := .waiting } there
      have before : w.left = 1 := by rw [Receiver.left, receive]
      have behind : ({ w with pc := .waiting } : Receiver).left = 0 := rfl
      simp only [System.left]
      omega
  | chkRt r v w signals there handled =>
      have balance := total_set Receiver.left
        { w with pc := if w.pc = .waiting then .receive else w.pc } there
      have behind :
          ({ w with pc := if w.pc = .waiting then .receive else w.pc } : Receiver).left ≤
            w.left + 1 := by
        cases pc : w.pc <;> simp [Receiver.left, pc]
      have fewer := handled.length_queue
      simp only [System.left]
      omega

/-- A sender whose turn it is can go on, unless the queue is full and nobody waits. -/
theorem sender_goes (inv : Inv sources s) {i : Nat} (here : s.senders[i]? = some ⟨loop, false⟩)
    (free : (∃ w ∈ s.receivers, w.pc = .waiting) ∨ s.post.queue.length < mqMaxmsg) :
    ∃ t, Step s t := by
  obtain ⟨source, -, carries⟩ := exists_source inv here
  rcases (carries.running rfl).turn_cases with ⟨t, text, next, texts, -⟩ | ⟨t, leave, -⟩
  · by_cases waits : ∃ w ∈ s.receivers, w.pc = .waiting
    · obtain ⟨w, member, waiting⟩ := waits
      obtain ⟨r, there⟩ := List.mem_iff_getElem?.mp member
      exact ⟨_, .hand s i r loop t text w here next texts there waiting⟩
    · have alone : ∀ w ∈ s.receivers, w.pc ≠ .waiting :=
        fun w member waiting => waits ⟨w, member, waiting⟩
      exact ⟨_, .send s i loop t text here next texts alone (free.resolve_left waits)⟩
  · exact ⟨_, .leave s i loop t here leave⟩

/-- A receiver can go on until it waits. -/
theorem receiver_goes {r : Nat} {w : Receiver} (there : s.receivers[r]? = some w)
    (working : w.pc ≠ .waiting) : ∃ t, Step s t := by
  cases pc : w.pc with
  | notify =>
      by_cases free : s.request = none
      · exact ⟨_, .notify s r w there pc free⟩
      · exact ⟨_, .busy s r w there pc free⟩
  | receive =>
      cases queue : s.post.queue with
      | nil => exact ⟨_, .wait s r w there pc queue⟩
      | cons m rest => exact ⟨_, .receive s r w m _ there pc (Post.receive_head queue)⟩
  | waiting => exact absurd pc working

/-- A signal under way can be handled. -/
theorem handler_goes (inv : Inv sources s) (some : s.signals.queue ≠ []) : ∃ t, Step s t := by
  obtain ⟨g, rest, queue⟩ := List.exists_cons_of_ne_nil some
  -- The request has been granted to a receiver that is there.
  have among : g ∈ Post.of Prod.fst g.1 s.signals.sent := by
    rw [← inv.reported g.1]
    refine List.mem_filter.mpr ⟨List.mem_append_right _ ?_, decide_eq_true rfl⟩
    rw [queue]
    exact List.mem_cons_self
  have granted : g ∈ s.granted := by
    rw [inv.granted]
    exact List.mem_append_left _ (List.mem_filter.mp among).1
  obtain ⟨w, there, -⟩ := inv.turns g granted
  exact ⟨_, .chkRt s g.1 g.2 w _ there (Post.receive_head queue)⟩

theorem length_receivers (reached : (machine sources sigevs).Reachable s) :
    s.receivers.length = sigevs.length := by
  apply reached.invariant (P := fun s => s.receivers.length = sigevs.length)
  · rintro s rfl
    exact List.length_map ..
  · intro s t _ all step
    cases step with
    | send i loop t text here next texts alone less =>
        rcases enqueue_cases s (i, text) with ⟨r, -, -, eq⟩ | ⟨-, eq⟩
        · rw [eq]
          exact all
        · rw [eq]
          exact all
    | leave i loop t here leave => exact all
    | hand i r loop t text w here next texts there waiting => exact List.length_set.trans all
    | notify r w there notify free => exact List.length_set.trans all
    | busy r w there notify busy => exact List.length_set.trans all
    | receive r w m post there receive received => exact List.length_set.trans all
    | wait r w there receive empty => exact List.length_set.trans all
    | chkRt r v w signals there handled => exact List.length_set.trans all

/-- Everything has been sent and received, and the receivers wait. -/
structure Delivered (sources : List Source) (s : System) : Prop where
  ended : ∀ p ∈ s.senders, p.ended = true
  empty : s.post.queue = []
  waiting : ∀ w ∈ s.receivers, w.pc = .waiting
  handled : s.signals.queue = []
  /-- The messages received of a sender. -/
  whole : ∀ (i : Nat) (source : Source), sources[i]? = some source →
    Post.contents s.post.arrived i = textsOf 511 source.file.content
  /-- They are its file without the newlines exactly if its lines are short. -/
  lossless : ∀ (i : Nat) (source : Source), sources[i]? = some source →
    ((Post.contents s.post.arrived i).flatten = strip source.file.content ↔
      Lined 511 source.file.content)

/-- **The end of a run.**  With at least one receiver every run ends, with every message received:
those of a sender are its file without the newlines exactly if each of its lines, the last one too,
ends with a newline among its first 511 characters. -/
theorem posixMsq_terminates (sources : List Source) (sigevs : List Bool) (some : sigevs ≠ []) :
    (machine sources sigevs).Terminates (Delivered sources) := by
  refine Machine.terminates_of_descends (descends sources sigevs) fun s reached stuck => ?_
  have inv := inv_of_reachable reached
  have waiting : ∀ w ∈ s.receivers, w.pc = .waiting := by
    intro w member
    by_contra working
    obtain ⟨r, there⟩ := List.mem_iff_getElem?.mp member
    obtain ⟨t, goes⟩ := receiver_goes there working
    exact stuck t goes
  have nonempty : s.receivers ≠ [] := by
    intro none
    have length := length_receivers reached
    rw [none] at length
    exact some (List.eq_nil_of_length_eq_zero length.symm)
  obtain ⟨w, rest, receivers⟩ := List.exists_cons_of_ne_nil nonempty
  have first : w ∈ s.receivers := receivers ▸ List.mem_cons_self
  have empty := inv.idle w first (waiting w first)
  have ended : ∀ p ∈ s.senders, p.ended = true := by
    rintro ⟨loop, ended⟩ member
    cases ended with
    | true => rfl
    | false =>
        obtain ⟨i, here⟩ := List.mem_iff_getElem?.mp member
        obtain ⟨t, goes⟩ := sender_goes inv here (.inl ⟨w, first, waiting w first⟩)
        exact absurd goes (stuck t)
  have done (i : Nat) (source : Source) (from' : sources[i]? = Option.some source) :
      Post.contents s.post.arrived i = textsOf 511 source.file.content ∧
        ((Post.contents s.post.arrived i).flatten = strip source.file.content ↔
          Lined 511 source.file.content) := by
    have inside : i < s.senders.length := inv.many ▸ (List.getElem?_eq_some_iff.mp from').1
    have here : s.senders[i]? = Option.some s.senders[i] := List.getElem?_eq_getElem inside
    have carries := inv.carried i _ here source from'
    have fifo := inv.kept.fifo
    rw [empty, List.append_nil] at fifo
    rw [fifo, carries.texts_eq]
    exact carries.done (ended _ (List.mem_of_getElem? here))
  refine ⟨ended, empty, waiting, ?_, fun i source from' => (done i source from').1,
    fun i source from' => (done i source from').2⟩
  by_contra pending
  obtain ⟨t, goes⟩ := handler_goes inv pending
  exact stuck t goes

/-- One sender and a receiver of each program. -/
theorem posixMsq_terminates_two :
    (machine [oneLine] [true, false]).Terminates (Delivered [oneLine]) :=
  posixMsq_terminates [oneLine] [true, false] (by decide)

end Alnp.PosixMsq
