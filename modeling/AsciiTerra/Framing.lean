import AsciiTerra.Connection
import AsciiTerra.Lib.Machine

/-!
# Framing: what arrives of a sequence of messages

One end sends a sequence of messages, the other end reads. The receiving loop reuses
one temporary message and resizes its body only for a header that announces one, so a
message without a body arrives with the body of the last one that had one. `deliver`
says what arrives; every run, however the bytes are chunked, ends with exactly that.
-/

set_option autoImplicit false

namespace AsciiTerra

/-- The messages the receiving loop builds while its temporary message holds `body`. -/
def deliver (body : List UInt8) : List Message → List Message
  | [] => []
  | m :: ms => if m.body = [] then ⟨m.header, body⟩ :: deliver body ms else m :: deliver m.body ms

/-- The body of the temporary message afterwards. -/
def leftover (body : List UInt8) : List Message → List UInt8
  | [] => body
  | m :: ms => leftover (if m.body = [] then body else m.body) ms

theorem deliver_concat (body : List UInt8) (ms : List Message) (m : Message) :
    deliver body (ms ++ [m]) = deliver body ms ++
      [⟨m.header, if m.body = [] then leftover body ms else m.body⟩] := by
  induction ms generalizing body with
  | nil =>
    by_cases h : m.body = []
    · simp [deliver, leftover, h]
    · simp [deliver, h]
  | cons a ms ih =>
    by_cases h : a.body = []
    · simp [deliver, leftover, h, ih]
    · simp [deliver, leftover, h, ih]

theorem leftover_concat (body : List UInt8) (ms : List Message) (m : Message) :
    leftover body (ms ++ [m]) = if m.body = [] then leftover body ms else m.body := by
  induction ms generalizing body with
  | nil => rfl
  | cons a ms ih => exact ih _

@[simp] theorem length_deliver (body : List UInt8) (ms : List Message) :
    (deliver body ms).length = ms.length := by
  induction ms generalizing body with
  | nil => rfl
  | cons m ms ih =>
    by_cases h : m.body = []
    · simp [deliver, h, ih]
    · simp [deliver, h, ih]

theorem deliver_eq_self_iff (body : List UInt8) (ms : List Message) :
    deliver body ms = ms ↔ (body ≠ [] → ∀ m ∈ ms, m.body ≠ []) ∧
      ms.Pairwise fun a b => a.body ≠ [] → b.body ≠ [] := by
  induction ms generalizing body with
  | nil => simp [deliver]
  | cons m ms ih =>
    rw [List.pairwise_cons]
    by_cases h : m.body = []
    · have hhead : (⟨m.header, body⟩ : Message) = m ↔ body = [] := by
        rw [← h]
        exact ⟨fun heq => congrArg Message.body heq, fun heq => by rw [heq]⟩
      simp only [deliver, h, if_true, List.cons.injEq, hhead, ih, List.forall_mem_cons, ne_eq,
        not_true_eq_false, false_and, imp_false, not_not, IsEmpty.forall_iff, implies_true,
        true_and]
      constructor
      · rintro ⟨hb, -, hp⟩
        exact ⟨hb, hp⟩
      · rintro ⟨hb, hp⟩
        exact ⟨hb, fun hne => absurd hb hne, hp⟩
    · simp only [deliver, h, if_false, List.cons.injEq, ih, List.forall_mem_cons, ne_eq,
        not_false_eq_true, true_and, forall_const]
      constructor
      · rintro ⟨hall, hp⟩
        exact ⟨fun _ => hall, hall, hp⟩
      · rintro ⟨-, hall, hp⟩
        exact ⟨hall, hp⟩

def frames (ms : List Message) : List UInt8 := ms.flatMap Message.frame

@[simp] theorem frames_nil : frames [] = [] := rfl

@[simp] theorem frames_cons (m : Message) (ms : List Message) :
    frames (m :: ms) = m.frame ++ frames ms := rfl

@[simp] theorem frames_append (ms ms' : List Message) :
    frames (ms ++ ms') = frames ms ++ frames ms' :=
  List.flatMap_append

theorem length_header (h : MessageHeader) : (Layout.messageHeader.encode h).length = 8 :=
  Layout.messageHeader.length_encode h

theorem length_frame (m : Message) : m.frame.length = 8 + m.body.length := by
  rw [Message.frame, List.length_append, length_header]

/-- `header.size` states the length of the body, which `operator<<` sees to. -/
def Message.SizeMatches (m : Message) : Prop := m.header.size.toNat = m.body.length

instance (m : Message) : Decidable m.SizeMatches := Nat.decEq _ _

theorem Message.SizeMatches.pos_iff {m : Message} (h : m.SizeMatches) :
    m.header.size > 0 ↔ m.body ≠ [] := by
  rw [gt_iff_lt, UInt32.lt_iff_toNat_lt, h, ← List.length_pos_iff]
  rfl

theorem eq_of_getElem?_singleton {α : Type} {a b : α} {i : Nat} (h : [a][i]? = some b) :
    i = 0 ∧ a = b := by
  cases i with
  | zero => exact ⟨rfl, by simpa using h⟩
  | succ i => simp at h

namespace Outgoing

/-- The messages of `done` are written and how far the first one of the queue is. -/
def Writing (done : List Message) (o : Outgoing) : Prop :=
  (o.qMessagesOut = [] ∧ o.writes = [] ∧ o.written = frames done) ∨
  (∃ m q rest, o.qMessagesOut = m :: q ∧ o.writes = [⟨.writeHeader, rest⟩] ∧
    o.written ++ rest ++ m.body = frames (done ++ [m])) ∨
  (∃ m q rest, o.qMessagesOut = m :: q ∧ o.writes = [⟨.writeBody, rest⟩] ∧
    o.written ++ rest = frames (done ++ [m]))

theorem writing_writeHeader {done : List Message} {o : Outgoing} (hw : o.writes = [])
    (h : o.written = frames done) : Writing done o.writeHeader := by
  unfold writeHeader
  split
  · rename_i hq
    exact Or.inl ⟨hq, hw, h⟩
  · rename_i m q hq
    refine Or.inr (Or.inl ⟨m, q, _, hq, by simp [asyncWrite, hw]; rfl, ?_⟩)
    simp [asyncWrite, h, Message.frame]

@[simp] theorem writeHeader_qMessagesOut (o : Outgoing) :
    o.writeHeader.qMessagesOut = o.qMessagesOut := by
  unfold writeHeader
  split <;> rfl

@[simp] theorem writeHeader_posted (o : Outgoing) : o.writeHeader.posted = o.posted := by
  unfold writeHeader
  split <;> rfl

theorem Writing.written_prefix {done : List Message} {o : Outgoing} (h : Writing done o) :
    o.written <+: frames (done ++ o.qMessagesOut) := by
  rcases h with ⟨hq, -, h⟩ | ⟨m, q, rest, hq, -, h⟩ | ⟨m, q, rest, hq, -, h⟩
  · rewrite [hq, List.append_nil, h]
    exact List.prefix_rfl
  · have hsplit : done ++ o.qMessagesOut = done ++ [m] ++ q := by simp [hq]
    rw [hsplit, frames_append, ← h, List.append_assoc, List.append_assoc]
    exact List.prefix_append _ _
  · have hsplit : done ++ o.qMessagesOut = done ++ [m] ++ q := by simp [hq]
    rw [hsplit, frames_append, ← h, List.append_assoc]
    exact List.prefix_append _ _

/-- Steps the sender has left, apart from the bytes. -/
def todo (o : Outgoing) : Nat :=
  o.posted.length + 2 * (o.posted.length + o.qMessagesOut.length) -
    (o.writes.filter fun w => w.op = .writeBody).length

/-- What a step does to a sender: a task or a handler uses up a step that was left, a
transfer puts bytes on the wire. -/
def Progress (done : List Message) (o o' : Outgoing) : Prop :=
  ∃ done', Writing done' o' ∧
    done' ++ o'.qMessagesOut ++ o'.posted = done ++ o.qMessagesOut ++ o.posted ∧
    ((o'.todo < o.todo ∧ o'.written = o.written) ∨
      (o'.todo = o.todo ∧ o.written.length < o'.written.length))

theorem progress_task {done : List Message} {o : Outgoing} {msg : Message} {posted : List Message}
    (h : Writing done o) (hp : o.posted = msg :: posted) :
    Progress done o ({ o with posted := posted }.runTask msg) := by
  refine ⟨done, ?_⟩
  rcases h with ⟨hq, hw, h⟩ | ⟨m, q, rest, hq, hw, h⟩ | ⟨m, q, rest, hq, hw, h⟩
  · refine ⟨?_, by simp [runTask, hq, hp], Or.inl ⟨?_, ?_⟩⟩
    · have hwrite := writing_writeHeader (o := ⟨posted, [msg], o.writes, o.written⟩) hw h
      simpa [runTask, hq] using hwrite
    · simp [runTask, hq, todo, writeHeader, asyncWrite, hw, hp]
    · simp [runTask, hq, writeHeader, asyncWrite]
  · refine ⟨Or.inr (Or.inl ⟨m, q ++ [msg], rest, ?_⟩), by simp [runTask, hq, hp], Or.inl ⟨?_, ?_⟩⟩
    · simp [runTask, hq, hw, h]
    · simp [runTask, hq, todo, hw, hp]
      omega
    · simp [runTask, hq]
  · refine ⟨Or.inr (Or.inr ⟨m, q ++ [msg], rest, ?_⟩), by simp [runTask, hq, hp], Or.inl ⟨?_, ?_⟩⟩
    · simp [runTask, hq, hw, h]
    · simp [runTask, hq, todo, hw, hp]
      omega
    · simp [runTask, hq]

theorem progress_transfer {done : List Message} {o : Outgoing} {i k : Nat} {w : PendingWrite}
    (h : Writing done o) (hi : o.writes[i]? = some w) (hk : 0 < k) (hle : k ≤ w.rest.length) :
    Progress done o { o with
      writes := o.writes.set i ⟨w.op, w.rest.drop k⟩
      written := o.written ++ w.rest.take k } := by
  have hbytes : ∀ rest : List UInt8, o.written ++ rest.take k ++ rest.drop k = o.written ++ rest :=
    fun rest => by rw [List.append_assoc, List.take_append_drop]
  have hlen : o.written.length < (o.written ++ w.rest.take k).length := by
    rw [List.length_append, List.length_take, Nat.min_eq_left hle]
    omega
  refine ⟨done, ?_⟩
  rcases h with ⟨_, hw, _⟩ | ⟨m, q, rest, hq, hw, h⟩ | ⟨m, q, rest, hq, hw, h⟩
  · simp [hw] at hi
  · obtain ⟨rfl, rfl⟩ := eq_of_getElem?_singleton (hw ▸ hi)
    refine ⟨Or.inr (Or.inl ⟨m, q, rest.drop k, hq, by simp [hw], ?_⟩), rfl, Or.inr ⟨?_, hlen⟩⟩
    · simp only [hbytes, h]
    · simp [todo, hw]
  · obtain ⟨rfl, rfl⟩ := eq_of_getElem?_singleton (hw ▸ hi)
    refine ⟨Or.inr (Or.inr ⟨m, q, rest.drop k, hq, by simp [hw], ?_⟩), rfl, Or.inr ⟨?_, hlen⟩⟩
    · simp only [hbytes, h]
    · simp [todo, hw]

theorem progress_popFront {done q : List Message} {o p : Outgoing} {m : Message}
    (hq : o.qMessagesOut = m :: q) (hw : o.writes = []) (h : o.written = frames (done ++ [m]))
    (hold : p.qMessagesOut = m :: q) (hp : p.posted = o.posted) (hwritten : p.written = o.written)
    (hbody : (p.writes.filter fun w => w.op = .writeBody).length ≤ 1) :
    Progress done p o.popFront := by
  refine ⟨done ++ [m], writing_writeHeader (by exact hw) (by exact h), ?_, Or.inl ⟨?_, ?_⟩⟩
  · simp [popFront, hq, hold, hp]
  · simp only [todo, popFront, writeHeader_posted, writeHeader_qMessagesOut, hq, hold, hp,
      List.tail_cons, List.length_cons]
    omega
  · rw [hwritten, popFront, writeHeader]
    split <;> rfl

theorem progress_written {done : List Message} {o : Outgoing} {i : Nat} {w : PendingWrite}
    (h : Writing done o) (hi : o.writes[i]? = some w) (hrest : w.rest = []) :
    Progress done o ({ o with writes := o.writes.eraseIdx i }.onWritten w.op) := by
  rcases h with ⟨_, hw, _⟩ | ⟨m, q, rest, hq, hw, h⟩ | ⟨m, q, rest, hq, hw, h⟩
  · simp [hw] at hi
  · obtain ⟨rfl, rfl⟩ := eq_of_getElem?_singleton (hw ▸ hi)
    obtain rfl : rest = [] := hrest
    rw [List.append_nil] at h
    by_cases hbody : m.body.length > 0
    · refine ⟨done, Or.inr (Or.inr ⟨m, q, m.body, ?_⟩), ?_, Or.inl ⟨?_, ?_⟩⟩
      · simp [onWritten, hq, hw, hbody, writeBody, asyncWrite, h]
      · simp [onWritten, hq, hbody, writeBody, asyncWrite]
      · simp only [todo, onWritten, hq, gt_iff_lt, hbody, ↓reduceIte, writeBody, asyncWrite, hw,
          List.eraseIdx_zero, List.tail_cons, List.nil_append, List.length_cons, decide_true,
          List.filter_cons_of_pos, List.filter_nil, List.length_nil, Nat.zero_add, reduceCtorEq,
          decide_false, Bool.false_eq_true, not_false_eq_true, List.filter_cons_of_neg, Nat.sub_zero]
        omega
      · simp [onWritten, hq, hbody, writeBody, asyncWrite]
    · have hnil : m.body = [] := List.length_eq_zero_iff.mp (Nat.eq_zero_of_not_pos hbody)
      rw [hnil, List.append_nil] at h
      have hpop := progress_popFront (o := { o with writes := [] }) (p := o) hq rfl h hq rfl rfl
        (by simp [hw])
      simpa [onWritten, hq, hw, hbody] using hpop
  · obtain ⟨rfl, rfl⟩ := eq_of_getElem?_singleton (hw ▸ hi)
    obtain rfl : rest = [] := hrest
    rw [List.append_nil] at h
    have hpop := progress_popFront (o := { o with writes := [] }) (p := o) hq rfl h hq rfl rfl
      (by simp [hw])
    simpa [onWritten, hw] using hpop

theorem Writing.step {done : List Message} {o o' : Outgoing} {e : OutEvent}
    (h : Writing done o) (hstep : o.step e = some o') : Progress done o o' := by
  unfold Outgoing.step at hstep
  cases e with
  | task =>
    cases hp : o.posted with
    | nil => simp [hp] at hstep
    | cons msg posted =>
      simp only [hp, Option.some.injEq] at hstep
      exact hstep ▸ progress_task h hp
  | transfer i k =>
    cases hi : o.writes[i]? with
    | none => simp [hi] at hstep
    | some w =>
      simp only [hi, Option.ite_none_right_eq_some, Option.some.injEq] at hstep
      obtain ⟨⟨hk, hle⟩, rfl⟩ := hstep
      exact progress_transfer h hi hk hle
  | written i =>
    cases hi : o.writes[i]? with
    | none => simp [hi] at hstep
    | some w =>
      simp only [hi, Option.ite_none_right_eq_some, Option.some.injEq] at hstep
      obtain ⟨hrest, rfl⟩ := hstep
      exact progress_written h hi hrest

theorem Writing.stuck {done : List Message} {o : Outgoing} (h : Writing done o)
    (hstuck : ∀ e, o.step e = none) :
    o.posted = [] ∧ o.qMessagesOut = [] ∧ o.written = frames done := by
  have hposted : o.posted = [] := by
    have htask := hstuck .task
    unfold Outgoing.step at htask
    cases hp : o.posted with
    | nil => rfl
    | cons msg posted => simp [hp] at htask
  have hwrites : ∀ w, o.writes ≠ [w] := by
    intro w hw
    cases hrest : w.rest with
    | nil => simpa [Outgoing.step, hw, hrest] using hstuck (.written 0)
    | cons b rest => simpa [Outgoing.step, hw, hrest] using hstuck (.transfer 0 1)
  rcases h with ⟨hq, -, h⟩ | ⟨m, q, rest, -, hw, -⟩ | ⟨m, q, rest, -, hw, -⟩
  · exact ⟨hposted, hq, h⟩
  · exact absurd hw (hwrites _)
  · exact absurd hw (hwrites _)

end Outgoing

namespace Incoming

/-- The messages of `recv` have arrived and `rest` is still to come: where the outstanding
read is in the stream. -/
def Reading (recv rest : List Message) (c : Incoming) : Prop :=
  c.qMessagesIn = deliver [] recv ∧
  ((∃ got, c.reads = [⟨.readHeader, 8, got⟩] ∧ got <+: frames rest ∧ got.length ≤ 8 ∧
      c.consumed = (frames recv).length + got.length ∧
      c.msgTemporaryIn.body = leftover [] recv) ∨
    (∃ m rest' got, rest = m :: rest' ∧ m.body ≠ [] ∧
      c.reads = [⟨.readBody, m.body.length, got⟩] ∧ got <+: m.body ∧
      c.consumed = (frames recv).length + 8 + got.length ∧ c.msgTemporaryIn.header = m.header))

theorem reading_idle (ms : List Message) : Reading [] ms idle :=
  ⟨rfl, Or.inl ⟨[], rfl, List.nil_prefix, Nat.zero_le _, rfl, rfl⟩⟩

/-- Steps the receiver has left of `n` messages, apart from the bytes. -/
def todo (n : Nat) (c : Incoming) : Nat :=
  2 * (n - c.qMessagesIn.length) -
    if c.reads.map PendingRead.op = [.readBody] then 1 else 0

/-- What a step does to a receiver of `n` messages: a handler uses up a step that was
left, a read takes bytes. -/
def Progress (ms : List Message) (c c' : Incoming) : Prop :=
  ∃ recv rest, ms = recv ++ rest ∧ Reading recv rest c' ∧
    ((c'.todo ms.length < c.todo ms.length ∧ c'.consumed = c.consumed) ∨
      (c'.todo ms.length = c.todo ms.length ∧ c.consumed < c'.consumed))

theorem take_drop_prefix {stream whole : List UInt8} {n k : Nat} (h : stream <+: whole)
    (hk : n + k ≤ stream.length) : (stream.drop n).take k = (whole.drop n).take k := by
  obtain ⟨tail, rfl⟩ := h
  rw [List.drop_append_of_le_length (by omega), List.take_append_of_le_length]
  rw [List.length_drop]
  omega

theorem prefix_append_take_drop {got whole : List UInt8} (h : got <+: whole) (k : Nat) :
    got ++ (whole.drop got.length).take k <+: whole := by
  obtain ⟨tail, rfl⟩ := h
  rw [List.drop_left, List.prefix_append_right_inj]
  exact List.take_prefix k tail

theorem Reading.single {recv rest : List Message} {c : Incoming} {i : Nat} {r : PendingRead}
    (h : Reading recv rest c) (hi : c.reads[i]? = some r) : i = 0 ∧ c.reads = [r] := by
  rcases h.2 with ⟨got, hread, -⟩ | ⟨m, rest', got, -, -, hread, -⟩
  · obtain ⟨rfl, rfl⟩ := eq_of_getElem?_singleton (hread ▸ hi)
    exact ⟨rfl, hread⟩
  · obtain ⟨rfl, rfl⟩ := eq_of_getElem?_singleton (hread ▸ hi)
    exact ⟨rfl, hread⟩

theorem progress_receive {ms recv rest : List Message} {c : Incoming} {stream : List UInt8}
    {r : PendingRead} {i k : Nat} (hms : ms = recv ++ rest) (hstream : stream <+: frames ms)
    (h : Reading recv rest c) (hi : c.reads[i]? = some r) (hk : 0 < k)
    (hwant : r.got.length + k ≤ r.want) (havail : c.consumed + k ≤ stream.length) :
    Progress ms c { c with
      reads := c.reads.set i ⟨r.op, r.want, r.got ++ (stream.drop c.consumed).take k⟩
      consumed := c.consumed + k } := by
  obtain ⟨rfl, hr⟩ := h.single hi
  obtain ⟨hq, h⟩ := h
  have hbytes := take_drop_prefix hstream havail
  have htake : ((stream.drop c.consumed).take k).length = k := by
    rw [List.length_take, List.length_drop]
    omega
  refine ⟨recv, rest, hms, ⟨hq, ?_⟩, Or.inr ⟨by simp [todo, hr], Nat.lt_add_of_pos_right hk⟩⟩
  rcases h with ⟨got, hread, hgot, hlen, hconsumed, hbody⟩ |
    ⟨m, rest', got, hrest, hm, hread, hgot, hconsumed, hheader⟩
  · cases hr.symm.trans hread
    refine Or.inl ⟨got ++ (stream.drop c.consumed).take k, by simp [hr], ?_, ?_, ?_, hbody⟩
    · rw [hbytes, hms, frames_append, hconsumed, ← List.drop_drop, List.drop_left]
      exact prefix_append_take_drop hgot k
    · rw [List.length_append, htake]
      exact hwant
    · rw [List.length_append, htake, ← Nat.add_assoc, ← hconsumed]
  · cases hr.symm.trans hread
    have hlen := hgot.length_le
    have hle : k ≤ m.body.length - got.length := Nat.le_sub_of_add_le' hwant
    refine Or.inr ⟨m, rest', got ++ (stream.drop c.consumed).take k, hrest, hm, by simp [hr], ?_, ?_,
      hheader⟩
    · have hdrop : (frames ms).drop c.consumed = m.body.drop got.length ++ frames rest' := by
        have hheader8 := length_header m.header
        rw [hms, frames_append, hrest, frames_cons, Message.frame, hconsumed, Nat.add_assoc,
          ← List.drop_drop, List.drop_left, ← List.drop_drop, List.append_assoc,
          List.drop_left' hheader8, List.drop_append_of_le_length hlen]
      rw [hbytes, hdrop, List.take_append_of_le_length]
      · exact prefix_append_take_drop hgot k
      · rw [List.length_drop]
        exact hle
    · rw [List.length_append, htake, ← Nat.add_assoc, ← hconsumed]

/-- A message is complete and the next header is awaited. -/
theorem progress_add {ms recv rest : List Message} {m : Message} {c c₀ : Incoming}
    (hms : ms = recv ++ m :: rest) (hq : c.qMessagesIn = deliver [] recv)
    (htemp : c.msgTemporaryIn = ⟨m.header, if m.body = [] then leftover [] recv else m.body⟩)
    (hreads : c.reads = [])
    (hconsumed : c.consumed = (frames recv).length + m.frame.length)
    (hold : c₀.qMessagesIn = c.qMessagesIn) (hc₀ : c₀.consumed = c.consumed) :
    Progress ms c₀ c.addToIncomingMessageQueue := by
  have hq' : c.addToIncomingMessageQueue.qMessagesIn = deliver [] (recv ++ [m]) := by
    rw [deliver_concat, ← htemp, ← hq]
    rfl
  refine ⟨recv ++ [m], rest, by rw [hms, List.append_assoc]; rfl, ⟨hq', Or.inl ⟨[], ?_,
    List.nil_prefix, Nat.zero_le _, ?_, ?_⟩⟩, Or.inl ⟨?_, hc₀.symm⟩⟩
  · rw [addToIncomingMessageQueue, readHeader, asyncRead, hreads]
    rfl
  · simp [addToIncomingMessageQueue, readHeader, asyncRead, hconsumed]
  · simp [addToIncomingMessageQueue, readHeader, asyncRead, htemp, leftover_concat]
  · have hlen : ms.length = recv.length + 1 + rest.length := by
      rw [hms, List.length_append, List.length_cons]
      omega
    have hop : c.addToIncomingMessageQueue.reads.map PendingRead.op ≠ [.readBody] := by
      simp [addToIncomingMessageQueue, readHeader, asyncRead, hreads]
    simp only [todo, hq', hold, hq, length_deliver, List.length_append, List.length_singleton, hlen,
      if_neg hop]
    split <;> omega

/-- A complete read of a header has the header of the next message. -/
theorem header_of_prefix {got : List UInt8} {rest : List Message} (h : got <+: frames rest)
    (hlen : got.length = 8) :
    ∃ m rest', rest = m :: rest' ∧ got = Layout.messageHeader.encode m.header := by
  cases rest with
  | nil =>
    rw [frames_nil, List.prefix_nil] at h
    simp [h] at hlen
  | cons m rest' =>
    refine ⟨m, rest', rfl, ?_⟩
    rw [frames_cons, Message.frame, List.append_assoc] at h
    exact (List.prefix_of_prefix_length_le h (List.prefix_append _ _)
      (by rw [hlen, length_header])).eq_of_length (by rw [hlen, length_header])

theorem progress_received {ms recv rest : List Message} {c : Incoming} {r : PendingRead}
    (hsize : ∀ m ∈ ms, m.SizeMatches) (hms : ms = recv ++ rest) (h : Reading recv rest c)
    {i : Nat} (hi : c.reads[i]? = some r) (hwant : r.got.length = r.want) :
    Progress ms c ({ c with reads := c.reads.eraseIdx i }.onReceived r.op r.got) := by
  obtain ⟨rfl, hr⟩ := h.single hi
  have herase : c.reads.eraseIdx 0 = [] := by rw [hr]; rfl
  rw [herase]
  obtain ⟨hq, h⟩ := h
  rcases h with ⟨got, hread, hgot, hlen, hconsumed, hbody⟩ |
    ⟨m, rest', got, hrest, hm, hread, hgot, hconsumed, hheader⟩
  · cases hr.symm.trans hread
    obtain ⟨m, rest', rfl, rfl⟩ := header_of_prefix hgot hwant
    have hmatch := hsize m (by simp [hms])
    by_cases hbody' : m.body = []
    · have hpos : ¬ m.header.size > 0 := fun hpos => hmatch.pos_iff.mp hpos hbody'
      simp only [onReceived, Codec.decode_encode, if_neg hpos]
      refine progress_add hms hq ?_ rfl ?_ rfl rfl
      · simp [hbody', hbody]
      · rw [length_frame, hbody']
        exact hconsumed.trans (by rw [length_header]; rfl)
    · have hpos := hmatch.pos_iff.mpr hbody'
      simp only [onReceived, Codec.decode_encode, if_pos hpos]
      have hwantBody : (resize m.header.size.toNat c.msgTemporaryIn.body).length = m.body.length := by
        rw [length_resize, hmatch]
      refine ⟨recv, m :: rest', hms, ⟨hq, Or.inr ⟨m, rest', [], rfl, hbody', ?_, List.nil_prefix,
        ?_, rfl⟩⟩, Or.inl ⟨?_, rfl⟩⟩
      · simp only [readBody, asyncRead, hwantBody, List.nil_append]
      · exact hconsumed.trans (by rw [length_header]; rfl)
      · have hlt : c.qMessagesIn.length < ms.length := by
          rw [hq, length_deliver, hms, List.length_append, List.length_cons]
          omega
        simp [todo, readBody, asyncRead, hr]
        omega
  · cases hr.symm.trans hread
    have hfull : got = m.body := hgot.eq_of_length hwant
    subst hrest
    refine progress_add hms hq ?_ rfl ?_ rfl rfl
    · simp [hm, hheader, hfull]
    · rw [length_frame, ← hfull]
      exact hconsumed.trans (Nat.add_assoc _ _ _)

theorem Reading.step {ms recv rest : List Message} {c c' : Incoming} {stream : List UInt8}
    {e : InEvent} (hsize : ∀ m ∈ ms, m.SizeMatches) (hms : ms = recv ++ rest)
    (hstream : stream <+: frames ms) (h : Reading recv rest c)
    (hstep : c.step stream e = some c') : Progress ms c c' := by
  unfold Incoming.step at hstep
  cases e with
  | receive i k =>
    cases hi : c.reads[i]? with
    | none => simp [hi] at hstep
    | some r =>
      simp only [hi, Option.ite_none_right_eq_some, Option.some.injEq] at hstep
      obtain ⟨⟨hk, hwant, havail⟩, rfl⟩ := hstep
      exact progress_receive hms hstream h hi hk hwant havail
  | received i =>
    cases hi : c.reads[i]? with
    | none => simp [hi] at hstep
    | some r =>
      simp only [hi, Option.ite_none_right_eq_some, Option.some.injEq] at hstep
      obtain ⟨hwant, rfl⟩ := hstep
      exact progress_received hsize hms h hi hwant

theorem step_consumed_le {c c' : Incoming} {stream : List UInt8} {e : InEvent}
    (h : c.consumed ≤ stream.length) (hstep : c.step stream e = some c') :
    c'.consumed ≤ stream.length := by
  unfold Incoming.step at hstep
  cases e with
  | receive i k =>
    cases hi : c.reads[i]? with
    | none => simp [hi] at hstep
    | some r =>
      simp only [hi, Option.ite_none_right_eq_some, Option.some.injEq] at hstep
      obtain ⟨⟨-, -, havail⟩, rfl⟩ := hstep
      exact havail
  | received i =>
    cases hi : c.reads[i]? with
    | none => simp [hi] at hstep
    | some r =>
      simp only [hi, Option.ite_none_right_eq_some, Option.some.injEq] at hstep
      obtain ⟨-, rfl⟩ := hstep
      unfold onReceived
      split
      · simp only
        split <;> exact h
      · exact h
      · exact h

theorem Reading.stuck {recv rest : List Message} {c : Incoming}
    (h : Reading recv rest c) (hstuck : ∀ e, c.step (frames (recv ++ rest)) e = none) :
    rest = [] := by
  obtain ⟨-, h⟩ := h
  have hone := hstuck (.receive 0 1)
  have hdone := hstuck (.received 0)
  rcases h with ⟨got, hread, hgot, hlen, hconsumed, -⟩ |
    ⟨m, rest', got, hrest, hm, hread, hgot, hconsumed, -⟩
  · simp only [Incoming.step, hread, List.getElem?_cons_zero, ite_eq_right_iff, reduceCtorEq, imp_false, not_and, not_le,
      frames_append, List.length_append] at hone hdone
    cases rest with
    | nil => rfl
    | cons m rest' =>
      have hframe := length_frame m
      rw [frames_cons, List.length_append] at hone
      omega
  · simp only [Incoming.step, hread, List.getElem?_cons_zero, ite_eq_right_iff, reduceCtorEq, imp_false, not_and, not_le,
      frames_append, List.length_append, hrest, frames_cons, length_frame] at hone hdone
    have hle := hgot.length_le
    omega

end Incoming

/-- One direction of a connection, with the messages its user has still to hand to `Send`. -/
structure Link where
  toSend : List Message
  out : Outgoing
  inn : Incoming

/-- The steps of a link, in any order. -/
inductive LinkEvent
  | send
  | out (e : OutEvent)
  | inn (e : InEvent)

namespace Link

/-- A validated connection on which nothing has been sent. -/
def start (ms : List Message) : Link := ⟨ms, Outgoing.idle, Incoming.idle⟩

def step (l : Link) : LinkEvent → Option Link
  | .send =>
    match l.toSend with
    | [] => none
    | m :: ms => some { l with toSend := ms, out := l.out.send m }
  | .out e => (l.out.step e).map fun out => { l with out := out }
  | .inn e => (l.inn.step l.out.written e).map fun inn => { l with inn := inn }

/-- The invariant of a link that transfers `ms`. -/
structure Carries (ms : List Message) (l : Link) : Prop where
  sender : ∃ done, l.out.Writing done ∧
    done ++ l.out.qMessagesOut ++ l.out.posted ++ l.toSend = ms
  receiver : ∃ recv rest, ms = recv ++ rest ∧ l.inn.Reading recv rest
  consumed : l.inn.consumed ≤ l.out.written.length

/-- Bytes and steps that are left. -/
def measure (ms : List Message) (l : Link) : Nat :=
  4 * l.toSend.length + l.out.todo + ((frames ms).length - l.out.written.length) +
    (l.inn.todo ms.length + ((frames ms).length - l.inn.consumed))

theorem carries_start (ms : List Message) : Carries ms (start ms) where
  sender := ⟨[], Or.inl ⟨rfl, rfl, rfl⟩, rfl⟩
  receiver := ⟨[], ms, rfl, Incoming.reading_idle ms⟩
  consumed := Nat.le_refl 0

theorem Carries.written_prefix {ms : List Message} {l : Link} (h : Carries ms l) :
    l.out.written <+: frames ms := by
  obtain ⟨done, hw, rfl⟩ := h.sender
  refine hw.written_prefix.trans ?_
  rw [List.append_assoc _ l.out.posted, frames_append _ (l.out.posted ++ l.toSend)]
  exact List.prefix_append _ _

theorem Carries.step {ms : List Message} (hsize : ∀ m ∈ ms, m.SizeMatches) {l l' : Link}
    {e : LinkEvent} (h : Carries ms l) (hstep : l.step e = some l') :
    Carries ms l' ∧ l'.measure ms < l.measure ms := by
  have hprefix := h.written_prefix
  have hwritten := hprefix.length_le
  have hconsumed := h.consumed
  cases e with
  | send =>
    unfold Link.step at hstep
    cases hs : l.toSend with
    | nil => simp [hs] at hstep
    | cons m rest =>
      simp only [hs, Option.some.injEq] at hstep
      subst hstep
      obtain ⟨done, hw, hall⟩ := h.sender
      refine ⟨⟨⟨done, hw, ?_⟩, h.receiver, h.consumed⟩, ?_⟩
      · simp [← hall, hs, Outgoing.send]
      · simp [measure, hs, Outgoing.send, Outgoing.todo]
        omega
  | out e =>
    obtain ⟨out, hout, rfl⟩ := Option.map_eq_some_iff.mp hstep
    obtain ⟨done, hw, hall⟩ := h.sender
    obtain ⟨done', hw', heq, hprogress⟩ := hw.step hout
    have hcarries : Carries ms { l with out := out } := by
      refine ⟨⟨done', hw', by rw [heq, hall]⟩, h.receiver, ?_⟩
      rcases hprogress with ⟨-, hbytes⟩ | ⟨-, hbytes⟩
      · exact hbytes ▸ hconsumed
      · exact Nat.le_trans hconsumed (Nat.le_of_lt hbytes)
    have hwritten' := hcarries.written_prefix.length_le
    refine ⟨hcarries, ?_⟩
    simp only [measure] at hwritten' ⊢
    rcases hprogress with ⟨htodo, hbytes⟩ | ⟨htodo, hbytes⟩
    · rw [hbytes]
      omega
    · rw [htodo]
      omega
  | inn e =>
    obtain ⟨inn, hinn, rfl⟩ := Option.map_eq_some_iff.mp hstep
    obtain ⟨recv, rest, hms, hr⟩ := h.receiver
    obtain ⟨recv', rest', hms', hr', hprogress⟩ := hr.step hsize hms hprefix hinn
    have havail : inn.consumed ≤ l.out.written.length := by
      rcases hprogress with ⟨-, hbytes⟩ | ⟨-, -⟩
      · exact hbytes ▸ hconsumed
      · exact Incoming.step_consumed_le hconsumed hinn
    refine ⟨⟨h.sender, ⟨recv', rest', hms', hr'⟩, havail⟩, ?_⟩
    simp only [measure]
    rcases hprogress with ⟨htodo, hbytes⟩ | ⟨htodo, hbytes⟩
    · rw [hbytes]
      omega
    · rw [htodo]
      omega

theorem Carries.stuck {ms : List Message} {l : Link} (h : Carries ms l)
    (hstuck : Machine.Stuck Link.step l) : l.inn.qMessagesIn = deliver [] ms := by
  obtain ⟨done, hw, hall⟩ := h.sender
  have hsend : l.toSend = [] := by
    have hnone := hstuck .send
    unfold Link.step at hnone
    cases hs : l.toSend with
    | nil => rfl
    | cons m rest => simp [hs] at hnone
  obtain ⟨hposted, hq, hwritten⟩ := hw.stuck fun e => Option.map_eq_none_iff.mp (hstuck (.out e))
  obtain ⟨recv, rest, hms, hr⟩ := h.receiver
  have hdone : done = ms := by simpa [hposted, hq, hsend] using hall
  have hrest : rest = [] := by
    refine hr.stuck fun e => ?_
    rw [← hms, ← hdone, ← hwritten]
    exact Option.map_eq_none_iff.mp (hstuck (.inn e))
  rw [hr.1, hms, hrest, List.append_nil]

theorem run_delivers {ms : List Message} (hsize : ∀ m ∈ ms, m.SizeMatches)
    {es : List LinkEvent} {l : Link} (h : Machine.run step (start ms) es = some l) :
    (∃ es' l', Machine.run step l es' = some l' ∧ Machine.Stuck step l') ∧
      (Machine.Stuck step l → l.inn.qMessagesIn = deliver [] ms) := by
  have hl : Carries ms l :=
    Machine.invariant (fun _ _ _ hs hstep => (hs.step hsize hstep).1) (carries_start ms) h
  exact ⟨Machine.exists_stuck (measure ms) (fun _ _ _ hs hstep => hs.step hsize hstep) hl,
    hl.stuck⟩

/-- The other end receives exactly what was sent if and only if no message without a body
comes after one with a body. -/
theorem framing_round_trip_iff {ms : List Message} (hsize : ∀ m ∈ ms, m.SizeMatches) :
    (∀ es l, Machine.run step (start ms) es = some l →
      (∃ es' l', Machine.run step l es' = some l' ∧ Machine.Stuck step l') ∧
        (Machine.Stuck step l → l.inn.qMessagesIn = ms)) ↔
      ms.Pairwise fun a b => a.body ≠ [] → b.body ≠ [] := by
  have hself : deliver [] ms = ms ↔ ms.Pairwise fun a b => a.body ≠ [] → b.body ≠ [] := by
    rw [deliver_eq_self_iff]
    exact and_iff_right fun hne => absurd rfl hne
  rw [← hself]
  constructor
  · intro h
    obtain ⟨⟨es, l, hrun, hstuck⟩, -⟩ := run_delivers hsize (rfl : Machine.run step (start ms) [] = _)
    rw [← (run_delivers hsize hrun).2 hstuck, (h es l hrun).2 hstuck]
  · intro h es l hrun
    refine ⟨(run_delivers hsize hrun).1, fun hstuck => ?_⟩
    rw [(run_delivers hsize hrun).2 hstuck, h]

def stepRequest : Message :=
  (Message.ofID .serverGamePlayerActionApprove).push Layout.playerAction ⟨0, 10000, #v[0, 1, 0, 0]⟩

/-- `ClientJustCheck` after a request arrives with the body of the request. -/
theorem framing_justCheck_after_request :
    ∃ es l, Machine.run step (start [stepRequest, .ofID .clientJustCheck]) es = some l ∧
      Machine.Stuck step l ∧ l.inn.qMessagesIn ≠ [stepRequest, .ofID .clientJustCheck] := by
  have hsize : ∀ m ∈ [stepRequest, .ofID .clientJustCheck], m.SizeMatches := by decide
  obtain ⟨⟨es, l, hrun, hstuck⟩, -⟩ := run_delivers hsize (rfl : Machine.run step (start _) [] = _)
  refine ⟨es, l, hrun, hstuck, ?_⟩
  rw [(run_delivers hsize hrun).2 hstuck]
  decide

/-- In the other order both arrive as they were sent. -/
theorem framing_justCheck_before_request :
    ∃ es l, Machine.run step (start [.ofID .clientJustCheck, stepRequest]) es = some l ∧
      Machine.Stuck step l ∧ l.inn.qMessagesIn = [.ofID .clientJustCheck, stepRequest] := by
  have hsize : ∀ m ∈ [.ofID .clientJustCheck, stepRequest], m.SizeMatches := by decide
  have hround := (framing_round_trip_iff hsize).mpr (by decide)
  obtain ⟨es, l, hrun, hstuck⟩ := (hround [] _ rfl).1
  exact ⟨es, l, hrun, hstuck, (hround es l hrun).2 hstuck⟩

end Link

end AsciiTerra
