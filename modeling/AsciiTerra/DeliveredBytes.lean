import AsciiTerra.Framing
import AsciiTerra.Listening

/-!
# What the server makes of the bytes of a peer

A peer may write any bytes, and they may arrive in any pieces, between those of other peers.
The messages the server gets from it depend on its bytes alone.
-/

set_option autoImplicit false

namespace AsciiTerra

namespace Incoming

/-- The messages in the bytes that follow a validation, when `body` is left of the message
before. A header without a body takes over what is left. -/
def parse (body bytes : List UInt8) : List Message :=
  if _h : bytes.length < 8 then []
  else
    let header := Layout.messageHeader.decode (bytes.take 8)
    let rest := bytes.drop 8
    if header.size > 0 then
      if rest.length < header.size.toNat then []
      else ⟨header, rest.take header.size.toNat⟩ ::
        parse (rest.take header.size.toNat) (rest.drop header.size.toNat)
    else ⟨header, body⟩ :: parse body rest
termination_by bytes.length
decreasing_by
  · simp only [List.length_drop]
    omega
  · simp only [List.length_drop]
    omega

variable {body head b bytes got stream : List UInt8} {ms : List Message} {c c' : Incoming}

theorem parse_short (h : bytes.length < 8) : parse body bytes = [] := by
  rw [parse, dif_pos h]

theorem parse_header (rest : List UInt8) (hhead : head.length = 8)
    (hsize : ¬ (Layout.messageHeader.decode head).size > 0) :
    parse body (head ++ rest) = ⟨Layout.messageHeader.decode head, body⟩ :: parse body rest := by
  have hlong : ¬ (head ++ rest).length < 8 := by
    rw [List.length_append]
    omega
  rw [parse, dif_neg hlong]
  simp only [List.take_left' hhead, List.drop_left' hhead, if_neg hsize]

theorem parse_body (rest : List UInt8) (hhead : head.length = 8)
    (hsize : (Layout.messageHeader.decode head).size > 0)
    (hb : b.length = (Layout.messageHeader.decode head).size.toNat) :
    parse body (head ++ (b ++ rest)) = ⟨Layout.messageHeader.decode head, b⟩ :: parse b rest := by
  have hlong : ¬ (head ++ (b ++ rest)).length < 8 := by
    rw [List.length_append]
    omega
  have hfull : ¬ (b ++ rest).length < (Layout.messageHeader.decode head).size.toNat := by
    rw [List.length_append]
    omega
  rw [parse, dif_neg hlong]
  simp only [List.take_left' hhead, List.drop_left' hhead, if_pos hsize, if_neg hfull,
    List.take_left' hb, List.drop_left' hb]

theorem parse_partial (hhead : head.length = 8)
    (hsize : (Layout.messageHeader.decode head).size > 0)
    (hb : b.length < (Layout.messageHeader.decode head).size.toNat) : parse body (head ++ b) = [] := by
  have hlong : ¬ (head ++ b).length < 8 := by
    rw [List.length_append]
    omega
  rw [parse, dif_neg hlong]
  simp only [List.take_left' hhead, List.drop_left' hhead, if_pos hsize, if_pos hb]

/-- `deliver` says the same of messages that state their size. -/
theorem parse_frames (ms : List Message) (hsize : ∀ m ∈ ms, m.SizeMatches) (body : List UInt8) :
    parse body (frames ms) = deliver body ms := by
  induction ms generalizing body with
  | nil => exact parse_short (by decide)
  | cons m ms ih =>
    have hmatch := hsize m List.mem_cons_self
    have hlen := length_header m.header
    have hms : ∀ m ∈ ms, m.SizeMatches := fun m hm => hsize m (List.mem_cons_of_mem _ hm)
    rw [frames_cons, Message.frame, List.append_assoc]
    by_cases hbody : m.body = []
    · have hpos : ¬ m.header.size > 0 := fun hpos => hmatch.pos_iff.mp hpos hbody
      rw [hbody, List.nil_append, parse_header _ hlen (by rwa [Codec.decode_encode]),
        Codec.decode_encode, ih hms, deliver, if_pos hbody]
    · have hpos := hmatch.pos_iff.mpr hbody
      rw [parse_body _ hlen (by rwa [Codec.decode_encode]) (by rw [Codec.decode_encode, hmatch]),
        Codec.decode_encode, ih hms, deliver, if_neg hbody]

/-- The bytes are whole messages, and the last body is left. -/
def Parsed (bytes : List UInt8) (ms : List Message) (body : List UInt8) : Prop :=
  ∀ rest, parse [] (bytes ++ rest) = ms ++ parse body rest

theorem parsed_nil : Parsed [] [] [] := fun _ => rfl

theorem Parsed.withoutBody (h : Parsed bytes ms body) (hhead : head.length = 8)
    (hsize : ¬ (Layout.messageHeader.decode head).size > 0) :
    Parsed (bytes ++ head) (ms ++ [⟨Layout.messageHeader.decode head, body⟩]) body := by
  intro rest
  rw [List.append_assoc, h, parse_header rest hhead hsize, List.append_assoc]
  rfl

theorem Parsed.withBody (h : Parsed bytes ms body) (hhead : head.length = 8)
    (hsize : (Layout.messageHeader.decode head).size > 0)
    (hb : b.length = (Layout.messageHeader.decode head).size.toNat) :
    Parsed (bytes ++ (head ++ b)) (ms ++ [⟨Layout.messageHeader.decode head, b⟩]) b := by
  intro rest
  rw [List.append_assoc, List.append_assoc, h, parse_body rest hhead hsize hb, List.append_assoc]
  rfl

/-- The read that is outstanding, and the bytes of the current message it and the read before it
have taken. -/
inductive Awaits (c : Incoming) (body : List UInt8) : List UInt8 → Prop
  | header {got : List UInt8} : c.reads = [⟨.readHeader, 8, got⟩] → got.length ≤ 8 →
      c.msgTemporaryIn.body = body → Awaits c body got
  | body {head got : List UInt8} : head.length = 8 →
      c.msgTemporaryIn.header = Layout.messageHeader.decode head →
      (Layout.messageHeader.decode head).size > 0 →
      c.reads = [⟨.readBody, (Layout.messageHeader.decode head).size.toNat, got⟩] →
      got.length ≤ (Layout.messageHeader.decode head).size.toNat → Awaits c body (head ++ got)

/-- What was taken from the stream, after the eight bytes of the validation, was made into
messages, except for what the outstanding read waits for. -/
def Follows (stream : List UInt8) (c : Incoming) : Prop :=
  ∃ bytes body, Parsed bytes c.qMessagesIn body ∧ bytes <+: stream.drop 8 ∧
    (c.reads = [] ∨ ∃ got, Awaits c body got ∧ bytes ++ got <+: stream.drop 8 ∧
      c.consumed = 8 + (bytes ++ got).length)

theorem Follows.mono {stream' : List UInt8} (h : Follows stream c) (hstream : stream <+: stream') :
    Follows stream' c := by
  obtain ⟨bytes, body, hparsed, hbytes, hreads⟩ := h
  have hdrop := hstream.drop 8
  refine ⟨bytes, body, hparsed, hbytes.trans hdrop, hreads.imp id ?_⟩
  rintro ⟨got, hawaits, hgot, hconsumed⟩
  exact ⟨got, hawaits, hgot.trans hdrop, hconsumed⟩

/-- A whole message is in, and the next header is awaited. -/
theorem Follows.add {msg : Message} (hparsed : Parsed bytes (ms ++ [msg]) msg.body)
    (hbytes : bytes <+: stream.drop 8) (hc : c.qMessagesIn = ms) (hmsg : c.msgTemporaryIn = msg)
    (hreads : c.reads = []) (hconsumed : c.consumed = 8 + bytes.length) :
    Follows stream c.addToIncomingMessageQueue := by
  refine ⟨bytes, msg.body, ?_, hbytes, .inr ⟨[], .header ?_ (Nat.zero_le 8) ?_, ?_, ?_⟩⟩
  · show Parsed bytes (c.qMessagesIn ++ [c.msgTemporaryIn]) msg.body
    rwa [hc, hmsg]
  · show c.reads ++ [_] = _
    rw [hreads]
    rfl
  · exact congrArg Message.body hmsg
  · rwa [List.append_nil]
  · rwa [List.append_nil]

theorem follows_receive {r : PendingRead} {k : Nat} (h : Follows stream c) (hr : c.reads[0]? = some r)
    (hwant : r.got.length + k ≤ r.want) (havail : c.consumed + k ≤ stream.length) :
    Follows stream { c with
      reads := c.reads.set 0 ⟨r.op, r.want, r.got ++ (stream.drop c.consumed).take k⟩
      consumed := c.consumed + k } := by
  obtain ⟨bytes, body, hparsed, hbytes, hnone | ⟨got, hawaits, hgot, hconsumed⟩⟩ := h
  · simp [hnone] at hr
  · have hlen : ((stream.drop c.consumed).take k).length = k := by
      rw [List.length_take, List.length_drop]
      omega
    have hmore : bytes ++ (got ++ (stream.drop c.consumed).take k) <+: stream.drop 8 := by
      rw [hconsumed, ← List.drop_drop, ← List.append_assoc]
      exact prefix_append_take_drop hgot k
    refine ⟨bytes, body, hparsed, hbytes, .inr ⟨got ++ (stream.drop c.consumed).take k, ?_, hmore, ?_⟩⟩
    · cases hawaits with
      | header hreads hle hbody =>
        rw [hreads] at hr ⊢
        cases hr
        exact .header rfl (by rw [List.length_append, hlen]; exact hwant) hbody
      | body hhead hheader hsize hreads hle =>
        rw [hreads] at hr ⊢
        cases hr
        rw [List.append_assoc]
        exact .body hhead hheader hsize rfl (by rw [List.length_append, hlen]; exact hwant)
    · rw [← List.append_assoc, List.length_append, hlen, hconsumed]
      exact Nat.add_assoc ..

theorem follows_received {r : PendingRead} (h : Follows stream c) (hr : c.reads[0]? = some r)
    (hfull : r.got.length = r.want) :
    Follows stream ({ c with reads := c.reads.eraseIdx 0 }.onReceived r.op r.got) := by
  obtain ⟨bytes, body, hparsed, hbytes, hnone | ⟨got, hawaits, hgot, hconsumed⟩⟩ := h
  · simp [hnone] at hr
  · cases hawaits with
    | header hreads hle hbody =>
      rw [hreads] at hr ⊢
      cases hr
      by_cases hsize : (Layout.messageHeader.decode got).size > 0
      · simp only [onReceived, if_pos hsize]
        refine ⟨bytes, body, hparsed, hbytes, .inr ⟨got ++ [], .body hfull rfl hsize ?_
          (Nat.zero_le _), ?_, ?_⟩⟩
        · show [] ++ [PendingRead.mk _ (resize _ c.msgTemporaryIn.body).length []] = _
          rw [length_resize]
          rfl
        · rwa [List.append_nil]
        · rwa [List.append_nil]
      · simp only [onReceived, if_neg hsize]
        exact .add (hparsed.withoutBody hfull hsize) hgot rfl (by rw [hbody]) rfl hconsumed
    | body hhead hheader hsize hreads hle =>
      rw [hreads] at hr ⊢
      cases hr
      exact .add (hparsed.withBody hhead hsize hfull) hgot rfl (by rw [hheader]) rfl hconsumed

theorem Follows.index {i : Nat} {r : PendingRead} (h : Follows stream c) (hi : c.reads[i]? = some r) :
    i = 0 := by
  obtain ⟨bytes, body, -, -, hnone | ⟨got, hawaits, -⟩⟩ := h
  · simp [hnone] at hi
  · cases hawaits with
    | header hreads => exact (eq_of_getElem?_singleton (hreads ▸ hi)).1
    | body _ _ _ hreads => exact (eq_of_getElem?_singleton (hreads ▸ hi)).1

theorem Follows.step {e : InEvent} (h : Follows stream c) (hstep : c.step stream e = some c') :
    Follows stream c' := by
  unfold Incoming.step at hstep
  cases e with
  | receive i k =>
    cases hi : c.reads[i]? with
    | none => simp [hi] at hstep
    | some r =>
      simp only [hi, Option.ite_none_right_eq_some, Option.some.injEq] at hstep
      obtain ⟨⟨-, hwant, havail⟩, rfl⟩ := hstep
      obtain rfl := h.index hi
      exact follows_receive h hi hwant havail
  | received i =>
    cases hi : c.reads[i]? with
    | none => simp [hi] at hstep
    | some r =>
      simp only [hi, Option.ite_none_right_eq_some, Option.some.injEq] at hstep
      obtain ⟨hfull, rfl⟩ := hstep
      obtain rfl := h.index hi
      exact follows_received h hi hfull

theorem step_queue {e : InEvent} (hstep : c.step stream e = some c') :
    c.qMessagesIn <+: c'.qMessagesIn := by
  unfold Incoming.step at hstep
  cases e with
  | receive i k =>
    cases hi : c.reads[i]? with
    | none => simp [hi] at hstep
    | some r =>
      simp only [hi, Option.ite_none_right_eq_some, Option.some.injEq] at hstep
      obtain ⟨-, rfl⟩ := hstep
      exact List.prefix_rfl
  | received i =>
    cases hi : c.reads[i]? with
    | none => simp [hi] at hstep
    | some r =>
      simp only [hi, Option.ite_none_right_eq_some, Option.some.injEq] at hstep
      obtain ⟨-, rfl⟩ := hstep
      cases r.op with
      | readHeader =>
        simp only [onReceived]
        split
        · exact List.prefix_rfl
        · exact List.prefix_append _ _
      | readBody => exact List.prefix_append _ _
      | readValidation => exact List.prefix_rfl

/-- All bytes were taken, and a read waits for more. -/
def Idle (stream : List UInt8) (c : Incoming) : Prop :=
  c.consumed = stream.length ∧ ∃ r ∈ c.reads, r.got.length < r.want

theorem Follows.queue_prefix (h : Follows stream c) : c.qMessagesIn <+: parse [] (stream.drop 8) := by
  obtain ⟨bytes, body, hparsed, ⟨rest, hrest⟩, -⟩ := h
  rw [← hrest, hparsed]
  exact List.prefix_append _ _

theorem Follows.queue_eq (h : Follows stream c) (hidle : c.Idle stream) :
    c.qMessagesIn = parse [] (stream.drop 8) := by
  obtain ⟨hall, r, hr, hmissing⟩ := hidle
  obtain ⟨bytes, body, hparsed, -, hnone | ⟨got, hawaits, hgot, hconsumed⟩⟩ := h
  · simp [hnone] at hr
  · have hwhole : bytes ++ got = stream.drop 8 := by
      apply hgot.eq_of_length
      rw [List.length_drop]
      omega
    have hpartial : parse body got = [] := by
      cases hawaits with
      | header hreads hle hbody =>
        rw [hreads, List.mem_singleton] at hr
        subst hr
        exact parse_short hmissing
      | body hhead hheader hsize hreads hle =>
        rw [hreads, List.mem_singleton] at hr
        subst hr
        exact parse_partial hhead hsize hmissing
    rw [← hwhole, hparsed, hpartial, List.append_nil]

end Incoming

namespace Peer
variable {p : Peer}

/-- The answer is awaited, or the reads follow the bytes. -/
def Heard (p : Peer) : Prop :=
  (p.connection.inn.qMessagesIn = [] ∧ p.connection.inn.msgTemporaryIn.body = [] ∧
    ∃ got, p.connection.inn.reads = [⟨.readValidation, 8, got⟩] ∧
      p.connection.inn.consumed = got.length ∧ got <+: p.stream) ∨
  p.connection.inn.Follows p.stream

theorem heard_accept (now : UInt64) : Heard ⟨End.onBegin (.ofServer now), []⟩ :=
  .inl ⟨rfl, rfl, [], rfl, rfl, List.nil_prefix⟩

theorem Heard.writes (h : p.Heard) (bytes : List UInt8) :
    Heard { p with stream := p.stream ++ bytes } := by
  refine h.imp ?_ fun hfollows => hfollows.mono (List.prefix_append _ _)
  rintro ⟨hnone, hbody, got, hreads, hconsumed, hgot⟩
  exact ⟨hnone, hbody, got, hreads, hconsumed, hgot.trans (List.prefix_append _ _)⟩

theorem Heard.queue_prefix (h : p.Heard) :
    p.connection.inn.qMessagesIn <+: Incoming.parse [] (p.stream.drop 8) := by
  rcases h with ⟨hnone, -⟩ | hfollows
  · rw [hnone]
    exact List.nil_prefix
  · exact hfollows.queue_prefix

theorem Heard.queue_eq (h : p.Heard) (hidle : p.connection.inn.Idle p.stream) :
    p.connection.inn.qMessagesIn = Incoming.parse [] (p.stream.drop 8) := by
  rcases h with ⟨hnone, -, got, hreads, hconsumed, -⟩ | hfollows
  · obtain ⟨hall, r, hr, hmissing⟩ := hidle
    rw [hreads, List.mem_singleton] at hr
    subst hr
    rw [hnone, Incoming.parse_short]
    rw [List.length_drop]
    simp only at hmissing
    omega
  · exact hfollows.queue_eq hidle

/-- No read is left once one has failed. -/
theorem Heard.fails (h : p.Heard) {j : Nat} {r : PendingRead}
    (hj : p.connection.inn.reads[j]? = some r) : Heard { p with connection := { p.connection with
      inn := { p.connection.inn with reads := p.connection.inn.reads.eraseIdx j }
      socketOpen := false } } := by
  right
  rcases h with ⟨hnone, -, got, hreads, -⟩ | hfollows
  · obtain ⟨rfl, -⟩ := eq_of_getElem?_singleton (hreads ▸ hj)
    refine ⟨[], [], ?_, List.nil_prefix, .inl (by simp [hreads])⟩
    simpa [hnone] using Incoming.parsed_nil
  · obtain rfl := hfollows.index hj
    obtain ⟨bytes, body, hparsed, hbytes, hreads⟩ := hfollows
    refine ⟨bytes, body, hparsed, hbytes, .inl ?_⟩
    rcases hreads with hnone | ⟨got, hawaits, -⟩
    · simp [hnone]
    · cases hawaits with
      | header hreads => simp [hreads]
      | body _ _ _ hreads => simp [hreads]

theorem Heard.stepIn (h : p.Heard) (howner : p.connection.ownerType = .server) {e : InEvent}
    {c : Connection} (hstep : p.connection.stepIn p.stream e = some c) :
    Heard { p with connection := c } ∧ p.connection.inn.qMessagesIn <+: c.inn.qMessagesIn := by
  rcases h with ⟨hnone, hbody, got, hreads, hconsumed, hgot⟩ | hfollows
  · refine ⟨?_, by rw [hnone]; exact List.nil_prefix⟩
    rcases Connection.stepIn_readValidation hreads hgot hconsumed hstep with ⟨got', hgot', rfl⟩ | ⟨hlen, rfl⟩
    · exact .inl ⟨hnone, hbody, got', rfl, rfl, hgot'⟩
    · right
      by_cases hmatch : Codec.u64.decode got = p.connection.nHandshakeCheck
      · have hinn : (Connection.onReadValidation got { p.connection with
            inn := { p.connection.inn with reads := [] } }).inn =
            Incoming.readHeader { p.connection.inn with reads := [] } := by
          simp [Connection.onReadValidation, howner, hmatch, Connection.send]
        rw [hinn]
        refine ⟨[], [], ?_, List.nil_prefix, .inr ⟨[], .header rfl (Nat.zero_le 8) hbody,
          List.nil_prefix, hconsumed.trans hlen⟩⟩
        show Incoming.Parsed [] p.connection.inn.qMessagesIn []
        rw [hnone]
        exact Incoming.parsed_nil
      · refine ⟨[], [], ?_, List.nil_prefix, .inl ?_⟩
        · simpa [Connection.onReadValidation, howner, hmatch, hnone] using Incoming.parsed_nil
        · simp [Connection.onReadValidation, howner, hmatch]
  · rcases Connection.stepIn_cases hstep with ⟨i, want, got, hi, -, rfl⟩ | ⟨inn, hinn, rfl⟩
    · obtain ⟨bytes, body, -, -, hreads | ⟨got', hawaits, -⟩⟩ := hfollows
      · simp [hreads] at hi
      · cases hawaits with
        | header hreads =>
          rw [hreads] at hi
          cases (eq_of_getElem?_singleton hi).2
        | body _ _ _ hreads =>
          rw [hreads] at hi
          cases (eq_of_getElem?_singleton hi).2
    · exact ⟨.inr (hfollows.step hinn), Incoming.step_queue hinn⟩

theorem stepOut_inn (howner : p.connection.ownerType = .server) {e : OutEvent} {c : Connection}
    (hstep : p.connection.stepOut e = some c) : c.inn = p.connection.inn := by
  obtain ⟨out, -, rfl⟩ := Option.map_eq_some_iff.mp hstep
  cases e with
  | task => rfl
  | transfer i k => rfl
  | written i => simp [howner]

end Peer

/-- The listener, with what `Update` has handed to `OnMessage`. -/
structure Deliveries where
  listener : Listener
  handled : List OwnedMessage

namespace Deliveries

def start : Deliveries := ⟨.start, []⟩

def step (s : Deliveries) (e : ListenerEvent) : Option Deliveries :=
  (s.listener.step e).map fun l =>
    ⟨l, s.handled ++ if e = .update then s.listener.qMessagesIn.take 1 else []⟩

/-- The messages in the order they are handled in. -/
def received (s : Deliveries) : List OwnedMessage := s.handled ++ s.listener.qMessagesIn

/-- What the server got from the `i`-th peer. -/
def messagesOf (i : Nat) (s : Deliveries) : List Message :=
  (s.received.filter fun om => om.remote = i).map OwnedMessage.msg

/-- Of every peer the server got what its connection has read. -/
structure Faithful (s : Deliveries) : Prop where
  guarded : s.listener.Guarded
  peers : ∀ i p, s.listener.peers[i]? = some p →
    p.Heard ∧ s.messagesOf i = p.connection.inn.qMessagesIn
  numbered : ∀ om ∈ s.received, om.remote < s.listener.peers.length

theorem faithful_start : Faithful start where
  guarded := ⟨fun _ hp => absurd hp List.not_mem_nil, fun _ hom => absurd hom List.not_mem_nil⟩
  peers := fun i p hi => by simp [start, Listener.start] at hi
  numbered := fun _ hom => absurd hom List.not_mem_nil

variable {s t : Deliveries} {i : Nat} {p p' : Peer}

theorem messagesOf_append (j : Nat) (peers : List Peer) (new : List Message) :
    messagesOf j ⟨⟨peers, s.listener.qMessagesIn ++ new.map (OwnedMessage.mk i)⟩, s.handled⟩ =
      s.messagesOf j ++ if i = j then new else [] := by
  have hnew : ((new.map (OwnedMessage.mk i)).filter fun om => om.remote = j).map OwnedMessage.msg =
      if i = j then new else [] := by
    rw [List.filter_map, List.map_map]
    split
    · rename_i hij
      have hall : new.filter ((fun om => decide (om.remote = j)) ∘ OwnedMessage.mk i) = new :=
        List.filter_eq_self.mpr fun msg _ => decide_eq_true hij
      rw [hall]
      exact List.map_id' new
    · rename_i hij
      rw [List.filter_eq_nil_iff.mpr fun msg _ => by simpa using hij]
      rfl
  unfold messagesOf received
  rw [← List.append_assoc, List.filter_append, List.map_append, hnew]

/-- A connection that changes may have read more. -/
theorem Faithful.set (h : s.Faithful) (hi : s.listener.peers[i]? = some p) (hp : p'.Heard)
    (new : List Message)
    (hnew : p'.connection.inn.qMessagesIn = p.connection.inn.qMessagesIn ++ new)
    (hguard : Listener.Guarded ⟨s.listener.peers.set i p',
      s.listener.qMessagesIn ++ new.map (OwnedMessage.mk i)⟩) :
    Faithful ⟨⟨s.listener.peers.set i p',
      s.listener.qMessagesIn ++ new.map (OwnedMessage.mk i)⟩, s.handled⟩ := by
  have hlt : i < s.listener.peers.length := (List.getElem?_eq_some_iff.mp hi).1
  refine ⟨hguard, fun j q hj => ?_, fun om hom => ?_⟩
  · rw [messagesOf_append]
    by_cases hij : i = j
    · subst hij
      have hself : (s.listener.peers.set i p')[i]? = some p' := by simp [hlt]
      cases hself.symm.trans hj
      exact ⟨hp, by rw [if_pos rfl, (h.peers i p hi).2, hnew]⟩
    · rw [if_neg hij, List.append_nil]
      exact h.peers j q ((List.getElem?_set_ne hij).symm.trans hj)
  · rw [List.length_set]
    unfold received at hom
    rw [← List.append_assoc] at hom
    rcases List.mem_append.mp hom with hom | hom
    · exact h.numbered om hom
    · obtain ⟨msg, -, rfl⟩ := List.mem_map.mp hom
      exact hlt

theorem Faithful.accept (h : s.Faithful) (now : UInt64)
    (hguard : Listener.Guarded { s.listener with
      peers := s.listener.peers ++ [⟨End.onBegin (.ofServer now), []⟩] }) :
    Faithful ⟨{ s.listener with
      peers := s.listener.peers ++ [⟨End.onBegin (.ofServer now), []⟩] }, s.handled⟩ := by
  refine ⟨hguard, fun j q hj => ?_, fun om hom => ?_⟩
  · by_cases hlt : j < s.listener.peers.length
    · exact h.peers j q ((List.getElem?_append_left hlt).symm.trans hj)
    · -- the new connection has the next number, which no message has
      rw [List.getElem?_append_right (Nat.le_of_not_lt hlt)] at hj
      cases (eq_of_getElem?_singleton hj).2
      refine ⟨Peer.heard_accept now, ?_⟩
      show List.map _ (s.received.filter _) = []
      rw [List.filter_eq_nil_iff.mpr fun om hom => ?_]
      · rfl
      · have hnum := h.numbered om hom
        simp only [decide_eq_true_eq]
        omega
  · have hnum := h.numbered om hom
    rw [List.length_append]
    exact Nat.lt_add_right _ hnum

theorem Faithful.step {e : ListenerEvent} (h : s.Faithful) (hstep : step s e = some t) :
    t.Faithful := by
  obtain ⟨l, hl, rfl⟩ := Option.map_eq_some_iff.mp hstep
  have hguard := h.guarded.step hl
  cases e with
  | accept now =>
    cases hl
    simpa using h.accept now hguard
  | peerWrites i bytes =>
    obtain ⟨p, hp, rfl⟩ := Option.map_eq_some_iff.mp hl
    have hset := h.set hp ((h.peers i p hp).1.writes bytes) [] (List.append_nil _).symm
      (by simpa using hguard)
    simpa using hset
  | out i e =>
    obtain ⟨p, hp, hl⟩ := Option.bind_eq_some_iff.mp hl
    obtain ⟨c, hc, rfl⟩ := Option.map_eq_some_iff.mp hl
    have howner := (h.guarded.peers p (List.mem_of_getElem? hp)).owner
    have hinn := Peer.stepOut_inn howner hc
    have hheard : Peer.Heard { p with connection := c } := by
      unfold Peer.Heard
      rw [hinn]
      exact (h.peers i p hp).1
    have hset := h.set hp hheard [] (by rw [hinn, List.append_nil]) (by simpa using hguard)
    simpa using hset
  | inn i e =>
    obtain ⟨p, hp, hl⟩ := Option.bind_eq_some_iff.mp hl
    obtain ⟨c, hc, rfl⟩ := Option.map_eq_some_iff.mp hl
    have howner := (h.guarded.peers p (List.mem_of_getElem? hp)).owner
    obtain ⟨hheard, new, hnew⟩ := (h.peers i p hp).1.stepIn howner hc
    have hdrop : c.inn.qMessagesIn.drop p.connection.inn.qMessagesIn.length = new := by
      rw [← hnew, List.drop_left]
    unfold Listener.enqueue at hguard ⊢
    rw [hdrop] at hguard ⊢
    simpa using h.set hp hheard new hnew.symm hguard
  | readFails i j =>
    obtain ⟨p, hp, hl⟩ := Option.bind_eq_some_iff.mp hl
    obtain ⟨r, hr, rfl⟩ := Option.map_eq_some_iff.mp hl
    have hset := h.set hp ((h.peers i p hp).1.fails hr) [] (List.append_nil _).symm
      (by simpa using hguard)
    simpa using hset
  | update =>
    simp only [Listener.step, Option.ite_none_left_eq_some, Option.some.injEq] at hl
    obtain ⟨-, rfl⟩ := hl
    have hsame : received ⟨{ s.listener with qMessagesIn := s.listener.qMessagesIn.tail },
        s.handled ++ s.listener.qMessagesIn.take 1⟩ = s.received := by
      unfold received
      rw [List.append_assoc, ← List.drop_one, List.take_append_drop]
    rw [if_pos rfl]
    refine ⟨hguard, fun j q hj => ?_, fun om hom => h.numbered om (hsame ▸ hom)⟩
    unfold messagesOf
    rw [hsame]
    exact h.peers j q hj

/-- Whatever bytes the peers write and in whatever pieces these arrive, the server gets from each
peer, in order, the messages in the bytes after its answer, and no others. Once all bytes were
taken and a read waits for more, none is missing; messages that state their size then come as
`deliver` says. -/
theorem messages_of_bytes {es : List ListenerEvent} (hrun : Machine.run step start es = some s)
    (hi : s.listener.peers[i]? = some p) :
    s.messagesOf i <+: Incoming.parse [] (p.stream.drop 8) ∧
    (p.connection.inn.Idle p.stream → s.messagesOf i = Incoming.parse [] (p.stream.drop 8)) ∧
    ∀ ms : List Message, (∀ m ∈ ms, m.SizeMatches) → p.stream.drop 8 = frames ms →
      p.connection.inn.Idle p.stream → s.messagesOf i = deliver [] ms := by
  have h : s.Faithful :=
    Machine.invariant (fun _ _ _ hs hstep => hs.step hstep) faithful_start hrun
  obtain ⟨hheard, hmessages⟩ := h.peers i p hi
  rw [hmessages]
  refine ⟨hheard.queue_prefix, hheard.queue_eq, fun ms hsize hframes hidle => ?_⟩
  rw [hheard.queue_eq hidle, hframes, Incoming.parse_frames ms hsize]

def answer (challenge : UInt64) : List UInt8 := Codec.u64.encode (scramble challenge)

def pinged : Message := (Message.ofID .serverPing).push Codec.u64 7

/-- A message with a body comes in three pieces, with another peer's message in between. -/
def inPieces : List ListenerEvent :=
  [.accept 0, .accept 1, .peerWrites 0 (answer 0), .peerWrites 1 (answer 1),
    .inn 0 (.receive 0 8), .inn 0 (.received 0), .inn 1 (.receive 0 8), .inn 1 (.received 0),
    .peerWrites 0 (pinged.frame.take 3), .inn 0 (.receive 0 3),
    .peerWrites 1 (Message.ofID .messageAll).frame, .inn 1 (.receive 0 8), .inn 1 (.received 0),
    .peerWrites 0 (pinged.frame.drop 3), .inn 0 (.receive 0 5), .inn 0 (.received 0), .update,
    .inn 0 (.receive 0 8), .inn 0 (.received 0)]

theorem messages_of_bytes_inPieces : ∃ s p, Machine.run step start inPieces = some s ∧
    s.listener.peers[0]? = some p ∧ s.messagesOf 0 = [pinged] ∧
    Incoming.parse [] (p.stream.drop 8) = [pinged] := by
  have hrun : ((Machine.run step start inPieces).bind fun s => s.listener.peers[0]?.map fun p =>
      (s.messagesOf 0, decide (p.connection.inn.consumed = p.stream.length) &&
        p.connection.inn.reads.any fun r => r.got.length < r.want)) = some ([pinged], true) := by
    decide +kernel
  obtain ⟨s, hs, hrest⟩ := Option.bind_eq_some_iff.mp hrun
  obtain ⟨p, hp, hvalues⟩ := Option.map_eq_some_iff.mp hrest
  obtain ⟨hmessages, hidle⟩ := Prod.mk.inj hvalues
  obtain ⟨hall, hwaits⟩ := Bool.and_eq_true_iff.mp hidle
  obtain ⟨r, hr, hless⟩ := List.any_eq_true.mp hwaits
  have hparse := (messages_of_bytes hs hp).2.1
    ⟨of_decide_eq_true hall, r, hr, of_decide_eq_true hless⟩
  exact ⟨s, p, hs, hp, hmessages, hparse.symm.trans hmessages⟩

end Deliveries

end AsciiTerra
