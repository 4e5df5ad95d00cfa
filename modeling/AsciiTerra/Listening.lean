import AsciiTerra.WriteOverlap

/-!
# Whom the server listens to

The server end of every connection and the queue `m_qMessagesIn` they share. A read of
a message is only issued after the answer of the peer was checked, or by the handler of
another read of a message.
-/

set_option autoImplicit false

namespace AsciiTerra

/-- A connection of the server and the bytes its peer has put on the wire so far. -/
structure Peer where
  connection : Connection
  stream : List UInt8
deriving DecidableEq, Repr

/-- `owned_message`; the connections are numbered in the order they were accepted. -/
structure OwnedMessage where
  remote : Nat
  msg : Message
deriving DecidableEq, Repr

/-- The connections and `m_qMessagesIn`. -/
structure Listener where
  peers : List Peer
  qMessagesIn : List OwnedMessage
deriving DecidableEq, Repr

inductive ListenerEvent
  /-- the handler of `async_accept` makes a connection -/
  | accept (now : UInt64)
  /-- the `i`-th peer writes -/
  | peerWrites (i : Nat) (bytes : List UInt8)
  | out (i : Nat) (e : OutEvent)
  | inn (i : Nat) (e : InEvent)
  /-- the `j`-th read of the `i`-th connection completes with an error -/
  | readFails (i j : Nat)
  /-- `Update` takes the first message -/
  | update
deriving DecidableEq, Repr

namespace Listener

def start : Listener := ⟨[], []⟩

/-- The messages a step added to those of its connection go to the queue of the server. -/
def enqueue (i : Nat) (old new : Connection) (q : List OwnedMessage) : List OwnedMessage :=
  q ++ (new.inn.qMessagesIn.drop old.inn.qMessagesIn.length).map (OwnedMessage.mk i)

def step (l : Listener) : ListenerEvent → Option Listener
  | .accept now => some { l with peers := l.peers ++ [⟨End.onBegin (.ofServer now), []⟩] }
  | .peerWrites i bytes =>
    l.peers[i]?.map fun p =>
      { l with peers := l.peers.set i { p with stream := p.stream ++ bytes } }
  | .out i e =>
    l.peers[i]?.bind fun p => (p.connection.stepOut e).map fun c =>
      { l with peers := l.peers.set i { p with connection := c } }
  | .inn i e =>
    l.peers[i]?.bind fun p => (p.connection.stepIn p.stream e).map fun c =>
      { peers := l.peers.set i { p with connection := c }
        qMessagesIn := enqueue i p.connection c l.qMessagesIn }
  | .readFails i j =>
    l.peers[i]?.bind fun p => p.connection.inn.reads[j]?.map fun _ =>
      { l with peers := l.peers.set i { p with connection := { p.connection with
          inn := { p.connection.inn with reads := p.connection.inn.reads.eraseIdx j }
          socketOpen := false } } }
  | .update => if l.qMessagesIn = [] then none else some { l with qMessagesIn := l.qMessagesIn.tail }

end Listener

namespace Peer

/-- The first eight bytes of the peer are the answer to the challenge. -/
def Answered (p : Peer) : Prop :=
  8 ≤ p.stream.length ∧
    Codec.u64.decode (p.stream.take 8) = scramble p.connection.nHandshakeOut

/-- The first eight bytes are something else. -/
def AnsweredWrongly (p : Peer) : Prop :=
  8 ≤ p.stream.length ∧
    Codec.u64.decode (p.stream.take 8) ≠ scramble p.connection.nHandshakeOut

instance (p : Peer) : Decidable p.AnsweredWrongly := inferInstanceAs (Decidable (_ ∧ _))

/-- The answer is awaited, messages are read, or nothing is read any more. -/
def Phase (p : Peer) : Prop :=
  (∃ got, p.connection.inn.reads = [⟨.readValidation, 8, got⟩] ∧
    p.connection.inn.consumed = got.length ∧ got <+: p.stream) ∨
  (p.Answered ∧ p.connection.inn.reads.length ≤ 1 ∧
    ∀ r ∈ p.connection.inn.reads, r.op ≠ .readValidation) ∨
  (p.connection.inn.reads = [] ∧ p.connection.socketOpen = false)

structure Sound (p : Peer) : Prop where
  owner : p.connection.ownerType = .server
  check : p.connection.nHandshakeCheck = scramble p.connection.nHandshakeOut
  phase : p.Phase

variable {p p' : Peer}

theorem Answered.mono (h : p.Answered)
    (hout : p'.connection.nHandshakeOut = p.connection.nHandshakeOut)
    (hstream : p.stream <+: p'.stream) : p'.Answered := by
  obtain ⟨hlen, hanswer⟩ := h
  obtain ⟨tail, htail⟩ := hstream
  refine ⟨?_, ?_⟩
  · rw [← htail, List.length_append]
    exact Nat.le_add_right_of_le hlen
  · rw [hout, ← htail, List.take_append_of_le_length hlen]
    exact hanswer

theorem sound_accept (now : UInt64) : Sound ⟨End.onBegin (.ofServer now), []⟩ where
  owner := rfl
  check := rfl
  phase := Or.inl ⟨[], rfl, rfl, List.nil_prefix⟩

theorem Sound.writes (h : p.Sound) (bytes : List UInt8) :
    Sound { p with stream := p.stream ++ bytes } := by
  refine ⟨h.owner, h.check, ?_⟩
  rcases h.phase with ⟨got, hr, hc, hgot⟩ | ⟨ha, hreads⟩ | hclosed
  · exact Or.inl ⟨got, hr, hc, hgot.trans (List.prefix_append _ _)⟩
  · exact Or.inr (Or.inl ⟨ha.mono rfl (List.prefix_append _ _), hreads⟩)
  · exact Or.inr (Or.inr hclosed)

theorem Sound.fails (h : p.Sound) {j : Nat} {r : PendingRead}
    (hj : p.connection.inn.reads[j]? = some r) : Sound { p with connection := { p.connection with
      inn := { p.connection.inn with reads := p.connection.inn.reads.eraseIdx j }
      socketOpen := false } } := by
  have hone : p.connection.inn.reads.length ≤ 1 := by
    rcases h.phase with ⟨got, hr, -, -⟩ | ⟨-, hone, -⟩ | ⟨hnone, -⟩
    · simp [hr]
    · exact hone
    · simp [hnone]
  have hlt : j < p.connection.inn.reads.length := (List.getElem?_eq_some_iff.mp hj).1
  have herase : p.connection.inn.reads.eraseIdx j = [] := by
    have hlen := List.length_eraseIdx_of_lt hlt
    exact List.eq_nil_of_length_eq_zero (by omega)
  exact ⟨h.owner, h.check, Or.inr (Or.inr ⟨herase, rfl⟩)⟩

end Peer

theorem Incoming.step_reads {stream : List UInt8} {c c' : Incoming} {e : InEvent}
    (hone : c.reads.length ≤ 1) (h : c.step stream e = some c') : c'.reads.length ≤ 1 := by
  unfold Incoming.step at h
  cases e with
  | receive i k =>
    cases hi : c.reads[i]? with
    | none => simp [hi] at h
    | some r =>
      simp only [hi, Option.ite_none_right_eq_some, Option.some.injEq] at h
      obtain ⟨-, rfl⟩ := h
      simpa using hone
  | received i =>
    cases hi : c.reads[i]? with
    | none => simp [hi] at h
    | some r =>
      simp only [hi, Option.ite_none_right_eq_some, Option.some.injEq] at h
      obtain ⟨-, rfl⟩ := h
      have hlt : i < c.reads.length := (List.getElem?_eq_some_iff.mp hi).1
      have herase : c.reads.eraseIdx i = [] := by
        have hlen := List.length_eraseIdx_of_lt hlt
        exact List.eq_nil_of_length_eq_zero (by omega)
      rw [herase]
      cases r.op with
      | readHeader =>
        simp only [onReceived]
        split
        · simp [readBody, asyncRead]
        · simp [addToIncomingMessageQueue, readHeader, asyncRead]
      | readBody => simp [onReceived, addToIncomingMessageQueue, readHeader, asyncRead]
      | readValidation => simp [onReceived]

namespace Peer
variable {p : Peer}

theorem stepIn_check {stream : List UInt8} {c c' : Connection} {e : InEvent}
    (h : c.stepIn stream e = some c') (howner : c.ownerType = .server) :
    c'.nHandshakeOut = c.nHandshakeOut := by
  rcases Connection.stepIn_cases h with ⟨i, want, got, -, -, rfl⟩ | ⟨inn, -, rfl⟩
  · by_cases hmatch : Codec.u64.decode got = c.nHandshakeCheck
    · simp [Connection.onReadValidation, howner, hmatch, Connection.send]
    · simp [Connection.onReadValidation, howner, hmatch]
  · rfl

/-- A step of the receiving half: only a peer that has answered adds messages. -/
theorem Sound.stepIn (h : p.Sound) {e : InEvent} {c : Connection}
    (hstep : p.connection.stepIn p.stream e = some c) : Sound { p with connection := c } ∧
      (p.Answered ∨ c.inn.qMessagesIn = p.connection.inn.qMessagesIn) := by
  obtain ⟨howner, hcheck⟩ := Connection.stepIn_frame hstep
  have hout := stepIn_check hstep h.owner
  have hsound : Phase { p with connection := c } → Sound { p with connection := c } := fun hphase =>
    ⟨howner.trans h.owner, by simp only [hcheck, hout, h.check], hphase⟩
  rcases h.phase with ⟨got, hr, hc, hgot⟩ | ⟨ha, hone, hreads⟩ | ⟨hreads, hclosed⟩
  · rcases Connection.stepIn_readValidation hr hgot hc hstep with ⟨got', hgot', rfl⟩ | ⟨hlen, rfl⟩
    · exact ⟨hsound (Or.inl ⟨got', rfl, rfl, hgot'⟩), Or.inr rfl⟩
    · have hle := hgot.length_le
      rw [hlen] at hle
      have htake : p.stream.take 8 = got := by
        obtain ⟨tail, htail⟩ := hgot
        rw [← htail, List.take_left' hlen]
      by_cases hmatch : Codec.u64.decode got = p.connection.nHandshakeCheck
      · have ha : p.Answered := ⟨hle, by rw [htake, hmatch, h.check]⟩
        refine ⟨hsound (Or.inr (Or.inl ⟨ha.mono hout List.prefix_rfl, ?_, ?_⟩)), Or.inl ha⟩
        · simp [Connection.onReadValidation, h.owner, hmatch, Connection.send, Incoming.readHeader,
            Incoming.asyncRead]
        · simp [Connection.onReadValidation, h.owner, hmatch, Connection.send, Incoming.readHeader,
            Incoming.asyncRead]
      · refine ⟨hsound (Or.inr (Or.inr ?_)), Or.inr ?_⟩
        · simp [Connection.onReadValidation, h.owner, hmatch]
        · simp [Connection.onReadValidation, h.owner, hmatch]
  · refine ⟨hsound (Or.inr (Or.inl ⟨ha.mono hout List.prefix_rfl, ?_, ?_⟩)), Or.inl ha⟩
    · rcases Connection.stepIn_cases hstep with ⟨i, want, got, hi, -, rfl⟩ | ⟨inn, hinn, rfl⟩
      · exact absurd rfl (hreads _ (List.mem_of_getElem? hi))
      · exact Incoming.step_reads hone hinn
    · exact (Connection.stepIn_message hreads hstep).2
  · rcases Connection.stepIn_cases hstep with ⟨i, want, got, hi, -, -⟩ | ⟨inn, hinn, -⟩
    · simp [hreads] at hi
    · cases e <;> simp [Incoming.step, hreads] at hinn

theorem Sound.stepOut (h : p.Sound) {e : OutEvent} {c : Connection}
    (hstep : p.connection.stepOut e = some c) : Sound { p with connection := c } := by
  have hc : c = { p.connection with out := c.out } := by
    obtain ⟨out, -, rfl⟩ := Option.map_eq_some_iff.mp hstep
    cases e with
    | task => rfl
    | transfer i k => rfl
    | written i => simp [h.owner]
  rw [hc]
  exact ⟨h.owner, h.check, h.phase⟩

end Peer

namespace Listener

/-- All connections are sound, and every message in the queue is from a peer that has
answered. -/
structure Guarded (l : Listener) : Prop where
  peers : ∀ p ∈ l.peers, p.Sound
  queue : ∀ om ∈ l.qMessagesIn, ∃ p, l.peers[om.remote]? = some p ∧ p.Answered

theorem Guarded.set {l : Listener} {i : Nat} {p p' : Peer} {new : List OwnedMessage}
    (h : Guarded l) (hi : l.peers[i]? = some p) (hp : p'.Sound)
    (hanswered : p.Answered → p'.Answered)
    (hnew : ∀ om ∈ new, om.remote = i ∧ p.Answered) :
    Guarded ⟨l.peers.set i p', l.qMessagesIn ++ new⟩ := by
  have hlt : i < l.peers.length := (List.getElem?_eq_some_iff.mp hi).1
  refine ⟨fun q hq => ?_, fun om hom => ?_⟩
  · rcases List.mem_or_eq_of_mem_set hq with hq | rfl
    · exact h.peers q hq
    · exact hp
  · have hself : (l.peers.set i p')[i]? = some p' := by simp [hlt]
    rcases List.mem_append.mp hom with hom | hom
    · obtain ⟨q, hq, ha⟩ := h.queue om hom
      by_cases heq : i = om.remote
      · subst heq
        cases hi.symm.trans hq
        exact ⟨p', hself, hanswered ha⟩
      · exact ⟨q, by simp [List.getElem?_set_ne heq, hq], ha⟩
    · obtain ⟨hremote, ha⟩ := hnew om hom
      exact ⟨p', by rw [hremote, hself], hanswered ha⟩

theorem Guarded.step {l l' : Listener} {e : ListenerEvent} (h : Guarded l)
    (hstep : l.step e = some l') : Guarded l' := by
  have hnone : ∀ i (p : Peer), ∀ om ∈ ([] : List OwnedMessage), om.remote = i ∧ p.Answered :=
    fun _ _ om hom => absurd hom List.not_mem_nil
  cases e with
  | accept now =>
    cases hstep
    refine ⟨fun p hp => ?_, fun om hom => ?_⟩
    · rcases List.mem_append.mp hp with hp | hp
      · exact h.peers p hp
      · cases List.mem_singleton.mp hp
        exact Peer.sound_accept now
    · obtain ⟨p, hp, ha⟩ := h.queue om hom
      have hlt := (List.getElem?_eq_some_iff.mp hp).1
      exact ⟨p, by simp [List.getElem?_append_left hlt, hp], ha⟩
  | peerWrites i bytes =>
    obtain ⟨p, hp, rfl⟩ := Option.map_eq_some_iff.mp hstep
    have hset := h.set hp ((h.peers p (List.mem_of_getElem? hp)).writes bytes)
      (fun ha => ha.mono rfl (List.prefix_append _ _)) (hnone i p)
    simpa using hset
  | out i e =>
    obtain ⟨p, hp, hstep⟩ := Option.bind_eq_some_iff.mp hstep
    obtain ⟨c, hc, rfl⟩ := Option.map_eq_some_iff.mp hstep
    have hset := h.set hp ((h.peers p (List.mem_of_getElem? hp)).stepOut hc)
      (fun ha => ha.mono ?_ List.prefix_rfl) (hnone i p)
    · simpa using hset
    · obtain ⟨out, -, rfl⟩ := Option.map_eq_some_iff.mp hc
      cases e with
      | task => rfl
      | transfer i k => rfl
      | written i => simp [(h.peers p (List.mem_of_getElem? hp)).owner]
  | inn i e =>
    obtain ⟨p, hp, hstep⟩ := Option.bind_eq_some_iff.mp hstep
    obtain ⟨c, hc, rfl⟩ := Option.map_eq_some_iff.mp hstep
    have hsound := h.peers p (List.mem_of_getElem? hp)
    obtain ⟨hp', hadd⟩ := hsound.stepIn hc
    refine h.set hp hp' (fun ha => ha.mono (Peer.stepIn_check hc hsound.owner) List.prefix_rfl)
      fun om hom => ?_
    obtain ⟨m, hm, rfl⟩ := List.mem_map.mp hom
    refine ⟨rfl, hadd.resolve_right fun hsame => ?_⟩
    rw [hsame, List.drop_length] at hm
    exact absurd hm List.not_mem_nil
  | readFails i j =>
    obtain ⟨p, hp, hstep⟩ := Option.bind_eq_some_iff.mp hstep
    obtain ⟨r, hr, rfl⟩ := Option.map_eq_some_iff.mp hstep
    have hset := h.set hp ((h.peers p (List.mem_of_getElem? hp)).fails hr)
      (fun ha => ha.mono rfl List.prefix_rfl) (hnone i p)
    simpa using hset
  | update =>
    simp only [Listener.step, Option.ite_none_left_eq_some, Option.some.injEq] at hstep
    obtain ⟨-, rfl⟩ := hstep
    exact ⟨h.peers, fun om hom => h.queue om (List.mem_of_mem_tail hom)⟩

/-- Every message is from a validated peer. A peer that answered wrongly is read only for
its answer and closed afterwards, none of its messages arrives, and no connection has two
reads outstanding. -/
theorem validated_only {es : List ListenerEvent} {l : Listener}
    (hrun : Machine.run step start es = some l) :
    (∀ om ∈ l.qMessagesIn, ∃ p, l.peers[om.remote]? = some p ∧
      p.connection.nHandshakeCheck = scramble p.connection.nHandshakeOut ∧ 8 ≤ p.stream.length ∧
      Codec.u64.decode (p.stream.take 8) = p.connection.nHandshakeCheck) ∧
    (∀ i p, l.peers[i]? = some p → p.AnsweredWrongly →
      (∀ r ∈ p.connection.inn.reads, r.op = .readValidation) ∧
      (p.connection.inn.reads = [] → p.connection.socketOpen = false) ∧
      ∀ om ∈ l.qMessagesIn, om.remote ≠ i) ∧
    ∀ p ∈ l.peers, p.connection.inn.reads.length ≤ 1 := by
  have h : Guarded l := Machine.invariant (fun _ _ _ hl hstep => hl.step hstep)
    (⟨fun p hp => absurd hp List.not_mem_nil, fun om hom => absurd hom List.not_mem_nil⟩ :
      Guarded start) hrun
  refine ⟨fun om hom => ?_, fun i p hi hwrong => ?_, fun p hp => ?_⟩
  · obtain ⟨p, hp, hlen, hanswer⟩ := h.queue om hom
    have hcheck := (h.peers p (List.mem_of_getElem? hp)).check
    exact ⟨p, hp, hcheck, hlen, hanswer.trans hcheck.symm⟩
  · have hnot : ¬ p.Answered := fun ha => hwrong.2 ha.2
    refine ⟨?_, ?_, fun om hom heq => ?_⟩
    · intro r hr
      rcases (h.peers p (List.mem_of_getElem? hi)).phase with ⟨got, hreads, -⟩ | ⟨ha, -⟩ | ⟨hreads, -⟩
      · rw [hreads] at hr
        cases List.mem_singleton.mp hr
        rfl
      · exact absurd ha hnot
      · rw [hreads] at hr
        exact absurd hr List.not_mem_nil
    · intro hreads
      rcases (h.peers p (List.mem_of_getElem? hi)).phase with ⟨got, hr, -⟩ | ⟨ha, -⟩ | ⟨-, hclosed⟩
      · exact nomatch hreads.symm.trans hr
      · exact absurd ha hnot
      · exact hclosed
    · obtain ⟨q, hq, ha⟩ := h.queue om hom
      rw [heq] at hq
      cases hi.symm.trans hq
      exact hnot ha
  · rcases (h.peers p hp).phase with ⟨got, hr, -⟩ | ⟨-, hone, -⟩ | ⟨hr, -⟩
    · simp [hr]
    · exact hone
    · simp [hr]

/-- The first peer answers its challenge and sends a message without a body, the second one
answers with zeros and sends the same message. -/
def rightAndWrong : List ListenerEvent :=
  let answer := Codec.u64.encode (scramble 0)
  let header := Codec.u32.encode ECustomMetaMSG.clientJustCheck.code ++ Codec.u32.encode 0
  [.accept 0, .accept 1, .peerWrites 0 (answer ++ header),
    .peerWrites 1 (List.replicate 8 0 ++ header), .inn 0 (.receive 0 8), .inn 1 (.receive 0 8),
    .inn 0 (.received 0), .inn 1 (.received 0), .inn 0 (.receive 0 8), .inn 0 (.received 0)]

/-- The message of the first peer arrives, the second one is closed and not read any more. -/
theorem validated_only_two : ∃ l p q, Machine.run step start rightAndWrong = some l ∧
    l.qMessagesIn = [⟨0, .ofID .clientJustCheck⟩] ∧ l.peers = [p, q] ∧
    p.connection.nHandshakeCheck = scramble p.connection.nHandshakeOut ∧
    Codec.u64.decode (p.stream.take 8) = p.connection.nHandshakeCheck ∧
    p.connection.inn.reads.length = 1 ∧
    q.AnsweredWrongly ∧ q.connection.inn.reads = [] ∧ q.connection.socketOpen = false ∧
    (∀ om ∈ l.qMessagesIn, om.remote ≠ 1) ∧ ∀ p ∈ l.peers, p.connection.inn.reads.length ≤ 1 := by
  have hrun : ((Machine.run step start rightAndWrong).map fun l => (l.qMessagesIn,
      l.peers.map fun p => (decide p.AnsweredWrongly, p.connection.inn.reads.length))) =
      some ([⟨0, .ofID .clientJustCheck⟩], [(false, 1), (true, 0)]) := by decide +kernel
  obtain ⟨l, hl, hstate⟩ := Option.map_eq_some_iff.mp hrun
  obtain ⟨hqueue, hpeers⟩ := Prod.mk.inj hstate
  obtain ⟨p, tail, hpq, hp, htail⟩ := List.map_eq_cons_iff.mp hpeers
  obtain ⟨q, rest, rfl, hq, hrest⟩ := List.map_eq_cons_iff.mp htail
  obtain rfl := List.map_eq_nil_iff.mp hrest
  obtain ⟨-, hreading⟩ := Prod.mk.inj hp
  obtain ⟨hwrong, hnone⟩ := Prod.mk.inj hq
  obtain ⟨hfrom, hrefused, hone⟩ := validated_only hl
  have hfirst : l.peers[0]? = some p := by rw [hpq]; rfl
  have hsecond : l.peers[1]? = some q := by rw [hpq]; rfl
  obtain ⟨p', hp', hcheck, -, hanswer⟩ := hfrom ⟨0, .ofID .clientJustCheck⟩ (by simp [hqueue])
  cases hfirst.symm.trans hp'
  have hwrong := of_decide_eq_true hwrong
  have hreads := List.length_eq_zero_iff.mp hnone
  obtain ⟨-, hclosed, hapart⟩ := hrefused 1 q hsecond hwrong
  exact ⟨l, p, q, hl, hqueue, hpq, hcheck, hanswer, hreading, hwrong, hreads, hclosed hreads, hapart,
    hone⟩

end Listener

end AsciiTerra
