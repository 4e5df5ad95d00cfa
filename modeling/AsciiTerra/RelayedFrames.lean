import AsciiTerra.Framing
import AsciiTerra.Handlers
import AsciiTerra.SentSizes

/-!
# Messages that are sent on

`ServerPing` and `GameUpdatePlayer` leave the server as they came out of the receiving loop
of their connection. That loop leaves the body of the last message in place when a header
states size 0, and then the message that is sent on has a body that its header hides.
-/

set_option autoImplicit false

namespace AsciiTerra

namespace Incoming

/-- A message with this header is built on what is left in the temporary message. -/
def Stale (c : Incoming) : InEvent → Prop
  | .receive _ _ => False
  | .received i => ∃ r, c.reads[i]? = some r ∧ r.op = .readHeader ∧ r.got.length = r.want ∧
      Message.Relayed ⟨Layout.messageHeader.decode r.got, []⟩ ∧
      (Layout.messageHeader.decode r.got).size = 0 ∧ c.msgTemporaryIn.body ≠ []

instance (c : Incoming) : (e : InEvent) → Decidable (c.Stale e)
  | .receive _ _ => .isFalse id
  | .received i => decidable_of_iff (∃ r ∈ c.reads[i]?, r.op = .readHeader ∧
      r.got.length = r.want ∧ Message.Relayed ⟨Layout.messageHeader.decode r.got, []⟩ ∧
      (Layout.messageHeader.decode r.got).size = 0 ∧ c.msgTemporaryIn.body ≠ []) Iff.rfl

/-- What is sent on states its size, and the body that is being read has the stated one. -/
structure Sound (c : Incoming) : Prop where
  queue : ∀ msg ∈ c.qMessagesIn, msg.Relayed → msg.SizeMatches
  reads : ∃ r, c.reads = [r] ∧ r.op ≠ .readValidation ∧
    (r.op = .readBody → r.want = c.msgTemporaryIn.header.size.toNat)

theorem sound_idle : idle.Sound :=
  ⟨fun msg hmsg => (nomatch hmsg), _, rfl, by decide, fun h => (nomatch h)⟩

theorem Sound.add {c : Incoming} (hqueue : ∀ msg ∈ c.qMessagesIn, msg.Relayed → msg.SizeMatches)
    (hreads : c.reads = []) (hmsg : c.msgTemporaryIn.Relayed → c.msgTemporaryIn.SizeMatches) :
    c.addToIncomingMessageQueue.Sound := by
  refine ⟨fun msg hmem => ?_, ⟨.readHeader, Layout.messageHeader.size, []⟩, ?_,
    by decide, fun h => (nomatch h)⟩
  · rcases List.mem_append.mp hmem with hmem | hmem
    · exact hqueue msg hmem
    · rw [List.mem_singleton.mp hmem]
      exact hmsg
  · show c.reads ++ [_] = _
    rw [hreads]
    rfl

theorem Sound.step {c c' : Incoming} {stream : List UInt8} {e : InEvent} (h : c.Sound)
    (hfresh : ¬ c.Stale e) (hc : c.step stream e = some c') : c'.Sound := by
  obtain ⟨r, hreads, hop, hwant⟩ := h.reads
  cases e with
  | receive i k =>
    simp only [Incoming.step, hreads] at hc
    split at hc
    · cases hc
    · rename_i r' hi
      obtain ⟨rfl, rfl⟩ : i = 0 ∧ r' = r := by
        cases i with
        | zero => exact ⟨rfl, (Option.some.inj hi).symm⟩
        | succ i => cases hi
      split at hc
      · cases hc
        exact ⟨h.queue, _, rfl, hop, hwant⟩
      · cases hc
  | received i =>
    simp only [Incoming.step, hreads] at hc
    split at hc
    · cases hc
    · rename_i r' hi
      obtain ⟨rfl, rfl⟩ : i = 0 ∧ r' = r := by
        cases i with
        | zero => exact ⟨rfl, (Option.some.inj hi).symm⟩
        | succ i => cases hi
      split at hc
      · rename_i hfull
        cases hc
        unfold onReceived
        cases hread : r'.op with
        | readHeader =>
          simp only
          split
          · refine ⟨h.queue, _, rfl, fun h => (by cases h), fun _ => ?_⟩
            exact length_resize _ _
          · rename_i hsize
            have hzero : (Layout.messageHeader.decode r'.got).size = 0 := by
              apply UInt32.toNat_inj.mp
              have hle := UInt32.lt_iff_toNat_lt.not.mp hsize
              simpa using hle
            refine Sound.add h.queue rfl fun hrelayed => ?_
            have hempty : c.msgTemporaryIn.body = [] := by
              by_contra hne
              refine hfresh ⟨r', by rw [hreads]; rfl, hread, hfull, hrelayed, hzero, hne⟩
            unfold Message.SizeMatches
            simp only [hzero, hempty]
            rfl
        | readBody =>
          refine Sound.add h.queue rfl fun _ => ?_
          exact ((hwant hread).symm.trans hfull.symm)
        | readValidation => exact absurd hread hop
      · cases hc

end Incoming

/-- The server, the receiving half of each connection and the bytes its peer has put on the wire.
`m_qMessagesIn` is kept apart by connection, so that the messages of two clients may be
handled in any order. -/
structure Host where
  server : Server
  incoming : UInt32 → Incoming
  streams : UInt32 → List UInt8

inductive HostEvent
  /-- anything but the handling of a message -/
  | server (e : Server.Event)
  /-- a peer puts bytes on the wire -/
  | wire (c : UInt32) (bytes : List UInt8)
  /-- a step of the receiving loop of a connection -/
  | incoming (c : UInt32) (e : InEvent)
  /-- `Update` hands the next message of a client to `OnMessage` -/
  | update (depth : Nat) (chance : Chance) (c : UInt32)

namespace Host

def start (mapRand enemyRand : Nat → Nat) (closing : Nat → List UInt32) : Host :=
  ⟨Server.start mapRand enemyRand closing, fun _ => Incoming.idle, fun _ => []⟩

def step (h : Host) : HostEvent → Option Host
  | .server (.message _ _ _ _) => none
  | .server e => (h.server.step e).map fun s => { h with server := s }
  | .wire c bytes => some { h with streams := Function.update h.streams c (h.streams c ++ bytes) }
  | .incoming c e =>
    ((h.incoming c).step (h.streams c) e).map fun i =>
      { h with incoming := Function.update h.incoming c i }
  | .update depth chance c =>
    match (h.incoming c).qMessagesIn with
    | [] => none
    | msg :: rest =>
      (h.server.step (.message depth chance c msg)).map fun s =>
        { h with
          server := s
          incoming := Function.update h.incoming c { h.incoming c with qMessagesIn := rest } }

/-- A `ServerPing` or `GameUpdatePlayer` of size 0 comes from a client after a message with a
body. -/
def Stale (h : Host) : HostEvent → Prop
  | .incoming c e => (h.incoming c).Stale e
  | _ => False

instance (h : Host) : (e : HostEvent) → Decidable (h.Stale e)
  | .incoming c e => inferInstanceAs (Decidable ((h.incoming c).Stale e))
  | .server _ => .isFalse id
  | .wire _ _ => .isFalse id
  | .update _ _ _ => .isFalse id

/-- The invariant of the server with its connections. -/
structure Sound (h : Host) : Prop where
  sent : h.server.SizesMatch
  incoming : ∀ c, (h.incoming c).Sound

theorem sound_update {incoming : UInt32 → Incoming} (h : ∀ c, (incoming c).Sound) {c : UInt32}
    {i : Incoming} (hi : i.Sound) (d : UInt32) : (Function.update incoming c i d).Sound := by
  by_cases heq : d = c
  · rw [heq, Function.update_self]
    exact hi
  · rw [Function.update_of_ne heq]
    exact h d

theorem step_server {s t : Server} {e : Server.Event} (hs : s.SizesMatch)
    (hmsg : ∀ n chance c msg, e = .message n chance c msg → msg.Relayed → msg.SizeMatches)
    (h : s.step e = some t) : t.SizesMatch := by
  cases Server.step_cases h with
  | accept _ =>
    exact hs.send (by decide) _
  | validated c _ =>
    exact hs.send (by decide) c
  | close c _ =>
    exact hs
  | shyCheck n hok =>
    have hcheck : (Message.ofID .serverShyConnectionCheck).SizeMatches := by decide
    exact Server.messageAllClients_sizes (Server.onClientDisconnect_sizes n) hcheck none hs t hok
  | message n chance c msg _ hok =>
    exact Server.onMessage_sizes (Server.onClientDisconnect_sizes n) chance c
      (hmsg n chance c msg rfl) hs t hok

theorem Sound.step {h h' : Host} {e : HostEvent} (hs : h.Sound) (hfresh : ¬ h.Stale e)
    (hstep : h.step e = some h') : h'.Sound := by
  cases e with
  | server e =>
    cases e with
    | message n chance c msg => cases hstep
    | accept | validated _ | close _ | shyCheck _ =>
      obtain ⟨s, hserver, rfl⟩ := Option.map_eq_some_iff.mp hstep
      refine ⟨step_server hs.sent ?_ hserver, hs.incoming⟩
      intro n chance c msg heq
      cases heq
  | wire c bytes =>
    cases hstep
    exact ⟨hs.sent, hs.incoming⟩
  | incoming c e =>
    obtain ⟨i, hi, rfl⟩ := Option.map_eq_some_iff.mp hstep
    exact ⟨hs.sent, sound_update hs.incoming ((hs.incoming c).step hfresh hi)⟩
  | update depth chance c =>
    simp only [Host.step] at hstep
    split at hstep
    · cases hstep
    · rename_i msg rest hqueue
      obtain ⟨s, hserver, rfl⟩ := Option.map_eq_some_iff.mp hstep
      have hc := hs.incoming c
      refine ⟨step_server hs.sent ?_ hserver, sound_update hs.incoming ⟨?_, hc.reads⟩⟩
      · rintro n chance' c' msg' heq
        cases heq
        exact hc.queue msg (hqueue ▸ List.mem_cons_self)
      · intro msg' hmem
        exact hc.queue msg' (hqueue ▸ List.mem_cons_of_mem msg hmem)

/-- The messages that were handed to `Send` for a client, in order. -/
def sentTo (h : Host) (c : UInt32) : List Message :=
  (h.server.sent.filter fun p => p.1 = c).map Prod.snd

theorem headers_deliver (body : List UInt8) (ms : List Message) :
    (deliver body ms).map Message.header = ms.map Message.header := by
  induction ms generalizing body with
  | nil => rfl
  | cons m ms ih =>
    unfold deliver
    split
    · rw [List.map_cons, List.map_cons, ih]
    · rw [List.map_cons, List.map_cons, ih]

/-- What is handed to `Send` states the size of its body, and the clients find the headers. -/
theorem sent_sizes {mapRand enemyRand : Nat → Nat} {closing : Nat → List UInt32}
    {events : List HostEvent} {h : Host}
    (hrun : Machine.run step (start mapRand enemyRand closing) events = some h)
    (hfresh : Machine.Along step (fun h e => ¬ h.Stale e) (start mapRand enemyRand closing) events) :
    (∀ p ∈ h.server.sent, p.2.header.size.toNat = p.2.body.length) ∧
      ∀ c es l, Machine.run Link.step (Link.start (h.sentTo c)) es = some l →
        Machine.Stuck Link.step l →
        l.inn.qMessagesIn.map Message.header = (h.sentTo c).map Message.header := by
  have hsound : h.Sound := by
    refine Machine.invariant_along (I := Sound) (fun _ _ _ hs hfresh hstep => hs.step hfresh hstep)
      ?_ hfresh hrun
    exact ⟨fun p hp => (nomatch hp), fun _ => Incoming.sound_idle⟩
  refine ⟨hsound.sent, fun c es l hlink hstuck => ?_⟩
  have hsizes : ∀ m ∈ h.sentTo c, m.SizeMatches := by
    intro m hm
    obtain ⟨p, hp, rfl⟩ := List.mem_map.mp hm
    exact hsound.sent p (List.mem_of_mem_filter hp)
  rw [(Link.run_delivers hsizes hlink).2 hstuck, headers_deliver]

/-- A `ServerPing` with one byte. -/
def pingWithByte : Message := (Message.ofID .serverPing).push Codec.u8 7

/-- The receiving loop reads the body of a message of one byte. -/
def readByte : List HostEvent := [.incoming 10000 (.receive 0 1), .incoming 10000 (.received 0)]

def readHeader : List HostEvent := [.incoming 10000 (.receive 0 8), .incoming 10000 (.received 0)]

/-- A client connects and sends two messages. -/
def twoFrames (first second : Message) : List HostEvent :=
  [.server .accept, .wire 10000 (first.frame ++ second.frame)]

def twoUpdates : List HostEvent := [.update 0 (.always 0) 10000, .update 0 (.always 0) 10000]

/-- The empty ping first: both come back as they were sent. -/
theorem sent_sizes_emptyFirst : ∃ h : Host, Machine.run step (start (fun _ => 0) (fun _ => 0) fun _ => [])
      (twoFrames (.ofID .serverPing) pingWithByte ++ readHeader ++ readHeader ++ readByte ++ twoUpdates) =
        some h ∧
    (∀ p ∈ h.server.sent, p.2.header.size.toNat = p.2.body.length) ∧
      ∀ c es l, Machine.run Link.step (Link.start (h.sentTo c)) es = some l →
        Machine.Stuck Link.step l →
        l.inn.qMessagesIn.map Message.header = (h.sentTo c).map Message.header := by
  have hsome : (Machine.run step (start (fun _ => 0) (fun _ => 0) fun _ => [])
      (twoFrames (.ofID .serverPing) pingWithByte ++ readHeader ++ readHeader ++ readByte ++
        twoUpdates)).isSome = true := by decide +kernel
  obtain ⟨h, hrun⟩ := Option.isSome_iff_exists.mp hsome
  exact ⟨h, hrun, sent_sizes hrun (by decide +kernel)⟩

/-- The ping with a byte first: the empty one comes back with the byte behind its header. -/
theorem sent_hiddenBody : ∃ h : Host, Machine.run step (start (fun _ => 0) (fun _ => 0) fun _ => [])
      (twoFrames pingWithByte (.ofID .serverPing) ++ readHeader ++ readByte ++ readHeader ++ twoUpdates) =
        some h ∧
    ¬ ∀ p ∈ h.server.sent, p.2.header.size.toNat = p.2.body.length := by
  have hsome : ((Machine.run step (start (fun _ => 0) (fun _ => 0) fun _ => [])
      (twoFrames pingWithByte (.ofID .serverPing) ++ readHeader ++ readByte ++ readHeader ++
        twoUpdates)).map fun h =>
          decide (∀ p ∈ h.server.sent, p.2.header.size.toNat = p.2.body.length)) = some false := by
    decide +kernel
  obtain ⟨h, hrun, hsent⟩ := Option.map_eq_some_iff.mp hsome
  exact ⟨h, hrun, of_decide_eq_false hsent⟩

end Host

end AsciiTerra
