import AsciiTerra.Connection
import AsciiTerra.Lib.Machine

/-!
# The validation handshake

The server sends a challenge, the client answers with its scrambled value. On the
client the answer and the messages of `Send` are two chains of writes on one socket,
and only the application decides which one starts first.
-/

set_option autoImplicit false

namespace AsciiTerra

def scramble (nInput : UInt64) : UInt64 :=
  let out := nInput ^^^ 0xDEADBEEFC0DECAFE
  let out := (out &&& 0xF0F0F0F0F0F0F0) >>> 4 ||| (out &&& 0x0F0F0F0F0F0F0F) <<< 4
  out ^^^ 0xC0DEFACE12345678

inductive Owner
  | server
  | client
deriving DecidableEq, Repr

structure Connection where
  ownerType : Owner
  out : Outgoing
  inn : Incoming
  nHandshakeOut : UInt64
  nHandshakeIn : UInt64
  nHandshakeCheck : UInt64
  socketOpen : Bool
deriving DecidableEq, Repr

namespace Connection

def ofServer (now : UInt64) : Connection :=
  ⟨.server, Outgoing.idle, ⟨⟨⟨0, 0⟩, []⟩, [], [], 0⟩, now, 0, scramble now, true⟩

def ofClient : Connection :=
  ⟨.client, Outgoing.idle, ⟨⟨⟨0, 0⟩, []⟩, [], [], 0⟩, 0, 0, 0, false⟩

def isConnected (c : Connection) : Bool := c.socketOpen

def send (msg : Message) (c : Connection) : Connection := { c with out := c.out.send msg }

def writeValidation (c : Connection) : Connection :=
  { c with out := c.out.asyncWrite .writeValidation (Codec.u64.encode c.nHandshakeOut) }

/-- `ReadValidationServer` and `ReadValidationClient` issue the same read. -/
def readValidation (c : Connection) : Connection :=
  { c with inn := c.inn.asyncRead .readValidation Codec.u64.size }

/-- The handlers of `ReadValidationServer` and `ReadValidationClient`; the server's also
runs `OnClientValidated`. -/
def onReadValidation (bytes : List UInt8) (c : Connection) : Connection :=
  let nHandshakeIn := Codec.u64.decode bytes
  match c.ownerType with
  | .client =>
    { c with nHandshakeIn := nHandshakeIn, nHandshakeOut := scramble nHandshakeIn }.writeValidation
  | .server =>
    if nHandshakeIn = c.nHandshakeCheck then
      let c := { c with nHandshakeIn := nHandshakeIn }.send (.ofID .clientAccepted)
      { c with inn := c.inn.readHeader }
    else { c with nHandshakeIn := nHandshakeIn, socketOpen := false }

/-- A step of the sending half. After `WriteValidation` a client starts to read. -/
def stepOut (c : Connection) (e : OutEvent) : Option Connection :=
  (c.out.step e).map fun out =>
    match e with
    | .written i =>
      if (c.out.writes[i]?.map PendingWrite.op) = some .writeValidation ∧ c.ownerType = .client then
        { c with out := out, inn := c.inn.readHeader }
      else { c with out := out }
    | _ => { c with out := out }

/-- A step of the receiving half. -/
def stepIn (stream : List UInt8) (c : Connection) (e : InEvent) : Option Connection :=
  match e with
  | .received i =>
    match c.inn.reads[i]? with
    | some ⟨.readValidation, want, got⟩ =>
      if got.length = want then
        some ({ c with inn := { c.inn with reads := c.inn.reads.eraseIdx i } }.onReadValidation got)
      else none
    | _ => (c.inn.step stream e).map fun inn => { c with inn := inn }
  | .receive _ _ => (c.inn.step stream e).map fun inn => { c with inn := inn }

end Connection

/-- A client that connects and a server that validates it. -/
structure Handshake where
  client : Connection
  server : Connection
  /-- the TCP connection is there -/
  established : Bool
  /-- the handler of `async_connect` has run -/
  connected : Bool
deriving DecidableEq, Repr

/-- The steps of the two programs and of the network, in any order. -/
inductive HandshakeEvent
  /-- `async_connect` opens the socket -/
  | opened
  | established
  | connected
  /-- the application thread of the client calls `Send` -/
  | send (msg : Message)
  | clientOut (e : OutEvent)
  | clientIn (e : InEvent)
  | serverIn (e : InEvent)
deriving DecidableEq, Repr

namespace Handshake

/-- The server has accepted and waits for the answer to `challenge`. -/
def start (challenge : UInt64) : Handshake :=
  ⟨.ofClient, (Connection.ofServer challenge).readValidation, false, false⟩

/-- A step, when the server sends its challenge and then the bytes `later`. Without I/O
errors nothing is written before the connection is there. -/
def step (challenge : UInt64) (later : List UInt8) (h : Handshake) :
    HandshakeEvent → Option Handshake
  | .opened => some { h with client := { h.client with socketOpen := true } }
  | .established =>
    if h.client.socketOpen then some { h with established := true } else none
  | .connected =>
    if h.established && !h.connected then
      some { h with client := h.client.readValidation, connected := true }
    else none
  | .send msg => if h.client.isConnected then some { h with client := h.client.send msg } else none
  | .clientOut e =>
    if h.established then (h.client.stepOut e).map fun c => { h with client := c } else none
  | .clientIn e =>
    (h.client.stepIn (Codec.u64.encode challenge ++ later) e).map fun c => { h with client := c }
  | .serverIn e =>
    (h.server.stepIn h.client.out.written e).map fun c => { h with server := c }

/-- The client answers the challenge first and the server does not turn it away. -/
structure Honoured (challenge : UInt64) (h : Handshake) : Prop where
  answer : h.client.out.written.take 8 <+: Codec.u64.encode (scramble challenge)
  accepted : h.server.socketOpen = true

/-- A task of `Send` only runs once eight bytes are on the wire. -/
def SendsWait (h : Handshake) (e : HandshakeEvent) : Prop :=
  e = .clientOut .task → 8 ≤ h.client.out.written.length

instance (h : Handshake) (e : HandshakeEvent) : Decidable (SendsWait h e) :=
  inferInstanceAs (Decidable (_ → _))

end Handshake

theorem Outgoing.onWritten_written (op : WriteOp) (o : Outgoing) :
    (o.onWritten op).written = o.written := by
  have hheader : ∀ o : Outgoing, o.writeHeader.written = o.written := by
    intro o
    unfold writeHeader
    split <;> rfl
  have hbody : ∀ o : Outgoing, o.writeBody.written = o.written := by
    intro o
    unfold writeBody
    split <;> rfl
  cases op with
  | writeHeader =>
    unfold onWritten
    simp only
    split
    · rfl
    · split
      · exact hbody o
      · exact hheader _
  | writeBody => exact hheader _
  | writeValidation => rfl

theorem Outgoing.step_written {o o' : Outgoing} {e : OutEvent} (h : o.step e = some o') :
    o.written <+: o'.written := by
  unfold Outgoing.step at h
  cases e with
  | task =>
    cases hp : o.posted with
    | nil => simp [hp] at h
    | cons msg posted =>
      simp only [hp, Option.some.injEq] at h
      subst h
      unfold runTask writeHeader
      simp only
      split
      · split <;> exact List.prefix_rfl
      · exact List.prefix_rfl
  | transfer i k =>
    cases hi : o.writes[i]? with
    | none => simp [hi] at h
    | some w =>
      simp only [hi, Option.ite_none_right_eq_some, Option.some.injEq] at h
      obtain ⟨-, rfl⟩ := h
      exact List.prefix_append _ _
  | written i =>
    cases hi : o.writes[i]? with
    | none => simp [hi] at h
    | some w =>
      simp only [hi, Option.ite_none_right_eq_some, Option.some.injEq] at h
      obtain ⟨-, rfl⟩ := h
      rewrite [onWritten_written]
      exact List.prefix_rfl

theorem Incoming.onReceived_op {op : ReadOp} (hop : op ≠ .readValidation) (bytes : List UInt8)
    {c : Incoming} (hc : ∀ r ∈ c.reads, r.op ≠ .readValidation) :
    ∀ r ∈ (c.onReceived op bytes).reads, r.op ≠ .readValidation := by
  have hadd : ∀ (op' : ReadOp) (want : Nat), op' ≠ .readValidation →
      ∀ r ∈ c.reads ++ [⟨op', want, []⟩], r.op ≠ .readValidation := by
    intro op' want hop' r hr
    rcases List.mem_append.mp hr with hr | hr
    · exact hc r hr
    · cases List.mem_singleton.mp hr
      exact hop'
  cases op with
  | readHeader =>
    unfold onReceived
    simp only
    split
    · exact hadd _ _ (by decide)
    · exact hadd _ _ (by decide)
  | readBody => exact hadd _ _ (by decide)
  | readValidation => exact absurd rfl hop

theorem Incoming.step_op {stream : List UInt8} {c c' : Incoming} {e : InEvent}
    (hr : ∀ r ∈ c.reads, r.op ≠ .readValidation) (h : c.step stream e = some c') :
    ∀ r ∈ c'.reads, r.op ≠ .readValidation := by
  unfold Incoming.step at h
  cases e with
  | receive i k =>
    cases hi : c.reads[i]? with
    | none => simp [hi] at h
    | some r =>
      simp only [hi, Option.ite_none_right_eq_some, Option.some.injEq] at h
      obtain ⟨-, rfl⟩ := h
      intro r' hr'
      rcases List.mem_or_eq_of_mem_set hr' with hr' | rfl
      · exact hr r' hr'
      · exact hr r (List.mem_of_getElem? hi)
  | received i =>
    cases hi : c.reads[i]? with
    | none => simp [hi] at h
    | some r =>
      simp only [hi, Option.ite_none_right_eq_some, Option.some.injEq] at h
      obtain ⟨-, rfl⟩ := h
      exact onReceived_op (hr r (List.mem_of_getElem? hi)) _ fun r' hr' =>
        hr r' (List.mem_of_mem_eraseIdx hr')

namespace Connection

theorem stepOut_out {c c' : Connection} {e : OutEvent} (h : c.stepOut e = some c') :
    c.out.step e = some c'.out := by
  obtain ⟨out, hout, rfl⟩ := Option.map_eq_some_iff.mp h
  rw [hout]
  cases e with
  | task => rfl
  | transfer i k => rfl
  | written i =>
    simp only
    split <;> rfl

theorem onReadValidation_written (bytes : List UInt8) (c : Connection) :
    (c.onReadValidation bytes).out.written = c.out.written := by
  unfold onReadValidation
  cases c.ownerType with
  | client => rfl
  | server =>
    simp only
    split <;> rfl

/-- A step of the receiving half is the handler of a validation or a step of the reads of
messages. -/
theorem stepIn_cases {stream : List UInt8} {c c' : Connection} {e : InEvent}
    (h : c.stepIn stream e = some c') :
    (∃ i want got, c.inn.reads[i]? = some ⟨.readValidation, want, got⟩ ∧ got.length = want ∧
      c' = { c with inn := { c.inn with reads := c.inn.reads.eraseIdx i } }.onReadValidation got) ∨
    (∃ inn, c.inn.step stream e = some inn ∧ c' = { c with inn := inn }) := by
  unfold stepIn at h
  split at h
  · rename_i i
    split at h
    · rename_i want got hi
      simp only [Option.ite_none_right_eq_some, Option.some.injEq] at h
      exact Or.inl ⟨i, want, got, hi, h.1, h.2.symm⟩
    · obtain ⟨inn, hinn, hc⟩ := Option.map_eq_some_iff.mp h
      exact Or.inr ⟨inn, hinn, hc.symm⟩
  · obtain ⟨inn, hinn, hc⟩ := Option.map_eq_some_iff.mp h
    exact Or.inr ⟨inn, hinn, hc.symm⟩

theorem stepIn_written {stream : List UInt8} {c c' : Connection} {e : InEvent}
    (h : c.stepIn stream e = some c') : c'.out.written = c.out.written := by
  rcases stepIn_cases h with ⟨i, want, got, -, -, rfl⟩ | ⟨inn, -, rfl⟩
  · exact onReadValidation_written _ _
  · rfl

theorem stepOut_frame {c c' : Connection} {e : OutEvent} (h : c.stepOut e = some c') :
    c'.ownerType = c.ownerType := by
  obtain ⟨out, -, rfl⟩ := Option.map_eq_some_iff.mp h
  cases e with
  | task => rfl
  | transfer i k => rfl
  | written i =>
    simp only
    split <;> rfl

theorem onReadValidation_frame (bytes : List UInt8) (c : Connection) :
    (c.onReadValidation bytes).ownerType = c.ownerType ∧
      (c.onReadValidation bytes).nHandshakeCheck = c.nHandshakeCheck := by
  cases howner : c.ownerType with
  | client => simp [onReadValidation, howner, writeValidation]
  | server =>
    by_cases hmatch : Codec.u64.decode bytes = c.nHandshakeCheck
    · simp [onReadValidation, howner, hmatch, send]
    · simp [onReadValidation, howner, hmatch]

theorem stepIn_frame {stream : List UInt8} {c c' : Connection} {e : InEvent}
    (h : c.stepIn stream e = some c') :
    c'.ownerType = c.ownerType ∧ c'.nHandshakeCheck = c.nHandshakeCheck := by
  rcases stepIn_cases h with ⟨i, want, got, -, -, rfl⟩ | ⟨inn, -, rfl⟩
  · exact onReadValidation_frame _ _
  · exact ⟨rfl, rfl⟩

/-- The read of a validation is not issued again by the reads of messages. -/
theorem stepIn_message {stream : List UInt8} {c c' : Connection} {e : InEvent}
    (hr : ∀ r ∈ c.inn.reads, r.op ≠ .readValidation) (h : c.stepIn stream e = some c') :
    c'.socketOpen = c.socketOpen ∧ ∀ r ∈ c'.inn.reads, r.op ≠ .readValidation := by
  rcases stepIn_cases h with ⟨i, want, got, hi, -, rfl⟩ | ⟨inn, hinn, rfl⟩
  · exact absurd rfl (hr _ (List.mem_of_getElem? hi))
  · exact ⟨rfl, Incoming.step_op hr hinn⟩

theorem stepIn_readValidation {stream got : List UInt8} {c c' : Connection} {e : InEvent}
    (hr : c.inn.reads = [⟨.readValidation, 8, got⟩]) (hgot : got <+: stream)
    (hc : c.inn.consumed = got.length) (h : c.stepIn stream e = some c') :
    (∃ got', got' <+: stream ∧ c' = { c with inn := { c.inn with
      reads := [⟨.readValidation, 8, got'⟩], consumed := got'.length } }) ∨
    (got.length = 8 ∧ c' = { c with inn := { c.inn with reads := [] } }.onReadValidation got) := by
  cases e with
  | receive i k =>
    obtain ⟨inn, hinn, rfl⟩ := Option.map_eq_some_iff.mp h
    obtain rfl : i = 0 := by
      cases i with
      | zero => rfl
      | succ i => simp [Incoming.step, hr] at hinn
    simp only [hr, Incoming.step, List.getElem?_cons_zero, Option.ite_none_right_eq_some,
      Option.some.injEq, List.set_cons_zero] at hinn
    obtain ⟨⟨-, -, havail⟩, rfl⟩ := hinn
    refine Or.inl ⟨got ++ (stream.drop c.inn.consumed).take k, ?_, ?_⟩
    · obtain ⟨tail, rfl⟩ := hgot
      rw [hc, List.drop_left, List.prefix_append_right_inj]
      exact List.take_prefix k tail
    · have hlen : ((stream.drop c.inn.consumed).take k).length = k := by
        rw [List.length_take, List.length_drop]
        omega
      rw [List.length_append, hlen, hc]
  | received i =>
    cases i with
    | succ i => simp [stepIn, Incoming.step, hr] at h
    | zero =>
      simp only [stepIn, hr, List.getElem?_cons_zero, Option.ite_none_right_eq_some,
        Option.some.injEq, List.eraseIdx_zero, List.tail_cons] at h
      exact Or.inr ⟨h.1, h.2.symm⟩

end Connection

namespace Handshake

theorem length_answer (n : UInt64) : (Codec.u64.encode n).length = 8 := Codec.u64.length_encode n

/-- How far the client is: it has answered, or it has sent nothing but part of the answer. -/
def Answering (challenge : UInt64) (later : List UInt8) (h : Handshake) : Prop :=
  Codec.u64.encode (scramble challenge) <+: h.client.out.written ∨
  (h.client.out.writes = [] ∧ h.client.out.written = [] ∧ h.client.inn.reads = [] ∧
    h.client.inn.consumed = 0 ∧ h.connected = false) ∨
  (h.client.out.writes = [] ∧ h.client.out.written = [] ∧ h.connected = true ∧
    ∃ got, h.client.inn.reads = [⟨.readValidation, 8, got⟩] ∧
      h.client.inn.consumed = got.length ∧ got <+: Codec.u64.encode challenge ++ later) ∨
  (h.client.inn.reads = [] ∧ h.connected = true ∧
    ∃ rest, rest ≠ [] ∧ h.client.out.writes = [⟨.writeValidation, rest⟩] ∧
      h.client.out.written ++ rest = Codec.u64.encode (scramble challenge))

/-- The server waits for the answer, has a part of it, or has accepted it. -/
def Awaiting (h : Handshake) : Prop :=
  (∃ got, h.server.inn.reads = [⟨.readValidation, 8, got⟩] ∧
    h.server.inn.consumed = got.length ∧ got <+: h.client.out.written) ∨
  (∀ r ∈ h.server.inn.reads, r.op ≠ .readValidation)

/-- The invariant of runs in which the messages wait. -/
structure Orderly (challenge : UInt64) (later : List UInt8) (h : Handshake) : Prop where
  client : h.client.ownerType = .client
  server : h.server.ownerType = .server
  check : h.server.nHandshakeCheck = scramble challenge
  accepted : h.server.socketOpen = true
  answering : Answering challenge later h
  awaiting : Awaiting h

theorem orderly_start (challenge : UInt64) (later : List UInt8) :
    Orderly challenge later (start challenge) where
  client := rfl
  server := rfl
  check := rfl
  accepted := rfl
  answering := Or.inr (Or.inl ⟨rfl, rfl, rfl, rfl, rfl⟩)
  awaiting := Or.inl ⟨[], rfl, rfl, List.nil_prefix⟩

theorem Answering.of_length {challenge : UInt64} {later : List UInt8} {h : Handshake}
    (ha : Answering challenge later h) (hlen : 8 ≤ h.client.out.written.length) :
    Codec.u64.encode (scramble challenge) <+: h.client.out.written := by
  rcases ha with ha | ⟨-, ha, -⟩ | ⟨-, ha, -⟩ | ⟨-, -, rest, hrest, -, ha⟩
  · exact ha
  · simp [ha] at hlen
  · simp [ha] at hlen
  · have hsum := congrArg List.length ha
    have hpos := List.length_pos_iff.mpr hrest
    rw [List.length_append, length_answer] at hsum
    omega

theorem Answering.answer {challenge : UInt64} {later : List UInt8} {h : Handshake}
    (ha : Answering challenge later h) :
    h.client.out.written.take 8 <+: Codec.u64.encode (scramble challenge) := by
  rcases ha with ha | ⟨-, ha, -⟩ | ⟨-, ha, -⟩ | ⟨-, -, rest, -, -, ha⟩
  · obtain ⟨tail, htail⟩ := ha
    rewrite [← htail, List.take_left' (length_answer _)]
    exact List.prefix_rfl
  · simp [ha]
  · simp [ha]
  · rw [← ha]
    exact (List.take_prefix 8 _).trans (List.prefix_append _ _)

theorem Awaiting.mono {h h' : Handshake} (ha : Awaiting h) (hserver : h'.server = h.server)
    (hwritten : h.client.out.written <+: h'.client.out.written) : Awaiting h' := by
  unfold Awaiting
  rw [hserver]
  rcases ha with ⟨got, hr, hc, hgot⟩ | ha
  · exact Or.inl ⟨got, hr, hc, hgot.trans hwritten⟩
  · exact Or.inr ha

theorem Orderly.stepOut {challenge : UInt64} {later : List UInt8} {h : Handshake} {e : OutEvent}
    {c : Connection} (ho : Orderly challenge later h)
    (hwait : e = .task → 8 ≤ h.client.out.written.length) (hstep : h.client.stepOut e = some c) :
    Orderly challenge later { h with client := c } := by
  have hout := Connection.stepOut_out hstep
  have hgrow := Outgoing.step_written hout
  refine ⟨(Connection.stepOut_frame hstep).trans ho.client, ho.server, ho.check, ho.accepted, ?_,
    ho.awaiting.mono rfl hgrow⟩
  by_cases hlen : 8 ≤ h.client.out.written.length
  · exact Or.inl ((ho.answering.of_length hlen).trans hgrow)
  · rcases ho.answering with ha | ⟨hw, -⟩ | ⟨hw, -⟩ | ⟨hr, hconn, rest, hrest, hw, ha⟩
    · have hle := ha.length_le
      rw [length_answer] at hle
      exact absurd hle hlen
    · cases e with
      | task => exact absurd (hwait rfl) hlen
      | transfer i k => simp [Outgoing.step, hw] at hout
      | written i => simp [Outgoing.step, hw] at hout
    · cases e with
      | task => exact absurd (hwait rfl) hlen
      | transfer i k => simp [Outgoing.step, hw] at hout
      | written i => simp [Outgoing.step, hw] at hout
    · cases e with
      | task => exact absurd (hwait rfl) hlen
      | transfer i k =>
        cases i with
        | zero =>
          simp only [Connection.stepOut, Outgoing.step, hw, List.getElem?_cons_zero,
            Option.map_eq_some_iff, Option.ite_none_right_eq_some, Option.some.injEq] at hstep
          obtain ⟨out, ⟨-, rfl⟩, rfl⟩ := hstep
          have hbytes : h.client.out.written ++ rest.take k ++ rest.drop k =
              Codec.u64.encode (scramble challenge) := by
            rw [List.append_assoc, List.take_append_drop, ha]
          by_cases hdone : rest.drop k = []
          · rw [hdone, List.append_nil] at hbytes
            exact Or.inl (by simp only [hbytes]; exact List.prefix_rfl)
          · exact Or.inr (Or.inr (Or.inr ⟨hr, hconn, rest.drop k, hdone, by simp, hbytes⟩))
        | succ i => simp [Outgoing.step, hw] at hout
      | written i =>
        cases i with
        | zero => simp [Outgoing.step, hw, hrest] at hout
        | succ i => simp [Outgoing.step, hw] at hout

theorem Orderly.stepIn {challenge : UInt64} {later : List UInt8} {h : Handshake} {e : InEvent}
    {c : Connection} (ho : Orderly challenge later h)
    (hstep : h.client.stepIn (Codec.u64.encode challenge ++ later) e = some c) :
    Orderly challenge later { h with client := c } := by
  have hwritten := Connection.stepIn_written hstep
  refine ⟨(Connection.stepIn_frame hstep).1.trans ho.client, ho.server, ho.check, ho.accepted, ?_,
    ho.awaiting.mono rfl (by simp only [hwritten]; exact List.prefix_rfl)⟩
  rcases ho.answering with ha | ⟨hw, hn, hr, -⟩ | ⟨hw, hn, hconn, got, hr, hc, hgot⟩ | ⟨hr, -⟩
  · exact Or.inl (by simp only [hwritten]; exact ha)
  · cases e <;> simp [Connection.stepIn, Incoming.step, hr] at hstep
  · rcases Connection.stepIn_readValidation hr hgot hc hstep with ⟨got', hgot', rfl⟩ | ⟨hlen, rfl⟩
    · exact Or.inr (Or.inr (Or.inl ⟨hw, hn, hconn, got', rfl, rfl, hgot'⟩))
    · have hall : got = Codec.u64.encode challenge :=
        (List.prefix_of_prefix_length_le hgot (List.prefix_append _ _)
          (by rw [hlen, length_answer])).eq_of_length (by rw [hlen, length_answer])
      refine Or.inr (Or.inr (Or.inr ⟨?_, hconn, Codec.u64.encode (scramble challenge), ?_, ?_, ?_⟩))
      · simp [Connection.onReadValidation, ho.client, Connection.writeValidation]
      · intro hnil
        have hlen' := length_answer (scramble challenge)
        rw [hnil] at hlen'
        exact nomatch hlen'
      · simp [Connection.onReadValidation, ho.client, Connection.writeValidation,
          Outgoing.asyncWrite, hw, hall]
      · simp [Connection.onReadValidation, ho.client, Connection.writeValidation,
          Outgoing.asyncWrite, hn]
  · cases e <;> simp [Connection.stepIn, Incoming.step, hr] at hstep

theorem Orderly.stepServer {challenge : UInt64} {later : List UInt8} {h : Handshake} {e : InEvent}
    {c : Connection} (ho : Orderly challenge later h)
    (hstep : h.server.stepIn h.client.out.written e = some c) :
    Orderly challenge later { h with server := c } := by
  obtain ⟨howner, hcheck⟩ := Connection.stepIn_frame hstep
  rcases ho.awaiting with ⟨got, hr, hc, hgot⟩ | hr
  · rcases Connection.stepIn_readValidation hr hgot hc hstep with ⟨got', hgot', rfl⟩ | ⟨hlen, rfl⟩
    · exact ⟨ho.client, ho.server, ho.check, ho.accepted, ho.answering,
        Or.inl ⟨got', rfl, rfl, hgot'⟩⟩
    · have hle := hgot.length_le
      rw [hlen] at hle
      have hall : got = Codec.u64.encode (scramble challenge) :=
        (List.prefix_of_prefix_length_le hgot (ho.answering.of_length hle)
          (by rw [hlen, length_answer])).eq_of_length (by rw [hlen, length_answer])
      have hmatch : Codec.u64.decode got = h.server.nHandshakeCheck := by
        rw [hall, Codec.decode_encode, ho.check]
      refine ⟨ho.client, howner.trans ho.server, hcheck.trans ho.check, ?_, ho.answering,
        Or.inr ?_⟩
      · simp [Connection.onReadValidation, ho.server, hmatch, Connection.send, ho.accepted]
      · intro r hr'
        simp [Connection.onReadValidation, ho.server, hmatch, Connection.send, Incoming.readHeader,
          Incoming.asyncRead] at hr'
        rw [hr']
        simp
  · obtain ⟨hopen, hr'⟩ := Connection.stepIn_message hr hstep
    exact ⟨ho.client, howner.trans ho.server, hcheck.trans ho.check, hopen.trans ho.accepted,
      ho.answering, Or.inr hr'⟩

/-- The step lemma of the handshake. -/
theorem Orderly.step {challenge : UInt64} {later : List UInt8} {h h' : Handshake}
    {e : HandshakeEvent} (ho : Orderly challenge later h) (hwait : SendsWait h e)
    (hstep : Handshake.step challenge later h e = some h') : Orderly challenge later h' := by
  cases e with
  | opened =>
    cases hstep
    exact ⟨ho.client, ho.server, ho.check, ho.accepted, ho.answering, ho.awaiting⟩
  | established =>
    simp only [Handshake.step, Option.ite_none_right_eq_some, Option.some.injEq] at hstep
    obtain ⟨-, rfl⟩ := hstep
    exact ⟨ho.client, ho.server, ho.check, ho.accepted, ho.answering, ho.awaiting⟩
  | connected =>
    simp only [Handshake.step, Option.ite_none_right_eq_some, Option.some.injEq,
      Bool.and_eq_true, Bool.not_eq_true'] at hstep
    obtain ⟨⟨-, hconn⟩, rfl⟩ := hstep
    refine ⟨ho.client, ho.server, ho.check, ho.accepted, ?_, ho.awaiting⟩
    rcases ho.answering with ha | ⟨hw, hn, hr, hc, -⟩ | ⟨-, -, hconn', -⟩ | ⟨-, hconn', -⟩
    · exact Or.inl ha
    · have hread : h.client.readValidation.inn.reads = [⟨.readValidation, 8, []⟩] := by
        simp only [Connection.readValidation, Incoming.asyncRead, hr, List.nil_append]
        rfl
      exact Or.inr (Or.inr (Or.inl ⟨hw, hn, rfl, [], hread, hc, List.nil_prefix⟩))
    · exact absurd (hconn.symm.trans hconn') Bool.false_ne_true
    · exact absurd (hconn.symm.trans hconn') Bool.false_ne_true
  | send msg =>
    simp only [Handshake.step, Option.ite_none_right_eq_some, Option.some.injEq] at hstep
    obtain ⟨-, rfl⟩ := hstep
    exact ⟨ho.client, ho.server, ho.check, ho.accepted, ho.answering, ho.awaiting⟩
  | clientOut e =>
    simp only [Handshake.step, Option.ite_none_right_eq_some, Option.map_eq_some_iff] at hstep
    obtain ⟨-, c, hc, rfl⟩ := hstep
    exact ho.stepOut (fun he => hwait (by rw [he])) hc
  | clientIn e =>
    obtain ⟨c, hc, rfl⟩ := Option.map_eq_some_iff.mp hstep
    exact ho.stepIn hc
  | serverIn e =>
    obtain ⟨c, hc, rfl⟩ := Option.map_eq_some_iff.mp hstep
    exact ho.stepServer hc

/-- In every run in which the tasks of `Send` wait for the answer, the client is honoured. -/
theorem client_honoured {challenge : UInt64} {later : List UInt8} {es : List HandshakeEvent}
    {h : Handshake} (hwait : Machine.Along (step challenge later) SendsWait (start challenge) es)
    (hrun : Machine.run (step challenge later) (start challenge) es = some h) :
    Honoured challenge h := by
  have ho := Machine.invariant_along (I := Orderly challenge later)
    (fun _ _ _ ho hwait hstep => ho.step hwait hstep) (orderly_start challenge later) hwait hrun
  exact ⟨ho.answering.answer, ho.accepted⟩

/-- The application sends `ClientJustCheck` as soon as the socket is open. -/
def sendFirst : List HandshakeEvent :=
  [.opened, .send (.ofID .clientJustCheck), .established, .clientOut .task,
    .clientOut (.transfer 0 8), .serverIn (.receive 0 8), .serverIn (.received 0)]

/-- The server takes the header for the answer and closes the socket. -/
theorem client_turned_away : ∃ h, Machine.run (step 0 []) (start 0) sendFirst = some h ∧
    ¬ h.client.out.written.take 8 <+: Codec.u64.encode (scramble 0) ∧
    h.server.socketOpen = false := by
  refine ⟨_, rfl, ?_, ?_⟩ <;> decide

def sendLater : List HandshakeEvent :=
  [.opened, .established, .connected, .clientIn (.receive 0 8), .clientIn (.received 0),
    .clientOut (.transfer 0 8), .send (.ofID .clientJustCheck), .clientOut .task,
    .serverIn (.receive 0 8), .serverIn (.received 0)]

theorem client_honoured_sendLater :
    ∃ h, Machine.run (step 0 []) (start 0) sendLater = some h ∧ Honoured 0 h := by
  have hrun : (Machine.run (step 0 []) (start 0) sendLater).isSome = true := by decide +kernel
  obtain ⟨h, hh⟩ := Option.isSome_iff_exists.mp hrun
  exact ⟨h, hh, client_honoured (by decide : Machine.Along _ SendsWait _ sendLater) hh⟩

end Handshake

end AsciiTerra
