import AsciiTerra.Message

/-!
# One end of a connection

The asynchronous parts of `connection`: the tasks that `Send` posts, the chains
`WriteHeader`/`WriteBody` and `ReadHeader`/`ReadBody`, and what is outstanding on the
socket. An `async_write` or `async_read` moves its bytes in any number of pieces and
then runs its handler. Only runs without I/O errors are modelled. The two halves share
no field.
-/

set_option autoImplicit false

namespace AsciiTerra

def Layout.messageHeader : Codec MessageHeader :=
  (Codec.u32.pair Codec.u32).map (fun v => ⟨v.1, v.2⟩) (fun h => (h.id, h.size)) (fun _ => rfl)

/-- The bytes of a message on the wire. -/
def Message.frame (msg : Message) : List UInt8 :=
  Layout.messageHeader.encode msg.header ++ msg.body

/-- Which function issued an `async_write`. -/
inductive WriteOp
  | writeHeader
  | writeBody
  | writeValidation
deriving DecidableEq, Repr

/-- An `async_write` whose handler has not run, with the bytes it still has to move. -/
structure PendingWrite where
  op : WriteOp
  rest : List UInt8
deriving DecidableEq, Repr

/-- What sending needs. `written` is all the bytes put on the wire so far. -/
structure Outgoing where
  posted : List Message
  qMessagesOut : List Message
  writes : List PendingWrite
  written : List UInt8
deriving DecidableEq, Repr

/-- The steps of the sending half. -/
inductive OutEvent
  /-- the next posted task runs -/
  | task
  /-- the socket takes `k` bytes of the `i`-th outstanding write -/
  | transfer (i k : Nat)
  /-- the handler of the `i`-th outstanding write runs -/
  | written (i : Nat)
deriving DecidableEq, Repr

namespace Outgoing

def idle : Outgoing := ⟨[], [], [], []⟩

/-- `Send` posts a task. -/
def send (msg : Message) (o : Outgoing) : Outgoing := { o with posted := o.posted ++ [msg] }

def asyncWrite (op : WriteOp) (bytes : List UInt8) (o : Outgoing) : Outgoing :=
  { o with writes := o.writes ++ [⟨op, bytes⟩] }

/-- `WriteHeader`; it is only called with a message in the queue. -/
def writeHeader (o : Outgoing) : Outgoing :=
  match o.qMessagesOut with
  | [] => o
  | msg :: _ => o.asyncWrite .writeHeader (Layout.messageHeader.encode msg.header)

def writeBody (o : Outgoing) : Outgoing :=
  match o.qMessagesOut with
  | [] => o
  | msg :: _ => o.asyncWrite .writeBody msg.body

/-- The task posted by `Send`. -/
def runTask (msg : Message) (o : Outgoing) : Outgoing :=
  let writingMessage := !o.qMessagesOut.isEmpty
  let o := { o with qMessagesOut := o.qMessagesOut ++ [msg] }
  if !writingMessage then o.writeHeader else o

/-- `pop_front`, and the next header if there is one. -/
def popFront (o : Outgoing) : Outgoing :=
  { o with qMessagesOut := o.qMessagesOut.tail }.writeHeader

def onWritten (op : WriteOp) (o : Outgoing) : Outgoing :=
  match op with
  | .writeHeader =>
    match o.qMessagesOut with
    | [] => o
    | msg :: _ => if msg.body.length > 0 then o.writeBody else o.popFront
  | .writeBody => o.popFront
  | .writeValidation => o

def step (o : Outgoing) : OutEvent → Option Outgoing
  | .task =>
    match o.posted with
    | [] => none
    | msg :: posted => some ({ o with posted := posted }.runTask msg)
  | .transfer i k =>
    match o.writes[i]? with
    | none => none
    | some w =>
      if 0 < k ∧ k ≤ w.rest.length then
        some { o with
          writes := o.writes.set i ⟨w.op, w.rest.drop k⟩
          written := o.written ++ w.rest.take k }
      else none
  | .written i =>
    match o.writes[i]? with
    | none => none
    | some w =>
      if w.rest = [] then some ({ o with writes := o.writes.eraseIdx i }.onWritten w.op) else none

end Outgoing

/-- Which function issued an `async_read`. -/
inductive ReadOp
  | readHeader
  | readBody
  | readValidation
deriving DecidableEq, Repr

/-- An `async_read` whose handler has not run: how many bytes it wants and has. -/
structure PendingRead where
  op : ReadOp
  want : Nat
  got : List UInt8
deriving DecidableEq, Repr

/-- What receiving needs. `consumed` counts the bytes taken from the incoming stream. -/
structure Incoming where
  msgTemporaryIn : Message
  qMessagesIn : List Message
  reads : List PendingRead
  consumed : Nat
deriving DecidableEq, Repr

/-- The steps of the receiving half. -/
inductive InEvent
  /-- the `i`-th outstanding read takes `k` bytes -/
  | receive (i k : Nat)
  /-- the handler of the `i`-th outstanding read runs -/
  | received (i : Nat)
deriving DecidableEq, Repr

def resize (n : Nat) (body : List UInt8) : List UInt8 :=
  body.take n ++ List.replicate (n - body.length) 0

@[simp] theorem length_resize (n : Nat) (body : List UInt8) : (resize n body).length = n := by
  simp [resize]
  omega

namespace Incoming

def asyncRead (op : ReadOp) (want : Nat) (c : Incoming) : Incoming :=
  { c with reads := c.reads ++ [⟨op, want, []⟩] }

def readHeader (c : Incoming) : Incoming := c.asyncRead .readHeader Layout.messageHeader.size

def readBody (c : Incoming) : Incoming := c.asyncRead .readBody c.msgTemporaryIn.body.length

def addToIncomingMessageQueue (c : Incoming) : Incoming :=
  { c with qMessagesIn := c.qMessagesIn ++ [c.msgTemporaryIn] }.readHeader

/-- A fresh connection that waits for its first message. -/
def idle : Incoming := Incoming.readHeader ⟨⟨⟨0, 0⟩, []⟩, [], [], 0⟩

/-- The handlers of the reads, with the bytes that were read. -/
def onReceived (op : ReadOp) (bytes : List UInt8) (c : Incoming) : Incoming :=
  match op with
  | .readHeader =>
    let header := Layout.messageHeader.decode bytes
    if header.size > 0 then
      { c with msgTemporaryIn := ⟨header, resize header.size.toNat c.msgTemporaryIn.body⟩ }.readBody
    else { c with msgTemporaryIn := ⟨header, c.msgTemporaryIn.body⟩ }.addToIncomingMessageQueue
  | .readBody =>
    { c with msgTemporaryIn := ⟨c.msgTemporaryIn.header, bytes⟩ }.addToIncomingMessageQueue
  | .readValidation => c

/-- A step, when the peer has put `stream` on the wire so far. -/
def step (stream : List UInt8) (c : Incoming) : InEvent → Option Incoming
  | .receive i k =>
    match c.reads[i]? with
    | none => none
    | some r =>
      if 0 < k ∧ r.got.length + k ≤ r.want ∧ c.consumed + k ≤ stream.length then
        some { c with
          reads := c.reads.set i ⟨r.op, r.want, r.got ++ (stream.drop c.consumed).take k⟩
          consumed := c.consumed + k }
      else none
  | .received i =>
    match c.reads[i]? with
    | none => none
    | some r =>
      if r.got.length = r.want then some ({ c with reads := c.reads.eraseIdx i }.onReceived r.op r.got)
      else none

end Incoming

end AsciiTerra
