import AsciiTerra.Framing

/-!
# The body of a message as a typed stack

`operator<<` and `operator>>` copy the memory images of values of any standard-layout
types to and from the end of one vector of bytes. As long as each `operator>>` asks for
the type of the latest value that is still there, the two are the operations of a stack
of typed values on top of whatever the message held before.
-/

set_option autoImplicit false

namespace AsciiTerra

/-- The memory image of a value that takes `n` bytes. -/
def Layout.image (n : Nat) : Codec (Vector UInt8 n) := Codec.u8.vector n

section Stack
variable {DataType : Type} (sizeof : DataType → Nat)

/-- A value: its type and its bytes. -/
abbrev Datum := (t : DataType) × Vector UInt8 (sizeof t)

/-- One use of `operator<<` or `operator>>`. -/
inductive BodyOperation
  | push (data : Datum sizeof)
  | pop (t : DataType)

variable {sizeof} [DecidableEq DataType]

/-- A stack whose latest value is popped only as what it is. -/
def BodyOperation.onStack (stack : List (Datum sizeof)) :
    BodyOperation sizeof → Option (Option (Datum sizeof) × List (Datum sizeof))
  | .push data => some (none, data :: stack)
  | .pop t =>
    match stack with
    | [] => none
    | data :: stack => if data.1 = t then some (some data, stack) else none

def stackTrace : List (Datum sizeof) → List (BodyOperation sizeof) →
    Option (List (Option (Datum sizeof) × List (Datum sizeof)))
  | _, [] => some []
  | stack, op :: ops => do
    let r ← op.onStack stack
    let rs ← stackTrace r.2 ops
    return r :: rs

end Stack

section Body
variable {DataType : Type} {sizeof : DataType → Nat}

def BodyOperation.onMessage (msg : Message) :
    BodyOperation sizeof → Except Fault (Option (Datum sizeof) × Message)
  | .push data => .ok (none, msg.push (Layout.image _) data.2)
  | .pop t => do
    let (data, msg) ← msg.pop (Layout.image (sizeof t))
    return (some ⟨t, data⟩, msg)

def messageTrace : Message → List (BodyOperation sizeof) →
    Except Fault (List (Option (Datum sizeof) × Message))
  | _, [] => .ok []
  | msg, op :: ops => do
    let r ← op.onMessage msg
    let rs ← messageTrace r.2 ops
    return r :: rs

/-- The message that holds a stack of values on top of what it held before. -/
def Message.holding (msg : Message) : List (Datum sizeof) → Message
  | [] => msg
  | data :: stack => (msg.holding stack).push (Layout.image _) data.2

def stackSize (stack : List (Datum sizeof)) : Nat := (stack.map fun data => sizeof data.1).sum

theorem Message.length_holding (msg : Message) (stack : List (Datum sizeof)) :
    (msg.holding stack).body.length = msg.body.length + stackSize stack := by
  induction stack with
  | nil => simp [holding, stackSize]
  | cons data stack ih =>
    have hsize : (Layout.image (sizeof data.1)).size = sizeof data.1 := Nat.mul_one _
    have hpush : (msg.holding (data :: stack)).body.length =
        (msg.holding stack).body.length + sizeof data.1 := by
      simp [holding, Message.push, hsize]
    have hsum : stackSize (data :: stack) = sizeof data.1 + stackSize stack := by
      simp [stackSize]
    omega

theorem Message.sizeIsRight_holding {msg : Message} (h : msg.SizeIsRight)
    (stack : List (Datum sizeof)) : (msg.holding stack).SizeIsRight := by
  cases stack with
  | nil => exact h
  | cons data stack => exact sizeIsRight_push _ _ _

theorem Message.SizeMatches.sizeIsRight {msg : Message} (h : msg.SizeMatches) :
    msg.SizeIsRight := by
  unfold SizeIsRight
  rw [← h, UInt32.ofNat_toNat]

theorem Message.SizeIsRight.sizeMatches {msg : Message} (h : msg.SizeIsRight)
    (hlen : msg.body.length < 2 ^ 32) : msg.SizeMatches := by
  unfold SizeMatches
  rw [h]
  exact UInt32.toNat_ofNat_of_lt' hlen

/-- What was pushed last comes back, and leaves the message as it was before. -/
theorem Message.pop_holding {msg : Message} (h : msg.SizeIsRight) (data : Datum sizeof)
    (stack : List (Datum sizeof)) :
    (msg.holding (data :: stack)).pop (Layout.image (sizeof data.1)) =
      .ok (data.2, msg.holding stack) := by
  have hright := sizeIsRight_holding h stack
  unfold SizeIsRight at hright
  rw [holding, pop_push, ← hright]

variable [DecidableEq DataType]

theorem BodyOperation.onMessage_holding {msg : Message} (h : msg.SizeIsRight)
    {stack : List (Datum sizeof)} {op : BodyOperation sizeof}
    {r : Option (Datum sizeof) × List (Datum sizeof)} (hr : op.onStack stack = some r) :
    op.onMessage (msg.holding stack) = .ok (r.1, msg.holding r.2) := by
  cases op with
  | push data =>
    cases hr
    rfl
  | pop t =>
    cases stack with
    | nil => exact nomatch hr
    | cons data stack =>
      change (if data.1 = t then some (some data, stack) else none) = some r at hr
      split at hr
      · rename_i htype
        cases hr
        subst htype
        simp only [onMessage, Message.pop_holding h]
        rfl
      · exact nomatch hr

theorem messageTrace_holding {msg : Message} (h : msg.SizeIsRight) {stack : List (Datum sizeof)}
    {ops : List (BodyOperation sizeof)} {rs : List (Option (Datum sizeof) × List (Datum sizeof))}
    (hrs : stackTrace stack ops = some rs) :
    messageTrace (msg.holding stack) ops = .ok (rs.map fun r => (r.1, msg.holding r.2)) := by
  induction ops generalizing stack rs with
  | nil =>
    cases hrs
    rfl
  | cons op ops ih =>
    obtain ⟨r, hr, hrest⟩ := Option.bind_eq_some_iff.mp hrs
    obtain ⟨rs', hrs', hcons⟩ := Option.bind_eq_some_iff.mp hrest
    cases hcons
    unfold messageTrace
    rw [BodyOperation.onMessage_holding h hr]
    have hih := ih hrs'
    simp only [bind, Except.bind, pure, Except.pure, List.map_cons]
    rw [hih]

/-- On a message whose header states the length of its body, operations that respect the types
yield what the stack yields; the header stays right, and when all that was pushed is popped the
message is what it was. -/
theorem body_is_typed_stack {msg : Message} (hsize : msg.SizeMatches)
    {ops : List (BodyOperation sizeof)} {rs : List (Option (Datum sizeof) × List (Datum sizeof))}
    (htyped : stackTrace [] ops = some rs)
    (hbelow : ∀ r ∈ rs, msg.body.length + stackSize r.2 < 2 ^ 32) :
    ∃ ms, messageTrace msg ops = .ok ms ∧
      List.Forall₂ (fun m r => m.1 = r.1 ∧ m.2.SizeMatches ∧ (r.2 = [] → m.2 = msg)) ms rs := by
  have htrace : messageTrace (msg.holding []) ops = .ok (rs.map fun r => (r.1, msg.holding r.2)) :=
    messageTrace_holding hsize.sizeIsRight htyped
  refine ⟨_, htrace, ?_⟩
  rw [List.forall₂_map_left_iff, List.forall₂_same]
  intro r hr
  refine ⟨rfl, ?_, ?_⟩
  · apply (Message.sizeIsRight_holding hsize.sizeIsRight r.2).sizeMatches
    rw [Message.length_holding]
    exact hbelow r hr
  · intro hempty
    rw [hempty]
    rfl

end Body

def width (t : Fin 2) : Nat := t.val + 1

def narrow : Datum width := ⟨0, #v[1]⟩

def wide : Datum width := ⟨1, #v[2, 3]⟩

theorem body_is_typed_stack_nested :
    ∃ ms, messageTrace ⟨⟨7, 1⟩, [9]⟩ [.push narrow, .push wide, .pop 1, .pop 0] = .ok ms ∧
      List.Forall₂ (fun m r => m.1 = r.1 ∧ m.2.SizeMatches ∧ (r.2 = [] → m.2 = ⟨⟨7, 1⟩, [9]⟩)) ms
        [(none, [narrow]), (none, [wide, narrow]), (some wide, [narrow]), (some narrow, [])] :=
  body_is_typed_stack (by decide) rfl (by decide)

end AsciiTerra
