import AsciiTerra.Lib.Ring

/-!
# `RingBuffer`

`Containers/DynamirArray.h`. Only the index of the front and the number of elements are
stored, the other indices are computed where they are needed. Each subtraction of
indices and each access through a pointer to a slot may fail here, so that a run without
faults shows that none of them goes wrong. What `malloc` left in the slots is a
parameter.
-/

set_option autoImplicit false

namespace AsciiTerra

inductive RingFault
  | underflow
  | nullPointer
  | outsideBlock
deriving DecidableEq, Repr

/-- `RingBuffer`; `memoryBlock` holds the slots of the block it points to. -/
structure RingBuffer (ValueT : Type) where
  memoryBlock : Option (List ValueT)
  capacity : Nat
  head : Nat
  elementsInside : Nat
deriving DecidableEq, Repr

namespace RingBuffer
variable {ValueT : Type}

/-- `InvalidIndex`, which is `size_t(-1)`. -/
def invalidIndex : Nat := 2 ^ 64 - 1

def difference (a b : Nat) : Except RingFault Nat :=
  if b ≤ a then .ok (a - b) else .error .underflow

/-- `RingBuffer(size_t)`. The product is one of `size_t`; `allocate` says what the slots of a
block of so many bytes hold. Without an allocation `MemoryBlock` is not initialised, but no
member reads through it while `capacity` is `0`. -/
def ofCapacity (sizeof : Nat) (allocate : Nat → Option (Nat → ValueT)) (capacity : UInt64) :
    RingBuffer ValueT :=
  if capacity.toNat > 0 ∧ capacity.toNat ≠ invalidIndex then
    let bytes := capacity.toNat * sizeof % 2 ^ 64
    match allocate bytes with
    | some contents =>
      ⟨some ((List.range (bytes / sizeof)).map contents), capacity.toNat, invalidIndex, 0⟩
    | none => ⟨none, 0, invalidIndex, 0⟩
  else ⟨none, 0, invalidIndex, 0⟩

def getSize (rb : RingBuffer ValueT) : Nat := rb.elementsInside

def getHeadIndex (rb : RingBuffer ValueT) : Nat := rb.head

def getTailIndex (rb : RingBuffer ValueT) : Except RingFault Nat := do
  if rb.capacity = 0 then return invalidIndex
  if rb.head = invalidIndex then return invalidIndex
  if rb.elementsInside = 1 then return rb.head
  let distance ← difference rb.elementsInside 1
  if rb.head < distance then
    let wrapped ← difference rb.elementsInside rb.head
    difference rb.capacity (← difference wrapped 1)
  else difference rb.head distance

def getNextHeadIndex (rb : RingBuffer ValueT) : Except RingFault Nat := do
  if rb.capacity = 0 ∨ rb.capacity = rb.elementsInside then return invalidIndex
  if rb.head = (← difference rb.capacity 1) then return 0 else return rb.head + 1

def getNextTailIndex (rb : RingBuffer ValueT) : Except RingFault Nat := do
  if rb.capacity = 0 ∨ rb.capacity = rb.elementsInside then return invalidIndex
  if (← rb.getTailIndex) = 0 then difference rb.capacity 1
  else difference (← rb.getTailIndex) 1

/-- `PointToValueAtIndex`: the slot pointed to. -/
def pointToValueAtIndex (rb : RingBuffer ValueT) (index : Nat) : Option Nat :=
  if index ≥ rb.capacity then none else some index

def load (rb : RingBuffer ValueT) (pointer : Option Nat) : Except RingFault ValueT :=
  match rb.memoryBlock, pointer with
  | some block, some i =>
    match block[i]? with
    | some value => .ok value
    | none => .error .outsideBlock
  | _, _ => .error .nullPointer

def store (rb : RingBuffer ValueT) (pointer : Option Nat) (value : ValueT) :
    Except RingFault (RingBuffer ValueT) :=
  match rb.memoryBlock, pointer with
  | some block, some i =>
    if i < block.length then .ok { rb with memoryBlock := some (block.set i value) }
    else .error .outsideBlock
  | _, _ => .error .nullPointer

/-- Where `PushBack` and `EmplaceBack` put the element. -/
def backIndex (rb : RingBuffer ValueT) : Except RingFault Nat := do
  if ¬ (← rb.getTailIndex) = invalidIndex then rb.getNextTailIndex else return 0

/-- Where `PushFront` and `EmplaceFront` put the element. -/
def frontIndex (rb : RingBuffer ValueT) : Except RingFault Nat :=
  if ¬ rb.head = invalidIndex then rb.getNextHeadIndex else return 0

/-- `if (head == InvalidIndex()) head = index`, after an element came in at the back. -/
def setFirstHead (rb : RingBuffer ValueT) (index : Nat) : RingBuffer ValueT :=
  if rb.head = invalidIndex then { rb with head := index } else rb

def pushBack (rb : RingBuffer ValueT) (value : ValueT) :
    Except RingFault (Nat × RingBuffer ValueT) := do
  if rb.memoryBlock.isSome ∧ rb.capacity > rb.elementsInside then
    let index ← rb.backIndex
    let rb ← rb.store (rb.pointToValueAtIndex index) value
    return (index, { rb with elementsInside := rb.elementsInside + 1 }.setFirstHead index)
  return (invalidIndex, rb)

/-- `EmplaceBack`, which also says what the swap leaves in the argument. -/
def emplaceBack (rb : RingBuffer ValueT) (value : ValueT) :
    Except RingFault (Nat × ValueT × RingBuffer ValueT) := do
  if rb.memoryBlock.isSome ∧ rb.capacity > rb.elementsInside then
    let index ← rb.backIndex
    let old ← rb.load (rb.pointToValueAtIndex index)
    let rb ← rb.store (rb.pointToValueAtIndex index) value
    return (index, old, { rb with elementsInside := rb.elementsInside + 1 }.setFirstHead index)
  return (invalidIndex, value, rb)

def pushFront (rb : RingBuffer ValueT) (value : ValueT) :
    Except RingFault (Nat × RingBuffer ValueT) := do
  if rb.memoryBlock.isSome ∧ rb.capacity > rb.elementsInside then
    let index ← rb.frontIndex
    let rb ← rb.store (rb.pointToValueAtIndex index) value
    return (index, { rb with head := index, elementsInside := rb.elementsInside + 1 })
  return (invalidIndex, rb)

/-- `EmplaceFront`, which also says what the swap leaves in the argument. -/
def emplaceFront (rb : RingBuffer ValueT) (value : ValueT) :
    Except RingFault (Nat × ValueT × RingBuffer ValueT) := do
  if rb.memoryBlock.isSome ∧ rb.capacity > rb.elementsInside then
    let index ← rb.frontIndex
    let old ← rb.load (rb.pointToValueAtIndex index)
    let rb ← rb.store (rb.pointToValueAtIndex index) value
    return (index, old, { rb with head := index, elementsInside := rb.elementsInside + 1 })
  return (invalidIndex, value, rb)

/-- `PeekFront`, with what the pointer points to. -/
def peekFront (rb : RingBuffer ValueT) : Except RingFault (Option ValueT) :=
  if rb.head ≠ invalidIndex then some <$> rb.load (rb.pointToValueAtIndex rb.head)
  else return none

/-- `PeekBack`, with what the pointer points to. -/
def peekBack (rb : RingBuffer ValueT) : Except RingFault (Option ValueT) := do
  if (← rb.getTailIndex) ≠ invalidIndex then
    some <$> rb.load (rb.pointToValueAtIndex (← rb.getTailIndex))
  else return none

def clear (rb : RingBuffer ValueT) : RingBuffer ValueT :=
  { rb with head := invalidIndex, elementsInside := 0 }

/-- The new `head` in `PopFront`. In `head - 1 % capacity` the `%` binds first. -/
def previousHead (rb : RingBuffer ValueT) : Except RingFault Nat :=
  if rb.head = 0 then difference rb.capacity 1 else difference rb.head (1 % rb.capacity)

/-- `PopFront`, with what the reference refers to: `none` stands for the temporary `ValueT{}`,
which is gone when the caller could read it. -/
def popFront (rb : RingBuffer ValueT) :
    Except RingFault (Option ValueT × RingBuffer ValueT) := do
  if rb.head ≠ invalidIndex then
    let result ← rb.load (rb.pointToValueAtIndex rb.head)
    if rb.elementsInside > 1 then
      let n ← difference rb.elementsInside 1
      let head ← rb.previousHead
      return (some result, { rb with head := head, elementsInside := n })
    return (some result, rb.clear)
  return (none, rb)

/-- `PopBack`, with what the reference refers to. -/
def popBack (rb : RingBuffer ValueT) :
    Except RingFault (Option ValueT × RingBuffer ValueT) := do
  if (← rb.getTailIndex) ≠ invalidIndex then
    let result ← rb.load (rb.pointToValueAtIndex (← rb.getTailIndex))
    if rb.elementsInside > 1 then
      let n ← difference rb.elementsInside 1
      return (some result, { rb with elementsInside := n })
    return (some result, rb.clear)
  return (none, rb)

/-- `LookAtIndex`: the slot pointed to. -/
def lookAtIndex (rb : RingBuffer ValueT) (index : Nat) : Except RingFault (Option Nat) := do
  if index ≥ rb.capacity ∨ rb.elementsInside = 0 ∨ index = invalidIndex then return none
  let tail ← rb.getTailIndex
  if index < tail ∧ index > rb.getHeadIndex ∨
      index > tail ∧ index > rb.getHeadIndex ∧ tail ≤ rb.getHeadIndex then
    return none
  return some index

/-- The pointer that `PeekFront` returns and `PopFront` sets its `Result` to. -/
def frontPointer (rb : RingBuffer ValueT) : Option Nat :=
  if rb.head ≠ invalidIndex then rb.pointToValueAtIndex rb.head else none

/-- The pointer that `PeekBack` returns and `PopBack` sets its `Result` to. -/
def backPointer (rb : RingBuffer ValueT) : Except RingFault (Option Nat) := do
  if (← rb.getTailIndex) ≠ invalidIndex then
    return rb.pointToValueAtIndex (← rb.getTailIndex)
  return none

/-- The slot that a reference `*pointer` designates. -/
def designated (pointer : Option Nat) : Except RingFault Nat :=
  match pointer with
  | some i => .ok i
  | none => .error .nullPointer

/-- `Front`, which is `*PeekBack()`. -/
def front (rb : RingBuffer ValueT) : Except RingFault Nat := do designated (← rb.backPointer)

/-- `Back`, which is `*PeekFront()`. -/
def back (rb : RingBuffer ValueT) : Except RingFault Nat := designated rb.frontPointer

/-- The slots from `begin` up to `end`, which is `size` slots behind it. -/
def visited (rb : RingBuffer ValueT) : List Nat := List.range rb.getSize

/-- The calls of the members that change the container or show an element. -/
inductive Call (ValueT : Type)
  | pushFront (value : ValueT)
  | emplaceFront (value : ValueT)
  | pushBack (value : ValueT)
  | emplaceBack (value : ValueT)
  | popFront
  | popBack
  | peekFront
  | peekBack
  | clear

inductive Returned (ValueT : Type)
  | index (i : Nat)
  | element (value : Option ValueT)
  | nothing
deriving DecidableEq

def call (rb : RingBuffer ValueT) :
    Call ValueT → Except RingFault (Returned ValueT × RingBuffer ValueT)
  | .pushFront value => do
    let (i, rb) ← rb.pushFront value
    return (.index i, rb)
  | .emplaceFront value => do
    let (i, _, rb) ← rb.emplaceFront value
    return (.index i, rb)
  | .pushBack value => do
    let (i, rb) ← rb.pushBack value
    return (.index i, rb)
  | .emplaceBack value => do
    let (i, _, rb) ← rb.emplaceBack value
    return (.index i, rb)
  | .popFront => do
    let (value, rb) ← rb.popFront
    return (.element value, rb)
  | .popBack => do
    let (value, rb) ← rb.popBack
    return (.element value, rb)
  | .peekFront => do return (.element (← rb.peekFront), rb)
  | .peekBack => do return (.element (← rb.peekBack), rb)
  | .clear => return (.nothing, rb.clear)

def calls (rb : RingBuffer ValueT) (cs : List (Call ValueT)) :
    Except RingFault (RingBuffer ValueT) :=
  cs.foldlM (fun rb c => Prod.snd <$> rb.call c) rb

end RingBuffer

end AsciiTerra
