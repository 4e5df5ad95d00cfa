import AsciiTerra.RingRefinement
import AsciiTerra.Lib.Machine

/-!
# The memory of `RingBuffer`

`Resize` and the copies in `Containers/DynamirArray.h` copy bytes from block to block. An
element is the bytes it consists of, and a container comes with what the allocator knows
of its block. There is no result where the behaviour is undefined: a copy or an access
outside of a block, and a pointer that no allocation returned, or that was freed, given
back to the allocator.
-/

set_option autoImplicit false

namespace AsciiTerra

/-- An element of so many bytes. -/
abbrev Element (sizeof : Nat) := Vector UInt8 sizeof

/-- A container and its block. -/
structure RingStorage (sizeof : Nat) where
  ring : RingBuffer (Element sizeof)
  /-- the size of the block -/
  bytes : Nat
  /-- without a block: `MemoryBlock` is not the null pointer -/
  stray : Bool
deriving DecidableEq

namespace RingStorage
variable {sizeof : Nat}

open RingBuffer (invalidIndex)

/-- What an allocation returns: what the slots of the block hold, if there is one. -/
abbrev Allocation (sizeof : Nat) := Option (Nat → Element sizeof)

/-- A container no constructor has worked on yet; `MemoryBlock` is what the memory held. -/
def raw (stray : Bool) : RingStorage sizeof := ⟨⟨none, 0, invalidIndex, 0⟩, 0, stray⟩

def slotsOf (bytes : Nat) (contents : Nat → Element sizeof) : List (Element sizeof) :=
  (List.range (bytes / sizeof)).map contents

/-- `RingBuffer(size_t)`, which only writes `MemoryBlock` when it allocates. -/
def ofCapacity (allocation : Allocation sizeof) (stray : Bool) (capacity : UInt64) :
    RingStorage sizeof :=
  { ring := RingBuffer.ofCapacity sizeof (fun _ => allocation) capacity
    bytes := capacity.toNat * sizeof % 2 ^ 64
    stray := if capacity.toNat > 0 ∧ capacity.toNat ≠ invalidIndex then false else stray }

/-- `memcpy_s` between the slots of two blocks. -/
def copyMemory (src dst : List (Element sizeof)) (size : Nat) : List (Element sizeof) :=
  dst.mapIdx fun i value => Vector.ofFn fun j =>
    if i * sizeof + j < size then (src.getD i value)[j] else value[j]

theorem copyMemory_getElem? {src dst : List (Element sizeof)} {size i : Nat}
    {value : Element sizeof} (h : dst[i]? = some value) :
    (copyMemory src dst size)[i]? = some (Vector.ofFn fun j =>
      if i * sizeof + j < size then (src.getD i value)[j] else value[j]) := by
  unfold copyMemory
  rw [List.getElem?_mapIdx, h]
  rfl

/-- One of the loops that copy the elements of the slots `copyIndex` to the slots from
`StartIndexForTailPart` on. -/
def copyLoop (src : List (Element sizeof)) :
    List Nat → List (Element sizeof) → Nat → Option (List (Element sizeof) × Nat)
  | [], dst, start => some (dst, start)
  | copyIndex :: copyIndices, dst, start =>
    match src[copyIndex]? with
    | none => none
    | some value =>
      if start < dst.length then copyLoop src copyIndices (dst.set start value) (start + 1)
      else none

/-- What `Resize` puts into a new block of `newBytes` bytes, with the new `head`. -/
def moveElements (st : RingStorage sizeof) (block newAllocatedMemory : List (Element sizeof))
    (newBytes : Nat) : Option (List (Element sizeof) × Nat) := do
  if st.ring.elementsInside > 0 ∧ st.ring.head ≠ invalidIndex then
    let tail ← st.ring.getTailIndex.toOption
    let tailIndex := if tail ≠ invalidIndex then tail else 0
    if tailIndex > st.ring.head then
      let (dst, start) ← copyLoop block (List.range' tailIndex (st.ring.capacity - tailIndex))
        newAllocatedMemory 0
      let (dst, _) ← copyLoop block (List.range (st.ring.head + 1)) dst start
      return (dst, st.ring.elementsInside - 1)
    else
      -- the product binds first
      let size := (st.ring.head + 1 * sizeof) % 2 ^ 64
      if size ≤ st.bytes ∧ size ≤ newBytes then
        return (copyMemory block newAllocatedMemory size, st.ring.head)
      else none
  else return (newAllocatedMemory, st.ring.head)

def resize (allocation : Allocation sizeof) (newCapacity : Nat) (st : RingStorage sizeof) :
    Option (Bool × RingStorage sizeof) := do
  if newCapacity > 0 ∧ newCapacity ≠ invalidIndex ∧ newCapacity ≥ st.ring.elementsInside then
    match allocation with
    | none => return (false, st)
    | some contents =>
      let bytes := newCapacity * sizeof % 2 ^ 64
      let newAllocatedMemory := slotsOf bytes contents
      match st.ring.memoryBlock with
      | some block =>
        let (block, head) ← st.moveElements block newAllocatedMemory bytes
        return (true, ⟨⟨some block, newCapacity, head, st.ring.elementsInside⟩, bytes, false⟩)
      | none =>
        -- with another pointer the block it does not point to is freed
        if st.stray then none
        else return (true,
          ⟨⟨some newAllocatedMemory, newCapacity, st.ring.head, st.ring.elementsInside⟩, bytes,
            false⟩)
  else return (false, st)

/-- `if (MemoryBlock) Deallocate(MemoryBlock)`, after which the pointer dangles. -/
def deallocate (st : RingStorage sizeof) : Option (RingStorage sizeof) :=
  match st.ring.memoryBlock with
  | some _ => some { st with ring := { st.ring with memoryBlock := none }, stray := true }
  | none => if st.stray then none else some st

/-- What both copies do after their `Resize`: `capacity` bytes are copied. -/
def copyElements (other st : RingStorage sizeof) : Option (RingStorage sizeof) := do
  if other.ring.elementsInside > 0 then
    let memoryBlock ←
      if st.ring.capacity = 0 then some st.ring.memoryBlock
      else match other.ring.memoryBlock, st.ring.memoryBlock with
        | some src, some dst =>
          if st.ring.capacity ≤ other.bytes ∧ st.ring.capacity ≤ st.bytes then
            some (some (copyMemory src dst st.ring.capacity))
          else none
        | _, _ => none
    return { st with ring :=
      ⟨memoryBlock, st.ring.capacity, other.ring.head, other.ring.elementsInside⟩ }
  else return st

/-- `Resize` to the capacity of another container and the copy of its elements. -/
def copyInto (allocation : Allocation sizeof) (other : RingStorage sizeof → RingStorage sizeof)
    (st : RingStorage sizeof) : Option (RingStorage sizeof) := do
  let (_, st) ← st.resize allocation (other st).ring.capacity
  copyElements (other st) st

/-- `RingBuffer(RingBuffer&)`, in memory that held `stray` where `MemoryBlock` comes to lie. -/
def copyConstruct (allocation : Allocation sizeof) (stray : Bool) (other : RingStorage sizeof) :
    Option (RingStorage sizeof) :=
  (raw stray).copyInto allocation fun _ => other

/-- `operator=(RingBuffer&)`. `other` says what the argument is while the container changes: the
container itself or one that stays as it is. -/
def assign (allocation : Allocation sizeof) (other : RingStorage sizeof → RingStorage sizeof)
    (st : RingStorage sizeof) : Option (RingStorage sizeof) := do
  let st := if st.ring.getSize ≠ 0 then { st with ring := st.ring.clear } else st
  let st ← st.deallocate
  st.copyInto allocation other

/-- The calls of the members and of `Resize`. -/
inductive Action (sizeof : Nat)
  | call (k : RingBuffer.Call (Element sizeof))
  | resize (newCapacity : UInt64) (allocation : Allocation sizeof)

def step (st : RingStorage sizeof) : Action sizeof → Option (RingStorage sizeof)
  | .call k => (st.ring.call k).toOption.map fun result => { st with ring := result.2 }
  | .resize newCapacity allocation => (st.resize allocation newCapacity.toNat).map Prod.snd

end RingStorage

end AsciiTerra
