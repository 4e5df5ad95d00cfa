import AsciiTerra.Lib.Machine

/-!
# Memory handles

`Utils/Memory.h` in the build without threads. Shared handles count themselves in one
global map from addresses to counts, `unsigned long` numbers of `w` bits; a weak handle
keeps an address and looks it up there. Handles are named by the order of their
construction. An allocation may return any address where no object lives, and an object
is named by the number of its allocation. A step is only taken with handles that exist
and with raw pointers that are null or point to a live object.
-/

set_option autoImplicit false

namespace AsciiTerra

/-- `WeakMemoryHandle`, with the object that lived at the address when it was made. -/
structure WeakMemoryHandle (Address : Type) where
  data : Option Address
  watched : Option Nat
deriving DecidableEq

/-- The heap, `getRefMap()` and all handles; a pointer is `none` when it is null and the place of
a handle is `none` after its destruction. `deleted` lists what `harz_delete` was called on. -/
structure Heap (Address : Type) (w : Nat) where
  objects : Address → Option Nat
  allocations : Nat
  deleted : List (Option Nat)
  refMap : Address → Option (BitVec w)
  unique : List (Option Address)
  shared : List (Option (Option Address))
  weak : List (Option (WeakMemoryHandle Address))

/-- What a program can do with handles; `i`, `j` and `k` are handles, `p` is a raw pointer. -/
inductive HandleOperation (Address : Type)
  /-- `harz_new`, with the address it gets -/
  | allocate (a : Address)
  /-- `UniqueMemoryHandle(T*)` -/
  | uniqueOfPointer (p : Option Address)
  /-- `SharedMemoryHandle()` and `SharedMemoryHandle(T*)` -/
  | ofPointer (p : Option Address)
  /-- `SharedMemoryHandle(UniqueMemoryHandle&&)` -/
  | ofUnique (k : Nat)
  | copy (i : Nat)
  | move (i : Nat)
  | copyAssign (i j : Nat)
  | moveAssign (i j : Nat)
  | resetPointer (i : Nat) (p : Option Address)
  /-- `Reset(SharedMemoryHandle)` with a copy -/
  | reset (i j : Nat)
  /-- `Reset(SharedMemoryHandle)` with a handle moved from -/
  | resetMoved (i j : Nat)
  | release (i : Nat)
  | destroy (i : Nat)
  /-- `WeakMemoryHandle(const SharedMemoryHandle&)` -/
  | weakOfShared (i : Nat)
  /-- `GetWeak` -/
  | getWeak (i : Nat)
  /-- both constructors that copy -/
  | weakCopy (k : Nat)
  /-- both assignments -/
  | weakAssign (k l : Nat)
  | weakReset (k i : Nat)
  | weakDestroy (k : Nat)

namespace Heap
variable {Address : Type} {w : Nat}

def empty : Heap Address w := ⟨fun _ => none, 0, [], fun _ => none, [], [], []⟩

/-- `Data` of a shared handle. -/
def data (s : Heap Address w) (i : Nat) : Option Address := (s.shared[i]?.join).join

/-- `Data` of a shared handle is set. -/
def setData (s : Heap Address w) (i : Nat) (p : Option Address) : Heap Address w :=
  { s with shared := s.shared.set i (some p) }

def isValid (s : Heap Address w) (i : Nat) : Bool :=
  match s.data i with
  | some a => (s.refMap a).isSome
  | none => false

def objectAt (s : Heap Address w) (p : Option Address) : Option Nat := p.bind s.objects

/-- A raw pointer that may be used. -/
def Usable (s : Heap Address w) (p : Option Address) : Prop := ∀ a ∈ p, s.objects a ≠ none

instance (s : Heap Address w) (p : Option Address) : Decidable (s.Usable p) :=
  inferInstanceAs (Decidable (∀ a ∈ p, s.objects a ≠ none))

section Update
variable [DecidableEq Address]

def harzDelete (s : Heap Address w) (a : Address) : Heap Address w :=
  { s with objects := Function.update s.objects a none, deleted := s.deleted ++ [s.objects a] }

def setRefCount (s : Heap Address w) (a : Address) (n : Option (BitVec w)) : Heap Address w :=
  { s with refMap := Function.update s.refMap a n }

/-- `AcquireDataToHandle` of a shared handle. -/
def acquireDataToHandle (s : Heap Address w) (i : Nat) : Option Address → Heap Address w
  | none => s
  | some a =>
    if s.data i = some a then s
    else
      match s.refMap a with
      | some n => (s.setRefCount a (some (n + 1))).setData i (some a)
      | none => (s.setRefCount a (some 1)).setData i (some a)

/-- `ReleaseResourseChecked` of a shared handle. -/
def releaseResourseChecked (s : Heap Address w) (i : Nat) : Heap Address w :=
  match s.data i with
  | none => s.setData i none
  | some a =>
    match s.refMap a with
    | none => s.setData i none
    | some n =>
      if (n - 1).toNat < 1 then ((s.setRefCount a none).harzDelete a).setData i none
      else (s.setRefCount a (some (n - 1))).setData i none

/-- `if (IsValid()) Release()`. -/
def releaseIfValid (s : Heap Address w) (i : Nat) : Heap Address w :=
  if s.isValid i then s.releaseResourseChecked i else s

def construct (s : Heap Address w) (p : Option Address) : Heap Address w :=
  { s with shared := s.shared ++ [some none] }.acquireDataToHandle s.shared.length p

def destruct (s : Heap Address w) (i : Nat) : Heap Address w :=
  let s := s.releaseIfValid i
  { s with shared := s.shared.set i none }

/-- `RetrieveResourse` takes the pointer out of a unique handle. -/
def retrieveResourse (s : Heap Address w) (k : Nat) : Option Address × Heap Address w :=
  (s.unique[k]?.join, { s with unique := s.unique.set k none })

def moveConstruct (s : Heap Address w) (i : Nat) : Heap Address w :=
  (s.construct (s.data i)).releaseResourseChecked i

def copyAssign (s : Heap Address w) (i j : Nat) : Heap Address w :=
  if i = j then s
  else
    let s := s.releaseIfValid i
    s.acquireDataToHandle i (s.data j)

def moveAssign (s : Heap Address w) (i j : Nat) : Heap Address w :=
  if i = j then s
  else
    let s := s.releaseIfValid i
    (s.acquireDataToHandle i (s.data j)).releaseResourseChecked j

/-- `Reset(T*)`. -/
def resetPointer (s : Heap Address w) (i : Nat) (p : Option Address) : Heap Address w :=
  if s.data i = p then s else (s.releaseIfValid i).acquireDataToHandle i p

/-- `Reset(SharedMemoryHandle)` once its parameter is the handle `j`; the parameter is destroyed
afterwards. -/
def resetBy (s : Heap Address w) (i j : Nat) : Heap Address w :=
  (s.resetPointer i (s.data j)).destruct j

def addWeak (s : Heap Address w) (h : WeakMemoryHandle Address) : Heap Address w :=
  { s with weak := s.weak ++ [some h] }

/-- A weak handle to what a shared handle points to. -/
def weakTo (s : Heap Address w) (i : Nat) : WeakMemoryHandle Address :=
  ⟨s.data i, s.objectAt (s.data i)⟩

/-- `GetWeak`: the pointer becomes a temporary shared handle, of which the weak one is made. -/
def getWeak (s : Heap Address w) (i : Nat) : Heap Address w :=
  let temporary := s.shared.length
  let s := s.construct (s.data i)
  (s.addWeak (s.weakTo temporary)).destruct temporary

def Live (s : Heap Address w) (i : Nat) : Prop := (s.shared[i]?.join).isSome

instance (s : Heap Address w) (i : Nat) : Decidable (s.Live i) := inferInstanceAs (Decidable (_ = _))

def step (s : Heap Address w) : HandleOperation Address → Option (Heap Address w)
  | .allocate a =>
    if s.objects a = none then
      some { s with
        objects := Function.update s.objects a (some s.allocations)
        allocations := s.allocations + 1 }
    else none
  | .uniqueOfPointer p => if s.Usable p then some { s with unique := s.unique ++ [p] } else none
  | .ofPointer p => if s.Usable p then some (s.construct p) else none
  | .ofUnique k =>
    let (p, s') := s.retrieveResourse k
    if k < s.unique.length ∧ s.Usable p then some (s'.construct p) else none
  | .copy i => if s.Live i then some (s.construct (s.data i)) else none
  | .move i => if s.Live i then some (s.moveConstruct i) else none
  | .copyAssign i j => if s.Live i ∧ s.Live j then some (s.copyAssign i j) else none
  | .moveAssign i j => if s.Live i ∧ s.Live j then some (s.moveAssign i j) else none
  | .resetPointer i p => if s.Live i ∧ s.Usable p then some (s.resetPointer i p) else none
  | .reset i j =>
    if s.Live i ∧ s.Live j then some ((s.construct (s.data j)).resetBy i s.shared.length) else none
  | .resetMoved i j =>
    if s.Live i ∧ s.Live j then some ((s.moveConstruct j).resetBy i s.shared.length) else none
  | .release i => if s.Live i then some (s.releaseResourseChecked i) else none
  | .destroy i => if s.Live i then some (s.destruct i) else none
  | .weakOfShared i => if s.Live i then some (s.addWeak (s.weakTo i)) else none
  | .getWeak i => if s.Live i then some (s.getWeak i) else none
  | .weakCopy k => s.weak[k]?.join.map s.addWeak
  | .weakAssign k l =>
    match s.weak[k]?.join, s.weak[l]?.join with
    | some _, some h => some { s with weak := s.weak.set k (some h) }
    | _, _ => none
  | .weakReset k i =>
    match s.weak[k]?.join with
    | some _ => if s.Live i then some { s with weak := s.weak.set k (some (s.weakTo i)) } else none
    | none => none
  | .weakDestroy k => s.weak[k]?.join.map fun _ => { s with weak := s.weak.set k none }

/-- The live shared handles whose `Data` is the address. -/
def handles (s : Heap Address w) (a : Address) : Nat := s.shared.count (some (some a))

end Update

def checkRefCount (s : Heap Address w) (a : Address) : Bool :=
  match s.refMap a with
  | some n => n.toNat > 0
  | none => false

/-- `WeakMemoryHandle::IsValid`. -/
def weakIsValid (s : Heap Address w) (h : WeakMemoryHandle Address) : Bool :=
  match h.data with
  | some a => s.checkRefCount a
  | none => false

end Heap

end AsciiTerra
