import AsciiTerra.Lib.Machine

/-!
# The blocks of `RingBuffer`

What the constructors, the assignments, `Resize` and the destructor in
`Containers/DynamirArray.h` do with `MemoryBlock`, for any number of containers. Blocks are
named by the order of their allocation. `Resize` either allocates or leaves everything as it
was. A constructor that does not write `MemoryBlock` leaves in it what the memory held, which
may be the address of any block.
-/

set_option autoImplicit false

namespace AsciiTerra

/-- `MemoryBlock`: null, or the address of the `n`-th block, which may not be allocated yet or
never be. -/
inductive BlockPointer
  | null
  | block (n : Nat)
deriving DecidableEq

/-- The containers by the order of their construction, with what `Deallocate` was called on. For
the proofs, `reused` lists the blocks of containers that were moved from or copied to and those
whose address a new container found in its memory. -/
structure RingBlocks where
  allocated : Nat
  rings : List (Option BlockPointer)
  freed : List Nat
  reused : List Nat

/-- `i` and `j` are containers, `held` is what the memory of a new one held in the place of
`MemoryBlock`, and `allocates` says whether there is something to allocate and the allocator has
it. -/
inductive RingOperation
  /-- `RingBuffer()`, and `RingBuffer(size_t)` with nothing to allocate -/
  | construct (held : BlockPointer)
  /-- `RingBuffer(size_t)` -/
  | ofCapacity (allocates : Bool)
  /-- `RingBuffer(RingBuffer&)` -/
  | copy (i : Nat) (held : BlockPointer) (allocates : Bool)
  /-- `RingBuffer(RingBuffer&&)` -/
  | move (i : Nat)
  /-- `operator=(RingBuffer&)` -/
  | copyAssign (i j : Nat) (allocates : Bool)
  /-- `operator=(RingBuffer&&)` -/
  | moveAssign (i j : Nat)
  | resize (i : Nat) (allocates : Bool)
  /-- `~RingBuffer` -/
  | destroy (i : Nat)

namespace RingBlocks

def empty : RingBlocks := ⟨0, [], [], []⟩

def isLive (s : RingBlocks) (i : Nat) : Bool := (s.rings[i]?.join).isSome

def memoryBlock (s : RingBlocks) (i : Nat) : BlockPointer := (s.rings[i]?.join).getD .null

def setMemoryBlock (i : Nat) (p : BlockPointer) (s : RingBlocks) : RingBlocks :=
  { s with rings := s.rings.set i (some p) }

/-- `if (MemoryBlock) Deallocate(MemoryBlock)`; the pointer stays. -/
def deallocate (p : BlockPointer) (s : RingBlocks) : RingBlocks :=
  match p with
  | .null => s
  | .block n => { s with freed := s.freed ++ [n] }

/-- A container takes a new block. -/
def takeBlock (i : Nat) (s : RingBlocks) : RingBlocks :=
  { s.setMemoryBlock i (.block s.allocated) with allocated := s.allocated + 1 }

/-- `Resize`. -/
def resize (i : Nat) (allocates : Bool) (s : RingBlocks) : RingBlocks :=
  if allocates then (s.deallocate (s.memoryBlock i)).takeBlock i else s

def construct (p : BlockPointer) (s : RingBlocks) : RingBlocks := { s with rings := s.rings ++ [some p] }

def reuse (s : RingBlocks) : BlockPointer → RingBlocks
  | .block n => { s with reused := n :: s.reused }
  | .null => s

def step (s : RingBlocks) : RingOperation → Option RingBlocks
  | .construct held => some ((s.construct held).reuse held)
  | .ofCapacity allocates =>
    some (if allocates then (s.construct .null).takeBlock s.rings.length else s.construct .null)
  | .copy i held allocates =>
    if s.isLive i then some (((s.construct held).resize s.rings.length allocates).reuse held)
    else none
  | .move i => if s.isLive i then some ((s.construct (s.memoryBlock i)).reuse (s.memoryBlock i)) else none
  | .copyAssign i j allocates =>
    if s.isLive i ∧ s.isLive j then
      some (((s.deallocate (s.memoryBlock i)).resize i allocates).reuse (s.memoryBlock i))
    else none
  | .moveAssign i j =>
    if s.isLive i ∧ s.isLive j then
      some (((s.deallocate (s.memoryBlock i)).setMemoryBlock i (s.memoryBlock j)).reuse (s.memoryBlock j))
    else none
  | .resize i allocates => if s.isLive i then some (s.resize i allocates) else none
  | .destroy i =>
    if s.isLive i then
      some { s.deallocate (s.memoryBlock i) with rings := s.rings.set i none }
    else none

variable {s s' : RingBlocks} {i b : Nat} {p : BlockPointer}

@[simp] theorem deallocate_rings : (s.deallocate p).rings = s.rings := by cases p <;> rfl

@[simp] theorem deallocate_allocated : (s.deallocate p).allocated = s.allocated := by cases p <;> rfl

@[simp] theorem deallocate_reused : (s.deallocate p).reused = s.reused := by cases p <;> rfl

@[simp] theorem deallocate_memoryBlock : (s.deallocate p).memoryBlock i = s.memoryBlock i := by
  simp [memoryBlock]

@[simp] theorem deallocate_isLive : (s.deallocate p).isLive i = s.isLive i := by
  simp [isLive]

theorem count_deallocate :
    (s.deallocate p).freed.count b = s.freed.count b + if p = .block b then 1 else 0 := by
  cases p with
  | null => simp [deallocate]
  | block n =>
    show (s.freed ++ [n]).count b = _
    rw [List.count_append, List.count_singleton]
    simp

theorem rings_memoryBlock (h : s.isLive i = true) : s.rings[i]? = some (some (s.memoryBlock i)) := by
  obtain ⟨p, hp⟩ := Option.isSome_iff_exists.mp h
  rw [memoryBlock, hp]
  exact Option.join_eq_some_iff.mp hp

theorem count_set (h : s.isLive i = true) (x : Option BlockPointer) :
    (s.rings.set i x).count (some (.block b)) + (if s.memoryBlock i = .block b then 1 else 0) =
      s.rings.count (some (.block b)) + if x = some (.block b) then 1 else 0 := by
  have hat := rings_memoryBlock h
  obtain ⟨hlt, hget⟩ := List.getElem?_eq_some_iff.mp hat
  rw [List.count_set hlt, hget]
  have hpos : s.memoryBlock i = .block b → 0 < s.rings.count (some (.block b)) := fun hb =>
    List.count_pos_iff.mpr (hb ▸ List.mem_of_getElem? hat)
  simp only [beq_iff_eq, Option.some.injEq]
  split
  · next hb =>
    have hone := hpos hb
    omega
  · omega

/-- Each block was freed or is to be freed once, and once more for every time that it was
reused. One reuse, of the block of `owed`, may not be written down yet. -/
def Balanced (owed : BlockPointer) (s : RingBlocks) : Prop :=
  ∀ b, s.freed.count b + s.rings.count (some (.block b)) =
    (if b < s.allocated then 1 else 0) + s.reused.count b + if owed = .block b then 1 else 0

variable {owed : BlockPointer}

theorem empty_balanced : Balanced .null empty := fun _ => rfl

theorem Balanced.reuse (h : Balanced owed s) : Balanced .null (s.reuse owed) := by
  intro b
  have hcount := h b
  cases owed with
  | block n =>
    show s.freed.count _ + s.rings.count _ = _ + (n :: s.reused).count b + 0
    rw [List.count_cons, hcount]
    simp only [BlockPointer.block.injEq, beq_iff_eq]
    exact Nat.add_assoc ..
  | null => exact hcount

/-- A new container. -/
theorem Balanced.construct (h : Balanced .null s) : Balanced p (s.construct p) := by
  intro b
  have hcount := h b
  show s.freed.count _ + (s.rings ++ [some p]).count _ = _
  rw [List.count_append, List.count_singleton, ← Nat.add_assoc, hcount]
  simp only [beq_iff_eq, Option.some.injEq, reduceCtorEq, if_false, Nat.add_zero]
  rfl

theorem construct_isLive : (s.construct p).isLive s.rings.length = true := by
  simp [isLive, RingBlocks.construct]

theorem construct_memoryBlock : (s.construct p).memoryBlock s.rings.length = p := by
  simp [RingBlocks.memoryBlock, RingBlocks.construct]

/-- The block of a container is freed, and its pointer is kept. -/
theorem Balanced.deallocate (h : Balanced .null s) :
    Balanced (s.memoryBlock i) (s.deallocate (s.memoryBlock i)) := by
  intro b
  have hcount := h b
  rw [deallocate_rings, deallocate_allocated, deallocate_reused, count_deallocate]
  simp only [reduceCtorEq, if_false] at hcount
  omega

/-- The old block of a container is freed when it takes a new one. -/
theorem Balanced.takeBlock (h : Balanced owed s) (hi : s.isLive i = true) :
    Balanced owed ((s.deallocate (s.memoryBlock i)).takeBlock i) := by
  intro b
  have hcount := h b
  have hset := count_set (b := b) hi (some (.block s.allocated))
  have hfreed := count_deallocate (s := s) (p := s.memoryBlock i) (b := b)
  simp only [RingBlocks.takeBlock, setMemoryBlock, deallocate_rings, deallocate_allocated,
    deallocate_reused]
  simp only [Option.some.injEq, BlockPointer.block.injEq] at hset
  have hnew : (if b < s.allocated + 1 then 1 else 0) =
      (if b < s.allocated then 1 else 0) + if s.allocated = b then 1 else 0 := by
    split <;> split <;> split <;> omega
  omega

theorem Balanced.resize (h : Balanced owed s) (hi : s.isLive i = true) (allocates : Bool) :
    Balanced owed (s.resize i allocates) := by
  unfold RingBlocks.resize
  split
  · exact h.takeBlock hi
  · exact h

/-- The block of a container is freed, and another one is its block too. -/
theorem Balanced.share (h : Balanced .null s) (hi : s.isLive i = true) :
    Balanced p ((s.deallocate (s.memoryBlock i)).setMemoryBlock i p) := by
  intro b
  have hcount := h b
  have hset := count_set (b := b) hi (some p)
  have hfreed := count_deallocate (s := s) (p := s.memoryBlock i) (b := b)
  simp only [setMemoryBlock, deallocate_rings, deallocate_allocated, deallocate_reused]
  simp only [Option.some.injEq] at hset
  simp only [reduceCtorEq, if_false] at hcount
  omega

theorem Balanced.destroy (h : Balanced .null s) (hi : s.isLive i = true) :
    Balanced .null { s.deallocate (s.memoryBlock i) with rings := s.rings.set i none } := by
  intro b
  have hcount := h b
  have hset := count_set (b := b) hi none
  have hfreed := count_deallocate (s := s) (p := s.memoryBlock i) (b := b)
  simp only [deallocate_allocated, deallocate_reused]
  simp only [reduceCtorEq, if_false] at hset
  omega

theorem Balanced.step {op : RingOperation} (h : Balanced .null s) (hs : s.step op = some s') :
    Balanced .null s' := by
  cases op with
  | construct held =>
    cases hs
    exact h.construct.reuse
  | ofCapacity allocates =>
    cases hs
    have hnew := (h.construct (p := .null)).resize construct_isLive allocates
    unfold RingBlocks.resize at hnew
    rwa [construct_memoryBlock] at hnew
  | copy i held allocates =>
    obtain ⟨-, ⟨⟩⟩ := Option.ite_none_right_eq_some.mp hs
    exact (h.construct.resize construct_isLive allocates).reuse
  | move i =>
    obtain ⟨-, ⟨⟩⟩ := Option.ite_none_right_eq_some.mp hs
    exact h.construct.reuse
  | copyAssign i j allocates =>
    obtain ⟨⟨hi, -⟩, ⟨⟩⟩ := Option.ite_none_right_eq_some.mp hs
    exact (h.deallocate.resize (deallocate_isLive.trans hi) allocates).reuse
  | moveAssign i j =>
    obtain ⟨⟨hi, -⟩, ⟨⟩⟩ := Option.ite_none_right_eq_some.mp hs
    exact (h.share hi).reuse
  | resize i allocates =>
    obtain ⟨hi, ⟨⟩⟩ := Option.ite_none_right_eq_some.mp hs
    exact h.resize hi allocates
  | destroy i =>
    obtain ⟨hi, ⟨⟩⟩ := Option.ite_none_right_eq_some.mp hs
    exact h.destroy hi

theorem run_balanced {ops : List RingOperation} (hrun : Machine.run step empty ops = some s) :
    Balanced .null s :=
  Machine.invariant (I := fun s : RingBlocks => Balanced .null s) (fun _ _ _ h hs => h.step hs)
    empty_balanced hrun

/-- Once every container has been destroyed, each block has been freed once, and every address
once more for every time that a container with it was moved from or copied to or that a new
container found it in its memory. So exactly in the runs without such a move, copy or find
`Deallocate` was called once for each block and for nothing else. -/
theorem freed_count {ops : List RingOperation} (hrun : Machine.run step empty ops = some s)
    (hgone : ∀ i, s.isLive i = false) :
    (∀ b, s.freed.count b = (if b < s.allocated then 1 else 0) + s.reused.count b) ∧
      (s.freed.Perm (List.range s.allocated) ↔ s.reused = []) := by
  have hcount : ∀ b, s.freed.count b = (if b < s.allocated then 1 else 0) + s.reused.count b := by
    intro b
    have hnone : s.rings.count (some (.block b)) = 0 := by
      apply List.count_eq_zero.mpr
      intro hmem
      obtain ⟨i, hi⟩ := List.mem_iff_getElem?.mp hmem
      have hlive := hgone i
      simp [isLive, hi] at hlive
    have hb := run_balanced hrun b
    rw [hnone, Nat.add_zero] at hb
    exact hb
  have hblocks : ∀ b, (List.range s.allocated).count b = if b < s.allocated then 1 else 0 := by
    intro b
    rw [List.nodup_range.count]
    simp only [List.mem_range]
  refine ⟨hcount, fun hperm => ?_, fun hnil => ?_⟩
  · apply List.eq_nil_iff_forall_not_mem.mpr
    intro b hb
    have hpos := List.count_pos_iff.mpr hb
    have honce := List.perm_iff_count.mp hperm b
    rw [hcount, hblocks] at honce
    omega
  · apply List.perm_iff_count.mpr
    intro b
    rw [hcount, hblocks, hnil, List.count_nil, Nat.add_zero]

/-- A container with a block is moved to another one, a copy is assigned to a third one, and a
fourth one is built where the address of the second block is left. -/
def movedOnce : List RingOperation :=
  [.ofCapacity true, .move 0, .ofCapacity true, .resize 2 true, .copyAssign 2 1 true,
    .construct (.block 1), .destroy 3, .destroy 2, .destroy 1, .destroy 0]

theorem freed_count_movedOnce : ∃ s, Machine.run step empty movedOnce = some s ∧
    s.allocated = 4 ∧ s.freed = [1, 2, 2, 1, 3, 0, 0] ∧ s.reused = [1, 2, 0] ∧
    (∀ b, s.freed.count b = (if b < s.allocated then 1 else 0) + s.reused.count b) ∧
      (s.freed.Perm (List.range s.allocated) ↔ s.reused = []) := by
  have hrun : (Machine.run step empty movedOnce).map (fun s => (s.rings, s.allocated, s.freed, s.reused)) =
      some ([none, none, none, none], 4, [1, 2, 2, 1, 3, 0, 0], [1, 2, 0]) := by decide
  obtain ⟨s, hs, h⟩ := Option.map_eq_some_iff.mp hrun
  obtain ⟨hrings, h⟩ := Prod.mk.inj h
  obtain ⟨hallocated, h⟩ := Prod.mk.inj h
  obtain ⟨hfreed, hreused⟩ := Prod.mk.inj h
  have hgone : ∀ i, s.isLive i = false := by
    intro i
    unfold isLive
    rw [hrings]
    rcases i with _ | _ | _ | _ | i <;> rfl
  exact ⟨s, hs, hallocated, hfreed, hreused, freed_count hs hgone⟩

end RingBlocks

end AsciiTerra
