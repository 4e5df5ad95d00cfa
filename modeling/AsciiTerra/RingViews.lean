import AsciiTerra.RingRefinement

/-!
# The views of `RingBuffer`

`LookAtIndex`, `Front`, `Back` and the iterators look at the slots themselves. They are
compared with the slots that hold an element, in the containers that calls lead to.
-/

set_option autoImplicit false

namespace AsciiTerra
namespace RingBuffer

open Ring Deque

variable {ValueT : Type} {c : Nat} {rb rb' : RingBuffer ValueT} {q : List ValueT}

/-- Nothing was allocated. -/
def Unallocated (rb : RingBuffer ValueT) : Prop := rb = ⟨none, 0, invalidIndex, 0⟩

theorem Unallocated.call (h : Unallocated rb) {k : Call ValueT} {r : Returned ValueT}
    (hcall : rb.call k = .ok (r, rb')) : Unallocated rb' := by
  cases h
  cases k <;> cases hcall <;> rfl

theorem ofCapacity_cases (sizeof : Nat) (allocate : Nat → Option (Nat → ValueT))
    (capacity : UInt64) :
    Holds capacity.toNat (ofCapacity sizeof allocate capacity) [] ∨
      Unallocated (ofCapacity sizeof allocate capacity) := by
  by_cases hblock : (ofCapacity sizeof allocate capacity).memoryBlock.isSome
  · obtain ⟨hpos, hvalid, block, -, heq⟩ := ofCapacity_eq hblock
    rw [heq]
    exact .inl ⟨rfl, hpos, hvalid, rfl, Nat.zero_le _, fun _ => rfl, fun hq => absurd rfl hq, block,
      rfl, Stored.nil⟩
  · right
    unfold ofCapacity at *
    split
    · rename_i hcap
      rw [if_pos hcap] at hblock
      cases hallocate : allocate (capacity.toNat * sizeof % 2 ^ 64) with
      | none =>
        simp only [hallocate]
        rfl
      | some contents =>
        simp only [hallocate] at hblock
        exact absurd rfl hblock
    · rfl

theorem calls_cases (h : (∃ q, Holds c rb q) ∨ Unallocated rb) {cs : List (Call ValueT)}
    (hcalls : rb.calls cs = .ok rb') : (∃ q, Holds c rb' q) ∨ Unallocated rb' := by
  induction cs generalizing rb with
  | nil =>
    cases hcalls
    exact h
  | cons k cs ih =>
    rw [calls, List.foldlM_cons] at hcalls
    cases hcall : rb.call k with
    | error e =>
      rw [hcall] at hcalls
      cases hcalls
    | ok result =>
      rw [hcall] at hcalls
      refine ih ?_ hcalls
      rcases h with ⟨q, hq⟩ | hnone
      · exact .inl ⟨_, (hq.call_ok hcall).1⟩
      · exact .inr (hnone.call hcall)

theorem reached_cases {sizeof : Nat} {allocate : Nat → Option (Nat → ValueT)} {capacity : UInt64}
    {cs : List (Call ValueT)} (h : (ofCapacity sizeof allocate capacity).calls cs = .ok rb) :
    (∃ q, Holds capacity.toNat rb q) ∨ Unallocated rb := by
  refine calls_cases ?_ h
  rcases ofCapacity_cases sizeof allocate capacity with hholds | hnone
  · exact .inl ⟨[], hholds⟩
  · exact .inr hnone

/-- Slot `i` holds an element: one of those from the front on backwards. -/
def Live (rb : RingBuffer ValueT) (i : Nat) : Prop :=
  ∃ k < rb.elementsInside, behind rb.capacity rb.head k = i

theorem Holds.live_iff (h : Holds c rb q) (hq : q ≠ []) {i : Nat} :
    rb.Live i ↔
      if behind c rb.head (q.length - 1) ≤ rb.head then
        behind c rb.head (q.length - 1) ≤ i ∧ i ≤ rb.head
      else behind c rb.head (q.length - 1) ≤ i ∧ i < c ∨ i ≤ rb.head := by
  unfold Live
  rw [h.size, h.capacity]
  exact exists_behind_iff (List.length_pos_iff.mpr hq) h.bound

/-- `LookAtIndex` shows the slots that hold an element and no other. -/
def LooksRight (rb : RingBuffer ValueT) (index : Nat) : Prop :=
  ∃ pointer, rb.lookAtIndex index = .ok pointer ∧ (pointer ≠ none ↔ rb.Live index)

/-- The index lies before the slots of a ring that does not wrap. -/
def BeforeTail (rb : RingBuffer ValueT) (index : Nat) : Prop :=
  ∃ tail, rb.getTailIndex = .ok tail ∧ rb.elementsInside ≠ 0 ∧ tail ≤ rb.getHeadIndex ∧ index < tail

/-- `LookAtIndex` shows an index below the capacity that is not outside of the ring. -/
theorem Holds.lookAtIndex_ok (h : Holds c rb q) (hq : q ≠ []) (index : Nat) :
    ∃ pointer, rb.lookAtIndex index = .ok pointer ∧
      (pointer ≠ none ↔ ¬ (index ≥ c ∨
        index < behind c rb.head (q.length - 1) ∧ index > rb.head ∨
        index > behind c rb.head (q.length - 1) ∧ index > rb.head ∧
          behind c rb.head (q.length - 1) ≤ rb.head)) := by
  have htail := h.getTailIndex_eq hq
  have hpos := List.length_pos_iff.mpr hq
  have hsize := h.size
  have hvalid := h.valid
  unfold lookAtIndex
  rw [htail, h.capacity]
  by_cases hguard : index ≥ c ∨ rb.elementsInside = 0 ∨ index = invalidIndex
  · rw [if_pos hguard]
    refine ⟨none, rfl, iff_of_false (fun hne => hne rfl) ?_⟩
    omega
  · rw [if_neg hguard]
    unfold getHeadIndex
    dsimp only [bind, Except.bind]
    split
    · exact ⟨none, rfl, iff_of_false (fun hne => hne rfl) (by omega)⟩
    · exact ⟨some index, rfl, iff_of_true (Option.some_ne_none index) (by omega)⟩

theorem Holds.beforeTail_iff (h : Holds c rb q) (hq : q ≠ []) (index : Nat) :
    rb.BeforeTail index ↔
      behind c rb.head (q.length - 1) ≤ rb.head ∧ index < behind c rb.head (q.length - 1) := by
  have htail := h.getTailIndex_eq hq
  have hpos := List.length_pos_iff.mpr hq
  have hsize := h.size
  constructor
  · rintro ⟨tail, hget, -, hle, hlt⟩
    cases htail.symm.trans hget
    exact ⟨hle, hlt⟩
  · rintro ⟨hle, hlt⟩
    exact ⟨_, htail, by omega, hle, hlt⟩

theorem Holds.looksRight_iff (h : Holds c rb q) (index : Nat) :
    rb.LooksRight index ↔ ¬ rb.BeforeTail index := by
  by_cases hq : q = []
  · have hsize : rb.elementsInside = 0 := by rw [h.size, hq, List.length_nil]
    have hlook : rb.lookAtIndex index = .ok none := if_pos (.inr (.inl hsize))
    constructor
    · rintro _ ⟨-, -, hne, -⟩
      exact hne hsize
    · intro _
      refine ⟨none, hlook, ?_⟩
      unfold Live
      simp [hsize]
  · obtain ⟨pointer, hlook, hshown⟩ := h.lookAtIndex_ok hq index
    have hright : rb.LooksRight index ↔ (pointer ≠ none ↔ rb.Live index) := by
      constructor
      · rintro ⟨pointer', hlook', hiff⟩
        cases hlook.symm.trans hlook'
        exact hiff
      · intro hiff
        exact ⟨pointer, hlook, hiff⟩
    have hhead := h.head hq
    have hlt := behind_lt (k := q.length - 1) hhead
    rw [hright, hshown, h.beforeTail_iff hq, h.live_iff hq]
    split_ifs <;> omega

/-- In every container that calls lead to, `LookAtIndex` is right exactly for the indices that do
not lie before the slots of a ring that does not wrap. -/
theorem looksRight_reached (sizeof : Nat) (allocate : Nat → Option (Nat → ValueT))
    (capacity : UInt64) (cs : List (Call ValueT)) (rb : RingBuffer ValueT)
    (h : (ofCapacity sizeof allocate capacity).calls cs = .ok rb) (index : Nat) :
    rb.LooksRight index ↔ ¬ rb.BeforeTail index := by
  rcases reached_cases h with ⟨q, hholds⟩ | hnone
  · exact hholds.looksRight_iff index
  · cases hnone
    constructor
    · rintro _ ⟨-, -, hne, -⟩
      exact hne rfl
    · intro _
      refine ⟨none, rfl, ?_⟩
      simp [Live]

/-- One element in three slots. -/
theorem looksRight_reached_three :
    ∃ rb, (ofCapacity 8 (fun _ => some fun _ => (0 : UInt64)) 3).calls [.pushFront 7] = .ok rb ∧
      (rb.LooksRight 2 ↔ ¬ rb.BeforeTail 2) :=
  ⟨_, rfl, looksRight_reached 8 (fun _ => some fun _ => 0) 3 [.pushFront 7] _ rfl 2⟩

/-- One element in the middle slot of three. -/
def middle : RingBuffer UInt64 := ⟨some [7, 8, 0], 3, 1, 1⟩

/-- The slot before the only element is shown. -/
theorem lookAtIndex_middle :
    (ofCapacity 8 (fun _ => some fun _ => (0 : UInt64)) 3).calls
        [.pushFront 7, .pushFront 8, .popBack] = .ok middle ∧
      middle.lookAtIndex 0 = .ok (some 0) ∧ ¬ middle.Live 0 ∧ ¬ middle.LooksRight 0 := by
  have hlook : middle.lookAtIndex 0 = .ok (some 0) := rfl
  have hlive : ¬ middle.Live 0 := by
    rintro ⟨k, hk, hbehind⟩
    have hzero : k = 0 := Nat.lt_one_iff.mp hk
    subst hzero
    cases hbehind
  refine ⟨rfl, hlook, hlive, ?_⟩
  rintro ⟨pointer, hpointer, hiff⟩
  cases hlook.symm.trans hpointer
  exact hlive (hiff.mp (Option.some_ne_none 0))

/-- `Front` designates the slot that `PopFront` takes its element from. -/
def FrontAgrees (rb : RingBuffer ValueT) : Prop :=
  ∃ i, rb.front = .ok i ∧ rb.frontPointer = some i

/-- `Back` designates the slot that `PopBack` takes its element from. -/
def BackAgrees (rb : RingBuffer ValueT) : Prop :=
  ∃ i, rb.back = .ok i ∧ rb.backPointer = .ok (some i)

/-- The iterators pass each slot that holds an element once and no other slot. -/
def VisitsLive (rb : RingBuffer ValueT) : Prop :=
  rb.visited.Nodup ∧ ∀ i, i ∈ rb.visited ↔ rb.Live i

theorem Holds.frontPointer_eq (h : Holds c rb q) (hq : q ≠ []) : rb.frontPointer = some rb.head := by
  unfold frontPointer pointToValueAtIndex
  rw [if_pos (h.head_ne hq), h.capacity, if_neg (Nat.not_le.mpr (h.head hq))]

theorem Holds.backPointer_eq (h : Holds c rb q) (hq : q ≠ []) :
    rb.backPointer = .ok (some (behind c rb.head (q.length - 1))) := by
  have hlt := behind_lt (k := q.length - 1) (h.head hq)
  have hvalid := h.valid
  unfold backPointer pointToValueAtIndex
  rw [h.getTailIndex_eq hq, h.capacity]
  change (if behind c rb.head (q.length - 1) ≠ invalidIndex then _ else _) = _
  rw [if_pos (by omega)]
  change Except.ok (if behind c rb.head (q.length - 1) ≥ c then none else some _) = _
  rw [if_neg (by omega)]

theorem Holds.popFront_pointer (h : Holds c rb q) {a : ValueT} (ha : q.head? = some a) :
    rb.load rb.frontPointer = .ok a ∧ ∃ rb', rb.popFront = .ok (some a, rb') := by
  have hq : q ≠ [] := by
    rintro rfl
    cases ha
  obtain ⟨block, hblock, hstored⟩ := h.slots
  obtain ⟨rb', hpop, -⟩ := h.popFront_eq
  have hfront := hstored.front hq
  rw [ha] at hfront hpop
  refine ⟨?_, rb', hpop⟩
  unfold frontPointer
  rw [if_pos (h.head_ne hq)]
  exact load_eq hblock (by rw [h.capacity]; exact h.head hq) hfront

theorem Holds.popBack_pointer (h : Holds c rb q) {a : ValueT} (ha : q.getLast? = some a) :
    (rb.backPointer >>= rb.load) = .ok a ∧ ∃ rb', rb.popBack = .ok (some a, rb') := by
  have hq : q ≠ [] := by
    rintro rfl
    cases ha
  obtain ⟨block, hblock, hstored⟩ := h.slots
  obtain ⟨rb', hpop, -⟩ := h.popBack_eq
  have hback := hstored.back hq
  have hlt := behind_lt (k := q.length - 1) (h.head hq)
  rw [ha] at hback hpop
  refine ⟨?_, rb', hpop⟩
  rw [h.backPointer_eq hq]
  have hload := load_eq hblock (by rw [h.capacity]; exact hlt) hback
  have hpoint : rb.pointToValueAtIndex (behind c rb.head (q.length - 1)) =
      some (behind c rb.head (q.length - 1)) := if_neg (by rw [h.capacity]; omega)
  rwa [hpoint] at hload

theorem Holds.same_slot_iff (h : Holds c rb q) (hq : q ≠ []) :
    behind c rb.head (q.length - 1) = rb.head ↔ q.length = 1 := by
  have hpos := List.length_pos_iff.mpr hq
  have hbound := h.bound
  constructor
  · intro heq
    by_contra hne
    have hdiffer : behind c rb.head 0 ≠ behind c rb.head (q.length - 1) :=
      behind_ne (by omega) (by omega)
    rw [behind_zero] at hdiffer
    exact hdiffer heq.symm
  · intro hone
    rw [hone, Nat.sub_self, behind_zero]

theorem Holds.frontAgrees_iff (h : Holds c rb q) (hq : q ≠ []) :
    rb.FrontAgrees ↔ rb.getSize = 1 := by
  have hfront : rb.front = .ok (behind c rb.head (q.length - 1)) := by
    unfold front
    rw [h.backPointer_eq hq]
    rfl
  unfold FrontAgrees getSize
  rw [hfront, h.frontPointer_eq hq, h.size, ← h.same_slot_iff hq]
  constructor
  · rintro ⟨i, hi, hi'⟩
    cases hi
    exact (Option.some.inj hi').symm
  · intro heq
    exact ⟨_, rfl, congrArg some heq.symm⟩

theorem Holds.backAgrees_iff (h : Holds c rb q) (hq : q ≠ []) : rb.BackAgrees ↔ rb.getSize = 1 := by
  have hback : rb.back = .ok rb.head := by
    unfold back
    rw [h.frontPointer_eq hq]
    rfl
  unfold BackAgrees getSize
  rw [hback, h.backPointer_eq hq, h.size, ← h.same_slot_iff hq]
  constructor
  · rintro ⟨i, hi, hi'⟩
    cases hi
    exact Option.some.inj (Except.ok.inj hi')
  · intro heq
    exact ⟨_, rfl, by rw [heq]⟩

theorem Holds.visitsLive_iff (h : Holds c rb q) (hq : q ≠ []) :
    rb.VisitsLive ↔ rb.getHeadIndex + 1 = rb.getSize ∨ rb.getSize = rb.capacity := by
  have hvisits := forall_lt_iff_exists_behind (h.head hq) (List.length_pos_iff.mpr hq) h.bound
  unfold VisitsLive visited getHeadIndex getSize Live
  rw [h.size, h.capacity, ← hvisits]
  simp only [List.mem_range]
  exact and_iff_right List.nodup_range

/-- In every container that calls lead to and that is not empty, `Front` and `Back` designate the
element at the other end, and the iterators pass the first slots. So the view agrees with the queue
exactly for one element in the first slot. -/
theorem views_reached (sizeof : Nat) (allocate : Nat → Option (Nat → ValueT)) (capacity : UInt64)
    (cs : List (Call ValueT)) (rb : RingBuffer ValueT)
    (h : (ofCapacity sizeof allocate capacity).calls cs = .ok rb) (hne : rb.getSize ≠ 0) :
    (rb.FrontAgrees ↔ rb.getSize = 1) ∧ (rb.BackAgrees ↔ rb.getSize = 1) ∧
    (rb.VisitsLive ↔ rb.getHeadIndex + 1 = rb.getSize ∨ rb.getSize = rb.capacity) ∧
    (rb.FrontAgrees ∧ rb.BackAgrees ∧ rb.VisitsLive ↔ rb.getSize = 1 ∧ rb.getHeadIndex = 0) := by
  rcases reached_cases h with ⟨q, hholds⟩ | hnone
  · have hq : q ≠ [] := by
      rintro rfl
      exact hne hholds.size
    have hfront := hholds.frontAgrees_iff hq
    have hback := hholds.backAgrees_iff hq
    have hvisits := hholds.visitsLive_iff hq
    have hhead : rb.getHeadIndex < rb.capacity := by
      rw [hholds.capacity]
      exact hholds.head hq
    refine ⟨hfront, hback, hvisits, ?_⟩
    rw [hfront, hback, hvisits]
    omega
  · cases hnone
    exact absurd rfl hne

theorem views_reached_one :
    ∃ rb, (ofCapacity 8 (fun _ => some fun _ => (0 : UInt64)) 3).calls [.pushFront 7] = .ok rb ∧
      (rb.FrontAgrees ∧ rb.BackAgrees ∧ rb.VisitsLive ↔ rb.getSize = 1 ∧ rb.getHeadIndex = 0) :=
  ⟨_, rfl, (views_reached 8 (fun _ => some fun _ => 0) 3 [.pushFront 7] _ rfl (by decide)).2.2.2⟩

/-- Two elements in three slots, pushed at the front: `7` and then `8`. -/
def pushedTwice : RingBuffer UInt64 := ⟨some [7, 8, 0], 3, 1, 2⟩

/-- `Front` designates the slot of `7`, where `PopFront` returns `8`. -/
theorem front_pushedTwice :
    (ofCapacity 8 (fun _ => some fun _ => (0 : UInt64)) 3).calls [.pushFront 7, .pushFront 8] =
        .ok pushedTwice ∧
      pushedTwice.front = .ok 0 ∧ pushedTwice.load (some 0) = .ok 7 ∧
      pushedTwice.frontPointer = some 1 ∧ pushedTwice.load (some 1) = .ok 8 ∧
      ¬ pushedTwice.FrontAgrees := by
  refine ⟨rfl, rfl, rfl, rfl, rfl, ?_⟩
  rintro ⟨i, hfront, hpointer⟩
  cases hfront
  cases hpointer

end RingBuffer
end AsciiTerra
