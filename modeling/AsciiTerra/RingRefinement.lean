import AsciiTerra.RingBuffer

/-!
# `RingBuffer` refines a bounded queue

A container that stores a queue keeps storing what the queue becomes, and each call
returns what the queue shows. The only way to lose this is the constructor's product of
the capacity and the size of an element, which may wrap around.
-/

set_option autoImplicit false

namespace AsciiTerra
namespace RingBuffer

open Ring Deque

variable {ValueT : Type} {c : Nat} {rb : RingBuffer ValueT} {q : List ValueT}

/-- The operation of the queue that a call stands for. -/
def Call.asOperation : Call ValueT → Operation ValueT
  | .pushFront value | .emplaceFront value => .pushFront value
  | .pushBack value | .emplaceBack value => .pushBack value
  | .popFront => .popFront
  | .popBack => .popBack
  | .peekFront => .peekFront
  | .peekBack => .peekBack
  | .clear => .clear

/-- What the caller sees of the queue. -/
def Returned.observed : Returned ValueT → Observation ValueT
  | .index i => .pushed (i ≠ invalidIndex)
  | .element value => .element value
  | .nothing => .cleared

theorem difference_eq {a b : Nat} (h : b ≤ a) : difference a b = .ok (a - b) := if_pos h

theorem load_eq {block : List ValueT} {i : Nat} {a : ValueT} (hmem : rb.memoryBlock = some block)
    (hcap : i < rb.capacity) (ha : block[i]? = some a) :
    rb.load (rb.pointToValueAtIndex i) = .ok a := by
  have hpoint : rb.pointToValueAtIndex i = some i := if_neg (by omega)
  unfold load
  rw [hmem, hpoint]
  simp only [ha]

theorem store_eq {block : List ValueT} {i : Nat} (hmem : rb.memoryBlock = some block)
    (hcap : i < rb.capacity) (hlen : i < block.length) (a : ValueT) :
    rb.store (rb.pointToValueAtIndex i) a =
      .ok { rb with memoryBlock := some (block.set i a) } := by
  have hpoint : rb.pointToValueAtIndex i = some i := if_neg (by omega)
  unfold store
  rw [hmem, hpoint]
  exact if_pos hlen

theorem store_outside {block : List ValueT} {i : Nat} (hmem : rb.memoryBlock = some block)
    (hcap : i < rb.capacity) (hlen : block.length ≤ i) (a : ValueT) :
    rb.store (rb.pointToValueAtIndex i) a = .error .outsideBlock := by
  have hpoint : rb.pointToValueAtIndex i = some i := if_neg (by omega)
  unfold store
  rw [hmem, hpoint]
  exact if_neg (Nat.not_lt.mpr hlen)

/-- The container holds the queue: each of its elements lies in a slot of the block. -/
structure Holds (c : Nat) (rb : RingBuffer ValueT) (q : List ValueT) : Prop where
  capacity : rb.capacity = c
  pos : 0 < c
  valid : c < invalidIndex
  size : rb.elementsInside = q.length
  bound : q.length ≤ c
  empty : q = [] → rb.head = invalidIndex
  head : q ≠ [] → rb.head < c
  slots : ∃ block, rb.memoryBlock = some block ∧ Stored block c rb.head q

/-- The container stores the queue and has a slot for each element that may come in. -/
structure Represents (c : Nat) (rb : RingBuffer ValueT) (q : List ValueT) : Prop where
  capacity : rb.capacity = c
  pos : 0 < c
  valid : c < invalidIndex
  size : rb.elementsInside = q.length
  bound : q.length ≤ c
  empty : q = [] → rb.head = invalidIndex
  head : q ≠ [] → rb.head < c
  slots : ∃ block, rb.memoryBlock = some block ∧ c ≤ block.length ∧ Stored block c rb.head q

theorem Represents.holds (h : Represents c rb q) : Holds c rb q := by
  obtain ⟨block, hblock, -, hstored⟩ := h.slots
  exact ⟨h.capacity, h.pos, h.valid, h.size, h.bound, h.empty, h.head, block, hblock, hstored⟩

theorem Holds.represents (h : Holds c rb q) {block : List ValueT}
    (hmem : rb.memoryBlock = some block) (hlen : c ≤ block.length) : Represents c rb q := by
  obtain ⟨block', hblock, hstored⟩ := h.slots
  cases hmem.symm.trans hblock
  exact ⟨h.capacity, h.pos, h.valid, h.size, h.bound, h.empty, h.head, block, hmem, hlen, hstored⟩

namespace Holds

theorem head_ne (h : Holds c rb q) (hq : q ≠ []) : rb.head ≠ invalidIndex := by
  have hhead := h.head hq
  have hvalid := h.valid
  omega

theorem getTailIndex_empty (h : Holds c rb []) : rb.getTailIndex = .ok invalidIndex := by
  unfold getTailIndex
  rw [if_neg (by rw [h.capacity]; exact h.pos.ne'), if_pos (h.empty rfl)]
  rfl

theorem getTailIndex_eq (h : Holds c rb q) (hq : q ≠ []) :
    rb.getTailIndex = .ok (behind c rb.head (q.length - 1)) := by
  have hpos := List.length_pos_iff.mpr hq
  have hhead := h.head hq
  have hbound := h.bound
  unfold getTailIndex
  rw [if_neg (by rw [h.capacity]; exact h.pos.ne'), if_neg (h.head_ne hq)]
  rw [h.size, h.capacity]
  by_cases hone : q.length = 1
  · rw [if_pos hone, hone]
    simp [behind, pure, Except.pure]
  · rw [if_neg hone, difference_eq (by omega)]
    change (if rb.head < q.length - 1 then _ else _) = _
    split
    · rename_i hwrap
      rw [difference_eq (by omega)]
      change (difference (q.length - rb.head) 1 >>= difference c) = _
      rw [difference_eq (by omega)]
      change difference c (q.length - rb.head - 1) = _
      rw [difference_eq (by omega)]
      unfold behind
      rw [if_neg (by omega)]
      congr 1
      omega
    · rename_i hwrap
      rw [difference_eq (by omega)]
      unfold behind
      rw [if_pos (by omega)]

theorem getNextTailIndex_eq (h : Holds c rb q) (hq : q ≠ []) (hroom : q.length < c) :
    rb.getNextTailIndex = .ok (behind c rb.head q.length) := by
  have hpos := List.length_pos_iff.mpr hq
  have hhead := h.head hq
  unfold getNextTailIndex
  rw [if_neg (by rw [h.capacity, h.size]; omega), h.getTailIndex_eq hq, h.capacity]
  change (if behind c rb.head (q.length - 1) = 0 then difference c 1
    else difference (behind c rb.head (q.length - 1)) 1) = _
  have hbound := h.bound
  have hnext := behind_succ (k := q.length - 1) hhead (by omega)
  rw [Nat.sub_add_cancel hpos] at hnext
  rw [hnext]
  split
  · exact difference_eq h.pos
  · exact difference_eq (by omega)

theorem getNextHeadIndex_eq (h : Holds c rb q) (hroom : q.length < c) :
    rb.getNextHeadIndex = .ok (ahead c rb.head) := by
  unfold getNextHeadIndex
  rw [if_neg (by rw [h.capacity, h.size]; omega), h.capacity, difference_eq h.pos]
  change (if rb.head = c - 1 then pure 0 else pure (rb.head + 1)) = _
  unfold ahead
  split <;> rfl

theorem backIndex_eq (h : Holds c rb q) (hroom : q.length < c) :
    rb.backIndex = .ok (if q = [] then 0 else behind c rb.head q.length) := by
  unfold backIndex
  by_cases hq : q = []
  · subst hq
    rw [h.getTailIndex_empty]
    rfl
  · have hhead := h.head hq
    have hvalid := h.valid
    have htail := behind_lt (k := q.length - 1) hhead
    rw [h.getTailIndex_eq hq, if_neg hq]
    change (if ¬ behind c rb.head (q.length - 1) = invalidIndex then rb.getNextTailIndex
      else pure 0) = _
    rw [if_pos (by omega)]
    exact h.getNextTailIndex_eq hq hroom

theorem frontIndex_eq (h : Holds c rb q) (hroom : q.length < c) :
    rb.frontIndex = .ok (if q = [] then 0 else ahead c rb.head) := by
  unfold frontIndex
  by_cases hq : q = []
  · rw [if_neg (by rw [h.empty hq]; simp), if_pos hq]
    rfl
  · rw [if_pos (h.head_ne hq), if_neg hq]
    exact h.getNextHeadIndex_eq hroom

/-- How the container holds the longer queue when the slot at its back is in the block. -/
theorem pushed_back (h : Holds c rb q) (hroom : q.length < c) {block : List ValueT}
    (hmem : rb.memoryBlock = some block) :
    ∃ i, i < c ∧ rb.backIndex = .ok i ∧ ∀ a, i < block.length →
      Holds c ({ rb with
        memoryBlock := some (block.set i a)
        elementsInside := rb.elementsInside + 1 }.setFirstHead i) (q ++ [a]) := by
  obtain ⟨block', hblock', hstored⟩ := h.slots
  cases hmem.symm.trans hblock'
  have hvalid := h.valid
  by_cases hq : q = []
  · subst hq
    refine ⟨0, h.pos, h.backIndex_eq hroom, fun a hi => ?_⟩
    have hhead := h.empty rfl
    have hsize := h.size
    simp only [setFirstHead, hhead, if_true]
    exact ⟨h.capacity, h.pos, hvalid, by simp [hsize], h.pos, by simp, fun _ => h.pos, _, rfl,
      Stored.singleton hi⟩
  · have hhead := h.head hq
    have hindex := h.backIndex_eq hroom
    rw [if_neg hq] at hindex
    refine ⟨_, behind_lt hhead, hindex, fun a hi => ?_⟩
    simp only [setFirstHead, h.head_ne hq, if_false]
    refine ⟨h.capacity, h.pos, hvalid, ?_, ?_, by simp, fun _ => hhead, _, rfl,
      hstored.pushBack hroom hi a⟩
    · simp [h.size]
    · rw [List.length_append, List.length_singleton]
      exact hroom

theorem pushed_front (h : Holds c rb q) (hroom : q.length < c) {block : List ValueT}
    (hmem : rb.memoryBlock = some block) :
    ∃ i, i < c ∧ rb.frontIndex = .ok i ∧ ∀ a, i < block.length →
      Holds c { rb with
        memoryBlock := some (block.set i a)
        head := i
        elementsInside := rb.elementsInside + 1 } (a :: q) := by
  obtain ⟨block', hblock', hstored⟩ := h.slots
  cases hmem.symm.trans hblock'
  have hvalid := h.valid
  have hi : (if q = [] then 0 else ahead c rb.head) < c := by
    split
    · exact h.pos
    · rename_i hq
      exact ahead_lt (h.head hq)
  refine ⟨_, hi, h.frontIndex_eq hroom, fun a hib => ?_⟩
  refine ⟨h.capacity, h.pos, hvalid, by simp [h.size], hroom, by simp, fun _ => hi, _, rfl, ?_⟩
  by_cases hq : q = []
  · subst hq
    exact Stored.singleton hib
  · simp only [hq, if_false] at hib ⊢
    exact hstored.pushFront (h.head hq) hroom hib a

theorem cleared (h : Holds c rb q) : Holds c rb.clear [] := by
  obtain ⟨block, hblock, -⟩ := h.slots
  exact ⟨h.capacity, h.pos, h.valid, rfl, Nat.zero_le c, fun _ => rfl, fun hq => absurd rfl hq,
    block, hblock, Stored.nil⟩

theorem peekFront_eq (h : Holds c rb q) : rb.peekFront = .ok q.head? := by
  unfold peekFront
  by_cases hq : q = []
  · subst hq
    rw [h.empty rfl]
    rfl
  · obtain ⟨block, hblock, hstored⟩ := h.slots
    obtain ⟨a, q', rfl⟩ := List.exists_cons_of_ne_nil hq
    rw [if_pos (h.head_ne hq), load_eq hblock (by rw [h.capacity]; exact h.head hq)
      (hstored.front hq)]
    rfl

theorem peekBack_eq (h : Holds c rb q) : rb.peekBack = .ok q.getLast? := by
  unfold peekBack
  by_cases hq : q = []
  · subst hq
    rw [h.getTailIndex_empty]
    rfl
  · obtain ⟨block, hblock, hstored⟩ := h.slots
    have hi : behind c rb.head (q.length - 1) < c := behind_lt (h.head hq)
    have hvalid := h.valid
    have hlast := hstored.back hq
    rw [List.getLast?_eq_some_getLast hq] at hlast ⊢
    rw [h.getTailIndex_eq hq]
    change (if behind c rb.head (q.length - 1) ≠ invalidIndex then
      some <$> rb.load (rb.pointToValueAtIndex (behind c rb.head (q.length - 1)))
      else pure none) = _
    rw [if_pos (by omega), load_eq hblock (by rw [h.capacity]; exact hi) hlast]
    rfl

theorem popFront_eq (h : Holds c rb q) :
    ∃ rb', rb.popFront = .ok (q.head?, rb') ∧ Holds c rb' q.tail ∧
      rb'.memoryBlock = rb.memoryBlock := by
  unfold popFront
  by_cases hq : q = []
  · subst hq
    rw [if_neg (by rw [h.empty rfl]; simp)]
    exact ⟨rb, rfl, h, rfl⟩
  · have hcleared := h.cleared
    obtain ⟨block, hblock, hstored⟩ := h.slots
    obtain ⟨a, q', rfl⟩ := List.exists_cons_of_ne_nil hq
    have hhead := h.head hq
    have hbound := h.bound
    have hvalid := h.valid
    rw [List.length_cons] at hbound
    rw [if_pos (h.head_ne hq), load_eq hblock (by rw [h.capacity]; exact hhead)
      (hstored.front hq), h.size, List.length_cons]
    by_cases hmore : q'.length + 1 > 1
    · have hmod : 1 % c = 1 := Nat.mod_eq_of_lt (by omega)
      have hprev : rb.previousHead = .ok (behind c rb.head 1) := by
        have hone := behind_succ (k := 0) hhead h.pos
        rw [behind_zero] at hone
        unfold previousHead
        rw [h.capacity, hone, hmod]
        split
        · exact difference_eq h.pos
        · exact difference_eq (by omega)
      refine ⟨{ rb with head := behind c rb.head 1, elementsInside := q'.length }, ?_, ?_, rfl⟩
      · simp only [bind, Except.bind, if_pos hmore, difference_eq (Nat.le_add_left 1 _), hprev]
        rfl
      · refine ⟨h.capacity, h.pos, hvalid, rfl, by simp; omega, ?_, fun _ => behind_lt hhead, block,
          hblock, hstored.popFront hhead hbound⟩
        rintro rfl
        exact absurd hmore (by simp)
    · have hnil : q' = [] := List.length_eq_zero_iff.mp (by omega)
      subst hnil
      refine ⟨rb.clear, ?_, hcleared, rfl⟩
      simp only [bind, Except.bind, if_neg hmore]
      rfl

theorem popBack_eq (h : Holds c rb q) :
    ∃ rb', rb.popBack = .ok (q.getLast?, rb') ∧ Holds c rb' q.dropLast ∧
      rb'.memoryBlock = rb.memoryBlock := by
  unfold popBack
  by_cases hq : q = []
  · subst hq
    rw [h.getTailIndex_empty]
    exact ⟨rb, rfl, h, rfl⟩
  · have hcleared := h.cleared
    obtain ⟨block, hblock, hstored⟩ := h.slots
    have hhead := h.head hq
    have hbound := h.bound
    have hvalid := h.valid
    have hi : behind c rb.head (q.length - 1) < c := behind_lt hhead
    have hlast := hstored.back hq
    rw [List.getLast?_eq_some_getLast hq] at hlast ⊢
    have hload := load_eq hblock (by rw [h.capacity]; exact hi) hlast
    have hne : behind c rb.head (q.length - 1) ≠ invalidIndex := by omega
    rw [h.getTailIndex_eq hq, h.size]
    by_cases hmore : q.length > 1
    · refine ⟨{ rb with elementsInside := q.length - 1 }, ?_, ?_, rfl⟩
      · simp only [bind, Except.bind, if_pos hne, hload, if_pos hmore,
          difference_eq (Nat.le_of_lt hmore)]
        rfl
      · refine ⟨h.capacity, h.pos, hvalid, by simp, by simp; omega, ?_, fun _ => hhead, block,
          hblock, hstored.popBack⟩
        intro hnil
        have hzero := congrArg List.length hnil
        rw [List.length_dropLast, List.length_nil] at hzero
        omega
    · have hpos := List.length_pos_iff.mpr hq
      have hnil : q.dropLast = [] := by
        apply List.length_eq_zero_iff.mp
        rw [List.length_dropLast]
        omega
      rw [hnil]
      refine ⟨rb.clear, ?_, hcleared, rfl⟩
      simp only [bind, Except.bind, if_pos hne, hload, if_neg hmore]
      rfl

end Holds

/-- The swap reads its slot first, which fails where the writing fails. -/
theorem load_bind_store {β : Type} (rb : RingBuffer ValueT) (pointer : Option Nat) (value : ValueT)
    (next : RingBuffer ValueT → Except RingFault β) :
    (do
      let _ ← rb.load pointer
      let rb ← rb.store pointer value
      next rb) = (do
      let rb ← rb.store pointer value
      next rb) := by
  unfold load store
  cases rb.memoryBlock with
  | none => rfl
  | some block =>
    cases pointer with
    | none => rfl
    | some i =>
      dsimp only
      by_cases hlt : i < block.length
      · rw [List.getElem?_eq_getElem hlt]
        rfl
      · rw [List.getElem?_eq_none (Nat.not_lt.mp hlt), if_neg hlt]
        rfl

theorem call_emplaceFront (rb : RingBuffer ValueT) (value : ValueT) :
    rb.call (.emplaceFront value) = rb.call (.pushFront value) := by
  unfold call emplaceFront pushFront
  dsimp only
  split
  · simp only [bind_assoc, pure_bind]
    exact bind_congr fun index => load_bind_store _ _ _ _
  · rfl

theorem call_emplaceBack (rb : RingBuffer ValueT) (value : ValueT) :
    rb.call (.emplaceBack value) = rb.call (.pushBack value) := by
  unfold call emplaceBack pushBack
  dsimp only
  split
  · simp only [bind_assoc, pure_bind]
    exact bind_congr fun index => load_bind_store _ _ _ _
  · rfl
/-- The call returns what the queue shows, leaves what the queue becomes and keeps the number of
slots. A refused push changes nothing, the index of any other is that of a slot. -/
def Answered (c : Nat) (rb : RingBuffer ValueT) (q : List ValueT) (k : Call ValueT) : Prop :=
  ∃ r rb', rb.call k = .ok (r, rb') ∧ r.observed = (perform c q k.asOperation).1 ∧
    Holds c rb' (perform c q k.asOperation).2 ∧
    rb'.memoryBlock.map List.length = rb.memoryBlock.map List.length ∧
    ∀ i, r = .index i → if i = invalidIndex then rb' = rb else i < c

/-- The call writes behind a block that has too few slots. -/
def WritesOutside (c : Nat) (rb : RingBuffer ValueT) (k : Call ValueT) : Prop :=
  rb.call k = .error .outsideBlock ∧ ∃ block, rb.memoryBlock = some block ∧ block.length < c

theorem answered_accepted {k : Call ValueT} {i : Nat} {rb' : RingBuffer ValueT} {q' : List ValueT}
    (hvalid : c < invalidIndex) (hi : i < c) (hcall : rb.call k = .ok (.index i, rb'))
    (hperform : perform c q k.asOperation = (.pushed true, q')) (hholds : Holds c rb' q')
    (hslots : rb'.memoryBlock.map List.length = rb.memoryBlock.map List.length) :
    Answered c rb q k := by
  have hne : i ≠ invalidIndex := by omega
  refine ⟨_, _, hcall, ?_, ?_, hslots, ?_⟩
  · simp [hperform, Returned.observed, hne]
  · rwa [hperform]
  · rintro j ⟨rfl⟩
    rwa [if_neg hne]

theorem answered_refused {k : Call ValueT} (h : Holds c rb q)
    (hcall : rb.call k = .ok (.index invalidIndex, rb))
    (hperform : perform c q k.asOperation = (.pushed false, q)) : Answered c rb q k := by
  refine ⟨_, _, hcall, ?_, ?_, rfl, ?_⟩
  · simp [hperform, Returned.observed]
  · rwa [hperform]
  · rintro j ⟨rfl⟩
    rw [if_pos rfl]

theorem answered_of_element {k : Call ValueT} {a : Option ValueT} {rb' : RingBuffer ValueT}
    (hcall : rb.call k = .ok (.element a, rb'))
    (hperform : (perform c q k.asOperation).1 = .element a)
    (hholds : Holds c rb' (perform c q k.asOperation).2)
    (hblock : rb'.memoryBlock = rb.memoryBlock) : Answered c rb q k :=
  ⟨_, _, hcall, hperform.symm, hholds, by rw [hblock], fun _ h => by cases h⟩

theorem setFirstHead_memoryBlock (rb : RingBuffer ValueT) (i : Nat) :
    (rb.setFirstHead i).memoryBlock = rb.memoryBlock := by
  unfold setFirstHead
  split <;> rfl

namespace Holds

theorem accepts_iff (h : Holds c rb q) :
    (rb.memoryBlock.isSome ∧ rb.capacity > rb.elementsInside) ↔ q.length < c := by
  obtain ⟨block, hblock, -⟩ := h.slots
  rw [h.capacity, h.size]
  exact and_iff_right (by rw [hblock]; rfl)

theorem answered_pushFront (h : Holds c rb q) (a : ValueT) :
    Answered c rb q (.pushFront a) ∨ WritesOutside c rb (.pushFront a) := by
  obtain ⟨block, hblock, -⟩ := h.slots
  by_cases hroom : q.length < c
  · obtain ⟨i, hi, hindex, hholds⟩ := h.pushed_front hroom hblock
    have hcap : i < rb.capacity := by rwa [h.capacity]
    by_cases hib : i < block.length
    · refine .inl (answered_accepted (k := .pushFront a) h.valid hi ?_ (if_pos hroom)
        (hholds a hib) ?_)
      · simp only [call, pushFront, if_pos (h.accepts_iff.mpr hroom), hindex, bind, Except.bind,
          store_eq hblock hcap hib]
        rfl
      · rw [hblock, Option.map_some, Option.map_some, List.length_set]
    · refine .inr ⟨?_, block, hblock, by omega⟩
      simp only [call, pushFront, if_pos (h.accepts_iff.mpr hroom), hindex, bind, Except.bind,
        store_outside hblock hcap (Nat.not_lt.mp hib)]
  · refine .inl (answered_refused (k := .pushFront a) h ?_ (if_neg hroom))
    simp only [call, pushFront, if_neg (mt h.accepts_iff.mp hroom)]
    rfl

theorem answered_pushBack (h : Holds c rb q) (a : ValueT) :
    Answered c rb q (.pushBack a) ∨ WritesOutside c rb (.pushBack a) := by
  obtain ⟨block, hblock, -⟩ := h.slots
  by_cases hroom : q.length < c
  · obtain ⟨i, hi, hindex, hholds⟩ := h.pushed_back hroom hblock
    have hcap : i < rb.capacity := by rwa [h.capacity]
    by_cases hib : i < block.length
    · refine .inl (answered_accepted (k := .pushBack a) h.valid hi ?_ (if_pos hroom)
        (hholds a hib) ?_)
      · simp only [call, pushBack, if_pos (h.accepts_iff.mpr hroom), hindex, bind, Except.bind,
          store_eq hblock hcap hib]
        rfl
      · rw [setFirstHead_memoryBlock, hblock, Option.map_some, Option.map_some, List.length_set]
    · refine .inr ⟨?_, block, hblock, by omega⟩
      simp only [call, pushBack, if_pos (h.accepts_iff.mpr hroom), hindex, bind, Except.bind,
        store_outside hblock hcap (Nat.not_lt.mp hib)]
  · refine .inl (answered_refused (k := .pushBack a) h ?_ (if_neg hroom))
    simp only [call, pushBack, if_neg (mt h.accepts_iff.mp hroom)]
    rfl

theorem answered (h : Holds c rb q) (k : Call ValueT) : Answered c rb q k ∨ WritesOutside c rb k := by
  cases k with
  | pushFront a => exact h.answered_pushFront a
  | emplaceFront a =>
    have hpush := h.answered_pushFront a
    unfold Answered WritesOutside at hpush ⊢
    rw [call_emplaceFront]
    exact hpush
  | pushBack a => exact h.answered_pushBack a
  | emplaceBack a =>
    have hpush := h.answered_pushBack a
    unfold Answered WritesOutside at hpush ⊢
    rw [call_emplaceBack]
    exact hpush
  | popFront =>
    obtain ⟨rb', hpop, hholds, hmem⟩ := h.popFront_eq
    refine .inl (answered_of_element ?_ rfl hholds hmem)
    simp only [call, hpop]
    rfl
  | popBack =>
    obtain ⟨rb', hpop, hholds, hmem⟩ := h.popBack_eq
    refine .inl (answered_of_element ?_ rfl hholds hmem)
    simp only [call, hpop]
    rfl
  | peekFront =>
    refine .inl (answered_of_element ?_ rfl h rfl)
    simp only [call, h.peekFront_eq]
    rfl
  | peekBack =>
    refine .inl (answered_of_element ?_ rfl h rfl)
    simp only [call, h.peekBack_eq]
    rfl
  | clear => exact .inl ⟨_, _, rfl, rfl, h.cleared, rfl, fun _ h => by cases h⟩

theorem call_ok (h : Holds c rb q) {k : Call ValueT} {r : Returned ValueT}
    {rb' : RingBuffer ValueT} (hcall : rb.call k = .ok (r, rb')) :
    Holds c rb' (perform c q k.asOperation).2 ∧
      rb'.memoryBlock.map List.length = rb.memoryBlock.map List.length := by
  rcases h.answered k with ⟨r', rb'', hcall', -, hholds, hslots, -⟩ | ⟨herror, -⟩
  · cases hcall.symm.trans hcall'
    exact ⟨hholds, hslots⟩
  · rw [herror] at hcall
    cases hcall

end Holds

namespace Represents

/-- The call returns what the queue shows and leaves what the queue becomes. A refused push
changes nothing, the index of any other is that of a slot. -/
def Answers (c : Nat) (rb : RingBuffer ValueT) (q : List ValueT) (k : Call ValueT) : Prop :=
  ∃ r rb', rb.call k = .ok (r, rb') ∧ r.observed = (perform c q k.asOperation).1 ∧
    Represents c rb' (perform c q k.asOperation).2 ∧
    ∀ i, r = .index i → if i = invalidIndex then rb' = rb else i < c

theorem answers (h : Represents c rb q) (k : Call ValueT) : Answers c rb q k := by
  obtain ⟨block, hblock, hlen, -⟩ := h.slots
  rcases h.holds.answered k with ⟨r, rb', hcall, hobserved, hholds, hslots, hindex⟩ |
    ⟨-, block', hblock', hshort⟩
  · obtain ⟨block', hblock', -⟩ := hholds.slots
    rw [hblock, hblock'] at hslots
    have hlen' : block'.length = block.length := Option.some.inj hslots
    exact ⟨r, rb', hcall, hobserved, hholds.represents hblock' (by omega), hindex⟩
  · cases hblock.symm.trans hblock'
    omega

theorem calls (h : Represents c rb q) (cs : List (Call ValueT)) :
    ∃ rb', rb.calls cs = .ok rb' ∧ Represents c rb' (after c q (cs.map Call.asOperation)) := by
  induction cs generalizing rb q with
  | nil => exact ⟨rb, rfl, h⟩
  | cons k cs ih =>
    obtain ⟨r, rb₁, hcall, -, hrep, -⟩ := h.answers k
    obtain ⟨rb', hcalls, hrest⟩ := ih hrep
    refine ⟨rb', ?_, hrest⟩
    rw [RingBuffer.calls, List.foldlM_cons, hcall]
    exact hcalls

end Represents

/-- What a container that stands for the queue shows, and that it answers the next call. -/
structure Shows (c : Nat) (rb : RingBuffer ValueT) (q : List ValueT) : Prop where
  size : rb.getSize = q.length
  empty : q = [] → rb.getHeadIndex = invalidIndex ∧ rb.getTailIndex = .ok invalidIndex
  inside : q ≠ [] → rb.getHeadIndex < c ∧ ∃ tail < c, rb.getTailIndex = .ok tail
  next : ∀ k : Call ValueT, ∃ r rb', rb.call k = .ok (r, rb') ∧
    r.observed = (perform c q k.asOperation).1 ∧
    ∀ i, r = .index i → if i = invalidIndex then rb' = rb else i < c

theorem Represents.shows (h : Represents c rb q) : Shows c rb q := by
  refine ⟨h.size, ?_, ?_, ?_⟩
  · rintro rfl
    exact ⟨h.empty rfl, h.holds.getTailIndex_empty⟩
  · intro hq
    exact ⟨h.head hq, _, behind_lt (h.head hq), h.holds.getTailIndex_eq hq⟩
  · intro k
    obtain ⟨r, rb', hcall, hobserved, -, hindex⟩ := h.answers k
    exact ⟨r, rb', hcall, hobserved, hindex⟩

/-- Every sequence of calls on the container comes to its end and shows the queue. -/
def Refines (c : Nat) (rb : RingBuffer ValueT) : Prop :=
  ∀ cs : List (Call ValueT), ∃ rb', rb.calls cs = .ok rb' ∧
    Shows c rb' (after c [] (cs.map Call.asOperation))

section Constructor
variable {sizeof : Nat} {allocate : Nat → Option (Nat → ValueT)} {capacity : UInt64}

theorem ofCapacity_eq (h : (ofCapacity sizeof allocate capacity).memoryBlock.isSome) :
    0 < capacity.toNat ∧ capacity.toNat < invalidIndex ∧
      ∃ block, block.length = capacity.toNat * sizeof % 2 ^ 64 / sizeof ∧
        ofCapacity sizeof allocate capacity =
          ⟨some block, capacity.toNat, invalidIndex, 0⟩ := by
  unfold ofCapacity at *
  split at h
  · rename_i hcap
    have hlt := capacity.toNat_lt
    refine ⟨hcap.1, ?_, ?_⟩
    · unfold invalidIndex at *
      omega
    · cases hallocate : allocate (capacity.toNat * sizeof % 2 ^ 64) with
      | none =>
        simp only [hallocate] at h
        exact absurd h (by simp)
      | some contents =>
        refine ⟨(List.range (capacity.toNat * sizeof % 2 ^ 64 / sizeof)).map contents, ?_, ?_⟩
        · simp
        · simp only [if_pos hcap, hallocate]
  · exact absurd h (by simp)

theorem represents_ofCapacity (hsizeof : 0 < sizeof)
    (h : (ofCapacity sizeof allocate capacity).memoryBlock.isSome)
    (hfits : capacity.toNat * sizeof < 2 ^ 64) :
    Represents capacity.toNat (ofCapacity sizeof allocate capacity) [] := by
  obtain ⟨hpos, hvalid, block, hlen, heq⟩ := ofCapacity_eq h
  rw [Nat.mod_eq_of_lt hfits, Nat.mul_div_cancel _ hsizeof] at hlen
  rw [heq]
  exact ⟨rfl, hpos, hvalid, rfl, Nat.zero_le _, fun _ => rfl, fun hq => absurd rfl hq, block, rfl,
    hlen.ge, Stored.nil⟩

/-- The container after `n` pushes at the front. -/
def filled (c : Nat) (block : List ValueT) (n : Nat) : RingBuffer ValueT :=
  ⟨some block, c, if n = 0 then invalidIndex else n - 1, n⟩

theorem frontIndex_filled {block : List ValueT} {n : Nat} (hn : n < c)
    (hvalid : c < invalidIndex) : (filled c block n).frontIndex = .ok n := by
  unfold frontIndex filled
  by_cases hzero : n = 0
  · subst hzero
    rfl
  · have hne : ¬ n - 1 = invalidIndex := by omega
    simp only [if_neg hzero, if_pos hne, getNextHeadIndex]
    rw [if_neg (by omega), difference_eq (by omega)]
    change (if n - 1 = c - 1 then pure 0 else pure (n - 1 + 1)) = _
    rw [if_neg (by omega), Nat.sub_add_cancel (by omega)]
    rfl

theorem call_filled {block : List ValueT} {n : Nat} (hn : n < c) (hvalid : c < invalidIndex)
    (a : ValueT) :
    (filled c block n).call (.pushFront a) =
      if n < block.length then .ok (.index n, filled c (block.set n a) (n + 1))
      else .error .outsideBlock := by
  have hguard : (filled c block n).memoryBlock.isSome ∧
      (filled c block n).capacity > (filled c block n).elementsInside := ⟨rfl, hn⟩
  have hpoint : (filled c block n).pointToValueAtIndex n = some n := if_neg (Nat.not_le_of_lt hn)
  simp only [call, pushFront, if_pos hguard, frontIndex_filled hn hvalid, bind, Except.bind, hpoint]
  by_cases hfree : n < block.length
  · simp only [store, filled, if_pos hfree]
    rfl
  · simp only [store, filled, if_neg hfree]

theorem calls_filled {block : List ValueT} (hlen : block.length < c) (hvalid : c < invalidIndex)
    (a : ValueT) {n : Nat} (hn : n ≤ block.length) :
    ∃ block', block'.length = block.length ∧
      calls (filled c block 0) (List.replicate n (.pushFront a)) = .ok (filled c block' n) := by
  induction n with
  | zero => exact ⟨block, rfl, rfl⟩
  | succ n ih =>
    obtain ⟨block', hblock', hcalls⟩ := ih (by omega)
    refine ⟨block'.set n a, by simpa using hblock', ?_⟩
    unfold calls at *
    rw [List.replicate_succ', List.foldlM_append, hcalls]
    change Prod.snd <$> (filled c block' n).call (.pushFront a) >>= pure = _
    rw [call_filled (by omega) hvalid, if_pos (by omega)]
    rfl

theorem not_refines_filled {block : List ValueT} (hlen : block.length < c)
    (hvalid : c < invalidIndex) (a : ValueT) : ¬ Refines c (filled c block 0) := by
  intro h
  obtain ⟨block', hblock', hcalls⟩ := calls_filled hlen hvalid a (Nat.le_refl _)
  obtain ⟨rb', hrun, -⟩ := h (List.replicate (block.length + 1) (.pushFront a))
  unfold calls at *
  rw [List.replicate_succ', List.foldlM_append, hcalls] at hrun
  change Prod.snd <$> (filled c block' block.length).call (.pushFront a) >>= pure = _ at hrun
  rw [call_filled hlen hvalid, if_neg (by omega)] at hrun
  exact nomatch hrun

/-- A container whose memory was allocated refines the queue exactly when the size of its memory
did not wrap around. -/
theorem refines_iff [Inhabited ValueT] (hsizeof : 0 < sizeof)
    (h : (ofCapacity sizeof allocate capacity : RingBuffer ValueT).memoryBlock.isSome) :
    Refines capacity.toNat (ofCapacity sizeof allocate capacity : RingBuffer ValueT) ↔
      capacity.toNat * sizeof < 2 ^ 64 := by
  constructor
  · intro hrefines
    by_contra hwraps
    obtain ⟨hpos, hvalid, block, hlen, heq⟩ := ofCapacity_eq h
    rw [heq] at hrefines
    refine not_refines_filled ?_ hvalid default hrefines
    rw [hlen]
    apply Nat.div_lt_of_lt_mul
    rw [Nat.mul_comm sizeof]
    exact Nat.lt_of_lt_of_le (Nat.mod_lt _ (by norm_num)) (Nat.le_of_not_lt hwraps)
  · intro hfits cs
    obtain ⟨rb', hcalls, hrep⟩ := (represents_ofCapacity hsizeof h hfits).calls cs
    exact ⟨rb', hcalls, hrep.shows⟩

/-- Elements of eight bytes: three slots. -/
theorem refines_three :
    Refines 3 (ofCapacity 8 (fun _ => some fun _ => 0) 3 : RingBuffer UInt64) :=
  (refines_iff (by decide) rfl).mpr (by decide)

/-- Room for `2 ^ 61 + 1` elements of eight bytes takes eight bytes. -/
def wrapped : RingBuffer UInt64 := ofCapacity 8 (fun _ => some fun _ => 0) 2305843009213693953

theorem not_refines_wrapped :
    wrapped.memoryBlock = some [0] ∧ wrapped.capacity = 2 ^ 61 + 1 ∧
      ¬ Refines (2 ^ 61 + 1) wrapped := by
  have hwrapped : wrapped = filled (2 ^ 61 + 1) [0] 0 := by decide
  refine ⟨by rw [hwrapped]; rfl, by rw [hwrapped]; rfl, ?_⟩
  rw [hwrapped]
  exact not_refines_filled (by decide) (by decide) 1

end Constructor
end RingBuffer
end AsciiTerra
