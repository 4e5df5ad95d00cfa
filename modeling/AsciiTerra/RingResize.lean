import AsciiTerra.RingStorage
import AsciiTerra.RingViews
import AsciiTerra.World

/-!
# `Resize`

A ring that wraps is copied element by element and its elements end at the first slot of
the new block. One that does not wrap keeps its slots, and the number of bytes that are
copied is right only for elements of one byte or for the first slot.
-/

set_option autoImplicit false

namespace AsciiTerra

open Ring Deque

namespace RingBuffer
variable {ValueT : Type} {c : Nat} {rb : RingBuffer ValueT} {q : List ValueT}

/-- The elements that so many calls of `PopFront` return. -/
def popAll : Nat → RingBuffer ValueT → Except RingFault (List ValueT)
  | 0, _ => .ok []
  | n + 1, rb => do
    let (value, rb) ← rb.popFront
    match value with
    | some value => return value :: (← popAll n rb)
    | none => .error .nullPointer

/-- The stored sequence, in the order of `PopFront`. -/
def contents (rb : RingBuffer ValueT) : Except RingFault (List ValueT) := rb.popAll rb.getSize

theorem Holds.popAll_eq (h : Holds c rb q) : rb.popAll q.length = .ok q := by
  induction q generalizing rb with
  | nil => rfl
  | cons a q ih =>
    obtain ⟨rb', hpop, hholds, -⟩ := h.popFront_eq
    rw [List.length_cons, popAll, hpop]
    change (popAll q.length rb' >>= fun rest => pure (a :: rest)) = _
    rw [ih hholds]
    rfl

theorem Holds.contents_eq (h : Holds c rb q) : rb.contents = .ok q := by
  unfold contents getSize
  rw [h.size]
  exact h.popAll_eq

theorem popFront_ok {block : List ValueT} (hmem : rb.memoryBlock = some block)
    (hhead : rb.head < rb.capacity) (hcapacity : rb.capacity ≤ invalidIndex)
    {value : Option ValueT} {rb' : RingBuffer ValueT} (h : rb.popFront = .ok (value, rb')) :
    value = block[rb.head]? := by
  have hpoint : rb.pointToValueAtIndex rb.head = some rb.head := if_neg (by omega)
  unfold popFront at h
  rw [if_pos (by omega), hpoint] at h
  obtain ⟨result, hload, h⟩ := except_bind_eq_ok.mp h
  have hresult : block[rb.head]? = some result := by
    unfold load at hload
    rw [hmem] at hload
    dsimp only at hload
    split at hload
    · rename_i hget
      cases hload
      exact hget
    · cases hload
  rw [hresult]
  split at h
  · obtain ⟨n, -, h⟩ := except_bind_eq_ok.mp h
    obtain ⟨head, -, h⟩ := except_bind_eq_ok.mp h
    cases h
    rfl
  · cases h
    rfl

theorem slot_of_contents {a : ValueT} {block : List ValueT} (hmem : rb.memoryBlock = some block)
    (hhead : rb.head < rb.capacity) (hcapacity : rb.capacity ≤ invalidIndex)
    (h : rb.contents = .ok (a :: q)) : block[rb.head]? = some a := by
  unfold contents at h
  cases hsize : rb.getSize with
  | zero =>
    rw [hsize] at h
    cases h
  | succ n =>
    rw [hsize, popAll] at h
    obtain ⟨⟨value, rb'⟩, hpop, h⟩ := except_bind_eq_ok.mp h
    rw [← popFront_ok hmem hhead hcapacity hpop]
    cases value with
    | none => cases h
    | some value =>
      obtain ⟨rest, -, h⟩ := except_bind_eq_ok.mp h
      cases h
      rfl

end RingBuffer

namespace RingStorage
variable {sizeof c : Nat} {st st' : RingStorage sizeof} {q : List (Element sizeof)}
variable {src dst : List (Element sizeof)} {start : Nat}

open RingBuffer

theorem copyLoop_append (is js : List Nat) (dst : List (Element sizeof)) (start : Nat) :
    copyLoop src (is ++ js) dst start = (do
      let (dst, start) ← copyLoop src is dst start
      copyLoop src js dst start) := by
  induction is generalizing dst start with
  | nil => rfl
  | cons i is ih =>
    rw [List.cons_append, copyLoop, copyLoop]
    cases src[i]? with
    | none => rfl
    | some value =>
      dsimp only
      split
      · exact ih _ _
      · rfl

theorem copyLoop_some (src dst : List (Element sizeof)) (start : Nat) {is : List Nat}
    (hsrc : ∀ i ∈ is, i < src.length) (hroom : start + is.length ≤ dst.length) :
    ∃ dst', copyLoop src is dst start = some (dst', start + is.length) ∧
      dst'.length = dst.length ∧ (∀ j < start, dst'[j]? = dst[j]?) ∧
      ∀ (j i : Nat), is[j]? = some i → dst'[start + j]? = src[i]? := by
  induction is generalizing dst start with
  | nil => exact ⟨dst, rfl, rfl, fun _ _ => rfl, fun j i h => by cases h⟩
  | cons i is ih =>
    rw [List.length_cons] at hroom
    have hi := hsrc i List.mem_cons_self
    obtain ⟨dst', hcopy, hlen, hbefore, hcopied⟩ := ih (dst.set start src[i])
      (start + 1) (fun j hj => hsrc j (List.mem_cons_of_mem _ hj))
      (by rw [List.length_set]; omega)
    refine ⟨dst', ?_, by rw [hlen, List.length_set], ?_, ?_⟩
    · rw [copyLoop, List.getElem?_eq_getElem hi]
      dsimp only
      rw [if_pos (by omega), hcopy, List.length_cons]
      congr 2
      omega
    · intro j hj
      rw [hbefore j (by omega), List.getElem?_set_ne (by omega)]
    · intro j k hj
      cases j with
      | zero =>
        cases hj
        rw [Nat.add_zero, hbefore start (Nat.lt_succ_self _), List.getElem?_eq_getElem hi]
        simp [show start < dst.length by omega]
      | succ j =>
        have hnext := hcopied j k hj
        rwa [Nat.add_assoc, Nat.add_comm 1 j] at hnext

theorem copyLoop_none {is : List Nat} (hroom : dst.length < start + is.length)
    (hstart : start ≤ dst.length) : copyLoop src is dst start = none := by
  induction is generalizing dst start with
  | nil =>
    rw [List.length_nil] at hroom
    omega
  | cons i is ih =>
    rw [List.length_cons] at hroom
    rw [copyLoop]
    cases src[i]? with
    | none => rfl
    | some value =>
      dsimp only
      split
      · exact ih (by rw [List.length_set]; omega) (by rw [List.length_set]; omega)
      · rfl

theorem loopSlots_eq {head n : Nat} (hwraps : head + 1 < n) (hn : n ≤ c) :
    List.range' (behind c head (n - 1)) (c - behind c head (n - 1)) ++ List.range (head + 1) =
      (List.range n).map fun j => behind c head (n - 1 - j) := by
  have htail : behind c head (n - 1) = head + c - (n - 1) := if_neg (by omega)
  rw [htail]
  apply List.ext_getElem
  · simp
    omega
  · intro j hj hj'
    rw [List.getElem_map, List.getElem_range]
    simp only [List.length_map, List.length_range] at hj'
    unfold behind
    by_cases hfirst : j < c - (head + c - (n - 1))
    · rw [List.getElem_append_left (by simpa using hfirst), List.getElem_range', if_neg (by omega)]
      omega
    · rw [List.getElem_append_right (by simpa using Nat.not_lt.mp hfirst), List.getElem_range,
        List.length_range', if_pos (by omega)]
      omega

theorem copyMemory_length (src dst : List (Element sizeof)) (size : Nat) :
    (copyMemory src dst size).length = dst.length := by
  simp [copyMemory]

theorem copyMemory_copied {size i : Nat} {value : Element sizeof} (hsrc : src[i]? = some value)
    (hdst : i < dst.length) (hsize : (i + 1) * sizeof ≤ size) :
    (copyMemory src dst size)[i]? = some value := by
  rw [copyMemory_getElem? (List.getElem?_eq_getElem hdst)]
  congr 1
  apply Vector.ext
  intro j hj
  have hcopied : i * sizeof + j < size := by
    rw [Nat.succ_mul] at hsize
    omega
  rw [Vector.getElem_ofFn, if_pos hcopied, List.getD_eq_getElem?_getD, hsrc]
  rfl

/-- The container holds the queue in a block of its capacity. -/
structure Owns (c : Nat) (st : RingStorage sizeof) (q : List (Element sizeof)) : Prop where
  holds : Holds c st.ring q
  bytes : st.bytes = c * sizeof % 2 ^ 64
  slots : ∀ block, st.ring.memoryBlock = some block → block.length = st.bytes / sizeof

theorem Owns.bytes_lt (h : Owns c st q) : st.bytes < 2 ^ 64 := by
  rw [h.bytes]
  exact Nat.mod_lt _ (by norm_num)

theorem Owns.head_fits (h : Owns c st q) (hsizeof : 0 < sizeof) (hq : q ≠ []) :
    (st.ring.head + 1) * sizeof ≤ st.bytes := by
  obtain ⟨block, hblock, hstored⟩ := h.holds.slots
  obtain ⟨a, q', rfl⟩ := List.exists_cons_of_ne_nil hq
  have hfront := hstored.front hq
  have hlt : st.ring.head < block.length := by
    by_contra hge
    rw [List.getElem?_eq_none (Nat.not_lt.mp hge)] at hfront
    cases hfront
  rw [h.slots block hblock] at hlt
  exact (Nat.le_div_iff_mul_le hsizeof).mp hlt

theorem moveElements_empty {block : List (Element sizeof)} {newBytes : Nat}
    (h : st.ring.elementsInside = 0) :
    st.moveElements block dst newBytes = some (dst, st.ring.head) := by
  unfold moveElements
  rw [if_neg (by omega)]
  rfl

variable {block : List (Element sizeof)} {newBytes : Nat}

theorem Owns.moveElements_wrapped (h : Owns c st q) (hwraps : st.ring.head + 1 < q.length) :
    st.moveElements block dst newBytes =
      (copyLoop block ((List.range q.length).map fun j =>
        behind c st.ring.head (q.length - 1 - j)) dst 0).map fun copied =>
          (copied.1, q.length - 1) := by
  have hq : q ≠ [] := by
    rintro rfl
    cases hwraps
  have hhead := h.holds.head hq
  have hvalid := h.holds.valid
  have hbound := h.holds.bound
  have htail : behind c st.ring.head (q.length - 1) = st.ring.head + c - (q.length - 1) :=
    if_neg (by omega)
  unfold moveElements
  rw [if_pos ⟨by rw [h.holds.size]; omega, h.holds.head_ne hq⟩, h.holds.getTailIndex_eq hq,
    h.holds.capacity, h.holds.size, ← loopSlots_eq hwraps hbound, copyLoop_append]
  change (if (if behind c st.ring.head (q.length - 1) ≠ invalidIndex then _ else 0) >
    st.ring.head then _ else _) = _
  rw [if_pos (c := behind c st.ring.head (q.length - 1) ≠ invalidIndex) (by omega),
    if_pos (by omega)]
  cases copyLoop block (List.range' (behind c st.ring.head (q.length - 1))
    (c - behind c st.ring.head (q.length - 1))) dst 0 with
  | none => rfl
  | some copied =>
    change (copyLoop block (List.range (st.ring.head + 1)) copied.1 copied.2 >>= _) =
      (copyLoop block (List.range (st.ring.head + 1)) copied.1 copied.2).map _
    cases copyLoop block (List.range (st.ring.head + 1)) copied.1 copied.2 <;> rfl

theorem Owns.moveElements_flat (h : Owns c st q) (hsizeof : 0 < sizeof) (hq : q ≠ [])
    (hflat : q.length ≤ st.ring.head + 1) :
    st.moveElements block dst newBytes =
      if st.ring.head + sizeof ≤ newBytes then
        some (copyMemory block dst (st.ring.head + sizeof), st.ring.head)
      else none := by
  have hhead := h.holds.head hq
  have hvalid := h.holds.valid
  have hpos := List.length_pos_iff.mpr hq
  have hbytes := h.bytes_lt
  have hfits := h.head_fits hsizeof hq
  rw [Nat.succ_mul] at hfits
  have hle : st.ring.head ≤ st.ring.head * sizeof := Nat.le_mul_of_pos_right _ hsizeof
  have htail : behind c st.ring.head (q.length - 1) = st.ring.head - (q.length - 1) :=
    if_pos (by omega)
  have hsize : (st.ring.head + 1 * sizeof) % 2 ^ 64 = st.ring.head + sizeof := by
    rw [Nat.one_mul, Nat.mod_eq_of_lt (by omega)]
  unfold moveElements
  rw [if_pos ⟨by rw [h.holds.size]; omega, h.holds.head_ne hq⟩, h.holds.getTailIndex_eq hq, hsize]
  change (if (if behind c st.ring.head (q.length - 1) ≠ invalidIndex then _ else 0) >
    st.ring.head then _ else _) = _
  rw [if_pos (c := behind c st.ring.head (q.length - 1) ≠ invalidIndex) (by omega),
    if_neg (by omega)]
  exact if_congr (and_iff_right (by omega)) rfl rfl

theorem Owns.copyLoop_stored (h : Owns c st q) (hblock : st.ring.memoryBlock = some block)
    (hq : q ≠ []) (hroom : q.length ≤ dst.length) :
    ∃ dst', copyLoop block ((List.range q.length).map fun j =>
        behind c st.ring.head (q.length - 1 - j)) dst 0 = some (dst', q.length) ∧
      dst'.length = dst.length ∧ ∀ c', Stored dst' c' (q.length - 1) q := by
  obtain ⟨block', hblock', hstored⟩ := h.holds.slots
  cases hblock.symm.trans hblock'
  have hpos := List.length_pos_iff.mpr hq
  have hslot : ∀ k (hk : k < q.length), block[behind c st.ring.head k]? = some q[k] := by
    intro k hk
    rw [hstored k hk, List.getElem?_eq_getElem hk]
  have hinside : ∀ i ∈ (List.range q.length).map fun j =>
      behind c st.ring.head (q.length - 1 - j), i < block.length := by
    intro i hi
    obtain ⟨j, hj, rfl⟩ := List.mem_map.mp hi
    by_contra hge
    have hfound := hslot (q.length - 1 - j) (by omega)
    rw [List.getElem?_eq_none (Nat.not_lt.mp hge)] at hfound
    cases hfound
  obtain ⟨dst', hcopy, hlen, -, hcopied⟩ := copyLoop_some block dst 0 hinside (by simpa using hroom)
  refine ⟨dst', by simpa using hcopy, hlen, ?_⟩
  intro c' k hk
  have hindex : behind c' (q.length - 1) k = q.length - 1 - k := if_pos (by omega)
  have hfrom := hcopied (q.length - 1 - k) (behind c st.ring.head k) (by
    rw [List.getElem?_map, List.getElem?_range (by omega), Option.map_some]
    congr 2
    omega)
  rw [Nat.zero_add] at hfrom
  rw [hindex, hfrom]
  exact hstored k hk

/-- What comes out of a move that ends: nothing of an empty ring, a stored ring from one that
wraps, and the copied bytes of any other. -/
theorem Owns.moveElements_some (h : Owns c st q) (hsizeof : 0 < sizeof)
    (hblock : st.ring.memoryBlock = some block) {elements : List (Element sizeof) × Nat}
    (hmoves : st.moveElements block dst newBytes = some elements) :
    elements.1.length = dst.length ∧
      (q = [] ∧ elements.2 = invalidIndex ∨
        st.ring.head + 1 < q.length ∧ q.length ≤ dst.length ∧ elements.2 = q.length - 1 ∧
          (∀ c', Stored elements.1 c' (q.length - 1) q) ∨
        q ≠ [] ∧ q.length ≤ st.ring.head + 1 ∧ st.ring.head + sizeof ≤ newBytes ∧
          elements = (copyMemory block dst (st.ring.head + sizeof), st.ring.head)) := by
  by_cases hq : q = []
  · rw [moveElements_empty (by rw [h.holds.size, hq]; rfl)] at hmoves
    cases hmoves
    exact ⟨rfl, .inl ⟨hq, h.holds.empty hq⟩⟩
  by_cases hwraps : st.ring.head + 1 < q.length
  · rw [h.moveElements_wrapped hwraps] at hmoves
    by_cases hle : q.length ≤ dst.length
    · obtain ⟨dst', hcopy, hlen, hstored⟩ := h.copyLoop_stored hblock hq hle
      rw [hcopy] at hmoves
      cases hmoves
      exact ⟨hlen, .inr (.inl ⟨hwraps, hle, rfl, hstored⟩)⟩
    · rw [copyLoop_none (by simpa using hle) (Nat.zero_le _)] at hmoves
      cases hmoves
  · rw [h.moveElements_flat hsizeof hq (by omega)] at hmoves
    split at hmoves
    · rename_i hfits
      cases hmoves
      exact ⟨copyMemory_length _ _ _, .inr (.inr ⟨hq, by omega, hfits, rfl⟩)⟩
    · cases hmoves

def Wrapped (st : RingStorage sizeof) : Prop := st.ring.getHeadIndex + 1 < st.ring.getSize

/-- `Resize` keeps the sequence and gets the capacity, or changes nothing; it succeeds with room for
the elements and an allocation. -/
def Keeps (st : RingStorage sizeof) (newCapacity : Nat) (allocation : Allocation sizeof) : Prop :=
  ∃ ok st', st.resize allocation newCapacity = some (ok, st') ∧
    (ok = true → st'.ring.contents = st.ring.contents ∧ st'.ring.capacity = newCapacity ∧
      (st'.ring.getSize ≠ 0 → st'.ring.getHeadIndex < newCapacity ∧
        ∃ tail, st'.ring.getTailIndex = .ok tail ∧ tail < newCapacity)) ∧
    (ok = false → st' = st) ∧
    (newCapacity ≥ st.ring.getSize → newCapacity > 0 → allocation.isSome → ok = true)

/-- The elements come into a new block: all of a ring that wraps, and of one that does not the bytes
up to those of the front. -/
def ElementsFit (st : RingStorage sizeof) (newCapacity : Nat) : Prop :=
  st.ring.getSize ≠ 0 →
    (st.Wrapped → st.ring.getSize * sizeof ≤ newCapacity * sizeof % 2 ^ 64) ∧
    (¬ st.Wrapped → st.ring.getHeadIndex < newCapacity ∧
      st.ring.getHeadIndex + sizeof ≤ newCapacity * sizeof % 2 ^ 64 ∧
      (sizeof = 1 ∨ st.ring.getHeadIndex = 0))

/-- The call is refused for its argument, or `MemoryBlock` was written before and the elements come
into the new block. -/
def ResizeSafe (st : RingStorage sizeof) (newCapacity : Nat) : Prop :=
  newCapacity = 0 ∨ newCapacity < st.ring.getSize ∨
    newCapacity ≠ invalidIndex ∧ (st.ring.memoryBlock = none → st.stray = false) ∧
      st.ElementsFit newCapacity

theorem resize_refused {allocation : Allocation sizeof} {newCapacity : Nat}
    (h : ¬ (newCapacity > 0 ∧ newCapacity ≠ invalidIndex ∧ newCapacity ≥ st.ring.elementsInside)) :
    st.resize allocation newCapacity = some (false, st) := if_neg h

theorem resize_failed {newCapacity : Nat} : st.resize none newCapacity = some (false, st) := by
  unfold resize
  split <;> rfl

def moved (st : RingStorage sizeof) (newCapacity : Nat) (elements : List (Element sizeof) × Nat) :
    RingStorage sizeof :=
  ⟨⟨some elements.1, newCapacity, elements.2, st.ring.elementsInside⟩, newCapacity * sizeof % 2 ^ 64,
    false⟩

theorem resize_moves {contents : Nat → Element sizeof} {newCapacity : Nat}
    (h : newCapacity > 0 ∧ newCapacity ≠ invalidIndex ∧ newCapacity ≥ st.ring.elementsInside)
    (hblock : st.ring.memoryBlock = some block) :
    st.resize (some contents) newCapacity =
      (st.moveElements block (slotsOf (newCapacity * sizeof % 2 ^ 64) contents)
        (newCapacity * sizeof % 2 ^ 64)).map fun elements => (true, st.moved newCapacity elements) := by
  unfold resize
  rw [if_pos h]
  dsimp only
  rw [hblock]
  dsimp only
  cases st.moveElements block (slotsOf (newCapacity * sizeof % 2 ^ 64) contents)
    (newCapacity * sizeof % 2 ^ 64) <;> rfl

theorem slotsOf_length (bytes : Nat) (contents : Nat → Element sizeof) :
    (slotsOf bytes contents).length = bytes / sizeof := by
  simp [slotsOf]

theorem owns_moved {newCapacity : Nat} {elements : List (Element sizeof) × Nat}
    {q' : List (Element sizeof)} (h : Owns c st q) (hpos : newCapacity > 0)
    (hvalid : newCapacity < invalidIndex) (hroom : q.length ≤ newCapacity)
    (hlen : elements.1.length = newCapacity * sizeof % 2 ^ 64 / sizeof)
    (hsize : q'.length = q.length) (hempty : q = [] → elements.2 = invalidIndex)
    (hhead : q ≠ [] → elements.2 < newCapacity)
    (hstored : Stored elements.1 newCapacity elements.2 q') :
    Owns newCapacity (st.moved newCapacity elements) q' := by
  have hnil : q' = [] ↔ q = [] := by
    rw [← List.length_eq_zero_iff, hsize, List.length_eq_zero_iff]
  refine ⟨⟨rfl, hpos, hvalid, ?_, ?_, ?_, ?_, _, rfl, hstored⟩, rfl, ?_⟩
  · rw [hsize]
    exact h.holds.size
  · rwa [hsize]
  · intro hq'
    exact hempty (hnil.mp hq')
  · intro hq'
    exact hhead (mt hnil.mpr hq')
  · intro block hblock
    cases hblock
    exact hlen

/-- The copy of a ring that does not wrap holds the elements when they are of one byte or the front
is the first slot. -/
theorem Owns.copyMemory_stored (h : Owns c st q) (hsizeof : 0 < sizeof)
    (hblock : st.ring.memoryBlock = some block) (hflat : q.length ≤ st.ring.head + 1)
    (hfits : st.ring.head + sizeof ≤ newBytes) (hlen : dst.length = newBytes / sizeof)
    (hbytes : sizeof = 1 ∨ st.ring.head = 0) (c' : Nat) :
    Stored (copyMemory block dst (st.ring.head + sizeof)) c' st.ring.head q := by
  obtain ⟨block', hblock', hstored⟩ := h.holds.slots
  cases hblock.symm.trans hblock'
  have hsize : (st.ring.head + 1) * sizeof = st.ring.head + sizeof := by
    rw [Nat.succ_mul]
    congr 1
    rcases hbytes with hone | hzero
    · exact (congrArg (st.ring.head * ·) hone).trans (Nat.mul_one _)
    · rw [hzero, Nat.zero_mul]
  have hslots : st.ring.head + 1 ≤ dst.length := by
    rw [hlen]
    exact (Nat.le_div_iff_mul_le hsizeof).mpr (by omega)
  intro k hk
  have hindex : behind c' st.ring.head k = st.ring.head - k := if_pos (by omega)
  have hold : behind c st.ring.head k = st.ring.head - k := if_pos (by omega)
  have hslot := hstored k hk
  rw [hold, List.getElem?_eq_getElem hk] at hslot
  rw [hindex, List.getElem?_eq_getElem hk]
  refine copyMemory_copied hslot (by omega) ?_
  rw [← hsize]
  exact Nat.mul_le_mul_right _ (by omega)

theorem Owns.resize_safe (h : Owns c st q) (hsizeof : 0 < sizeof) {newCapacity : UInt64}
    (hallowed : newCapacity.toNat > 0 ∧ newCapacity.toNat ≠ invalidIndex ∧
      newCapacity.toNat ≥ st.ring.elementsInside)
    (hsafe : st.ResizeSafe newCapacity.toNat) (contents : Nat → Element sizeof) :
    ∃ st', st.resize (some contents) newCapacity.toNat = some (true, st') ∧
      Owns newCapacity.toNat st' q := by
  obtain ⟨block, hblock, -⟩ := h.holds.slots
  have hsize := h.holds.size
  have hvalid : newCapacity.toNat < invalidIndex := by
    have hlt := newCapacity.toNat_lt
    unfold invalidIndex at *
    omega
  have hroom : q.length ≤ newCapacity.toNat := by omega
  have hslots := slotsOf_length (newCapacity.toNat * sizeof % 2 ^ 64) contents
  rw [resize_moves hallowed hblock]
  have hfit : st.ElementsFit newCapacity.toNat := by
    rcases hsafe with hzero | hless | ⟨-, -, hfit⟩
    · omega
    · unfold getSize at hless
      omega
    · exact hfit
  by_cases hq : q = []
  · rw [moveElements_empty (by rw [hsize, hq]; rfl)]
    exact ⟨_, rfl, owns_moved h hallowed.1 hvalid hroom hslots rfl (fun _ => h.holds.empty hq)
      (fun hne => absurd hq hne) (by rw [hq]; exact Stored.nil)⟩
  · have hpos := List.length_pos_iff.mpr hq
    obtain ⟨hwrapped, hflat⟩ := hfit (by unfold getSize; omega)
    by_cases hwraps : st.ring.head + 1 < q.length
    · have hfits := hwrapped (by unfold Wrapped getHeadIndex getSize; omega)
      have hle : q.length ≤ (slotsOf (newCapacity.toNat * sizeof % 2 ^ 64) contents).length := by
        rw [hslots]
        apply (Nat.le_div_iff_mul_le hsizeof).mpr
        unfold getSize at hfits
        rwa [hsize] at hfits
      obtain ⟨dst', hcopy, hlen, hstored⟩ := h.copyLoop_stored hblock hq hle
      rw [h.moveElements_wrapped hwraps, hcopy]
      exact ⟨_, rfl, owns_moved h hallowed.1 hvalid hroom (hlen.trans hslots) rfl
        (fun hnil => absurd hnil hq) (fun _ => by dsimp only; omega) (hstored _)⟩
    · obtain ⟨hhead, hfits, hbytes⟩ :=
        hflat (by unfold Wrapped getHeadIndex getSize; omega)
      unfold getHeadIndex at hhead hfits hbytes
      rw [h.moveElements_flat hsizeof hq (by omega), if_pos hfits]
      exact ⟨_, rfl, owns_moved h hallowed.1 hvalid hroom ((copyMemory_length _ _ _).trans hslots) rfl
        (fun hnil => absurd hnil hq) (fun _ => hhead)
        (h.copyMemory_stored hsizeof hblock (by omega) hfits hslots hbytes _)⟩

/-- New memory that differs from the old in every byte. -/
def spoilt (block : List (Element sizeof)) (i : Nat) : Element sizeof :=
  (block[i]?.getD (Vector.replicate sizeof 0)).map (· + 1)

theorem copyMemory_spoilt {i bytes size : Nat} {a : Element sizeof} (hsizeof : 0 < sizeof)
    (hsize : size < (i + 1) * sizeof) (hold : block[i]? = some a) :
    (copyMemory block (slotsOf bytes (spoilt block)) size)[i]? ≠ some a := by
  intro hslot
  have hlt : i < (slotsOf bytes (spoilt block)).length := by
    by_contra hge
    rw [List.getElem?_eq_none (by rw [copyMemory_length]; omega)] at hslot
    cases hslot
  have hdst : (slotsOf bytes (spoilt block))[i]? = some (a.map (· + 1)) := by
    rw [slotsOf_length] at hlt
    unfold slotsOf spoilt
    rw [List.getElem?_map, List.getElem?_range hlt, Option.map_some, hold]
    rfl
  rw [copyMemory_getElem? hdst] at hslot
  have hlast := congrArg (fun v : Element sizeof => v[sizeof - 1]) (Option.some.inj hslot)
  rw [Nat.succ_mul] at hsize
  rw [Vector.getElem_ofFn, if_neg (by dsimp only; omega)] at hlast
  simp at hlast

theorem Owns.safe_of_keeps (h : Owns c st q) (hsizeof : 0 < sizeof) {newCapacity : UInt64}
    (hkeeps : ∀ allocation, st.Keeps newCapacity.toNat allocation) :
    st.ResizeSafe newCapacity.toNat := by
  obtain ⟨block, hblock, hstored⟩ := h.holds.slots
  have hsize := h.holds.size
  by_cases hzero : newCapacity.toNat = 0
  · exact .inl hzero
  by_cases hless : newCapacity.toNat < st.ring.getSize
  · exact .inr (.inl hless)
  obtain ⟨ok, st', hres, hok, -, hsucceeds⟩ := hkeeps (some (spoilt block))
  have htrue : ok = true := hsucceeds (Nat.not_lt.mp hless) (Nat.pos_of_ne_zero hzero) rfl
  subst htrue
  have hinvalid : newCapacity.toNat ≠ invalidIndex := by
    intro heq
    rw [resize_refused (fun hallowed => hallowed.2.1 heq)] at hres
    cases hres
  unfold getSize at hless
  rw [resize_moves ⟨Nat.pos_of_ne_zero hzero, hinvalid, Nat.not_lt.mp hless⟩ hblock] at hres
  obtain ⟨elements, hmoves, hst'⟩ := Option.map_eq_some_iff.mp hres
  cases hst'
  obtain ⟨-, hcases⟩ := h.moveElements_some hsizeof hblock hmoves
  refine .inr (.inr ⟨hinvalid, fun hnone => ?_, fun hne => ?_⟩)
  · rw [hblock] at hnone
    cases hnone
  unfold Wrapped getHeadIndex getSize
  rw [hsize]
  rcases hcases with ⟨rfl, -⟩ | ⟨hwraps, hle, -⟩ | ⟨hq, hflat, hfits, rfl⟩
  · exact absurd hsize hne
  · rw [slotsOf_length] at hle
    exact ⟨fun _ => (Nat.le_div_iff_mul_le hsizeof).mp hle, fun hflat => absurd hwraps hflat⟩
  · refine ⟨fun hwraps => by omega, fun _ => ?_⟩
    obtain ⟨hcontents, -, hindices⟩ := hok rfl
    obtain ⟨hhead, -⟩ := hindices hne
    refine ⟨hhead, hfits, ?_⟩
    by_contra hbytes
    rw [not_or] at hbytes
    obtain ⟨a, q', rfl⟩ := List.exists_cons_of_ne_nil hq
    have hfront : block[st.ring.head]? = some a := hstored.front hq
    rw [h.holds.contents_eq] at hcontents
    have hslot := slot_of_contents rfl hhead (by
      have hlt := newCapacity.toNat_lt
      unfold invalidIndex
      change newCapacity.toNat ≤ _
      omega) hcontents
    have hmore : st.ring.head * 2 ≤ st.ring.head * sizeof := Nat.mul_le_mul_left _ (by omega)
    exact copyMemory_spoilt hsizeof (by rw [Nat.succ_mul]; omega) hfront hslot

/-- The elements of a ring that does not wrap keep their slots in the new block. -/
def Stays (st : RingStorage sizeof) (newCapacity : Nat) : Prop :=
  st.ring.getSize ≠ 0 → ¬ st.Wrapped → newCapacity ≥ st.ring.getSize →
    st.ring.getHeadIndex < newCapacity ∧
      (st.ring.getHeadIndex + 1) * sizeof ≤ newCapacity * sizeof % 2 ^ 64

/-- A call that leaves the elements in the block leaves a container that holds some queue. -/
theorem Owns.resize_owns (h : Owns c st q) (hsizeof : 0 < sizeof) {newCapacity : UInt64}
    {allocation : Allocation sizeof} (hstays : st.Stays newCapacity.toNat) {ok : Bool}
    (hres : st.resize allocation newCapacity.toNat = some (ok, st')) :
    ∃ c' q', Owns c' st' q' := by
  obtain ⟨block, hblock, -⟩ := h.holds.slots
  have hsize := h.holds.size
  by_cases hallowed : newCapacity.toNat > 0 ∧ newCapacity.toNat ≠ invalidIndex ∧
      newCapacity.toNat ≥ st.ring.elementsInside
  · cases allocation with
    | none =>
      rw [resize_failed] at hres
      cases hres
      exact ⟨c, q, h⟩
    | some contents =>
      have hvalid : newCapacity.toNat < invalidIndex := by
        have hlt := newCapacity.toNat_lt
        unfold invalidIndex at *
        omega
      have hroom : q.length ≤ newCapacity.toNat := by omega
      rw [resize_moves hallowed hblock] at hres
      obtain ⟨elements, hmoves, hst'⟩ := Option.map_eq_some_iff.mp hres
      cases hst'
      obtain ⟨hlen, hcases⟩ := h.moveElements_some hsizeof hblock hmoves
      rw [slotsOf_length] at hlen
      rcases hcases with ⟨hq, hhead⟩ | ⟨hwraps, -, hhead, hstored⟩ | ⟨hq, hflat, -, rfl⟩
      · exact ⟨_, q, owns_moved h hallowed.1 hvalid hroom hlen rfl (fun _ => hhead)
          (fun hne => absurd hq hne) (by rw [hq]; exact Stored.nil)⟩
      · refine ⟨_, q, owns_moved h hallowed.1 hvalid hroom hlen rfl ?_ (fun _ => by omega)
          (by rw [hhead]; exact hstored _)⟩
        rintro rfl
        cases hwraps
      · obtain ⟨hhead, hfits⟩ := hstays
          (by unfold getSize; rw [hsize]; exact (List.length_pos_iff.mpr hq).ne')
          (by unfold Wrapped getHeadIndex getSize; omega) (by unfold getSize; omega)
        have hfront := (Nat.le_div_iff_mul_le hsizeof).mpr hfits
        unfold getHeadIndex at hhead hfront
        have hinside : ∀ k < q.length, behind newCapacity.toNat st.ring.head k <
            (copyMemory block (slotsOf (newCapacity.toNat * sizeof % 2 ^ 64) contents)
              (st.ring.head + sizeof)).length := by
          intro k hk
          have hindex : behind newCapacity.toNat st.ring.head k = st.ring.head - k :=
            if_pos (by omega)
          rw [hindex]
          dsimp only at hlen
          omega
        obtain ⟨q', hsize', hstored'⟩ := Stored.exists_of_lt hinside
        exact ⟨_, q', owns_moved h hallowed.1 hvalid hroom hlen hsize'
          (fun hnil => absurd hnil hq) (fun _ => hhead) hstored'⟩
  · rw [resize_refused hallowed] at hres
    cases hres
    exact ⟨c, q, h⟩

theorem Keeps.of_unchanged {newCapacity : Nat} {allocation : Allocation sizeof}
    (hres : st.resize allocation newCapacity = some (false, st))
    (hfails : newCapacity ≥ st.ring.getSize → newCapacity > 0 → ¬ allocation.isSome) :
    st.Keeps newCapacity allocation := by
  refine ⟨false, st, hres, ?_, fun _ => rfl, ?_⟩
  · intro hok
    cases hok
  · intro hroom hpos hsome
    exact absurd hsome (hfails hroom hpos)

theorem Keeps.of_owns {newCapacity : Nat} {allocation : Allocation sizeof}
    (hres : st.resize allocation newCapacity = some (true, st')) (howns : Owns newCapacity st' q)
    (hcontents : st.ring.contents = .ok q) : st.Keeps newCapacity allocation := by
  refine ⟨true, st', hres, fun _ => ⟨?_, howns.holds.capacity, fun hne => ?_⟩, ?_, fun _ _ _ => rfl⟩
  · rw [howns.holds.contents_eq, hcontents]
  · have hq : q ≠ [] := by
      rintro rfl
      exact hne howns.holds.size
    have hhead := howns.holds.head hq
    exact ⟨hhead, _, howns.holds.getTailIndex_eq hq, behind_lt hhead⟩
  · intro hok
    cases hok

theorem Owns.keeps_of_safe (h : Owns c st q) (hsizeof : 0 < sizeof) {newCapacity : UInt64}
    (hsafe : st.ResizeSafe newCapacity.toNat) (allocation : Allocation sizeof) :
    st.Keeps newCapacity.toNat allocation := by
  by_cases hallowed : newCapacity.toNat > 0 ∧ newCapacity.toNat ≠ invalidIndex ∧
      newCapacity.toNat ≥ st.ring.elementsInside
  · cases allocation with
    | none => exact Keeps.of_unchanged resize_failed fun _ _ => Bool.false_ne_true
    | some contents =>
      obtain ⟨st', hres, howns⟩ := h.resize_safe hsizeof hallowed hsafe contents
      exact Keeps.of_owns hres howns h.holds.contents_eq
  · refine Keeps.of_unchanged (resize_refused hallowed) fun hroom hpos _ => ?_
    rcases hsafe with hzero | hless | ⟨hne, -, -⟩
    · omega
    · omega
    · exact hallowed ⟨hpos, hne, hroom⟩

theorem Unallocated.resize_eq (h : Unallocated st.ring) (newCapacity : Nat)
    (contents : Nat → Element sizeof) :
    st.resize (some contents) newCapacity =
      if newCapacity > 0 ∧ newCapacity ≠ invalidIndex then
        if st.stray then none
        else some (true, ⟨⟨some (slotsOf (newCapacity * sizeof % 2 ^ 64) contents), newCapacity,
          invalidIndex, 0⟩, newCapacity * sizeof % 2 ^ 64, false⟩)
      else some (false, st) := by
  unfold resize
  rw [h]
  simp only [ge_iff_le, Nat.zero_le, and_true]
  split <;> rfl

theorem Unallocated.owns_new {newCapacity bytes : Nat} {contents : Nat → Element sizeof}
    (hpos : newCapacity > 0) (hvalid : newCapacity < invalidIndex)
    (hbytes : bytes = newCapacity * sizeof % 2 ^ 64) :
    Owns newCapacity
      (⟨⟨some (slotsOf bytes contents), newCapacity, invalidIndex, 0⟩, bytes, false⟩ :
        RingStorage sizeof) [] := by
  refine ⟨⟨rfl, hpos, hvalid, rfl, Nat.zero_le _, fun _ => rfl, fun hq => absurd rfl hq, _, rfl,
    Stored.nil⟩, hbytes, ?_⟩
  intro block hblock
  cases hblock
  exact slotsOf_length _ _

theorem Unallocated.keeps_iff (h : Unallocated st.ring) (newCapacity : UInt64) :
    (∀ allocation, st.Keeps newCapacity.toNat allocation) ↔ st.ResizeSafe newCapacity.toNat := by
  have hsize : st.ring.getSize = 0 := by rw [h]; rfl
  have hvalid : newCapacity.toNat ≤ invalidIndex := by
    have hlt := newCapacity.toNat_lt
    unfold invalidIndex
    omega
  constructor
  · intro hkeeps
    by_cases hzero : newCapacity.toNat = 0
    · exact .inl hzero
    obtain ⟨ok, st', hres, -, -, hsucceeds⟩ := hkeeps (some fun _ => Vector.replicate sizeof 0)
    have htrue : ok = true := hsucceeds (by omega) (by omega) rfl
    subst htrue
    rw [Unallocated.resize_eq h] at hres
    refine .inr (.inr ⟨?_, fun _ => ?_, fun hne => absurd hsize hne⟩)
    · intro hinvalid
      rw [if_neg (fun hallowed => hallowed.2 hinvalid)] at hres
      cases hres
    · cases hstray : st.stray with
      | false => rfl
      | true =>
        rw [hstray] at hres
        split at hres
        · cases hres
        · cases hres
  · intro hsafe allocation
    cases allocation with
    | none => exact Keeps.of_unchanged resize_failed fun _ _ => Bool.false_ne_true
    | some contents =>
      have hres := Unallocated.resize_eq h newCapacity.toNat contents
      by_cases hallowed : newCapacity.toNat > 0 ∧ newCapacity.toNat ≠ invalidIndex
      · have hstray : st.stray = false := by
          rcases hsafe with hzero | hless | ⟨-, hstray, -⟩
          · omega
          · omega
          · exact hstray (by rw [h])
        rw [if_pos hallowed, hstray] at hres
        refine Keeps.of_owns hres
          (Unallocated.owns_new hallowed.1 (by omega) rfl) ?_
        rw [h]
        rfl
      · rw [if_neg hallowed] at hres
        refine Keeps.of_unchanged hres fun _ hpos _ => ?_
        rcases hsafe with hzero | hless | ⟨hne, -, -⟩
        · omega
        · omega
        · exact hallowed ⟨hpos, hne⟩

/-- The container holds some queue in its block or has none. -/
def Sound (st : RingStorage sizeof) : Prop := (∃ c q, Owns c st q) ∨ Unallocated st.ring

theorem sound_ofCapacity (allocation : Allocation sizeof) (stray : Bool) (capacity : UInt64) :
    Sound (ofCapacity allocation stray capacity) := by
  rcases ofCapacity_cases sizeof (fun _ => allocation) capacity with hholds | hnone
  · refine .inl ⟨_, [], hholds, rfl, ?_⟩
    intro block hblock
    have hsome : (RingBuffer.ofCapacity sizeof (fun _ => allocation) capacity).memoryBlock.isSome := by
      obtain ⟨block, hblock, -⟩ := hholds.slots
      rw [hblock]
      rfl
    obtain ⟨-, -, block', hlen, heq⟩ := ofCapacity_eq hsome
    change (RingBuffer.ofCapacity sizeof (fun _ => allocation) capacity).memoryBlock = _ at hblock
    rw [heq] at hblock
    cases hblock
    exact hlen
  · exact .inr hnone

theorem Sound.call (h : Sound st) {k : Call (Element sizeof)}
    (hstep : st.step (.call k) = some st') : Sound st' := by
  obtain ⟨⟨r, rb'⟩, hcall, hst'⟩ := Option.map_eq_some_iff.mp hstep
  have hcall := except_toOption_eq_some.mp hcall
  subst hst'
  rcases h with ⟨c, q, howns⟩ | hnone
  · obtain ⟨hholds, hslots⟩ := howns.holds.call_ok hcall
    refine .inl ⟨c, _, hholds, howns.bytes, ?_⟩
    intro block hblock
    obtain ⟨block', hblock', -⟩ := howns.holds.slots
    change rb'.memoryBlock = some block at hblock
    rw [hblock, hblock'] at hslots
    exact (Option.some.inj hslots).trans (howns.slots block' hblock')
  · exact .inr (hnone.call hcall)

theorem Sound.resize (h : Sound st) (hsizeof : 0 < sizeof) {newCapacity : UInt64}
    {allocation : Allocation sizeof} (hstays : st.Stays newCapacity.toNat)
    (hstep : st.step (.resize newCapacity allocation) = some st') : Sound st' := by
  obtain ⟨⟨ok, st''⟩, hres, hst'⟩ := Option.map_eq_some_iff.mp hstep
  cases hst'
  rcases h with ⟨c, q, howns⟩ | hnone
  · exact .inl (howns.resize_owns hsizeof hstays hres)
  · cases allocation with
    | none =>
      rw [resize_failed] at hres
      cases hres
      exact .inr hnone
    | some contents =>
      rw [Unallocated.resize_eq hnone] at hres
      split at hres
      · rename_i hallowed
        split at hres
        · cases hres
        · cases hres
          have hlt := newCapacity.toNat_lt
          refine .inl ⟨_, [], Unallocated.owns_new hallowed.1 ?_ rfl⟩
          unfold invalidIndex at *
          omega
      · cases hres
        exact .inr hnone

/-- `Resize` leaves the elements in the block. -/
def ResizesStay (st : RingStorage sizeof) (action : Action sizeof) : Prop :=
  ∀ newCapacity allocation, action = .resize newCapacity allocation → st.Stays newCapacity.toNat

theorem sound_run (hsizeof : 0 < sizeof) {allocation : Allocation sizeof} {stray : Bool}
    {capacity : UInt64} {actions : List (Action sizeof)}
    (halong : Machine.Along step ResizesStay (ofCapacity allocation stray capacity) actions)
    (hrun : Machine.run step (ofCapacity allocation stray capacity) actions = some st) :
    Sound st := by
  refine Machine.invariant_along ?_ (sound_ofCapacity allocation stray capacity) halong hrun
  intro st action st' hsound hstay hstep
  cases action with
  | call k => exact hsound.call hstep
  | resize newCapacity allocation =>
    exact hsound.resize hsizeof (hstay newCapacity allocation rfl) hstep

/-- In every container that calls and `Resize` lead to, when each `Resize` leaves the elements in
the block, `Resize` does what it should exactly when it is safe. -/
theorem resize_keeps_iff (hsizeof : 0 < sizeof) (allocation : Allocation sizeof) (stray : Bool)
    (capacity : UInt64) (actions : List (Action sizeof)) (st : RingStorage sizeof)
    (halong : Machine.Along step ResizesStay (ofCapacity allocation stray capacity) actions)
    (hrun : Machine.run step (ofCapacity allocation stray capacity) actions = some st)
    (newCapacity : UInt64) :
    (∀ allocation, st.Keeps newCapacity.toNat allocation) ↔ st.ResizeSafe newCapacity.toNat := by
  rcases sound_run hsizeof halong hrun with ⟨c, q, howns⟩ | hnone
  · exact ⟨howns.safe_of_keeps hsizeof, howns.keeps_of_safe hsizeof⟩
  · exact Unallocated.keeps_iff hnone newCapacity

theorem along_calls (st : RingStorage sizeof) (cs : List (Call (Element sizeof))) :
    Machine.Along step ResizesStay st (cs.map .call) := by
  induction cs generalizing st with
  | nil => trivial
  | cons k cs ih =>
    refine ⟨?_, fun st' _ => ih st'⟩
    intro newCapacity allocation h
    cases h

def single (a : UInt8) : Element 1 := Vector.replicate 1 a

def pair (a b : UInt8) : Element 2 := (single a).push b

/-- Two elements of one byte in three slots. -/
theorem resize_keeps_iff_bytes :
    ∃ st, Machine.run step (ofCapacity (some fun _ => single 0) false 3 : RingStorage 1)
        [.call (.pushFront (single 7)), .call (.pushFront (single 8))] = some st ∧
      ((∀ allocation, st.Keeps 5 allocation) ↔ st.ResizeSafe 5) :=
  ⟨_, rfl, resize_keeps_iff (by decide) (some fun _ => single 0) false 3
    [.call (.pushFront (single 7)), .call (.pushFront (single 8))] _ (along_calls _ [_, _]) rfl 5⟩

/-- Two elements of two bytes in three slots. -/
def twoWide : RingStorage 2 := ⟨⟨some [pair 1 2, pair 3 4, pair 0 0], 3, 1, 2⟩, 6, false⟩

/-- One element of one byte in the last of three slots. -/
def atLast : RingStorage 1 := ⟨⟨some [single 1, single 2, single 3], 3, 2, 1⟩, 3, false⟩

/-- More room costs the front its second byte, and less room is written past. -/
theorem resize_loses :
    Machine.run step (ofCapacity (some fun _ => pair 0 0) false 3)
        [.call (.pushFront (pair 1 2)), .call (.pushFront (pair 3 4))] = some twoWide ∧
      twoWide.ring.contents = .ok [pair 3 4, pair 1 2] ∧
      twoWide.resize (some fun _ => pair 0 0) 4 =
        some (true, ⟨⟨some [pair 1 2, pair 3 0, pair 0 0, pair 0 0], 4, 1, 2⟩, 8, false⟩) ∧
      ¬ twoWide.Keeps 4 (some fun _ => pair 0 0) ∧
      Machine.run step (ofCapacity (some fun _ => single 0) false 3)
        [.call (.pushFront (single 1)), .call (.pushFront (single 2)), .call (.pushFront (single 3)),
          .call .popBack, .call .popBack] = some atLast ∧
      atLast.resize (some fun _ => single 0) 1 = none := by
  have hresize : twoWide.resize (some fun _ => pair 0 0) 4 =
      some (true, ⟨⟨some [pair 1 2, pair 3 0, pair 0 0, pair 0 0], 4, 1, 2⟩, 8, false⟩) := by
    decide +kernel
  refine ⟨by decide +kernel, by decide +kernel, hresize, ?_, by decide +kernel, by decide +kernel⟩
  rintro ⟨ok, st', hres, hok, -⟩
  cases hresize.symm.trans hres
  obtain ⟨hcontents, -⟩ := hok rfl
  revert hcontents
  decide +kernel

end RingStorage

end AsciiTerra
