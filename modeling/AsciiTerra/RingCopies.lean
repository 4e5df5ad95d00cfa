import AsciiTerra.RingResize

/-!
# Copies of a `RingBuffer`

The copy constructor and the copy assignment get a block from `Resize` and then copy as many
bytes as the container has slots. The constructor leaves `MemoryBlock` as the memory was before
it, and the assignment frees its block and keeps the pointer, so that `Resize` frees it again.
-/

set_option autoImplicit false

namespace AsciiTerra

open Ring Deque

namespace RingStorage
variable {sizeof c : Nat} {st st' other : RingStorage sizeof} {q : List (Element sizeof)}
variable {block : List (Element sizeof)}

open RingBuffer

/-- The copy has the sequence and the capacity of the container it is copied from. -/
def Copied (other : RingStorage sizeof) (result : Option (RingStorage sizeof)) : Prop :=
  ∃ st', result = some st' ∧ st'.ring.contents = other.ring.contents ∧
    st'.ring.capacity = other.ring.capacity

/-- The elements lie in the first `capacity` bytes of the block. -/
def CopyFits (other : RingStorage sizeof) : Prop :=
  other.ring.capacity ≤ other.ring.capacity * sizeof % 2 ^ 64 ∧
    (sizeof = 1 ∨
      ¬ other.Wrapped ∧ (other.ring.getHeadIndex + 1) * sizeof ≤ other.ring.capacity)

/-- There is nothing to allocate, or `MemoryBlock` is null, the allocation succeeds and the
elements lie in the bytes that are copied. -/
def CopyAllowed (allocates stray : Bool) (other : RingStorage sizeof) : Prop :=
  other.ring.capacity = 0 ∨
    stray = false ∧ allocates = true ∧ (other.ring.getSize ≠ 0 → other.CopyFits)

/-- A container without a block is copied to as a new one is. One with a block frees it twice
unless the allocation fails. -/
def AssignAllowed (allocates : Bool) (other st : RingStorage sizeof) : Prop :=
  (st.ring.memoryBlock = none → st.stray = false ∧ CopyAllowed allocates false other) ∧
    (st.ring.memoryBlock ≠ none →
      allocates = false ∧ other.ring.getSize = 0 ∧ other.ring.capacity = st.ring.capacity)

theorem Owns.fits_iff (h : Owns c other q) (hsizeof : 0 < sizeof) (hq : q ≠ []) :
    (∀ k < q.length, (behind c other.ring.head k + 1) * sizeof ≤ c) ↔
      sizeof = 1 ∨ ¬ other.Wrapped ∧ (other.ring.getHeadIndex + 1) * sizeof ≤ c := by
  have hpos := List.length_pos_iff.mpr hq
  have hhead := h.holds.head hq
  have hbound := h.holds.bound
  unfold Wrapped getHeadIndex getSize
  rw [h.holds.size]
  constructor
  · intro hfits
    by_cases hone : sizeof = 1
    · exact .inl hone
    have hfront := hfits 0 hpos
    rw [behind_zero] at hfront
    refine .inr ⟨fun hwraps => ?_, hfront⟩
    -- the last slot is in use, and its bytes end behind the first `c`
    have hlast : behind c other.ring.head (other.ring.head + 1) = c - 1 := by
      unfold behind
      rw [if_neg (by omega)]
      omega
    have hcopied := hfits _ hwraps
    rw [hlast, Nat.sub_add_cancel (by omega)] at hcopied
    have hmore : c * 2 ≤ c * sizeof := Nat.mul_le_mul_left _ (by omega)
    omega
  · rintro (hone | ⟨hflat, hfits⟩) k hk
    · have hlt : behind c other.ring.head k < c := behind_lt hhead
      calc (behind c other.ring.head k + 1) * sizeof
          = behind c other.ring.head k + 1 := (congrArg (_ * ·) hone).trans (Nat.mul_one _)
        _ ≤ c := hlt
    · have hindex : behind c other.ring.head k = other.ring.head - k := if_pos (by omega)
      rw [hindex]
      exact le_trans (Nat.mul_le_mul_right _ (by omega)) hfits

/-- The first bytes of the block are copied to a new block. -/
def copied (other : RingStorage sizeof) (block : List (Element sizeof))
    (contents : Nat → Element sizeof) : RingStorage sizeof :=
  other.moved other.ring.capacity
    (copyMemory block (slotsOf (other.ring.capacity * sizeof % 2 ^ 64) contents) other.ring.capacity,
      other.ring.head)

theorem copyElements_capacity (h : copyElements other st = some st') :
    st'.ring.capacity = st.ring.capacity := by
  unfold copyElements at h
  split at h
  · dsimp only at h
    split at h
    · cases h
      rfl
    · split at h
      · split at h
        · cases h
          rfl
        · cases h
      · cases h
  · cases h
    rfl

theorem copyElements_empty (h : other.ring.getSize = 0) : copyElements other st = some st := by
  unfold getSize at h
  unfold copyElements
  rw [if_neg (by omega)]
  rfl

theorem copyElements_released (h : other.ring.getSize ≠ 0) (hblock : st.ring.memoryBlock = none)
    (hcapacity : st.ring.capacity ≠ 0) : copyElements other st = none := by
  unfold getSize at h
  unfold copyElements
  rw [if_pos (Nat.pos_of_ne_zero h)]
  dsimp only
  rw [if_neg hcapacity, hblock]
  cases other.ring.memoryBlock <;> rfl

theorem copyInto_unchanged {allocation : Allocation sizeof}
    {other : RingStorage sizeof → RingStorage sizeof}
    (h : st.resize allocation (other st).ring.capacity = some (false, st)) :
    st.copyInto allocation other = copyElements (other st) st := by
  unfold copyInto
  rw [h]
  rfl

theorem Unallocated.copyInto_eq (hst : Unallocated st.ring) (h : Owns c other q)
    (contents : Nat → Element sizeof) :
    st.copyInto (some contents) (fun _ => other) =
      if st.stray then none
      else copyElements other ⟨⟨some (slotsOf (c * sizeof % 2 ^ 64) contents), c, invalidIndex, 0⟩,
        c * sizeof % 2 ^ 64, false⟩ := by
  have hvalid := h.holds.valid
  unfold copyInto
  dsimp only
  rw [Unallocated.resize_eq hst, h.holds.capacity,
    if_pos ⟨h.holds.pos, by omega⟩]
  split <;> rfl

theorem Owns.copyElements_eq (h : Owns c other q) (hq : q ≠ [])
    (hblock : other.ring.memoryBlock = some block) (contents : Nat → Element sizeof) :
    copyElements other ⟨⟨some (slotsOf (c * sizeof % 2 ^ 64) contents), c, invalidIndex, 0⟩,
        c * sizeof % 2 ^ 64, false⟩ =
      if c ≤ c * sizeof % 2 ^ 64 then some (other.copied block contents) else none := by
  have hpos := List.length_pos_iff.mpr hq
  have hcapacity := h.holds.pos
  unfold copyElements copied moved
  rw [if_pos (by rw [h.holds.size]; exact hpos), hblock, h.bytes, h.holds.capacity]
  dsimp only
  rw [if_neg (by omega)]
  by_cases hroom : c ≤ c * sizeof % 2 ^ 64
  · rw [if_pos ⟨hroom, hroom⟩, if_pos hroom]
    rfl
  · rw [if_neg (fun hboth => hroom hboth.1), if_neg hroom]
    rfl

theorem Owns.copied_owns (h : Owns c other q) (hq : q ≠ []) {contents : Nat → Element sizeof}
    {q' : List (Element sizeof)} (hsize : q'.length = q.length)
    (hstored : Stored (copyMemory block (slotsOf (c * sizeof % 2 ^ 64) contents) c) c
      other.ring.head q') :
    Owns c (other.copied block contents) q' := by
  unfold copied
  rw [h.holds.capacity]
  exact owns_moved h h.holds.pos h.holds.valid h.holds.bound
    ((copyMemory_length _ _ _).trans (slotsOf_length _ _)) hsize (fun hnil => absurd hnil hq)
    (fun _ => h.holds.head hq) hstored

theorem Owns.copied_stored (h : Owns c other q) (hblock : other.ring.memoryBlock = some block)
    (hfits : ∀ k < q.length, (behind c other.ring.head k + 1) * sizeof ≤ c)
    (contents : Nat → Element sizeof) :
    Stored (copyMemory block (slotsOf (c * sizeof % 2 ^ 64) contents) c) c other.ring.head q := by
  obtain ⟨block', hblock', hstored⟩ := h.holds.slots
  cases hblock.symm.trans hblock'
  intro k hk
  have hslot := hstored k hk
  rw [List.getElem?_eq_getElem hk] at hslot
  rw [List.getElem?_eq_getElem hk]
  refine copyMemory_copied hslot ?_ (hfits k hk)
  rw [slotsOf_length, ← h.bytes, ← h.slots block hblock]
  by_contra hge
  rw [List.getElem?_eq_none (Nat.not_lt.mp hge)] at hslot
  cases hslot

/-- In new memory that differs from the old, a copy with the right sequence got every byte. -/
theorem Owns.fits_of_copied (h : Owns c other q) (hsizeof : 0 < sizeof) (hq : q ≠ [])
    (hblock : other.ring.memoryBlock = some block)
    (hcontents : (other.copied block (spoilt block)).ring.contents = other.ring.contents) :
    ∀ k < q.length, (behind c other.ring.head k + 1) * sizeof ≤ c := by
  obtain ⟨block', hblock', hstored⟩ := h.holds.slots
  cases hblock.symm.trans hblock'
  have hslot : ∀ k (hk : k < q.length), block[behind c other.ring.head k]? = some q[k] := by
    intro k hk
    rw [hstored k hk, List.getElem?_eq_getElem hk]
  have hinside : ∀ k < q.length, behind c other.ring.head k <
      (copyMemory block (slotsOf (c * sizeof % 2 ^ 64) (spoilt block)) c).length := by
    intro k hk
    rw [copyMemory_length, slotsOf_length, ← h.bytes, ← h.slots block hblock]
    by_contra hge
    have hfound := hslot k hk
    rw [List.getElem?_eq_none (Nat.not_lt.mp hge)] at hfound
    cases hfound
  obtain ⟨q', hsize, hstored'⟩ := Stored.exists_of_lt hinside
  have howns := h.copied_owns hq hsize hstored'
  have heq : q' = q := by
    rw [howns.holds.contents_eq, h.holds.contents_eq] at hcontents
    exact Except.ok.inj hcontents
  subst heq
  intro k hk
  by_contra hshort
  have hsame : (copyMemory block (slotsOf (c * sizeof % 2 ^ 64) (spoilt block)) c)[
      behind c other.ring.head k]? = some q'[k] := by
    rw [hstored' k hk, List.getElem?_eq_getElem hk]
  exact copyMemory_spoilt hsizeof (Nat.not_le.mp hshort) (hslot k hk) hsame

theorem Unallocated.copyInto_of_allowed (hst : Unallocated st.ring) (hother : Sound other)
    (hsizeof : 0 < sizeof) {allocation : Allocation sizeof}
    (h : CopyAllowed allocation.isSome st.stray other) :
    ∃ st', st.copyInto allocation (fun _ => other) = some st' ∧ Sound st' ∧
      st'.ring.contents = other.ring.contents ∧ st'.ring.capacity = other.ring.capacity := by
  rcases hother with ⟨c, q, howns⟩ | hnone
  · have hpos := howns.holds.pos
    rcases h with hzero | ⟨hstray, hsome, hfits⟩
    · rw [howns.holds.capacity] at hzero
      omega
    obtain ⟨contents, rfl⟩ := Option.isSome_iff_exists.mp hsome
    rw [Unallocated.copyInto_eq hst howns, hstray, if_neg Bool.false_ne_true]
    by_cases hq : q = []
    · subst hq
      have hempty : Owns c ⟨⟨some (slotsOf (c * sizeof % 2 ^ 64) contents), c, invalidIndex, 0⟩,
          c * sizeof % 2 ^ 64, false⟩ [] := Unallocated.owns_new hpos howns.holds.valid rfl
      rw [copyElements_empty howns.holds.size]
      refine ⟨_, rfl, .inl ⟨c, [], hempty⟩, ?_, ?_⟩
      · rw [hempty.holds.contents_eq, howns.holds.contents_eq]
      · rw [hempty.holds.capacity, howns.holds.capacity]
    · obtain ⟨block, hblock, -⟩ := howns.holds.slots
      obtain ⟨hroom, hbytes⟩ := hfits (by
        unfold getSize
        rw [howns.holds.size]
        exact fun hzero => hq (List.length_eq_zero_iff.mp hzero))
      rw [howns.holds.capacity] at hroom hbytes
      rw [howns.copyElements_eq hq hblock, if_pos hroom]
      have hcopied := howns.copied_owns hq rfl (howns.copied_stored hblock
        ((howns.fits_iff hsizeof hq).mpr hbytes) contents)
      refine ⟨_, rfl, .inl ⟨c, q, hcopied⟩, ?_, ?_⟩
      · rw [hcopied.holds.contents_eq, howns.holds.contents_eq]
      · rw [hcopied.holds.capacity, howns.holds.capacity]
  · have hzero : other.ring.capacity = 0 := by rw [hnone]
    refine ⟨st, ?_, .inr hst, ?_, ?_⟩
    · rw [copyInto_unchanged (resize_refused (by omega))]
      exact copyElements_empty (by rw [hnone]; rfl)
    · rw [hst, hnone]
    · rw [hst, hnone]

theorem Unallocated.allowed_of_copied (hst : Unallocated st.ring) (hother : Sound other)
    (hsizeof : 0 < sizeof) {allocates : Bool}
    (h : ∀ allocation : Allocation sizeof, allocation.isSome = allocates →
      Copied other (st.copyInto allocation fun _ => other)) :
    CopyAllowed allocates st.stray other := by
  rcases hother with ⟨c, q, howns⟩ | hnone
  · have hpos := howns.holds.pos
    right
    cases allocates with
    | false =>
      obtain ⟨st', hres, -, hcapacity⟩ := h none rfl
      rw [copyInto_unchanged resize_failed] at hres
      have hsame := copyElements_capacity hres
      rw [hcapacity, howns.holds.capacity, hst] at hsame
      dsimp only at hsame
      omega
    | true =>
      obtain ⟨block, hblock, -⟩ := howns.holds.slots
      obtain ⟨st', hres, hcontents, -⟩ := h (some (spoilt block)) rfl
      rw [Unallocated.copyInto_eq hst howns] at hres
      split at hres
      · cases hres
      rename_i hstray
      refine ⟨Bool.eq_false_iff.mpr hstray, rfl, fun hne => ?_⟩
      have hq : q ≠ [] := by
        rintro rfl
        exact hne howns.holds.size
      rw [howns.copyElements_eq hq hblock] at hres
      split at hres
      · rename_i hroom
        cases hres
        unfold CopyFits
        rw [howns.holds.capacity]
        exact ⟨hroom, (howns.fits_iff hsizeof hq).mp
          (howns.fits_of_copied hsizeof hq hblock hcontents)⟩
      · cases hres
  · left
    rw [hnone]

theorem Unallocated.copied_iff (hst : Unallocated st.ring) (hother : Sound other)
    (hsizeof : 0 < sizeof) (allocates : Bool) :
    (∀ allocation : Allocation sizeof, allocation.isSome = allocates →
      Copied other (st.copyInto allocation fun _ => other)) ↔
        CopyAllowed allocates st.stray other := by
  constructor
  · exact Unallocated.allowed_of_copied hst hother hsizeof
  · rintro hallowed allocation rfl
    obtain ⟨st', hres, -, hcopied⟩ := Unallocated.copyInto_of_allowed hst hother hsizeof hallowed
    exact ⟨st', hres, hcopied⟩

theorem exists_allocation (allocates : Bool) :
    ∃ allocation : Allocation sizeof, allocation.isSome = allocates := by
  cases allocates with
  | true => exact ⟨some fun _ => Vector.replicate sizeof 0, rfl⟩
  | false => exact ⟨none, rfl⟩

theorem Unallocated.assign_eq (hst : Unallocated st.ring) (allocation : Allocation sizeof)
    (other : RingStorage sizeof → RingStorage sizeof) :
    st.assign allocation other = if st.stray then none else st.copyInto allocation other := by
  have hsize : st.ring.getSize = 0 := by
    rw [hst]
    rfl
  unfold assign deallocate
  rw [if_neg (not_not.mpr hsize)]
  dsimp only
  rw [hst]
  dsimp only
  split <;> rfl

def released (c : Nat) (st : RingStorage sizeof) : RingStorage sizeof :=
  ⟨⟨none, c, invalidIndex, 0⟩, st.bytes, true⟩

theorem Owns.assign_eq (h : Owns c st q) (allocation : Allocation sizeof)
    (other : RingStorage sizeof → RingStorage sizeof) :
    st.assign allocation other = (st.released c).copyInto allocation other := by
  obtain ⟨block, hblock, -⟩ := h.holds.slots
  have hcapacity := h.holds.capacity
  have hsize := h.holds.size
  have hcleared : (if st.ring.getSize ≠ 0 then { st with ring := st.ring.clear } else st) =
      { st with ring := st.ring.clear } := by
    by_cases hq : q = []
    · have hhead := h.holds.empty hq
      subst hq
      have hzero : st.ring.getSize = 0 := hsize
      rw [if_neg (not_not.mpr hzero)]
      unfold clear
      rw [← hhead]
      conv_rhs => rw [show (0 : Nat) = st.ring.elementsInside from hsize.symm]
    · rw [if_pos]
      unfold getSize
      rw [hsize]
      exact fun hzero => hq (List.length_eq_zero_iff.mp hzero)
  unfold assign deallocate released
  rw [hcleared]
  unfold clear
  dsimp only
  rw [hblock, hcapacity]
  rfl

/-- With a new block the freed one is freed again, so that nothing may be allocated. -/
theorem released_copyInto_some {contents : Nat → Element sizeof}
    {other : RingStorage sizeof → RingStorage sizeof}
    (hvalid : (other (st.released c)).ring.capacity < invalidIndex)
    (h : (st.released c).copyInto (some contents) other = some st') :
    (other (st.released c)).ring.capacity = 0 ∧ st'.ring.capacity = c := by
  by_cases hzero : (other (st.released c)).ring.capacity = 0
  · rw [copyInto_unchanged (resize_refused (by omega))] at h
    exact ⟨hzero, copyElements_capacity h⟩
  · unfold copyInto resize at h
    rw [if_pos ⟨by omega, by omega, Nat.zero_le _⟩] at h
    cases h

theorem released_copyInto_none {other : RingStorage sizeof → RingStorage sizeof} (hc : 0 < c) :
    (st.released c).copyInto none other =
      if (other (st.released c)).ring.getSize = 0 then some (st.released c) else none := by
  rw [copyInto_unchanged resize_failed]
  split
  · rename_i hempty
    exact copyElements_empty hempty
  · rename_i hne
    exact copyElements_released hne rfl (by dsimp only [released]; omega)

theorem contents_of_size (h : st.ring.getSize = 0) : st.ring.contents = .ok [] := by
  unfold contents
  rw [h]
  rfl

theorem Sound.capacity_lt (h : Sound st) : st.ring.capacity < invalidIndex := by
  rcases h with ⟨c, q, howns⟩ | hnone
  · rw [howns.holds.capacity]
    exact howns.holds.valid
  · have hzero : st.ring.capacity = 0 := by rw [hnone]
    rw [hzero]
    decide

theorem Owns.allowed_iff (h : Owns c st q) {allocates : Bool} :
    AssignAllowed allocates other st ↔
      allocates = false ∧ other.ring.getSize = 0 ∧ other.ring.capacity = st.ring.capacity := by
  obtain ⟨block, hblock, -⟩ := h.holds.slots
  unfold AssignAllowed
  rw [hblock]
  simp

theorem Unallocated.allowed_iff (h : Unallocated st.ring) {allocates : Bool} :
    AssignAllowed allocates other st ↔ st.stray = false ∧ CopyAllowed allocates false other := by
  have hblock : st.ring.memoryBlock = none := by rw [h]
  unfold AssignAllowed
  rw [hblock]
  simp

theorem Owns.assign_copied_iff (h : Owns c st q) (hother : Sound other) (allocates : Bool) :
    (∀ allocation : Allocation sizeof, allocation.isSome = allocates →
      Copied other (st.assign allocation fun _ => other)) ↔
        allocates = false ∧ other.ring.getSize = 0 ∧ other.ring.capacity = st.ring.capacity := by
  have hpos := h.holds.pos
  simp only [h.assign_eq, h.holds.capacity]
  constructor
  · intro hcopied
    cases allocates with
    | true =>
      obtain ⟨st', hres, -, hcapacity⟩ := hcopied (some fun _ => Vector.replicate sizeof 0) rfl
      obtain ⟨hzero, hsame⟩ := released_copyInto_some hother.capacity_lt hres
      omega
    | false =>
      obtain ⟨st', hres, -, hcapacity⟩ := hcopied none rfl
      rw [released_copyInto_none hpos] at hres
      split at hres
      · rename_i hempty
        cases hres
        exact ⟨rfl, hempty, hcapacity.symm⟩
      · cases hres
  · rintro ⟨rfl, hempty, hcapacity⟩ allocation hnone
    rw [Option.isNone_iff_eq_none.mp (Option.isSome_eq_false_iff.mp hnone),
      released_copyInto_none hpos, if_pos hempty]
    refine ⟨_, rfl, ?_, hcapacity.symm⟩
    rw [contents_of_size rfl, contents_of_size hempty]

theorem Owns.assign_self_copied_iff (h : Owns c st q) (allocates : Bool) :
    (∀ allocation : Allocation sizeof, allocation.isSome = allocates →
      Copied st (st.assign allocation id)) ↔ allocates = false ∧ st.ring.getSize = 0 := by
  have hpos := h.holds.pos
  simp only [h.assign_eq]
  constructor
  · intro hcopied
    cases allocates with
    | true =>
      obtain ⟨st', hres, -⟩ := hcopied (some fun _ => Vector.replicate sizeof 0) rfl
      obtain ⟨hzero, -⟩ := released_copyInto_some h.holds.valid hres
      change c = 0 at hzero
      omega
    | false =>
      obtain ⟨st', hres, hcontents, -⟩ := hcopied none rfl
      rw [released_copyInto_none hpos] at hres
      cases hres
      rw [h.holds.contents_eq, contents_of_size rfl] at hcontents
      cases hcontents
      exact ⟨rfl, h.holds.size⟩
  · rintro ⟨rfl, hempty⟩ allocation hnone
    rw [Option.isNone_iff_eq_none.mp (Option.isSome_eq_false_iff.mp hnone),
      released_copyInto_none hpos, if_pos (show (id (released c st)).ring.getSize = 0 from rfl)]
    refine ⟨_, rfl, ?_, h.holds.capacity.symm⟩
    rw [contents_of_size rfl, contents_of_size hempty]

/-- Constructors, calls, `Resize` where the elements stay in the block, and copies that are allowed
to containers without a block. -/
inductive Reached : RingStorage sizeof → Prop
  | constructed (allocation : Allocation sizeof) (stray : Bool) (capacity : UInt64) :
      Reached (ofCapacity allocation stray capacity)
  | step {st st' : RingStorage sizeof} {action : Action sizeof} :
      Reached st → ResizesStay st action → st.step action = some st' → Reached st'
  | copied {other st' : RingStorage sizeof} {allocation : Allocation sizeof} {stray : Bool} :
      Reached other → CopyAllowed allocation.isSome stray other →
        copyConstruct allocation stray other = some st' → Reached st'
  | assigned {other st st' : RingStorage sizeof} {allocation : Allocation sizeof} :
      Reached other → Reached st → st.ring.memoryBlock = none →
        AssignAllowed allocation.isSome other st →
          (st.assign allocation fun _ => other) = some st' → Reached st'

theorem unallocated_raw (stray : Bool) : Unallocated (raw stray : RingStorage sizeof).ring := rfl

theorem Sound.unallocated (h : Sound st) (hblock : st.ring.memoryBlock = none) :
    Unallocated st.ring := by
  rcases h with ⟨c, q, howns⟩ | hnone
  · obtain ⟨block, hsome, -⟩ := howns.holds.slots
    rw [hblock] at hsome
    cases hsome
  · exact hnone

theorem Reached.sound (hsizeof : 0 < sizeof) (h : Reached st) : Sound st := by
  induction h with
  | constructed allocation stray capacity => exact sound_ofCapacity allocation stray capacity
  | @step st st' action _ hstay hstep ih =>
    cases action with
    | call k => exact ih.call hstep
    | resize newCapacity allocation =>
      exact ih.resize hsizeof (hstay newCapacity allocation rfl) hstep
  | @copied other st' allocation stray _ hallowed hcopy ih =>
    obtain ⟨st'', hres, hsound, -⟩ :=
      Unallocated.copyInto_of_allowed (unallocated_raw stray) ih hsizeof hallowed
    cases hcopy.symm.trans hres
    exact hsound
  | @assigned other st st' allocation _ _ hblock hallowed hassign ihother ihst =>
    have hst := ihst.unallocated hblock
    obtain ⟨hstray, hallowed⟩ := hallowed.1 hblock
    rw [← hstray] at hallowed
    obtain ⟨st'', hres, hsound, -⟩ := Unallocated.copyInto_of_allowed hst ihother hsizeof hallowed
    rw [Unallocated.assign_eq hst, hstray, if_neg Bool.false_ne_true, hres] at hassign
    cases hassign
    exact hsound

theorem Sound.copyConstruct_iff (hother : Sound other) (hsizeof : 0 < sizeof)
    (allocates stray : Bool) :
    (∀ allocation : Allocation sizeof, allocation.isSome = allocates →
      Copied other (copyConstruct allocation stray other)) ↔ CopyAllowed allocates stray other :=
  Unallocated.copied_iff (unallocated_raw stray) hother hsizeof allocates

theorem Unallocated.assign_iff (hst : Unallocated st.ring) {allocates : Bool} {P : Prop}
    {source : RingStorage sizeof → RingStorage sizeof}
    (hcopy : st.stray = false → ((∀ allocation : Allocation sizeof, allocation.isSome = allocates →
      Copied other (st.copyInto allocation source)) ↔ P)) :
    (∀ allocation : Allocation sizeof, allocation.isSome = allocates →
      Copied other (st.assign allocation source)) ↔ st.stray = false ∧ P := by
  simp only [Unallocated.assign_eq hst]
  cases hstray : st.stray with
  | true =>
    refine ⟨fun h => ?_, fun h => Bool.noConfusion h.1⟩
    obtain ⟨allocation, hsome⟩ := exists_allocation allocates
    obtain ⟨st', hres, -⟩ := h allocation hsome
    cases hres
  | false =>
    rw [and_iff_right rfl]
    exact hcopy hstray

theorem Sound.assign_iff (hst : Sound st) (hother : Sound other) (hsizeof : 0 < sizeof)
    (allocates : Bool) :
    (∀ allocation : Allocation sizeof, allocation.isSome = allocates →
      Copied other (st.assign allocation fun _ => other)) ↔ AssignAllowed allocates other st := by
  rcases hst with ⟨c, q, howns⟩ | hnone
  · rw [howns.assign_copied_iff hother, howns.allowed_iff]
  · rw [Unallocated.allowed_iff hnone]
    apply Unallocated.assign_iff hnone
    intro hstray
    rw [Unallocated.copied_iff hnone hother hsizeof, hstray]

theorem Sound.assign_self_iff (hst : Sound st) (allocates : Bool) :
    (∀ allocation : Allocation sizeof, allocation.isSome = allocates →
      Copied st (st.assign allocation id)) ↔ AssignAllowed allocates st st := by
  rcases hst with ⟨c, q, howns⟩ | hnone
  · rw [howns.assign_self_copied_iff, howns.allowed_iff, and_iff_left rfl]
  · rw [Unallocated.allowed_iff hnone]
    apply Unallocated.assign_iff hnone
    intro _
    have hzero : st.ring.capacity = 0 := by rw [hnone]
    refine iff_of_true (fun allocation _ => ⟨st, ?_, rfl, rfl⟩) (.inl hzero)
    rw [copyInto_unchanged (resize_refused fun h => by
      rw [id, hzero] at h
      exact absurd h.1 (lt_irrefl 0))]
    exact copyElements_empty (by rw [id, hnone]; rfl)

/-- Copies have the sequence and the capacity of their source exactly when they are allowed. -/
theorem copies_iff (hsizeof : 0 < sizeof) (other st : RingStorage sizeof) (hother : Reached other)
    (hst : Reached st) (allocates stray : Bool) :
    ((∀ allocation : Allocation sizeof, allocation.isSome = allocates →
      Copied other (copyConstruct allocation stray other)) ↔ CopyAllowed allocates stray other) ∧
    ((∀ allocation : Allocation sizeof, allocation.isSome = allocates →
      Copied other (st.assign allocation fun _ => other)) ↔ AssignAllowed allocates other st) ∧
    ((∀ allocation : Allocation sizeof, allocation.isSome = allocates →
      Copied st (st.assign allocation id)) ↔ AssignAllowed allocates st st) :=
  ⟨(hother.sound hsizeof).copyConstruct_iff hsizeof allocates stray,
    (hst.sound hsizeof).assign_iff (hother.sound hsizeof) hsizeof allocates,
    (hst.sound hsizeof).assign_self_iff allocates⟩

theorem Reached.call (h : Reached st) {k : Call (Element sizeof)}
    (hstep : st.step (.call k) = some st') : Reached st' := by
  refine h.step ?_ hstep
  intro newCapacity allocation hcall
  cases hcall

/-- Two elements of one byte in three slots. -/
def twoBytes : RingStorage 1 := ⟨⟨some [single 7, single 8, single 0], 3, 1, 2⟩, 3, false⟩

theorem reached_twoBytes : Reached twoBytes := by
  have hnew : Reached (ofCapacity (some fun _ => single 0) false 3 : RingStorage 1) :=
    .constructed _ _ _
  exact (hnew.call (k := .pushFront (single 7)) rfl).call (k := .pushFront (single 8)) rfl

theorem reached_raw : Reached (raw false : RingStorage 1) := .constructed none false 0

/-- Elements of one byte are copied whole to a container without a block. -/
theorem copies_iff_bytes :
    (∀ allocation : Allocation 1, allocation.isSome = true →
      Copied twoBytes (copyConstruct allocation false twoBytes)) ∧
    (∀ allocation : Allocation 1, allocation.isSome = true →
      Copied twoBytes ((raw false).assign allocation fun _ => twoBytes)) ∧
    ∀ allocation : Allocation 1, allocation.isSome = true →
      Copied (raw false) ((raw false).assign allocation id) := by
  obtain ⟨hconstruct, hassign, hself⟩ :=
    copies_iff Nat.one_pos twoBytes (raw false) reached_twoBytes reached_raw true false
  have hallowed : CopyAllowed true false twoBytes :=
    .inr ⟨rfl, rfl, fun _ => ⟨by decide, .inl rfl⟩⟩
  exact ⟨hconstruct.mpr hallowed,
    hassign.mpr ⟨fun _ => ⟨rfl, hallowed⟩, fun hblock => absurd rfl hblock⟩,
    hself.mpr ⟨fun _ => ⟨rfl, .inl rfl⟩, fun hblock => absurd rfl hblock⟩⟩

theorem reached_twoWide : Reached twoWide := by
  have hnew : Reached (ofCapacity (some fun _ => pair 0 0) false 3 : RingStorage 2) :=
    .constructed _ _ _
  exact (hnew.call (k := .pushFront (pair 1 2)) rfl).call (k := .pushFront (pair 3 4)) rfl

/-- The front of wider elements loses its second byte, memory that was not zero is freed by the
constructor, and an assignment frees its block twice. -/
theorem copies_lose :
    Reached twoWide ∧ twoWide.ring.contents = .ok [pair 3 4, pair 1 2] ∧
      copyConstruct (some fun _ => pair 0 0) false twoWide =
        some ⟨⟨some [pair 1 2, pair 3 0, pair 0 0], 3, 1, 2⟩, 6, false⟩ ∧
      ¬ Copied twoWide (copyConstruct (some fun _ => pair 0 0) false twoWide) ∧
      Reached twoBytes ∧
      copyConstruct (some fun _ => single 0) true twoBytes = none ∧
      (twoBytes.assign (some fun _ => single 0) fun _ => twoBytes) = none ∧
      twoBytes.assign (some fun _ => single 0) id = none := by
  have hcopy : copyConstruct (some fun _ => pair 0 0) false twoWide =
      some ⟨⟨some [pair 1 2, pair 3 0, pair 0 0], 3, 1, 2⟩, 6, false⟩ := by
    decide +kernel
  refine ⟨reached_twoWide, by decide +kernel, hcopy, ?_, reached_twoBytes, by decide +kernel,
    by decide +kernel, by decide +kernel⟩
  rintro ⟨st', hres, hcontents, -⟩
  cases hcopy.symm.trans hres
  revert hcontents
  decide +kernel

end RingStorage

end AsciiTerra
