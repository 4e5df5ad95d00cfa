import AsciiTerra.Lib.Machine

/-!
# Release by several threads

`ReleaseResourseChecked` with `MEMORY_MULTITHREAD_SAFE`, called by any number of threads
for the handles of one object. The lookup, the decrement, the read of the count and the
erasure each hold the lock, and between them the lock is free. A thread that uses its
reference to the count after the entry was erased has no defined behaviour and takes no
further step here.
-/

set_option autoImplicit false

namespace AsciiTerra

/-- Where a thread is in `ReleaseResourseChecked`. -/
inductive ReleaseAt
  | start
  /-- the entry was found -/
  | found
  | decremented
  /-- the count was read as 0 -/
  | sawZero
  /-- the entry was erased -/
  | erased
  | finished
  /-- the `ASSERT` after the lookup failed -/
  | asserted
  /-- the count was used after the erasure of its entry -/
  | dangling
deriving DecidableEq, Repr

def ReleaseAt.Holds (p : ReleaseAt) : Prop := p = .start ∨ p = .found

def ReleaseAt.BeforeRead (p : ReleaseAt) : Prop := p = .start ∨ p = .found ∨ p = .decremented

instance (p : ReleaseAt) : Decidable p.Holds := inferInstanceAs (Decidable (_ ∨ _))

instance (p : ReleaseAt) : Decidable p.BeforeRead := inferInstanceAs (Decidable (_ ∨ _ ∨ _))

/-- The entry of the object in the map, the threads, and the calls of `harz_delete`. -/
structure Release (Thread : Type) (w : Nat) where
  entry : Option (BitVec w)
  place : Thread → ReleaseAt
  deleted : Nat

inductive ReleaseEvent (Thread : Type)
  | lookup (t : Thread)
  | decrement (t : Thread)
  | getValue (t : Thread)
  | erase (t : Thread)
  | delete (t : Thread)

namespace Release
variable {Thread : Type} {w : Nat}

def start (Thread : Type) [Fintype Thread] (w : Nat) : Release Thread w :=
  ⟨some (BitVec.ofNat w (Fintype.card Thread)), fun _ => .start, 0⟩

section Steps
variable [DecidableEq Thread]

def goTo (s : Release Thread w) (t : Thread) (p : ReleaseAt) : Release Thread w :=
  { s with place := Function.update s.place t p }

def step (s : Release Thread w) : ReleaseEvent Thread → Option (Release Thread w)
  | .lookup t =>
    if s.place t = .start then some (s.goTo t (if s.entry.isSome then .found else .asserted))
    else none
  | .decrement t =>
    if s.place t = .found then
      match s.entry with
      | some n => some ({ s with entry := some (n - 1) }.goTo t .decremented)
      | none => some (s.goTo t .dangling)
    else none
  | .getValue t =>
    if s.place t = .decremented then
      match s.entry with
      | some n => some (s.goTo t (if n.toNat < 1 then .sawZero else .finished))
      | none => some (s.goTo t .dangling)
    else none
  | .erase t =>
    if s.place t = .sawZero then some ({ s with entry := none }.goTo t .erased) else none
  | .delete t =>
    if s.place t = .erased then some ({ s with deleted := s.deleted + 1 }.goTo t .finished)
    else none

/-- A decrement to 0 comes after the reads of all other threads. -/
def LastReads (s : Release Thread w) : ReleaseEvent Thread → Prop
  | .decrement t => s.entry = some 1 → ∀ u, u ≠ t → ¬ (s.place u).BeforeRead
  | _ => True

end Steps

instance [Fintype Thread] [DecidableEq Thread] (s : Release Thread w) :
    (e : ReleaseEvent Thread) → Decidable (s.LastReads e)
  | .decrement _ => inferInstanceAs (Decidable (_ → _))
  | .lookup _ | .getValue _ | .erase _ | .delete _ => .isTrue trivial

def holders [Fintype Thread] (s : Release Thread w) : Finset Thread :=
  Finset.univ.filter fun t => (s.place t).Holds

/-- The count is that of the handles, and no thread that has left has seen 0. -/
structure Counting [Fintype Thread] (s : Release Thread w) : Prop where
  entry : s.entry = some (BitVec.ofNat w s.holders.card)
  positive : ∀ t, ¬ (s.place t).Holds → BitVec.ofNat w s.holders.card ≠ 0
  places : ∀ t, (s.place t).BeforeRead ∨ s.place t = .finished
  deleted : s.deleted = 0

/-- Thread `t` brought the count to 0, after all others had left. -/
structure Closing (t : Thread) (s : Release Thread w) : Prop where
  others : ∀ u, u ≠ t → s.place u = .finished
  last : (s.place t = .decremented ∧ s.entry = some 0 ∧ s.deleted = 0) ∨
    (s.place t = .sawZero ∧ s.entry = some 0 ∧ s.deleted = 0) ∨
    (s.place t = .erased ∧ s.entry = none ∧ s.deleted = 0) ∨
    (s.place t = .finished ∧ s.entry = none ∧ s.deleted = 1)

def Sound [Fintype Thread] (s : Release Thread w) : Prop := s.Counting ∨ ∃ t, s.Closing t

section Places
variable [DecidableEq Thread]

@[simp] theorem goTo_self (s : Release Thread w) (t : Thread) (p : ReleaseAt) :
    (s.goTo t p).place t = p := by
  simp [goTo]

theorem goTo_ne (s : Release Thread w) {t u : Thread} (h : u ≠ t) (p : ReleaseAt) :
    (s.goTo t p).place u = s.place u := by
  simp [goTo, h]

@[simp] theorem goTo_entry (s : Release Thread w) (t : Thread) (p : ReleaseAt) :
    (s.goTo t p).entry = s.entry := rfl

@[simp] theorem goTo_deleted (s : Release Thread w) (t : Thread) (p : ReleaseAt) :
    (s.goTo t p).deleted = s.deleted := rfl

end Places

section Counts
variable [Fintype Thread]

theorem mem_holders {s : Release Thread w} {t : Thread} : t ∈ s.holders ↔ (s.place t).Holds := by
  unfold holders
  simp

variable [DecidableEq Thread]

theorem holders_goTo_same {s : Release Thread w} {t : Thread} {p : ReleaseAt}
    (h : p.Holds ↔ (s.place t).Holds) : (s.goTo t p).holders = s.holders := by
  ext u
  rw [mem_holders, mem_holders]
  by_cases hu : u = t
  · rw [hu, goTo_self, h]
  · rw [goTo_ne s hu]

theorem holders_goTo_erase {s : Release Thread w} {t : Thread} {p : ReleaseAt} (h : ¬ p.Holds) :
    (s.goTo t p).holders = s.holders.erase t := by
  ext u
  rw [Finset.mem_erase, mem_holders, mem_holders]
  by_cases hu : u = t
  · rw [hu, goTo_self]
    simp [h]
  · rw [goTo_ne s hu]
    simp [hu]

omit [DecidableEq Thread] in
theorem sound_start : (start Thread w).Sound := by
  have hall : (start Thread w).holders = Finset.univ := by
    ext t
    rw [mem_holders]
    simp [start, ReleaseAt.Holds]
  refine .inl ⟨?_, ?_, ?_, rfl⟩
  · rw [hall]
    rfl
  · intro t ht
    exact absurd (.inl rfl) ht
  · intro t
    exact .inl (.inl rfl)

theorem Counting.lookup {s : Release Thread w} (hs : s.Counting) {t : Thread}
    (ht : s.place t = .start) : (s.goTo t .found).Counting := by
  have hsame : (s.goTo t .found).holders = s.holders :=
    holders_goTo_same (by simp [ht, ReleaseAt.Holds])
  refine ⟨?_, ?_, ?_, hs.deleted⟩
  · rw [hsame, goTo_entry, hs.entry]
  · intro u hu
    rw [hsame]
    by_cases hut : u = t
    · rw [hut, goTo_self] at hu
      exact absurd (.inr rfl) hu
    · rw [goTo_ne s hut] at hu
      exact hs.positive u hu
  · intro u
    by_cases hut : u = t
    · rw [hut, goTo_self]
      exact .inl (.inr (.inl rfl))
    · rw [goTo_ne s hut]
      exact hs.places u

theorem Counting.pred {s : Release Thread w} {t : Thread} (ht : (s.place t).Holds) :
    BitVec.ofNat w s.holders.card - 1 = BitVec.ofNat w (s.holders.erase t).card := by
  have hcard : (s.holders.erase t).card + 1 = s.holders.card :=
    Finset.card_erase_add_one (mem_holders.mpr ht)
  rw [← hcard, BitVec.ofNat_add]
  exact BitVec.add_sub_cancel _ _

theorem Counting.decrement {s : Release Thread w} (hs : s.Counting) {t : Thread}
    (ht : s.place t = .found) (hlast : s.LastReads (.decrement t)) :
    Sound ({ s with entry := some (BitVec.ofNat w s.holders.card - 1) }.goTo t .decremented) := by
  have hholds : (s.place t).Holds := .inr ht
  have hpred := Counting.pred hholds
  have hgone : ¬ ReleaseAt.decremented.Holds := by decide
  by_cases hzero : BitVec.ofNat w s.holders.card - 1 = 0
  · -- the others have read the count, and none of them saw 0
    right
    refine ⟨t, ?_, .inl ⟨goTo_self _ _ _, ?_, hs.deleted⟩⟩
    · intro u hu
      rw [goTo_ne _ hu]
      have hone : s.entry = some 1 := by
        rw [hs.entry, Option.some_inj]
        have hone : BitVec.ofNat w s.holders.card = 0 + 1 := BitVec.sub_eq_iff_eq_add.mp hzero
        simpa using hone
      exact (hs.places u).resolve_left (hlast hone u hu)
    · rw [goTo_entry]
      exact congrArg some hzero
  · left
    have herase : (goTo { s with entry := some (BitVec.ofNat w s.holders.card - 1) } t
        .decremented).holders = s.holders.erase t := holders_goTo_erase hgone
    refine ⟨?_, ?_, ?_, hs.deleted⟩
    · rw [herase, ← hpred]
      rfl
    · intro _ _
      rw [herase, ← hpred]
      exact hzero
    · intro u
      by_cases hut : u = t
      · rw [hut, goTo_self]
        exact .inl (.inr (.inr rfl))
      · rw [goTo_ne _ hut]
        exact hs.places u

theorem Counting.getValue {s : Release Thread w} (hs : s.Counting) {t : Thread}
    (ht : s.place t = .decremented) : (s.goTo t .finished).Counting := by
  have hsame : (s.goTo t .finished).holders = s.holders :=
    holders_goTo_same (by simp [ht, ReleaseAt.Holds])
  have hpositive : BitVec.ofNat w s.holders.card ≠ 0 :=
    hs.positive t (by rw [ht]; decide)
  refine ⟨?_, ?_, ?_, hs.deleted⟩
  · rw [hsame, goTo_entry, hs.entry]
  · intro _ _
    rw [hsame]
    exact hpositive
  · intro u
    by_cases hut : u = t
    · rw [hut, goTo_self]
      exact .inr rfl
    · rw [goTo_ne s hut]
      exact hs.places u

theorem Counting.step {s s' : Release Thread w} {e : ReleaseEvent Thread} (hs : s.Counting)
    (hlast : s.LastReads e) (h : s.step e = some s') : s'.Sound := by
  have hentry := hs.entry
  cases e with
  | lookup t =>
    obtain ⟨ht, h⟩ := Option.ite_none_right_eq_some.mp h
    cases h
    rw [hentry]
    exact .inl (hs.lookup ht)
  | decrement t =>
    obtain ⟨ht, h⟩ := Option.ite_none_right_eq_some.mp h
    rw [hentry] at h
    cases h
    exact hs.decrement ht hlast
  | getValue t =>
    obtain ⟨ht, h⟩ := Option.ite_none_right_eq_some.mp h
    rw [hentry] at h
    cases h
    have hpositive : ¬ (BitVec.ofNat w s.holders.card).toNat < 1 := by
      intro hlt
      apply hs.positive t (by rw [ht]; decide)
      exact BitVec.eq_of_toNat_eq (Nat.lt_one_iff.mp hlt)
    rw [if_neg hpositive]
    exact .inl (hs.getValue ht)
  | erase t | delete t =>
    obtain ⟨ht, -⟩ := Option.ite_none_right_eq_some.mp h
    rcases hs.places t with hplace | hplace
    · rw [ht] at hplace
      exact absurd hplace (by decide)
    · exact nomatch ht.symm.trans hplace

omit [Fintype Thread] in
theorem Closing.step {s s' : Release Thread w} {t : Thread} {e : ReleaseEvent Thread}
    (hs : s.Closing t) (h : s.step e = some s') : s'.Closing t := by
  -- all other threads are done
  have hactor : ∀ {u : Thread} {p : ReleaseAt}, s.place u = p → p ≠ .finished → u = t := by
    intro u p hu hp
    by_contra hne
    exact hp (hu.symm.trans (hs.others u hne))
  have hothers : ∀ (s₁ : Release Thread w) (p : ReleaseAt), s₁.place = s.place →
      ∀ u, u ≠ t → (s₁.goTo t p).place u = .finished := by
    intro s₁ p hplace u hu
    rw [goTo_ne s₁ hu, hplace]
    exact hs.others u hu
  cases e with
  | lookup u =>
    obtain ⟨hu, -⟩ := Option.ite_none_right_eq_some.mp h
    cases hactor hu nofun
    rcases hs.last with ⟨hp, -⟩ | ⟨hp, -⟩ | ⟨hp, -⟩ | ⟨hp, -⟩ <;> exact nomatch hu.symm.trans hp
  | decrement u =>
    obtain ⟨hu, -⟩ := Option.ite_none_right_eq_some.mp h
    cases hactor hu nofun
    rcases hs.last with ⟨hp, -⟩ | ⟨hp, -⟩ | ⟨hp, -⟩ | ⟨hp, -⟩ <;> exact nomatch hu.symm.trans hp
  | getValue u =>
    obtain ⟨hu, h⟩ := Option.ite_none_right_eq_some.mp h
    cases hactor hu nofun
    rcases hs.last with ⟨-, hentry, hdeleted⟩ | ⟨hp, -⟩ | ⟨hp, -⟩ | ⟨hp, -⟩
    · rw [hentry] at h
      cases h
      exact ⟨hothers s _ rfl, .inr (.inl ⟨by simp, hentry, hdeleted⟩)⟩
    all_goals exact nomatch hu.symm.trans hp
  | erase u =>
    obtain ⟨hu, h⟩ := Option.ite_none_right_eq_some.mp h
    cases hactor hu nofun
    cases h
    rcases hs.last with ⟨hp, -⟩ | ⟨-, -, hdeleted⟩ | ⟨hp, -⟩ | ⟨hp, -⟩
    · exact nomatch hu.symm.trans hp
    · exact ⟨hothers _ _ rfl, .inr (.inr (.inl ⟨goTo_self _ _ _, rfl, hdeleted⟩))⟩
    all_goals exact nomatch hu.symm.trans hp
  | delete u =>
    obtain ⟨hu, h⟩ := Option.ite_none_right_eq_some.mp h
    cases hactor hu nofun
    cases h
    rcases hs.last with ⟨hp, -⟩ | ⟨hp, -⟩ | ⟨-, hentry, hdeleted⟩ | ⟨hp, -⟩
    · exact nomatch hu.symm.trans hp
    · exact nomatch hu.symm.trans hp
    · refine ⟨hothers _ _ rfl, .inr (.inr (.inr ⟨goTo_self _ _ _, hentry, ?_⟩))⟩
      exact congrArg Nat.succ hdeleted
    · exact nomatch hu.symm.trans hp

theorem Sound.step {s s' : Release Thread w} {e : ReleaseEvent Thread} (hs : s.Sound)
    (hlast : s.LastReads e) (h : s.step e = some s') : s'.Sound := by
  rcases hs with hs | ⟨t, hs⟩
  · exact hs.step hlast h
  · exact .inr ⟨t, hs.step h⟩

theorem Sound.not_dangling {s : Release Thread w} (hs : s.Sound) (t : Thread) :
    s.place t ≠ .dangling := by
  intro ht
  rcases hs with hs | ⟨u, hs⟩
  · rcases hs.places t with hplace | hplace
    · rw [ht] at hplace
      exact absurd hplace (by decide)
    · exact nomatch ht.symm.trans hplace
  · by_cases htu : t = u
    · subst htu
      rcases hs.last with ⟨hp, -⟩ | ⟨hp, -⟩ | ⟨hp, -⟩ | ⟨hp, -⟩ <;> exact nomatch ht.symm.trans hp
    · exact nomatch ht.symm.trans (hs.others t htu)

omit [DecidableEq Thread] in
theorem Sound.deleted_le {s : Release Thread w} (hs : s.Sound) : s.deleted ≤ 1 := by
  rcases hs with hs | ⟨u, hs⟩
  · rw [hs.deleted]
    exact Nat.zero_le 1
  · rcases hs.last with ⟨-, -, h⟩ | ⟨-, -, h⟩ | ⟨-, -, h⟩ | ⟨-, -, h⟩ <;> omega

omit [Fintype Thread] in
theorem finished_of_stuck {s : Release Thread w} (hstuck : Machine.Stuck step s) {t : Thread}
    (ht : (s.place t).BeforeRead ∨ s.place t = .sawZero ∨ s.place t = .erased) : False := by
  rcases ht with (ht | ht | ht) | ht | ht
  · have hnone := hstuck (.lookup t)
    simp only [step, if_pos ht] at hnone
    exact nomatch hnone
  · have hnone := hstuck (.decrement t)
    simp only [step, if_pos ht] at hnone
    split at hnone <;> exact nomatch hnone
  · have hnone := hstuck (.getValue t)
    simp only [step, if_pos ht] at hnone
    split at hnone <;> exact nomatch hnone
  · have hnone := hstuck (.erase t)
    simp only [step, if_pos ht] at hnone
    exact nomatch hnone
  · have hnone := hstuck (.delete t)
    simp only [step, if_pos ht] at hnone
    exact nomatch hnone

theorem Sound.deleted_of_stuck [Nonempty Thread] {s : Release Thread w} (hs : s.Sound)
    (hstuck : Machine.Stuck Release.step s) : s.deleted = 1 := by
  rcases hs with hs | ⟨t, hs⟩
  · -- all threads have left with a positive count
    exfalso
    have hfinished : ∀ t, s.place t = .finished := fun t =>
      (hs.places t).resolve_left fun hplace => finished_of_stuck hstuck (.inl hplace)
    obtain ⟨t⟩ := ‹Nonempty Thread›
    have hempty : s.holders = ∅ := by
      ext u
      rw [mem_holders, hfinished u]
      simp [ReleaseAt.Holds]
    apply hs.positive t (by rw [hfinished t]; decide)
    rw [hempty]
    rfl
  · rcases hs.last with ⟨ht, -⟩ | ⟨ht, -⟩ | ⟨ht, -⟩ | ⟨-, -, h⟩
    · exact (finished_of_stuck hstuck (.inl (.inr (.inr ht)))).elim
    · exact (finished_of_stuck hstuck (.inr (.inl ht))).elim
    · exact (finished_of_stuck hstuck (.inr (.inr ht))).elim
    · exact h

/-- In every run in which each decrement to 0 comes after the reads of all other threads, the
object is deleted exactly once and no thread uses the count after its entry was erased. -/
theorem deletes_once [Nonempty Thread] {s : Release Thread w} {es : List (ReleaseEvent Thread)}
    (hlast : Machine.Along step LastReads (start Thread w) es)
    (hrun : Machine.run step (start Thread w) es = some s) :
    (∀ t, s.place t ≠ .dangling) ∧ s.deleted ≤ 1 ∧
      (Machine.Stuck step s → s.deleted = 1) := by
  have hs : s.Sound :=
    Machine.invariant_along (fun _ _ _ hs hlast h => hs.step hlast h) sound_start hlast hrun
  exact ⟨hs.not_dangling, hs.deleted_le, hs.deleted_of_stuck⟩

end Counts

def oneByOne : List (ReleaseEvent Bool) :=
  [.lookup true, .decrement true, .getValue true, .lookup false, .decrement false,
    .getValue false, .erase false, .delete false]

theorem deletes_once_oneByOne : ∃ s : Release Bool 32,
    Machine.run step (start Bool 32) oneByOne = some s ∧ (∀ t, s.place t ≠ .dangling) ∧
      s.deleted ≤ 1 ∧ (Machine.Stuck step s → s.deleted = 1) := by
  have hrun : (Machine.run step (start Bool 32) oneByOne).isSome := by decide
  obtain ⟨s, hs⟩ := Option.isSome_iff_exists.mp hrun
  exact ⟨s, hs, deletes_once (by decide) hs⟩

def bothDecrement : List (ReleaseEvent Bool) :=
  [.lookup true, .lookup false, .decrement true, .decrement false, .getValue true,
    .getValue false, .erase true, .delete true, .erase false, .delete false]

theorem deletes_twice : ∃ s : Release Bool 32,
    Machine.run step (start Bool 32) bothDecrement = some s ∧ s.deleted = 2 := by
  have hrun : (Machine.run step (start Bool 32) bothDecrement).map deleted = some 2 := by decide
  exact Option.map_eq_some_iff.mp hrun

end Release

end AsciiTerra
