import AsciiTerra.ReferenceCounts

/-!
# Weak handles

A weak handle is valid when the map counts a handle at its address, whichever object lives
there. It tells the truth about the object it was made for as long as no other object at
that address is given to a shared handle.
-/

set_option autoImplicit false

namespace AsciiTerra
namespace Heap

variable {Address : Type} {w : Nat} [DecidableEq Address] {s s' : Heap Address w}

@[simp] theorem weak_acquire (i : Nat) (p : Option Address) :
    (s.acquireDataToHandle i p).weak = s.weak := by
  unfold acquireDataToHandle
  split
  · rfl
  · split
    · rfl
    · split <;> rfl

@[simp] theorem weak_release (i : Nat) : (s.releaseResourseChecked i).weak = s.weak := by
  unfold releaseResourseChecked
  split
  · rfl
  · split
    · rfl
    · split <;> rfl

@[simp] theorem weak_releaseIfValid (i : Nat) : (s.releaseIfValid i).weak = s.weak := by
  unfold releaseIfValid
  split
  · exact weak_release i
  · rfl

@[simp] theorem weak_construct (p : Option Address) : (s.construct p).weak = s.weak := by
  simp [construct]

@[simp] theorem weak_destruct (i : Nat) : (s.destruct i).weak = s.weak := by
  simp [destruct]

@[simp] theorem weak_moveConstruct (i : Nat) : (s.moveConstruct i).weak = s.weak := by
  simp [moveConstruct]

@[simp] theorem weak_resetPointer (i : Nat) (p : Option Address) :
    (s.resetPointer i p).weak = s.weak := by
  unfold resetPointer
  split
  · rfl
  · simp

@[simp] theorem weak_resetBy (i j : Nat) : (s.resetBy i j).weak = s.weak := by
  simp [resetBy]

@[simp] theorem weak_copyAssign (i j : Nat) : (s.copyAssign i j).weak = s.weak := by
  unfold copyAssign
  split
  · rfl
  · simp

@[simp] theorem weak_moveAssign (i j : Nat) : (s.moveAssign i j).weak = s.weak := by
  unfold moveAssign
  split
  · rfl
  · simp

/-- The weak handle belongs to one object: that object lives nowhere else, and no other one at its
address has a shared handle. -/
structure Watches (s : Heap Address w) (h : WeakMemoryHandle Address) : Prop where
  null : h.data = none → h.watched = none
  object : ∀ a, h.data = some a → ∃ o, h.watched = some o ∧ o < s.allocations ∧
    (∀ b, s.objects b = some o → b = a) ∧ (0 < s.handles a → s.objects a = some o)

/-- What the operation hands to a shared handle is watched as what it is. -/
def Unmistaken (s : Heap Address w) (e : HandleOperation Address) : Prop :=
  ∀ a ∈ s.pointerOf e, ∀ x ∈ s.weak, ∀ h ∈ x, h.data = some a → h.watched = s.objects a

instance (s : Heap Address w) (e : HandleOperation Address) : Decidable (s.Unmistaken e) :=
  inferInstanceAs (Decidable (∀ a ∈ s.pointerOf e, ∀ x ∈ s.weak, ∀ h ∈ x,
    h.data = some a → h.watched = s.objects a))

theorem Watches.moves {h : WeakMemoryHandle Address} {p : Option Address} (hwatches : Watches s h)
    (hmoves : Moves s p s') (hp : ∀ a, p = some a → h.data = some a → h.watched = s.objects a) :
    Watches s' h := by
  refine ⟨hwatches.null, ?_⟩
  intro a ha
  obtain ⟨o, ho, hlt, hunique, hlive⟩ := hwatches.object a ha
  have hobjects := hmoves.2.objects
  refine ⟨o, ho, ?_, ?_, ?_⟩
  · rw [hmoves.2.allocations]
    exact hlt
  · intro b hb
    rw [hobjects b] at hb
    split at hb
    · cases hb
    · exact hunique b hb
  · intro hpos
    rw [hobjects a, if_neg (fun hgone => by omega)]
    by_cases hzero : s.handles a = 0
    · rw [← hp a (hmoves.2.first a hzero hpos) ha]
      exact ho
    · exact hlive (Nat.pos_of_ne_zero hzero)

theorem Watches.allocate {h : WeakMemoryHandle Address} (hwatches : Watches s h) (hs : Sound s)
    {a : Address} (ha : s.objects a = none) :
    Watches { s with
      objects := Function.update s.objects a (some s.allocations)
      allocations := s.allocations + 1 } h := by
  refine ⟨hwatches.null, ?_⟩
  intro b hb
  obtain ⟨o, ho, hlt, hunique, hlive⟩ := hwatches.object b hb
  refine ⟨o, ho, Nat.lt_succ_of_lt hlt, ?_, ?_⟩
  · intro c hc
    simp only [Function.update_apply] at hc
    split at hc
    · cases hc
      exact absurd hlt (Nat.lt_irrefl _)
    · exact hunique c hc
  · intro hpos
    have hne : b ≠ a := by
      rintro rfl
      exact hs.live b hpos ha
    simp only [Function.update_of_ne hne]
    exact hlive hpos

theorem watches_weakTo (hs : Sound s) {i : Nat} {p : Option Address}
    (hi : s.shared[i]? = some (some p)) : Watches s (s.weakTo i) := by
  unfold weakTo
  rw [data_eq hi]
  constructor
  · rintro rfl
    rfl
  · rintro a rfl
    obtain ⟨o, ho⟩ := Option.ne_none_iff_exists'.mp (hs.live a (handles_pos hi))
    exact ⟨o, ho, (hs.fresh a o ho).1, fun b hb => hs.injective b a o hb ho, fun _ => ho⟩

def Watched (s : Heap Address w) : Prop := ∀ x ∈ s.weak, ∀ h ∈ x, Watches s h

theorem Watched.moves {p : Option Address} (hwatched : Watched s) (hmoves : Moves s p s')
    (hp : ∀ a ∈ p, ∀ x ∈ s.weak, ∀ h ∈ x, h.data = some a → h.watched = s.objects a)
    (hweak : ∀ x ∈ s'.weak, ∀ h ∈ x, x ∈ s.weak ∨ Watches s' h) : Watched s' := by
  intro x hx h hh
  rcases hweak x hx h hh with hold | hnew
  · exact (hwatched x hold h hh).moves hmoves (fun a ha => hp a ha x hold h hh)
  · exact hnew

theorem weak_append {x₀ : Option (WeakMemoryHandle Address)} (hweak : s'.weak = s.weak ++ [x₀])
    (hnew : ∀ h ∈ x₀, x₀ ∈ s.weak ∨ Watches s' h) :
    ∀ x ∈ s'.weak, ∀ h ∈ x, x ∈ s.weak ∨ Watches s' h := by
  intro x hx h hh
  rw [hweak] at hx
  rcases List.mem_append.mp hx with hx | hx
  · exact .inl hx
  · cases List.mem_singleton.mp hx
    exact hnew h hh

theorem weak_set {k : Nat} {x₀ : Option (WeakMemoryHandle Address)}
    (hweak : s'.weak = s.weak.set k x₀) (hnew : ∀ h ∈ x₀, x₀ ∈ s.weak ∨ Watches s' h) :
    ∀ x ∈ s'.weak, ∀ h ∈ x, x ∈ s.weak ∨ Watches s' h := by
  intro x hx h hh
  rw [hweak] at hx
  rcases List.mem_or_eq_of_mem_set hx with hx | rfl
  · exact .inl hx
  · exact hnew h hh

theorem watches_moved (hs : Sound s) {i : Nat} {p : Option Address}
    (hi : s.shared[i]? = some (some p)) (hmoves : Moves s none s') : Watches s' (s.weakTo i) := by
  refine (watches_weakTo hs hi).moves hmoves ?_
  intro a ha
  cases ha

/-- The weak handles after a step are old ones, or watch what a shared handle points to. -/
theorem weak_step (hs : Sound s) (hfew : Few s) {e : HandleOperation Address}
    (he : s.step e = some s') : ∀ x ∈ s'.weak, ∀ h ∈ x, x ∈ s.weak ∨ Watches s' h := by
  have hkept (heq : s'.weak = s.weak) : ∀ x ∈ s'.weak, ∀ h ∈ x, x ∈ s.weak ∨ Watches s' h := by
    intro x hx h _
    rw [heq] at hx
    exact .inl hx
  cases e with
  | allocate a | uniqueOfPointer p | ofPointer p | copy i | move i | copyAssign i j
  | moveAssign i j | resetPointer i p | reset i j | resetMoved i j | release i | destroy i =>
    obtain ⟨-, hs'⟩ := Option.ite_none_right_eq_some.mp he
    cases hs'
    exact hkept (by simp)
  | ofUnique k =>
    obtain ⟨-, hs'⟩ := Option.ite_none_right_eq_some.mp he
    cases hs'
    exact hkept (by simp)
  | weakOfShared i =>
    obtain ⟨hi, hs'⟩ := Option.ite_none_right_eq_some.mp he
    cases hs'
    obtain ⟨p, hi⟩ := live_iff.mp hi
    have hsame : Moves s none (s.addWeak (s.weakTo i)) := .of_same hs rfl rfl rfl rfl fun _ => rfl
    apply weak_append rfl
    rintro h ⟨rfl⟩
    exact .inr (watches_moved hs hi hsame)
  | getWeak i =>
    obtain ⟨hi, hs'⟩ := Option.ite_none_right_eq_some.mp he
    cases hs'
    obtain ⟨p, hi⟩ := live_iff.mp hi
    have hrest := hs.getWeak_rest hfew hi
    have hlast : (s.construct p).shared[s.shared.length]? = some (some p) := by
      rw [shared_construct hs]
      simp
    have hweak : (s.getWeak i).weak =
        s.weak ++ [some ((s.construct p).weakTo s.shared.length)] := by
      unfold getWeak
      rw [data_eq hi]
      simp [addWeak]
    apply weak_append hweak
    rintro h ⟨rfl⟩
    exact .inr (watches_moved (hs.copy hi).1 hlast hrest)
  | weakCopy k =>
    obtain ⟨h₀, hk, hs'⟩ := Option.map_eq_some_iff.mp he
    cases hs'
    have hmem := List.mem_of_getElem? (Option.join_eq_some_iff.mp hk)
    apply weak_append rfl
    intro h _
    exact .inl hmem
  | weakAssign k l =>
    simp only [step] at he
    split at he
    · rename_i hl
      cases he
      have hmem := List.mem_of_getElem? (Option.join_eq_some_iff.mp hl)
      apply weak_set rfl
      intro h _
      exact .inl hmem
    · cases he
  | weakReset k i =>
    simp only [step] at he
    split at he
    · obtain ⟨hi, hs'⟩ := Option.ite_none_right_eq_some.mp he
      cases hs'
      obtain ⟨p, hi⟩ := live_iff.mp hi
      have hsame : Moves s none { s with weak := s.weak.set k (some (s.weakTo i)) } :=
        .of_same hs rfl rfl rfl rfl fun _ => rfl
      apply weak_set rfl
      rintro h ⟨rfl⟩
      exact .inr (watches_moved hs hi hsame)
    · cases he
  | weakDestroy k =>
    obtain ⟨h₀, -, hs'⟩ := Option.map_eq_some_iff.mp he
    cases hs'
    apply weak_set rfl
    intro h hh
    cases hh

theorem Watched.step (hwatched : Watched s) (hs : Sound s) (hfew : Few s)
    {e : HandleOperation Address} (he : s.step e = some s') (hafter : Few s')
    (hunmistaken : s.Unmistaken e) : Watched s' := by
  have hweak := weak_step hs hfew he
  by_cases hallocate : ∃ a, e = .allocate a
  · obtain ⟨a, rfl⟩ := hallocate
    obtain ⟨ha, hs'⟩ := Option.ite_none_right_eq_some.mp he
    cases hs'
    intro x hx h hh
    exact (hwatched x hx h hh).allocate hs ha
  · have hmoves := hs.step_moves hfew he hafter (fun a ha => hallocate ⟨a, ha⟩)
    exact hwatched.moves hmoves hunmistaken hweak

def Alive (s : Heap Address w) (o : Nat) : Prop := ∃ a, s.objects a = some o ∧ 1 ≤ s.handles a

theorem Watches.valid_iff {h : WeakMemoryHandle Address} (hwatches : Watches s h) (hs : Sound s)
    (hfew : Few s) : s.weakIsValid h = true ↔ ∃ o ∈ h.watched, s.Alive o := by
  unfold weakIsValid
  cases hdata : h.data with
  | none =>
    rw [hwatches.null hdata]
    simp
  | some a =>
    obtain ⟨o, ho, -, hunique, hlive⟩ := hwatches.object a hdata
    have hcount := hs.counts a
    have hcheck : s.checkRefCount a = true ↔ 0 < s.handles a := by
      unfold checkRefCount
      by_cases hzero : s.handles a = 0
      · rw [if_pos hzero] at hcount
        simp [hcount, hzero]
      · rw [if_neg hzero] at hcount
        simp [hcount, Nat.mod_eq_of_lt (hfew a)]
    refine hcheck.trans ⟨?_, ?_⟩
    · intro hpos
      exact ⟨o, ho, a, hlive hpos, hpos⟩
    · rintro ⟨o', ho', b, hb, hpos⟩
      cases ho.symm.trans ho'
      cases hunique b hb
      exact hpos

/-- In every state of the run there are few handles, and no step gives a shared handle to an object
whose address a weak handle made for another object holds. -/
def UnmistakenAlong (es : List (HandleOperation Address)) (s : Heap Address w) : Prop :=
  Few s ∧ Machine.Along step (fun s e => (∀ s' ∈ s.step e, Few s') ∧ s.Unmistaken e) s es

instance [Fintype Address] (es : List (HandleOperation Address)) (s : Heap Address w) :
    Decidable (UnmistakenAlong es s) := inferInstanceAs (Decidable (_ ∧ _))

/-- In such a run a weak handle is valid exactly while its object has a shared handle, and is not
once the object has been deleted. -/
theorem weak_valid_iff {es : List (HandleOperation Address)}
    (hrun : Machine.run step empty es = some s)
    (hunmistaken : UnmistakenAlong es (empty : Heap Address w)) (h : WeakMemoryHandle Address)
    (hh : some h ∈ s.weak) :
    (s.weakIsValid h = true ↔ ∃ o ∈ h.watched, s.Alive o) ∧
      ∀ o ∈ h.watched, some o ∈ s.deleted → s.weakIsValid h = false := by
  have hinv : Sound s ∧ Few s ∧ Watched s := by
    refine Machine.invariant_along (I := fun s => Sound s ∧ Few s ∧ Watched s) ?_
      ⟨sound_empty, hunmistaken.1, ?_⟩ hunmistaken.2 hrun
    · rintro s e s' ⟨hs, hfew, hwatched⟩ ⟨hafter, hstep⟩ he
      exact ⟨(hs.step hfew he (hafter s' he)).1, hafter s' he,
        hwatched.step hs hfew he (hafter s' he) hstep⟩
    · intro x hx
      exact nomatch hx
  obtain ⟨hs, hfew, hwatched⟩ := hinv
  have hvalid := (hwatched _ hh h rfl).valid_iff hs hfew
  refine ⟨hvalid, ?_⟩
  intro o ho hdeleted
  by_contra hne
  rw [Bool.not_eq_false] at hne
  obtain ⟨o', ho', a, ha, -⟩ := hvalid.mp hne
  cases Option.mem_unique ho ho'
  exact (hs.fresh a o ha).2 hdeleted

/-- A weak handle of an object that is deleted. -/
def expired : List (HandleOperation Unit) :=
  [.allocate (), .ofPointer (some ()), .getWeak 0, .destroy 0]

theorem weak_valid_iff_expired : ∃ s : Heap Unit 32,
    Machine.run step empty expired = some s ∧
      (s.weakIsValid ⟨some (), some 0⟩ = true ↔ ∃ o ∈ some 0, s.Alive o) ∧
      ∀ o ∈ some 0, some o ∈ s.deleted → s.weakIsValid ⟨some (), some 0⟩ = false := by
  have hrun : (Machine.run step (empty : Heap Unit 32) expired).map Heap.weak =
      some [some ⟨some (), some 0⟩] := by decide
  obtain ⟨s, hs, hweak⟩ := Option.map_eq_some_iff.mp hrun
  refine ⟨s, hs, weak_valid_iff hs (by decide) ⟨some (), some 0⟩ ?_⟩
  rw [hweak]
  exact List.mem_singleton_self _

/-- The address of a deleted object is handed out again, and the old weak handle is valid. -/
theorem weak_valid_of_reused : ∃ s : Heap Unit 32,
    Machine.run step empty (expired ++ [.allocate (), .ofPointer (some ())]) = some s ∧
      s.weak = [some ⟨some (), some 0⟩] ∧ s.deleted = [some 0] ∧
      s.weakIsValid ⟨some (), some 0⟩ = true ∧ ¬ s.Alive 0 := by
  have hrun : (Machine.run step (empty : Heap Unit 32)
      (expired ++ [.allocate (), .ofPointer (some ())])).map (fun s =>
        (s.weak, s.deleted, s.weakIsValid ⟨some (), some 0⟩, s.objects ())) =
      some ([some ⟨some (), some 0⟩], [some 0], true, some 1) := by decide
  obtain ⟨s, hs, htuple⟩ := Option.map_eq_some_iff.mp hrun
  simp only [Prod.mk.injEq] at htuple
  obtain ⟨hweak, hdeleted, hvalid, hobject⟩ := htuple
  refine ⟨s, hs, hweak, hdeleted, hvalid, ?_⟩
  rintro ⟨a, ha, -⟩
  exact nomatch hobject.symm.trans ha

end Heap
end AsciiTerra
