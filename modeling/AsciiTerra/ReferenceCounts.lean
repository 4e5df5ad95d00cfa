import AsciiTerra.MemoryHandles

/-!
# Reference counts

Every entry of the global map is the number of live shared handles at its address, modulo
`2 ^ w`. While no object has `2 ^ w` of them, an object is deleted in exactly the step in
which its last handle lets go.
-/

set_option autoImplicit false

namespace AsciiTerra
namespace Heap

variable {Address : Type} {w : Nat} {s s' s'' : Heap Address w}

theorem live_iff {i : Nat} : s.Live i ↔ ∃ p, s.shared[i]? = some (some p) := by
  unfold Live
  rw [Option.isSome_iff_exists]
  simp only [Option.join_eq_some_iff]

theorem data_eq {i : Nat} {p : Option Address} (h : s.shared[i]? = some (some p)) :
    s.data i = p := by
  simp [data, h]

theorem lt_of_shared {i : Nat} {p : Option Address} (h : s.shared[i]? = some (some p)) :
    i < s.shared.length :=
  (List.getElem?_eq_some_iff.mp h).1

variable [DecidableEq Address]

theorem handles_pos {i : Nat} {a : Address} (h : s.shared[i]? = some (some (some a))) :
    0 < s.handles a :=
  List.count_pos_iff.mpr (List.mem_of_getElem? h)

theorem handles_set {i : Nat} {p : Option Address} (h : s.shared[i]? = some (some p))
    {x : Option (Option Address)} (hs' : s'.shared = s.shared.set i x) (a : Address) :
    s'.handles a =
      s.handles a - (if p = some a then 1 else 0) + if x = some (some a) then 1 else 0 := by
  obtain ⟨hi, hp⟩ := List.getElem?_eq_some_iff.mp h
  unfold handles
  rw [hs', List.count_set hi, hp]
  simp

theorem handles_setShared {i : Nat} {p : Option Address} (h : s.shared[i]? = some (some p))
    (x : Option (Option Address)) (a : Address) :
    handles { s with shared := s.shared.set i x } a =
      s.handles a - (if p = some a then 1 else 0) + if x = some (some a) then 1 else 0 :=
  handles_set h rfl a

/-- The map counts the handles, and an object that a handle points to has not been deleted. -/
structure Sound (s : Heap Address w) : Prop where
  counts : ∀ a, s.refMap a = if s.handles a = 0 then none else some (BitVec.ofNat w (s.handles a))
  live : ∀ a, 0 < s.handles a → s.objects a ≠ none
  injective : ∀ a b o, s.objects a = some o → s.objects b = some o → a = b
  fresh : ∀ a o, s.objects a = some o → o < s.allocations ∧ some o ∉ s.deleted
  once : s.deleted.Nodup
  known : ∀ x ∈ s.deleted, ∃ o < s.allocations, x = some o

/-- Only an object whose last handle lets go is deleted, and each of these once; `p` may get its
first handle. -/
structure Effect (s : Heap Address w) (p : Option Address) (s' : Heap Address w) : Prop where
  objects : ∀ a, s'.objects a = if 0 < s.handles a ∧ s'.handles a = 0 then none else s.objects a
  gone : ∃ gone : List Nat, s'.deleted = s.deleted ++ gone.map some ∧ gone.Nodup ∧
    ∀ o, o ∈ gone ↔ ∃ a, s.objects a = some o ∧ 0 < s.handles a ∧ s'.handles a = 0
  first : ∀ a, s.handles a = 0 → 0 < s'.handles a → p = some a
  allocations : s'.allocations = s.allocations

theorem Effect.refl (s : Heap Address w) : Effect s none s := by
  refine ⟨?_, ⟨[], by simp, List.nodup_nil, ?_⟩, ?_, rfl⟩
  · intro a
    rw [if_neg]
    omega
  · intro o
    constructor
    · intro ho
      exact nomatch ho
    · rintro ⟨a, -, hpos, hzero⟩
      omega
  · intro a hzero hpos
    omega

theorem Effect.trans {p : Option Address} (hs : Sound s) (h : Effect s none s')
    (h' : Effect s' p s'') (hs'' : Sound s'') : Effect s p s'' := by
  have hstays (a : Address) (hzero : s.handles a = 0) : s'.handles a = 0 := by
    by_contra hne
    exact nomatch h.first a hzero (Nat.pos_of_ne_zero hne)
  have hdead (a : Address) (hnone : s''.objects a = none) : s''.handles a = 0 := by
    by_contra hne
    exact hs''.live a (Nat.pos_of_ne_zero hne) hnone
  have hobjects (a : Address) : s''.objects a =
      if 0 < s.handles a ∧ s''.handles a = 0 then none else s.objects a := by
    have hfirst := h.objects a
    have hsecond := h'.objects a
    have hstay := hstays a
    by_cases hgone : 0 < s.handles a ∧ s'.handles a = 0
    · rw [if_pos hgone] at hfirst
      have hnone : s''.objects a = none := by
        rw [hsecond, hfirst]
        exact ite_self none
      rw [hnone, if_pos ⟨hgone.1, hdead a hnone⟩]
    · rw [if_neg hgone] at hfirst
      rw [hsecond, hfirst]
      congr 1
      apply propext
      constructor
      · rintro ⟨hpos, hzero⟩
        exact ⟨by omega, hzero⟩
      · rintro ⟨hpos, hzero⟩
        exact ⟨by omega, hzero⟩
  obtain ⟨gone, hgone, hnodup, hmem⟩ := h.gone
  obtain ⟨gone', hgone', hnodup', hmem'⟩ := h'.gone
  refine ⟨hobjects, ⟨gone ++ gone', ?_, ?_, ?_⟩, ?_, h'.allocations.trans h.allocations⟩
  · rw [hgone', hgone, List.map_append, List.append_assoc]
  · apply List.nodup_append.mpr
    refine ⟨hnodup, hnodup', ?_⟩
    rintro o ho o' ho' rfl
    obtain ⟨a, ha, hpos, hzero⟩ := (hmem o).mp ho
    obtain ⟨b, hb, -, -⟩ := (hmem' o).mp ho'
    have hold := h.objects b
    rw [hb] at hold
    split at hold
    · exact nomatch hold
    · rename_i hkept
      cases hs.injective a b o ha hold.symm
      exact hkept ⟨hpos, hzero⟩
  · intro o
    rw [List.mem_append, hmem, hmem']
    constructor
    · rintro (⟨a, ha, hpos, hzero⟩ | ⟨a, ha, hpos, hzero⟩)
      · refine ⟨a, ha, hpos, hdead a ?_⟩
        have hnone := h.objects a
        rw [if_pos ⟨hpos, hzero⟩] at hnone
        rw [h'.objects a, hnone]
        exact ite_self none
      · have hold := h.objects a
        rw [ha] at hold
        split at hold
        · exact nomatch hold
        · refine ⟨a, hold.symm, ?_, hzero⟩
          have hstay := hstays a
          omega
    · rintro ⟨a, ha, hpos, hzero⟩
      by_cases hfirst : s'.handles a = 0
      · exact .inl ⟨a, ha, hpos, hfirst⟩
      · refine .inr ⟨a, ?_, Nat.pos_of_ne_zero hfirst, hzero⟩
        rw [h.objects a, if_neg (fun hboth => hfirst hboth.2)]
        exact ha
  · intro a hzero hpos
    exact h'.first a (hstays a hzero) hpos

/-- A sound state after changes that only delete what loses its last handle. -/
def Moves (s : Heap Address w) (p : Option Address) (s' : Heap Address w) : Prop :=
  Sound s' ∧ Effect s p s'

theorem Moves.trans {p : Option Address} (hs : Sound s) (h : Moves s none s')
    (h' : Moves s' p s'') : Moves s p s'' :=
  ⟨h'.1, Effect.trans hs h.2 h'.2 h'.1⟩

theorem Moves.weaken (p : Option Address) (h : Moves s none s') : Moves s p s' :=
  ⟨h.1, h.2.objects, h.2.gone, fun a hzero hpos => (nomatch h.2.first a hzero hpos),
    h.2.allocations⟩

/-- A change that deletes nothing: what has a handle keeps one, and only `p` may get its first. -/
theorem Moves.of_kept {p : Option Address} (h : Sound s) (hobjects : s'.objects = s.objects)
    (hallocations : s'.allocations = s.allocations) (hdeleted : s'.deleted = s.deleted)
    (hcounts : ∀ a, s'.refMap a =
      if s'.handles a = 0 then none else some (BitVec.ofNat w (s'.handles a)))
    (hkeeps : ∀ a, 0 < s.handles a → 0 < s'.handles a)
    (hfirst : ∀ a, s.handles a = 0 → 0 < s'.handles a → p = some a ∧ s.objects a ≠ none) :
    Moves s p s' := by
  refine ⟨⟨hcounts, ?_, ?_, ?_, ?_, ?_⟩, ⟨?_, ⟨[], ?_, List.nodup_nil, ?_⟩, ?_, hallocations⟩⟩
  · intro a ha
    rw [hobjects]
    rcases Nat.eq_zero_or_pos (s.handles a) with hzero | hpos
    · exact (hfirst a hzero ha).2
    · exact h.live a hpos
  · rw [hobjects]
    exact h.injective
  · rw [hobjects, hallocations, hdeleted]
    exact h.fresh
  · rw [hdeleted]
    exact h.once
  · rw [hdeleted, hallocations]
    exact h.known
  · intro a
    rw [hobjects, if_neg]
    rintro ⟨hpos, hzero⟩
    have hkept := hkeeps a hpos
    omega
  · simp [hdeleted]
  · intro o
    constructor
    · intro ho
      exact nomatch ho
    · rintro ⟨a, -, hpos, hzero⟩
      have hkept := hkeeps a hpos
      omega
  · intro a hzero hpos
    exact (hfirst a hzero hpos).1

theorem Moves.of_same (h : Sound s) (hobjects : s'.objects = s.objects)
    (hallocations : s'.allocations = s.allocations) (hdeleted : s'.deleted = s.deleted)
    (hrefMap : s'.refMap = s.refMap) (hat : ∀ a, s'.handles a = s.handles a) :
    Moves s none s' := by
  apply Moves.of_kept h hobjects hallocations hdeleted
  · intro a
    rw [hat a, hrefMap]
    exact h.counts a
  · intro a hpos
    rw [hat a]
    exact hpos
  · intro a hzero hpos
    rw [hat a] at hpos
    omega

theorem Moves.of_last (h : Sound s) {a : Address} {o : Nat} (ho : s.objects a = some o)
    (hlast : s.handles a = 1)
    (hat : ∀ b, s'.handles b = s.handles b - if a = b then 1 else 0)
    (hrefMap : s'.refMap = Function.update s.refMap a none)
    (hobjects : s'.objects = Function.update s.objects a none)
    (hdeleted : s'.deleted = s.deleted ++ [some o])
    (hallocations : s'.allocations = s.allocations) : Moves s none s' := by
  have hobject (b : Address) : s'.objects b = if b = a then none else s.objects b := by
    rw [hobjects, Function.update_apply]
  have hself : s'.handles a = 0 := by
    rw [hat a, hlast, if_pos rfl]
  have hother (b : Address) (hb : a ≠ b) : s'.handles b = s.handles b := by
    rw [hat b, if_neg hb]
    rfl
  have hsound : Sound s' := by
    refine ⟨?_, ?_, ?_, ?_, ?_, ?_⟩
    · intro b
      by_cases hb : a = b
      · subst hb
        rw [hrefMap, hself, Function.update_self, if_pos rfl]
      · rw [hrefMap, hother b hb, Function.update_of_ne (Ne.symm hb)]
        exact h.counts b
    · intro b hb
      have hne : ¬ b = a := by
        rintro rfl
        omega
      rw [hobject b, if_neg hne]
      rw [hother b (Ne.symm hne)] at hb
      exact h.live b hb
    · intro b c o' hb hc
      rw [hobject] at hb hc
      split at hb
      · exact nomatch hb
      · split at hc
        · exact nomatch hc
        · exact h.injective b c o' hb hc
    · intro b o' hb
      rw [hobject] at hb
      split at hb
      · exact nomatch hb
      · rename_i hne
        obtain ⟨hlt, hfresh⟩ := h.fresh b o' hb
        rw [hallocations]
        refine ⟨hlt, ?_⟩
        rw [hdeleted, List.mem_append, List.mem_singleton]
        rintro (hmem | heq)
        · exact hfresh hmem
        · cases heq
          exact hne (h.injective b a _ hb ho)
    · rw [hdeleted]
      apply List.nodup_append.mpr
      refine ⟨h.once, List.nodup_singleton _, ?_⟩
      rintro x hx y hy rfl
      rw [List.mem_singleton] at hy
      subst hy
      exact (h.fresh a o ho).2 hx
    · rw [hdeleted, hallocations]
      intro x hx
      rw [List.mem_append, List.mem_singleton] at hx
      rcases hx with hx | rfl
      · exact h.known x hx
      · exact ⟨o, (h.fresh a o ho).1, rfl⟩
  refine ⟨hsound, ?_, ⟨[o], hdeleted, List.nodup_singleton o, ?_⟩, ?_, hallocations⟩
  · intro b
    rw [hobject b]
    by_cases hb : b = a
    · subst hb
      rw [if_pos rfl, if_pos ⟨by omega, hself⟩]
    · rw [if_neg hb, if_neg]
      rw [hother b (Ne.symm hb)]
      omega
  · intro o'
    rw [List.mem_singleton]
    constructor
    · rintro rfl
      exact ⟨a, ho, by omega, hself⟩
    · rintro ⟨b, hb, hpos, hzero⟩
      have hba : a = b := by
        by_contra hne
        rw [hother b hne] at hzero
        omega
      subst hba
      exact Option.some_injective _ (hb.symm.trans ho)
  · intro b hzero hpos
    rw [hat b] at hpos
    omega

theorem Moves.of_held {p : Option Address} (h : Moves s p s')
    (hheld : ∀ a, p = some a → 0 < s.handles a) : Moves s none s' := by
  refine ⟨h.1, h.2.objects, h.2.gone, ?_, h.2.allocations⟩
  intro a hzero hpos
  have hheld := hheld a (h.2.first a hzero hpos)
  omega

theorem acquire_eq (h : Sound s) {i : Nat} (hi : s.shared[i]? = some (some none)) (a : Address) :
    s.acquireDataToHandle i (some a) =
      (s.setRefCount a (some (BitVec.ofNat w (s.handles a + 1)))).setData i (some a) := by
  have hcount := h.counts a
  have hnull : ¬ s.data i = some a := by
    rw [data_eq hi]
    exact nofun
  unfold acquireDataToHandle
  simp only [if_neg hnull]
  split at hcount
  · rename_i hzero
    simp only [hcount, hzero]
    rfl
  · simp only [hcount, BitVec.ofNat_add]
    rfl

theorem shared_acquire (h : Sound s) {i : Nat} (hi : s.shared[i]? = some (some none))
    (p : Option Address) : (s.acquireDataToHandle i p).shared = s.shared.set i (some p) := by
  cases p with
  | none =>
    obtain ⟨hlt, hcell⟩ := List.getElem?_eq_some_iff.mp hi
    change s.shared = _
    rw [← hcell, List.set_getElem_self]
  | some a =>
    rw [acquire_eq h hi]
    rfl

theorem Sound.acquire (h : Sound s) {i : Nat} (hi : s.shared[i]? = some (some none))
    {p : Option Address} (hp : s.Usable p) :
    Moves s p (s.acquireDataToHandle i p) := by
  cases p with
  | none => exact ⟨h, .refl s⟩
  | some a =>
    have hhandles := handles_set hi (shared_acquire h hi (some a))
    rw [acquire_eq h hi] at hhandles ⊢
    have hat : ∀ b, ((s.setRefCount a (some (BitVec.ofNat w (s.handles a + 1)))).setData i
        (some a)).handles b = s.handles b + if a = b then 1 else 0 := by
      intro b
      rw [hhandles b]
      simp
    refine Moves.of_kept h rfl rfl rfl ?_ ?_ ?_
    · intro b
      rw [hat b]
      by_cases hb : a = b
      · subst hb
        simp [setData, setRefCount]
      · have hcount := h.counts b
        simpa [setData, setRefCount, Function.update_of_ne (Ne.symm hb), hb] using hcount
    · intro b hpos
      rw [hat b]
      omega
    · intro b hzero hpos
      rw [hat b, hzero] at hpos
      split at hpos
      · rename_i hb
        subst hb
        exact ⟨rfl, hp a rfl⟩
      · omega

theorem shared_release {i : Nat} :
    (s.releaseResourseChecked i).shared = s.shared.set i (some none) := by
  unfold releaseResourseChecked
  split
  · rfl
  · split
    · rfl
    · split <;> rfl

theorem release_eq (h : Sound s) {i : Nat} {a : Address}
    (hi : s.shared[i]? = some (some (some a))) (hfew : s.handles a ≤ 2 ^ w) :
    s.releaseResourseChecked i =
      if s.handles a = 1 then ((s.setRefCount a none).harzDelete a).setData i none
      else (s.setRefCount a (some (BitVec.ofNat w (s.handles a - 1)))).setData i none := by
  have hpos := handles_pos hi
  have hcount := h.counts a
  rw [if_neg (by omega)] at hcount
  have hminus : BitVec.ofNat w (s.handles a) - 1 = BitVec.ofNat w (s.handles a - 1) := by
    have hsum : BitVec.ofNat w (s.handles a - 1 + 1) = BitVec.ofNat w (s.handles a - 1) + 1 :=
      BitVec.ofNat_add _ _
    rw [Nat.sub_add_cancel hpos] at hsum
    rw [hsum, BitVec.add_sub_cancel]
  have hlast : (BitVec.ofNat w (s.handles a - 1)).toNat < 1 ↔ s.handles a = 1 := by
    rw [BitVec.toNat_ofNat, Nat.mod_eq_of_lt (by omega)]
    omega
  unfold releaseResourseChecked
  rw [data_eq hi]
  simp only [hcount, hminus, hlast]

theorem release_null {i : Nat} (hi : s.shared[i]? = some (some none)) :
    s.releaseResourseChecked i = s := by
  obtain ⟨hlt, hcell⟩ := List.getElem?_eq_some_iff.mp hi
  have hsame : s.shared.set i (some none) = s.shared := by rw [← hcell, List.set_getElem_self]
  unfold releaseResourseChecked
  simp only [data_eq hi, setData, hsame]

theorem Sound.release (h : Sound s) {i : Nat} {p : Option Address}
    (hi : s.shared[i]? = some (some p)) (hfew : ∀ a, p = some a → s.handles a ≤ 2 ^ w) :
    Moves s none (s.releaseResourseChecked i) := by
  cases p with
  | none =>
    rw [release_null hi]
    exact ⟨h, .refl s⟩
  | some a =>
    have hpos := handles_pos hi
    have hhandles := handles_set hi (s.shared_release (i := i))
    have hat (b : Address) :
        (s.releaseResourseChecked i).handles b = s.handles b - if a = b then 1 else 0 := by
      rw [hhandles b]
      simp
    rw [release_eq h hi (hfew a rfl)] at hat ⊢
    obtain ⟨o, ho⟩ := Option.ne_none_iff_exists'.mp (h.live a hpos)
    by_cases hlast : s.handles a = 1
    · simp only [if_pos hlast] at hat ⊢
      refine Moves.of_last h ho hlast hat rfl rfl ?_ rfl
      simp [setData, harzDelete, setRefCount, ho]
    · simp only [if_neg hlast] at hat ⊢
      refine Moves.of_kept h rfl rfl rfl ?_ ?_ ?_
      · intro b
        rw [hat b]
        by_cases hb : a = b
        · subst hb
          have hne : ¬ s.handles a - 1 = 0 := by omega
          simp [setData, setRefCount, hne]
        · have hcount := h.counts b
          simpa [setData, setRefCount, Function.update_of_ne (Ne.symm hb), hb] using hcount
      · intro b hb
        rw [hat b]
        split
        · rename_i hab
          subst hab
          omega
        · omega
      · intro b hzero hb
        rw [hat b] at hb
        omega

/-- No object has `2 ^ w` handles. -/
def Few (s : Heap Address w) : Prop := ∀ a, s.handles a < 2 ^ w

instance [Fintype Address] (s : Heap Address w) : Decidable (Few s) :=
  inferInstanceAs (Decidable (∀ a, s.handles a < 2 ^ w))

theorem releaseIfValid_eq (h : Sound s) {i : Nat} {p : Option Address}
    (hi : s.shared[i]? = some (some p)) : s.releaseIfValid i = s.releaseResourseChecked i := by
  unfold releaseIfValid
  cases p with
  | none =>
    rw [release_null hi]
    exact ite_self s
  | some a =>
    have hpos := handles_pos hi
    have hcount := h.counts a
    rw [if_neg (by omega)] at hcount
    rw [if_pos]
    simp only [isValid, data_eq hi, hcount]
    rfl

theorem usable_of_shared (h : Sound s) {i : Nat} {p : Option Address}
    (hi : s.shared[i]? = some (some p)) : s.Usable p := by
  rintro a ⟨rfl⟩
  exact h.live a (handles_pos hi)

theorem shared_construct (h : Sound s) (p : Option Address) :
    (s.construct p).shared = s.shared ++ [some p] := by
  have hopened : Moves s none { s with shared := s.shared ++ [some none] } :=
    .of_same h rfl rfl rfl rfl (by simp [handles])
  unfold construct
  rw [shared_acquire hopened.1 (by simp)]
  simp

theorem handles_construct (h : Sound s) (p : Option Address) (a : Address) :
    (s.construct p).handles a = s.handles a + if p = some a then 1 else 0 := by
  unfold handles
  rw [shared_construct h, List.count_append, List.count_singleton]
  simp

theorem Sound.construct (h : Sound s) {p : Option Address} (hp : s.Usable p) :
    Moves s p (s.construct p) := by
  have hopened : Moves s none { s with shared := s.shared ++ [some none] } :=
    .of_same h rfl rfl rfl rfl (by simp [handles])
  exact hopened.trans h (hopened.1.acquire (by simp) hp)

theorem Sound.copy (h : Sound s) {i : Nat} {p : Option Address}
    (hi : s.shared[i]? = some (some p)) : Moves s none (s.construct p) := by
  apply (h.construct (usable_of_shared h hi)).of_held
  rintro a rfl
  exact handles_pos hi

theorem shared_destruct {i : Nat} (h : Sound s) {p : Option Address}
    (hi : s.shared[i]? = some (some p)) : (s.destruct i).shared = s.shared.set i none := by
  unfold destruct
  rw [releaseIfValid_eq h hi]
  simp [shared_release]

theorem Sound.destruct (h : Sound s) {i : Nat} {p : Option Address}
    (hi : s.shared[i]? = some (some p)) (hfew : ∀ a, p = some a → s.handles a ≤ 2 ^ w) :
    Moves s none (s.destruct i) := by
  have hrelease := h.release hi hfew
  have hcell : (s.releaseResourseChecked i).shared[i]? = some (some none) := by
    rw [shared_release]
    simp [lt_of_shared hi]
  unfold Heap.destruct
  rw [releaseIfValid_eq h hi]
  refine hrelease.trans h (.of_same hrelease.1 rfl rfl rfl rfl ?_)
  intro a
  have hhandles := handles_setShared hcell none a
  simpa using hhandles

/-- The bound that the destructor needs also follows from the counts afterwards. -/
theorem Sound.destruct_of_few (h : Sound s) {i : Nat} {p : Option Address}
    (hi : s.shared[i]? = some (some p)) (hfew : Few (s.destruct i)) :
    Moves s none (s.destruct i) := by
  apply h.destruct hi
  rintro a rfl
  have hafter := hfew a
  have hpos := handles_pos hi
  rw [handles_set hi (shared_destruct h hi) a] at hafter
  simp only [if_true, reduceCtorEq, if_false] at hafter
  omega

theorem Sound.moveConstruct (h : Sound s) (hfew : Few s) {i : Nat} {p : Option Address}
    (hi : s.shared[i]? = some (some p)) :
    Moves s none (s.moveConstruct i) ∧
      (s.moveConstruct i).shared = s.shared.set i (some none) ++ [some p] := by
  have hlt := lt_of_shared hi
  have hcopy := h.copy hi
  have hcell : (s.construct p).shared[i]? = some (some p) := by
    rw [shared_construct h, List.getElem?_append_left hlt]
    exact hi
  unfold Heap.moveConstruct
  rw [data_eq hi]
  refine ⟨hcopy.trans h (hcopy.1.release hcell ?_), ?_⟩
  · rintro a rfl
    have hbelow := hfew a
    rw [handles_construct h, if_pos rfl]
    omega
  · rw [shared_release, shared_construct h, List.set_append_left _ _ hlt]

theorem Sound.reacquire (h : Sound s) {i : Nat} {p q : Option Address}
    (hi : s.shared[i]? = some (some p)) (hfew : ∀ a, p = some a → s.handles a ≤ 2 ^ w)
    (hq : s.Usable q) (hpq : p ≠ q ∨ ∀ a, q = some a → 1 < s.handles a) :
    Moves s q ((s.releaseIfValid i).acquireDataToHandle i q) ∧
      ((s.releaseIfValid i).acquireDataToHandle i q).shared = s.shared.set i (some q) := by
  have hlt := lt_of_shared hi
  have hrelease := h.release hi hfew
  have hcell : (s.releaseResourseChecked i).shared[i]? = some (some none) := by
    rw [shared_release]
    simp [hlt]
  rw [releaseIfValid_eq h hi]
  refine ⟨hrelease.trans h (hrelease.1.acquire hcell ?_), ?_⟩
  · rintro a ⟨rfl⟩
    rw [hrelease.2.objects a, if_neg]
    · exact hq a rfl
    · rintro ⟨hpos, hzero⟩
      rw [handles_set hi s.shared_release a] at hzero
      rcases hpq with hne | hmore
      · rw [if_neg hne] at hzero
        omega
      · have hmore := hmore a rfl
        split at hzero <;> omega
  · rw [shared_acquire hrelease.1 hcell, shared_release, List.set_set]

theorem ne_or_two_handles {i j : Nat} {p q : Option Address} (hij : i ≠ j)
    (hi : s.shared[i]? = some (some p)) (hj : s.shared[j]? = some (some q)) :
    p ≠ q ∨ ∀ a, q = some a → 1 < s.handles a := by
  by_cases hpq : p = q
  · right
    rintro a rfl
    subst hpq
    have hset := handles_setShared hi none a
    have hrest : 0 < handles { s with shared := s.shared.set i none } a := by
      apply handles_pos (i := j)
      rw [List.getElem?_set_ne hij]
      exact hj
    simp only [if_true, reduceCtorEq, if_false] at hset
    omega
  · exact .inl hpq

theorem Sound.copyAssign (h : Sound s) (hfew : Few s) {i j : Nat} {p q : Option Address}
    (hi : s.shared[i]? = some (some p)) (hj : s.shared[j]? = some (some q)) :
    Moves s none (s.copyAssign i j) := by
  unfold Heap.copyAssign
  split
  · exact ⟨h, .refl s⟩
  · rename_i hij
    have hdata : (s.releaseIfValid i).data j = q := by
      apply data_eq
      rw [releaseIfValid_eq h hi, shared_release, List.getElem?_set_ne hij]
      exact hj
    simp only [hdata]
    refine Moves.of_held (h.reacquire hi ?_ (usable_of_shared h hj) ?_).1 ?_
    · intro a _
      exact (hfew a).le
    · exact ne_or_two_handles hij hi hj
    · rintro a rfl
      exact handles_pos hj

theorem Sound.moveAssign (h : Sound s) (hfew : Few s) {i j : Nat} {p q : Option Address}
    (hi : s.shared[i]? = some (some p)) (hj : s.shared[j]? = some (some q)) :
    Moves s none (s.moveAssign i j) := by
  unfold Heap.moveAssign
  split
  · exact ⟨h, .refl s⟩
  · rename_i hij
    have hdata : (s.releaseIfValid i).data j = q := by
      apply data_eq
      rw [releaseIfValid_eq h hi, shared_release, List.getElem?_set_ne hij]
      exact hj
    simp only [hdata]
    obtain ⟨hmoves, hshared⟩ := h.reacquire hi (fun a _ => (hfew a).le) (usable_of_shared h hj)
      (ne_or_two_handles hij hi hj)
    have hheld : ∀ a, q = some a → 0 < s.handles a := by
      rintro a rfl
      exact handles_pos hj
    have hcell : ((s.releaseIfValid i).acquireDataToHandle i q).shared[j]? = some (some q) := by
      rw [hshared, List.getElem?_set_ne hij]
      exact hj
    apply (hmoves.of_held hheld).trans h (hmoves.1.release hcell _)
    intro a _
    have hbelow := hfew a
    rw [handles_set hi hshared a]
    split <;> split <;> omega

theorem Sound.resetPointer (h : Sound s) {i : Nat} {p q : Option Address}
    (hi : s.shared[i]? = some (some p)) (hfew : ∀ a, p = some a → s.handles a ≤ 2 ^ w)
    (hq : s.Usable q) :
    Moves s q (s.resetPointer i q) ∧ (s.resetPointer i q).shared = s.shared.set i (some q) := by
  unfold Heap.resetPointer
  rw [data_eq hi]
  split
  · rename_i hpq
    subst hpq
    obtain ⟨hlt, hcell⟩ := List.getElem?_eq_some_iff.mp hi
    refine ⟨Moves.weaken p ⟨h, .refl s⟩, ?_⟩
    rw [← hcell, List.set_getElem_self]
  · rename_i hpq
    exact h.reacquire hi hfew hq (.inl hpq)

theorem Sound.resetBy (h : Sound s) {i k : Nat} {p q : Option Address} (hik : i ≠ k)
    (hi : s.shared[i]? = some (some p)) (hk : s.shared[k]? = some (some q))
    (hfew : ∀ a, p = some a → s.handles a ≤ 2 ^ w) (hafter : Few (s.resetBy i k)) :
    Moves s none (s.resetBy i k) := by
  unfold Heap.resetBy at *
  rw [data_eq hk] at *
  obtain ⟨hmoves, hshared⟩ := h.resetPointer hi hfew (usable_of_shared h hk)
  have hcell : (s.resetPointer i q).shared[k]? = some (some q) := by
    rw [hshared, List.getElem?_set_ne hik]
    exact hk
  have hheld : ∀ a, q = some a → 0 < s.handles a := by
    rintro a rfl
    exact handles_pos hk
  exact (hmoves.of_held hheld).trans h (hmoves.1.destruct_of_few hcell hafter)

theorem Sound.reset (h : Sound s) (hfew : Few s) {i j : Nat} {p q : Option Address}
    (hi : s.shared[i]? = some (some p)) (hj : s.shared[j]? = some (some q))
    (hafter : Few ((s.construct q).resetBy i s.shared.length)) :
    Moves s none ((s.construct q).resetBy i s.shared.length) := by
  have hcopy := h.copy hj
  have hlt := lt_of_shared hi
  have hcell : (s.construct q).shared[i]? = some (some p) := by
    rw [shared_construct h, List.getElem?_append_left hlt]
    exact hi
  have hlast : (s.construct q).shared[s.shared.length]? = some (some q) := by
    rw [shared_construct h]
    simp
  apply hcopy.trans h (hcopy.1.resetBy hlt.ne hcell hlast _ hafter)
  intro a _
  have hbelow := hfew a
  rw [handles_construct h]
  split <;> omega

theorem Sound.resetMoved (h : Sound s) (hfew : Few s) {i j : Nat} {p q : Option Address}
    (hi : s.shared[i]? = some (some p)) (hj : s.shared[j]? = some (some q))
    (hafter : Few ((s.moveConstruct j).resetBy i s.shared.length)) :
    Moves s none ((s.moveConstruct j).resetBy i s.shared.length) := by
  obtain ⟨hmove, hshared⟩ := h.moveConstruct hfew hj
  have hlt := lt_of_shared hi
  have hlast : (s.moveConstruct j).shared[s.shared.length]? = some (some q) := by
    rw [hshared, List.getElem?_append_right (by simp)]
    simp
  have hcell : ∃ p', (s.moveConstruct j).shared[i]? = some (some p') := by
    rw [hshared, List.getElem?_append_left (by simpa using hlt)]
    by_cases hij : j = i
    · subst hij
      exact ⟨none, by simp [hlt]⟩
    · rw [List.getElem?_set_ne hij]
      exact ⟨p, hi⟩
  obtain ⟨p', hcell⟩ := hcell
  apply hmove.trans h (hmove.1.resetBy hlt.ne hcell hlast _ hafter)
  intro a _
  have hbelow := hfew a
  have hcount : (s.moveConstruct j).handles a ≤ s.handles a + 1 := by
    have hset := handles_setShared hj (some none) a
    unfold handles at *
    rw [hshared, List.count_append, List.count_singleton, hset]
    split <;> simp <;> split <;> omega
  omega

/-- `GetWeak` after its temporary handle has been made. -/
theorem Sound.getWeak_rest (h : Sound s) (hfew : Few s) {i : Nat} {p : Option Address}
    (hi : s.shared[i]? = some (some p)) : Moves (s.construct p) none (s.getWeak i) := by
  have hcopy := h.copy hi
  unfold Heap.getWeak
  rw [data_eq hi]
  have hadd : Moves (s.construct p) none
      ((s.construct p).addWeak ((s.construct p).weakTo s.shared.length)) :=
    .of_same hcopy.1 rfl rfl rfl rfl (fun _ => rfl)
  have hlast : ((s.construct p).addWeak
      ((s.construct p).weakTo s.shared.length)).shared[s.shared.length]? = some (some p) := by
    change (s.construct p).shared[s.shared.length]? = some (some p)
    rw [shared_construct h]
    simp
  apply hadd.trans hcopy.1 (hadd.1.destruct hlast _)
  intro a _
  have hbelow := hfew a
  change (s.construct p).handles a ≤ 2 ^ w
  rw [handles_construct h]
  split <;> omega

theorem Sound.getWeak (h : Sound s) (hfew : Few s) {i : Nat} {p : Option Address}
    (hi : s.shared[i]? = some (some p)) : Moves s none (s.getWeak i) :=
  (h.copy hi).trans h (h.getWeak_rest hfew hi)

theorem Sound.allocate (h : Sound s) (a : Address) :
    Sound { s with
      objects := Function.update s.objects a (some s.allocations)
      allocations := s.allocations + 1 } := by
  refine ⟨h.counts, ?_, ?_, ?_, h.once, ?_⟩
  · intro b hb
    simp only [Function.update_apply]
    split
    · exact nofun
    · exact h.live b hb
  · intro b c o hb hc
    simp only [Function.update_apply] at hb hc
    split at hb
    · rename_i hba
      split at hc
      · rename_i hca
        rw [hba, hca]
      · cases hb
        exact absurd (h.fresh c _ hc).1 (by omega)
    · split at hc
      · cases hc
        exact absurd (h.fresh b _ hb).1 (by omega)
      · exact h.injective b c o hb hc
  · intro b o hb
    simp only [Function.update_apply] at hb
    split at hb
    · cases hb
      refine ⟨Nat.lt_succ_self _, ?_⟩
      intro hmem
      obtain ⟨o, hlt, ho⟩ := h.known _ hmem
      cases ho
      omega
    · obtain ⟨hlt, hfresh⟩ := h.fresh b o hb
      exact ⟨Nat.lt_succ_of_lt hlt, hfresh⟩
  · intro x hx
    obtain ⟨o, hlt, ho⟩ := h.known x hx
    exact ⟨o, Nat.lt_succ_of_lt hlt, ho⟩

/-- The pointer that an operation brings to the shared handles. -/
def pointerOf (s : Heap Address w) : HandleOperation Address → Option Address
  | .ofPointer p | .resetPointer _ p => p
  | .ofUnique k => s.unique[k]?.join
  | _ => none

theorem Sound.step_moves (h : Sound s) (hfew : Few s) {e : HandleOperation Address}
    (he : s.step e = some s') (hafter : Few s') (hallocate : ∀ a, e ≠ .allocate a) :
    Moves s (s.pointerOf e) s' := by
  cases e with
  | allocate a => exact absurd rfl (hallocate a)
  | uniqueOfPointer p =>
    obtain ⟨-, hs'⟩ := Option.ite_none_right_eq_some.mp he
    cases hs'
    exact .of_same h rfl rfl rfl rfl (fun _ => rfl)
  | ofPointer p =>
    obtain ⟨hp, hs'⟩ := Option.ite_none_right_eq_some.mp he
    cases hs'
    exact h.construct hp
  | ofUnique k =>
    obtain ⟨⟨-, hp⟩, hs'⟩ := Option.ite_none_right_eq_some.mp he
    cases hs'
    have hretrieve : Moves s none (s.retrieveResourse k).2 :=
      .of_same h rfl rfl rfl rfl (fun _ => rfl)
    exact hretrieve.trans h (hretrieve.1.construct hp)
  | copy i =>
    obtain ⟨hi, hs'⟩ := Option.ite_none_right_eq_some.mp he
    cases hs'
    obtain ⟨p, hi⟩ := live_iff.mp hi
    rw [data_eq hi]
    exact h.copy hi
  | move i =>
    obtain ⟨hi, hs'⟩ := Option.ite_none_right_eq_some.mp he
    cases hs'
    obtain ⟨p, hi⟩ := live_iff.mp hi
    exact (h.moveConstruct hfew hi).1
  | copyAssign i j =>
    obtain ⟨⟨hi, hj⟩, hs'⟩ := Option.ite_none_right_eq_some.mp he
    cases hs'
    obtain ⟨p, hi⟩ := live_iff.mp hi
    obtain ⟨q, hj⟩ := live_iff.mp hj
    exact h.copyAssign hfew hi hj
  | moveAssign i j =>
    obtain ⟨⟨hi, hj⟩, hs'⟩ := Option.ite_none_right_eq_some.mp he
    cases hs'
    obtain ⟨p, hi⟩ := live_iff.mp hi
    obtain ⟨q, hj⟩ := live_iff.mp hj
    exact h.moveAssign hfew hi hj
  | resetPointer i q =>
    obtain ⟨⟨hi, hq⟩, hs'⟩ := Option.ite_none_right_eq_some.mp he
    cases hs'
    obtain ⟨p, hi⟩ := live_iff.mp hi
    exact (h.resetPointer hi (fun a _ => (hfew a).le) hq).1
  | reset i j =>
    obtain ⟨⟨hi, hj⟩, hs'⟩ := Option.ite_none_right_eq_some.mp he
    cases hs'
    obtain ⟨p, hi⟩ := live_iff.mp hi
    obtain ⟨q, hj⟩ := live_iff.mp hj
    rw [data_eq hj] at hafter ⊢
    exact h.reset hfew hi hj hafter
  | resetMoved i j =>
    obtain ⟨⟨hi, hj⟩, hs'⟩ := Option.ite_none_right_eq_some.mp he
    cases hs'
    obtain ⟨p, hi⟩ := live_iff.mp hi
    obtain ⟨q, hj⟩ := live_iff.mp hj
    exact h.resetMoved hfew hi hj hafter
  | release i =>
    obtain ⟨hi, hs'⟩ := Option.ite_none_right_eq_some.mp he
    cases hs'
    obtain ⟨p, hi⟩ := live_iff.mp hi
    exact h.release hi (fun a _ => (hfew a).le)
  | destroy i =>
    obtain ⟨hi, hs'⟩ := Option.ite_none_right_eq_some.mp he
    cases hs'
    obtain ⟨p, hi⟩ := live_iff.mp hi
    exact h.destruct hi (fun a _ => (hfew a).le)
  | weakOfShared i =>
    obtain ⟨-, hs'⟩ := Option.ite_none_right_eq_some.mp he
    cases hs'
    exact .of_same h rfl rfl rfl rfl (fun _ => rfl)
  | getWeak i =>
    obtain ⟨hi, hs'⟩ := Option.ite_none_right_eq_some.mp he
    cases hs'
    obtain ⟨p, hi⟩ := live_iff.mp hi
    exact h.getWeak hfew hi
  | weakCopy k =>
    obtain ⟨x, -, hs'⟩ := Option.map_eq_some_iff.mp he
    cases hs'
    exact .of_same h rfl rfl rfl rfl (fun _ => rfl)
  | weakAssign k l =>
    simp only [step] at he
    split at he
    · cases he
      exact .of_same h rfl rfl rfl rfl (fun _ => rfl)
    · exact nomatch he
  | weakReset k i =>
    simp only [step] at he
    split at he
    · obtain ⟨-, hs'⟩ := Option.ite_none_right_eq_some.mp he
      cases hs'
      exact .of_same h rfl rfl rfl rfl (fun _ => rfl)
    · exact nomatch he
  | weakDestroy k =>
    obtain ⟨x, -, hs'⟩ := Option.map_eq_some_iff.mp he
    cases hs'
    exact .of_same h rfl rfl rfl rfl (fun _ => rfl)

/-- The objects that a step deletes are those whose last handle lets go in it. -/
def DeletesLast (s s' : Heap Address w) : Prop :=
  ∃ gone : List Nat, s'.deleted = s.deleted ++ gone.map some ∧ gone.Nodup ∧
    ∀ o, o ∈ gone ↔ ∃ a, s.objects a = some o ∧ 0 < s.handles a ∧ s'.handles a = 0

theorem Sound.step (h : Sound s) (hfew : Few s) {e : HandleOperation Address}
    (he : s.step e = some s') (hafter : Few s') : Sound s' ∧ DeletesLast s s' := by
  by_cases hallocate : ∃ a, e = .allocate a
  · obtain ⟨a, rfl⟩ := hallocate
    obtain ⟨-, hs'⟩ := Option.ite_none_right_eq_some.mp he
    cases hs'
    refine ⟨h.allocate a, [], by simp, List.nodup_nil, ?_⟩
    intro o
    constructor
    · intro ho
      cases ho
    · rintro ⟨b, -, hpos, hzero⟩
      change s.handles b = 0 at hzero
      omega
  · have hmoves := h.step_moves hfew he hafter (fun a ha => hallocate ⟨a, ha⟩)
    exact ⟨hmoves.1, hmoves.2.gone⟩

theorem sound_empty : Sound (empty : Heap Address w) := by
  refine ⟨fun a => rfl, ?_, ?_, ?_, List.nodup_nil, ?_⟩
  · intro a ha
    exact absurd ha (Nat.lt_irrefl 0)
  · intro a b o ha
    exact nomatch ha
  · intro a o ha
    exact nomatch ha
  · intro x hx
    exact nomatch hx

theorem Sound.counted (h : Sound s) (hfew : Few s) (a : Address) :
    ((s.refMap a).isSome ↔ 1 ≤ s.handles a) ∧ ∀ n, s.refMap a = some n → n.toNat = s.handles a := by
  have hcount := h.counts a
  rw [hcount]
  by_cases hzero : s.handles a = 0
  · rw [if_pos hzero]
    exact ⟨by simp [hzero], nofun⟩
  · rw [if_neg hzero]
    refine ⟨by simp; omega, ?_⟩
    rintro n ⟨rfl⟩
    rw [BitVec.toNat_ofNat, Nat.mod_eq_of_lt (hfew a)]

def FewAlong (es : List (HandleOperation Address)) (s : Heap Address w) : Prop :=
  Few s ∧ Machine.Along step (fun s e => ∀ s' ∈ s.step e, Few s') s es

instance [Fintype Address] (es : List (HandleOperation Address)) (s : Heap Address w) :
    Decidable (FewAlong es s) := inferInstanceAs (Decidable (_ ∧ _))

theorem sound_of_run {es : List (HandleOperation Address)} (hrun : Machine.run step empty es = some s)
    (hfew : FewAlong es (empty : Heap Address w)) : Sound s ∧ Few s := by
  refine Machine.invariant_along (I := fun s => Sound s ∧ Few s) ?_ ⟨sound_empty, hfew.1⟩ hfew.2 hrun
  rintro s e s' ⟨hs, hfew⟩ hafter he
  exact ⟨(hs.step hfew he (hafter s' he)).1, hafter s' he⟩

/-- While no object has `2 ^ w` handles the map counts them, no object is deleted twice, and the
next operation deletes exactly what loses its last handle. -/
theorem count_eq_handles {es : List (HandleOperation Address)}
    (hrun : Machine.run step empty es = some s) (hfew : FewAlong es (empty : Heap Address w)) :
    (∀ a, ((s.refMap a).isSome ↔ 1 ≤ s.handles a) ∧
        ∀ n, s.refMap a = some n → n.toNat = s.handles a) ∧
      s.deleted.Nodup ∧ (∀ x ∈ s.deleted, x ≠ none) ∧
      ∀ e s', s.step e = some s' → Few s' → DeletesLast s s' := by
  obtain ⟨hsound, hbelow⟩ := sound_of_run hrun hfew
  refine ⟨hsound.counted hbelow, hsound.once, ?_, ?_⟩
  · rintro x hx rfl
    obtain ⟨o, -, ho⟩ := hsound.known _ hx
    exact nomatch ho
  · intro e s' he hafter
    exact (hsound.step hbelow he hafter).2

/-- An object with three handles, of which the first is destroyed. -/
def threeHandles : List (HandleOperation Unit) :=
  [.allocate (), .ofPointer (some ()), .copy 0, .copy 1, .destroy 0]

theorem count_eq_handles_three : ∃ s : Heap Unit 32,
    Machine.run step (empty : Heap Unit 32) threeHandles = some s ∧ s.handles () = 2 ∧
      s.refMap () = some 2 ∧ s.deleted = [] ∧
      (∀ a, ((s.refMap a).isSome ↔ 1 ≤ s.handles a) ∧
        ∀ n, s.refMap a = some n → n.toNat = s.handles a) ∧
      s.deleted.Nodup ∧ (∀ x ∈ s.deleted, x ≠ none) ∧
      ∀ e s', s.step e = some s' → Few s' → DeletesLast s s' := by
  have hrun : (Machine.run step (empty : Heap Unit 32) threeHandles).map (fun s =>
      (s.handles (), s.refMap (), s.deleted)) = some (2, some 2, []) := by decide
  obtain ⟨s, hs, hstate⟩ := Option.map_eq_some_iff.mp hrun
  obtain ⟨hcount, hstate⟩ := Prod.mk.inj hstate
  obtain ⟨hmap, hdeleted⟩ := Prod.mk.inj hstate
  exact ⟨s, hs, hcount, hmap, hdeleted, count_eq_handles hs (by decide)⟩

theorem run_copies {a : Address} (h : Sound s) (hi : s.shared[0]? = some (some (some a))) (n : Nat) :
    ∃ s', Machine.run step s (List.replicate n (.copy 0)) = some s' ∧ Sound s' ∧
      s'.handles a = s.handles a + n := by
  induction n generalizing s with
  | zero => exact ⟨s, rfl, h, rfl⟩
  | succ n ih =>
    have hcopy := h.copy hi
    have hcell : (s.construct (some a)).shared[0]? = some (some (some a)) := by
      rw [shared_construct h, List.getElem?_append_left (lt_of_shared hi)]
      exact hi
    obtain ⟨s', hrun, hsound, hcount⟩ := ih hcopy.1 hcell
    refine ⟨s', ?_, hsound, ?_⟩
    · apply Machine.run_cons_eq_some.mpr
      refine ⟨s.construct (some a), ?_, hrun⟩
      simp only [step, if_pos (live_iff.mpr ⟨_, hi⟩), data_eq hi]
    · rw [hcount, handles_construct h, if_pos rfl]
      omega

/-- One object, its first handle and `n` copies. -/
def copies (n : Nat) : List (HandleOperation Unit) :=
  [.allocate (), .ofPointer (some ())] ++ List.replicate n (.copy 0)

theorem run_empty_copies (n : Nat) : ∃ s : Heap Unit 32,
    Machine.run step empty (copies n) = some s ∧ Sound s ∧ s.handles () = n + 1 := by
  have hfirst : (Machine.run step (empty : Heap Unit 32) [.allocate (), .ofPointer (some ())]).map
      (fun s => (s.shared, s.handles ())) = some ([some (some ())], 1) := by decide
  obtain ⟨s, hs, hpair⟩ := Option.map_eq_some_iff.mp hfirst
  obtain ⟨hshared, hone⟩ := Prod.mk.inj hpair
  have hsound := (sound_of_run hs (by decide)).1
  have hcell : s.shared[0]? = some (some (some ())) := by
    rw [hshared]
    rfl
  obtain ⟨s', hs', hsound', hcount⟩ := run_copies hsound hcell n
  refine ⟨s', Machine.run_append_eq_some.mpr ⟨s, hs, hs'⟩, hsound', ?_⟩
  omega

/-- With counts of 32 bits, `2 ^ 32` handles to one object are counted as none. -/
theorem count_wraps : ∃ s : Heap Unit 32, Machine.run step empty (copies (2 ^ 32 - 1)) = some s ∧
    s.handles () = 2 ^ 32 ∧ s.refMap () = some 0 := by
  obtain ⟨s, hrun, hsound, hcount⟩ := run_empty_copies (2 ^ 32 - 1)
  have hhandles : s.handles () = 2 ^ 32 := by
    rw [hcount]
    norm_num
  refine ⟨s, hrun, hhandles, ?_⟩
  rw [hsound.counts (), if_neg (by rw [hhandles]; norm_num), hhandles]
  rfl

end Heap
end AsciiTerra
