import Mathlib.Data.List.Nodup

/-!
# The first that is left

Members of a list leave it in any order. The one whose turn it is, going around from a
given member, is the first that is left; passing over members that have left keeps this.
-/

set_option autoImplicit false

universe u

namespace List
variable {α : Type u} {l kept kept' : List α} {a x : α}

/-- `x` is the first element of `l` that is still in `kept`. -/
def FirstLeft (l kept : List α) (x : α) : Prop :=
  x ∈ kept ∧ ∃ gone rest, l = gone ++ x :: rest ∧ ∀ a ∈ gone, a ∉ kept

namespace FirstLeft

theorem head (hx : x ∈ kept) : FirstLeft (x :: l) kept x :=
  ⟨hx, [], l, rfl, by simp⟩

theorem subset (h : FirstLeft l kept x) (hsub : kept' ⊆ kept) (hx : x ∈ kept') :
    FirstLeft l kept' x := by
  obtain ⟨-, gone, rest, hl, hgone⟩ := h
  exact ⟨hx, gone, rest, hl, fun a ha hmem => hgone a ha (hsub hmem)⟩

/-- Whoever has left is passed over. -/
theorem skip (h : FirstLeft (l ++ [a]) kept x) (ha : a ∉ kept) : FirstLeft (a :: l) kept x := by
  obtain ⟨hx, gone, rest, hl, hgone⟩ := h
  have hne : a ≠ x := fun heq => ha (heq ▸ hx)
  rcases eq_nil_or_concat rest with rfl | ⟨rest, b, rfl⟩
  · have hlast := congrArg getLast? hl
    simp only [getLast?_append, getLast?_singleton, Option.some_or] at hlast
    exact absurd (Option.some.inj hlast) hne
  · have hsplit : l ++ [a] = (gone ++ x :: rest) ++ [b] := by simp [hl]
    obtain ⟨rfl, -⟩ := append_inj' hsplit rfl
    refine ⟨hx, a :: gone, rest, rfl, fun d hd => ?_⟩
    rcases mem_cons.mp hd with rfl | hd
    · exact ha
    · exact hgone d hd

theorem eq_cons (h : FirstLeft l kept x) (hl : l.Nodup) (hsub : kept.Sublist l) :
    ∃ rest, kept = x :: rest := by
  obtain ⟨hx, gone, rest, rfl, hgone⟩ := h
  obtain ⟨first, second, rfl, hfirst, hsecond⟩ := sublist_append_iff.mp hsub
  have hnil : first = [] := eq_nil_iff_forall_not_mem.mpr fun d hd =>
    hgone d (hfirst.subset hd) (mem_append_left _ hd)
  subst hnil
  rw [nil_append] at hx ⊢
  cases hsecond with
  | cons _ hsecond =>
    have hnodup := (nodup_append.mp hl).2.1
    exact absurd (hsecond.subset hx) (nodup_cons.mp hnodup).1
  | cons_cons _ hsecond => exact ⟨_, rfl⟩

theorem of_cons {rest : List α} (hl : l.Nodup) (hsub : (x :: rest).Sublist l) :
    FirstLeft l (x :: rest) x := by
  obtain ⟨before, behind, rfl⟩ := append_of_mem (hsub.subset mem_cons_self)
  refine ⟨mem_cons_self, before, behind, rfl, fun d hd hmem => ?_⟩
  obtain ⟨-, htail, hdisjoint⟩ := nodup_append.mp hl
  obtain ⟨first, second, hsplit, hfirst, hsecond⟩ := sublist_append_iff.mp hsub
  cases first with
  | nil =>
    rw [nil_append] at hsplit
    rw [hsplit] at hmem
    exact hdisjoint d hd d (hsecond.subset hmem) rfl
  | cons y first =>
    obtain ⟨rfl, -⟩ := cons.inj hsplit
    exact hdisjoint x (hfirst.subset mem_cons_self) x mem_cons_self rfl

end FirstLeft

end List
