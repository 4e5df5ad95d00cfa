import Mathlib

/-!
# The first of the least

`List.argmin` finds the first element of least value. When it finds one with a property is
told by the elements that lack it: each of them has to be outdone.
-/

set_option autoImplicit false

universe u v

namespace List
variable {α : Type u} {β : Type v} [LinearOrder β] [DecidableEq α] {f : α → β} {l : List α}

theorem idxOf_le_of_getElem? {i : Nat} {a : α} (h : l[i]? = some a) : l.idxOf a ≤ i := by
  obtain ⟨hlt, ha⟩ := getElem?_eq_some_iff.mp h
  by_contra hnot
  have hne := not_of_lt_findIdx (Nat.lt_of_not_le hnot)
  simp [ha] at hne

theorem getElem?_idxOf_of_mem {a : α} (h : a ∈ l) : l[l.idxOf a]? = some a :=
  getElem?_eq_some_iff.mpr ⟨idxOf_lt_length_of_mem h, getElem_idxOf (idxOf_lt_length_of_mem h)⟩

/-- The element found has the property if and only if every element without it is outdone by
one that has it: one of less value, or an earlier one of the same. -/
theorem forall_mem_argmin_iff {P : α → Prop} : (∀ m ∈ l.argmin f, P m) ↔
    ∀ (i : Nat) a, l[i]? = some a → ¬ P a →
      ∃ (j : Nat) (b : α), l[j]? = some b ∧ P b ∧ (f b < f a ∨ f b = f a ∧ j < i) := by
  constructor
  · intro h i a ha hnot
    have hmem := mem_of_getElem? ha
    cases hm : l.argmin f with
    | none =>
      rw [argmin_eq_none.mp hm] at hmem
      exact absurd hmem not_mem_nil
    | some m =>
      have hP := h m hm
      have hle := le_of_mem_argmin hmem hm
      refine ⟨l.idxOf m, m, getElem?_idxOf_of_mem (argmin_mem hm), hP, ?_⟩
      rcases hle.lt_or_eq with hlt | heq
      · exact .inl hlt
      · have hfirst := (index_of_argmin hm hmem heq.ge).trans (idxOf_le_of_getElem? ha)
        refine .inr ⟨heq, lt_of_le_of_ne hfirst fun hi => ?_⟩
        rw [← hi, getElem?_idxOf_of_mem (argmin_mem hm)] at ha
        cases ha
        exact hnot hP
  · intro h m hm
    by_contra hnot
    obtain ⟨j, b, hb, -, hless⟩ := h _ m (getElem?_idxOf_of_mem (argmin_mem hm)) hnot
    have hmem := mem_of_getElem? hb
    rcases hless with hlt | ⟨heq, hj⟩
    · exact absurd hlt (not_lt.mpr (le_of_mem_argmin hmem hm))
    · have hfirst := (index_of_argmin hm hmem heq.le).trans (idxOf_le_of_getElem? hb)
      omega

end List
