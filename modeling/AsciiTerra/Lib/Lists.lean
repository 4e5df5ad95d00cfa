import Mathlib

/-!
# Lists changed in place

Rules for updates of single elements: a reflexive and transitive relation between an
element and what becomes of it.
-/

set_option autoImplicit false

universe u

namespace List
variable {α : Type u} {R : α → α → Prop}

theorem forall₂_modify (hrefl : ∀ x, R x x) {f : α → α} {l : List α} {i : Nat}
    (hf : ∀ x, l[i]? = some x → R x (f x)) : Forall₂ R l (l.modify i f) := by
  induction l generalizing i with
  | nil => cases i <;> simp
  | cons x l ih =>
    cases i with
    | zero => exact .cons (hf x rfl) (forall₂_same.mpr fun y _ => hrefl y)
    | succ i => exact .cons (hrefl x) (ih fun y hy => hf y (by simpa using hy))

theorem Forall₂.trans_of (htrans : ∀ x y z, R x y → R y z → R x z) {l m n : List α}
    (h : Forall₂ R l m) (h' : Forall₂ R m n) : Forall₂ R l n := by
  induction h generalizing n with
  | nil => exact h'
  | cons hxy _ ih =>
    cases h' with
    | cons hyz htail => exact .cons (htrans _ _ _ hxy hyz) (ih htail)

theorem forall₂_foldl_modify (hrefl : ∀ x, R x x) (htrans : ∀ x y z, R x y → R y z → R x z)
    {f : α → α} (hf : ∀ x, R x (f x)) (is : List Nat) (l : List α) :
    Forall₂ R l (is.foldl (fun l i => l.modify i f) l) := by
  induction is generalizing l with
  | nil => exact forall₂_same.mpr fun x _ => hrefl x
  | cons i is ih =>
    exact Forall₂.trans_of htrans (forall₂_modify hrefl fun x _ => hf x) (ih (l.modify i f))

theorem Forall₂.getElem?_eq_some {S : α → α → Prop} {l m : List α} (h : Forall₂ S l m) {i : Nat}
    {x : α} (hx : l[i]? = some x) : ∃ y, m[i]? = some y ∧ S x y := by
  induction h generalizing i with
  | nil => simp at hx
  | cons hxy _ ih =>
    cases i with
    | zero =>
      cases hx
      exact ⟨_, rfl, hxy⟩
    | succ i => simpa using ih (by simpa using hx)

theorem Forall₂.forall_mem {S : α → α → Prop} {P : α → Prop} {l m : List α} (h : Forall₂ S l m)
    (hP : ∀ x y, S x y → P x → P y) (hl : ∀ x ∈ l, P x) : ∀ y ∈ m, P y := by
  intro y hy
  obtain ⟨i, hi⟩ := getElem?_of_mem hy
  obtain ⟨x, hx, hxy⟩ := h.flip.getElem?_eq_some hi
  exact hP x y hxy (hl x (mem_of_getElem? hx))

theorem getElem?_foldl_modify {f : α → α} (is : List Nat) (l : List α) (j : Nat) :
    (is.foldl (fun l i => l.modify i f) l)[j]? = l[j]?.map f^[is.count j] := by
  induction is generalizing l with
  | nil => simp
  | cons i is ih =>
    rw [foldl_cons, ih, getElem?_modify]
    by_cases hij : i = j
    · subst i
      cases l[j]? <;> simp
    · cases l[j]? <;> simp [hij]

theorem foldl_modify_eq_self {f : α → α} {is : List Nat} {l : List α}
    (h : ∀ i ∈ is, ∀ x, l[i]? = some x → f x = x) :
    is.foldl (fun l i => l.modify i f) l = l := by
  induction is with
  | nil => rfl
  | cons i is ih =>
    have hsame : l.modify i f = l := by
      refine ext_getElem? fun j => ?_
      rw [getElem?_modify]
      cases hj : l[j]? with
      | none => rfl
      | some x =>
        by_cases hij : i = j
        · subst i
          simp [h j mem_cons_self x hj]
        · simp [hij]
    rw [foldl_cons, hsame]
    exact ih fun i' hi' => h i' (mem_cons_of_mem i hi')

/-- As many elements pass a weaker test only if each of them passes the stronger one. -/
theorem forall_of_length_filter {P Q : α → Bool} {l : List α}
    (hPQ : ∀ a, Q a = true → P a = true) (h : (l.filter P).length = (l.filter Q).length) :
    ∀ a ∈ l, P a = true → Q a = true := by
  intro a ha hP
  have hsub : (l.filter Q).Sublist (l.filter P) := monotone_filter_right l hPQ
  have heq := hsub.eq_of_length h.symm
  exact (mem_filter.mp (heq ▸ mem_filter.mpr ⟨ha, hP⟩)).2

end List
