import Mathlib

/-!
# Outcomes of computations with a bounded nesting depth

`Outcome ε α` is the result of running a recursive computation with a budget of
nested calls: a value, a fault, or `deep` when the budget is used up. A
computation given by a family indexed by the budget does not terminate exactly
when every member of the family is `deep`.

`Post` is partial correctness. Its rules for `bind` and `foldlM` carry an
invariant through sequencing and through a loop.
-/

set_option autoImplicit false

universe u v w

/-- Result of a computation whose nesting depth is bounded. -/
inductive Outcome (ε : Type u) (α : Type v) where
  | ok (a : α)
  | fault (e : ε)
  | deep
deriving DecidableEq, Repr

namespace Outcome
variable {ε : Type u} {α β : Type v} {σ : Type v} {ι : Type w}

protected def bind (x : Outcome ε α) (f : α → Outcome ε β) : Outcome ε β :=
  match x with
  | ok a => f a
  | fault e => fault e
  | deep => deep

instance : Monad (Outcome ε) where
  pure := ok
  bind := Outcome.bind

@[simp] theorem pure_eq_ok (a : α) : (pure a : Outcome ε α) = ok a := rfl
@[simp] theorem ok_bind (a : α) (f : α → Outcome ε β) : (ok a >>= f) = f a := rfl
@[simp] theorem fault_bind (e : ε) (f : α → Outcome ε β) : (fault e >>= f) = fault e := rfl
@[simp] theorem deep_bind (f : α → Outcome ε β) : (deep >>= f) = deep := rfl

instance : LawfulMonad (Outcome ε) :=
  LawfulMonad.mk' (Outcome ε) (fun x => by cases x <;> rfl) (fun _ _ => rfl)
    (fun x _ _ => by cases x <;> rfl)

@[simp] theorem bind_ok (x : Outcome ε α) : (x >>= ok) = x := by
  cases x <;> rfl

/-- Embedding of computations that do not recurse. -/
def ofExcept : Except ε α → Outcome ε α
  | .ok a => ok a
  | .error e => fault e

@[simp] theorem ofExcept_ok (a : α) : ofExcept (.ok a : Except ε α) = ok a := rfl
@[simp] theorem ofExcept_error (e : ε) : ofExcept (.error e : Except ε α) = fault e := rfl

theorem ofExcept_eq_ok {x : Except ε α} {a : α} : ofExcept x = ok a ↔ x = .ok a := by
  cases x <;> simp [ofExcept]

theorem ofExcept_ne_deep (x : Except ε α) : ofExcept x ≠ deep := by
  cases x <;> simp [ofExcept]

theorem bind_eq_ok {x : Outcome ε α} {f : α → Outcome ε β} {b : β} :
    (x >>= f) = ok b ↔ ∃ a, x = ok a ∧ f a = ok b := by
  cases x <;> simp

theorem bind_eq_deep {x : Outcome ε α} {f : α → Outcome ε β} :
    (x >>= f) = deep ↔ x = deep ∨ ∃ a, x = ok a ∧ f a = deep := by
  cases x <;> simp

theorem bind_ne_deep {x : Outcome ε α} {f : α → Outcome ε β} (hx : x ≠ deep)
    (hf : ∀ a, x = ok a → f a ≠ deep) : (x >>= f) ≠ deep := by
  intro h
  rcases bind_eq_deep.mp h with h | ⟨a, ha, h⟩
  · exact hx h
  · exact hf a ha h

/-- Every value the computation returns satisfies `P`. -/
def Post (P : α → Prop) (x : Outcome ε α) : Prop := ∀ a, x = ok a → P a

theorem Post.of_ok {P : α → Prop} {a : α} (h : P a) : Post P (ok a : Outcome ε α) := by
  intro b hb
  cases hb
  exact h

theorem Post.of_fault {P : α → Prop} {e : ε} : Post P (fault e : Outcome ε α) :=
  fun _ h => nomatch h

theorem Post.of_deep {P : α → Prop} : Post P (deep : Outcome ε α) :=
  fun _ h => nomatch h

theorem Post.mono {P Q : α → Prop} {x : Outcome ε α} (hx : Post P x) (h : ∀ a, P a → Q a) :
    Post Q x :=
  fun a ha => h a (hx a ha)

theorem Post.bind {P : α → Prop} {Q : β → Prop} {x : Outcome ε α} {f : α → Outcome ε β}
    (hx : Post P x) (hf : ∀ a, P a → Post Q (f a)) : Post Q (x >>= f) := by
  intro b hb
  obtain ⟨a, ha, hfa⟩ := bind_eq_ok.mp hb
  exact hf a (hx a ha) b hfa

theorem Post.and {P Q : α → Prop} {x : Outcome ε α} (hP : Post P x) (hQ : Post Q x) :
    Post (fun a => P a ∧ Q a) x :=
  fun a ha => ⟨hP a ha, hQ a ha⟩

/-- The loop rule: an invariant that every iteration keeps holds after the loop. -/
theorem Post.foldlM {I : σ → Prop} {f : σ → ι → Outcome ε σ} {l : List ι} {s : σ} (hs : I s)
    (hf : ∀ s i, i ∈ l → I s → Post I (f s i)) : Post I (l.foldlM f s) := by
  induction l generalizing s with
  | nil => exact Post.of_ok hs
  | cons i l ih =>
    rw [List.foldlM_cons]
    refine Post.bind (hf s i List.mem_cons_self hs) (fun s' hs' => ?_)
    exact ih hs' (fun t j hj => hf t j (List.mem_cons_of_mem i hj))

/-- The loop rule with the part of the list that is done. -/
theorem Post.foldlM_prefix {I : List ι → σ → Prop} {f : σ → ι → Outcome ε σ} {l : List ι} {s : σ}
    (hs : I [] s) (hf : ∀ before i after s, l = before ++ i :: after → I before s →
      Post (I (before ++ [i])) (f s i)) : Post (I l) (l.foldlM f s) := by
  have go : ∀ (rest before : List ι) (s : σ), l = before ++ rest → I before s →
      Post (I l) (rest.foldlM f s) := by
    intro rest
    induction rest with
    | nil =>
      intro before s hl hs
      rw [List.append_nil] at hl
      rw [hl]
      exact Post.of_ok hs
    | cons i rest ih =>
      intro before s hl hs
      rw [List.foldlM_cons]
      refine Post.bind (hf before i rest s hl hs) fun s' hs' => ih (before ++ [i]) s' ?_ hs'
      rw [hl, List.append_assoc, List.singleton_append]
  exact go l [] s rfl hs

/-- The loop rule for a loop over indices. -/
theorem Post.foldlM_range {I : Nat → σ → Prop} {f : σ → Nat → Outcome ε σ} {n : Nat} {s : σ}
    (hs : I 0 s) (hf : ∀ i s, i < n → I i s → Post (I (i + 1)) (f s i)) :
    Post (I n) ((List.range n).foldlM f s) := by
  induction n with
  | zero => exact Post.of_ok hs
  | succ n ih =>
    rw [List.range_succ, List.foldlM_append]
    refine Post.bind (ih fun i s hi => hf i s (Nat.lt_succ_of_lt hi)) fun s' hs' => ?_
    rw [List.foldlM_cons]
    exact Post.bind (hf n s' (Nat.lt_succ_self n) hs') fun s'' hs'' => Post.of_ok hs''

theorem foldlM_ne_deep {I : σ → Prop} {f : σ → ι → Outcome ε σ} {l : List ι} {s : σ} (hs : I s)
    (hf : ∀ s i, i ∈ l → I s → f s i ≠ deep ∧ Post I (f s i)) : l.foldlM f s ≠ deep := by
  induction l generalizing s with
  | nil => exact fun h => nomatch h
  | cons i l ih =>
    obtain ⟨hd, hI⟩ := hf s i List.mem_cons_self hs
    rw [List.foldlM_cons]
    apply bind_ne_deep hd
    intro s' hs'
    exact ih (hI s' hs') (fun t j hj => hf t j (List.mem_cons_of_mem i hj))

/-- A quantity that no iteration decreases does not decrease in a loop. -/
theorem foldlM_le {f : σ → ι → Outcome ε σ} (μ : σ → Nat)
    (hmono : ∀ s i s', f s i = ok s' → μ s ≤ μ s') {l : List ι} {s t : σ} (h : l.foldlM f s = ok t) :
    μ s ≤ μ t := by
  induction l generalizing s with
  | nil =>
    cases h
    exact Nat.le_refl _
  | cons i l ih =>
    rw [List.foldlM_cons] at h
    obtain ⟨s', hs', h⟩ := bind_eq_ok.mp h
    exact Nat.le_trans (hmono s i s' hs') (ih h)

/-- A loop that leaves such a quantity alone is also run by iterations that agree wherever
the quantity stays. -/
theorem foldlM_transfer {f g : σ → ι → Outcome ε σ} (μ : σ → Nat)
    (hmono : ∀ s i s', f s i = ok s' → μ s ≤ μ s')
    (hagree : ∀ s i s', f s i = ok s' → μ s' = μ s → g s i = ok s') {l : List ι} {s t : σ}
    (h : l.foldlM f s = ok t) (hμ : μ t = μ s) : l.foldlM g s = ok t := by
  induction l generalizing s with
  | nil => exact h
  | cons i l ih =>
    rw [List.foldlM_cons] at h ⊢
    obtain ⟨s', hs', h⟩ := bind_eq_ok.mp h
    have hle := hmono s i s' hs'
    have hle' := foldlM_le μ hmono h
    rw [hagree s i s' hs' (by omega)]
    exact ih h (by omega)

/-- The computation does not end with the fault `e`. -/
def Avoids (e : ε) (x : Outcome ε α) : Prop := x ≠ fault e

theorem Avoids.of_ok {e : ε} (a : α) : Avoids e (ok a) := fun h => nomatch h

theorem Avoids.of_deep {e : ε} : Avoids e (deep : Outcome ε α) := fun h => nomatch h

theorem Avoids.of_fault {e e' : ε} (h : e' ≠ e) : Avoids e (fault e' : Outcome ε α) :=
  fun heq => h (fault.inj heq)

theorem Avoids.bind {e : ε} {x : Outcome ε α} {f : α → Outcome ε β} (hx : Avoids e x)
    (hf : ∀ a, Avoids e (f a)) : Avoids e (x >>= f) := by
  cases x with
  | ok a => exact hf a
  | fault e' => exact Avoids.of_fault fun heq => hx (heq ▸ rfl)
  | deep => exact Avoids.of_deep

theorem Avoids.foldlM {e : ε} {f : σ → ι → Outcome ε σ} (hf : ∀ s i, Avoids e (f s i))
    (l : List ι) (s : σ) : Avoids e (l.foldlM f s) := by
  induction l generalizing s with
  | nil => exact Avoids.of_ok s
  | cons i l ih =>
    rw [List.foldlM_cons]
    exact Avoids.bind (hf s i) fun s' => ih s'

/-- The rule for a continuation that relies on what the first computation returns. -/
theorem Avoids.bind_post {P : α → Prop} {e : ε} {x : Outcome ε α} {f : α → Outcome ε β}
    (hx : Avoids e x) (hP : Post P x) (hf : ∀ a, P a → Avoids e (f a)) : Avoids e (x >>= f) := by
  cases x with
  | ok a => exact hf a (hP a rfl)
  | fault e' => exact Avoids.of_fault fun heq => hx (heq ▸ rfl)
  | deep => exact Avoids.of_deep

/-- The loop rule for iterations that rely on an invariant. -/
theorem Avoids.foldlM_post {I : σ → Prop} {e : ε} {f : σ → ι → Outcome ε σ} {l : List ι} {s : σ}
    (hs : I s) (hf : ∀ s i, i ∈ l → I s → Avoids e (f s i) ∧ Post I (f s i)) :
    Avoids e (l.foldlM f s) := by
  induction l generalizing s with
  | nil => exact Avoids.of_ok s
  | cons i l ih =>
    obtain ⟨hone, hpost⟩ := hf s i List.mem_cons_self hs
    rw [List.foldlM_cons]
    refine Avoids.bind_post hone hpost ?_
    intro s' hs'
    exact ih hs' (fun t j hj => hf t j (List.mem_cons_of_mem i hj))

theorem Avoids.foldlM_range {I : Nat → σ → Prop} {e : ε} {f : σ → Nat → Outcome ε σ} {n : Nat}
    {s : σ} (hs : I 0 s)
    (hf : ∀ i s, i < n → I i s → Avoids e (f s i) ∧ Post (I (i + 1)) (f s i)) :
    Avoids e ((List.range n).foldlM f s) := by
  induction n with
  | zero => exact Avoids.of_ok s
  | succ n ih =>
    have hfirst : ∀ i s, i < n → I i s → Avoids e (f s i) ∧ Post (I (i + 1)) (f s i) :=
      fun i s hi => hf i s (Nat.lt_succ_of_lt hi)
    rw [List.range_succ, List.foldlM_append]
    refine Avoids.bind_post (ih hfirst) (Post.foldlM_range hs fun i s hi h => (hfirst i s hi h).2) ?_
    intro s' hs'
    rw [List.foldlM_cons]
    exact Avoids.bind (hf n s' (Nat.lt_succ_self n) hs').1 fun s'' => Avoids.of_ok s''

theorem Avoids.of_except {e : ε} {x : Except ε α} (h : x ≠ .error e) : Avoids e (ofExcept x) := by
  cases x with
  | ok a => exact Avoids.of_ok a
  | error e' => exact Avoids.of_fault fun heq => h (heq ▸ rfl)

/-- Where a computation is cut off. -/
def stop : Option ε → Outcome ε α
  | none => deep
  | some e => fault e

theorem ok_ne_stop (a : α) (m : Option ε) : ok a ≠ stop m := by
  cases m with
  | none => exact fun h => nomatch h
  | some e => exact fun h => nomatch h

@[simp] theorem stop_bind (m : Option ε) (f : α → Outcome ε β) : (stop m >>= f) = stop m := by
  cases m <;> rfl

theorem Post.of_stop {P : α → Prop} (m : Option ε) : Post P (stop m : Outcome ε α) :=
  fun a h => absurd h.symm (ok_ne_stop a m)

/-- Unless `x` is cut off, `y` comes to the same. -/
def Below (m : Option ε) (x y : Outcome ε α) : Prop := x ≠ stop m → y = x

variable {m : Option ε}

theorem Below.refl (x : Outcome ε α) : Below m x x := fun _ => rfl

theorem Below.of_stop (y : Outcome ε α) : Below m (stop m) y := fun h => absurd rfl h

theorem Below.bind_post {P : α → Prop} {x y : Outcome ε α} {f g : α → Outcome ε β}
    (hxy : Below m x y) (hP : Post P x) (hfg : ∀ a, P a → Below m (f a) (g a)) :
    Below m (x >>= f) (y >>= g) := by
  intro h
  have hx : x ≠ stop m := by
    rintro rfl
    exact h (stop_bind m f)
  rw [hxy hx]
  cases x with
  | ok a => exact hfg a (hP a rfl) h
  | fault e => rfl
  | deep => rfl

theorem Below.bind {x y : Outcome ε α} {f g : α → Outcome ε β} (hxy : Below m x y)
    (hfg : ∀ a, Below m (f a) (g a)) : Below m (x >>= f) (y >>= g) :=
  .bind_post (P := fun _ => True) hxy (fun _ _ => trivial) fun a _ => hfg a

theorem Below.foldlM {f g : σ → ι → Outcome ε σ} (hfg : ∀ s i, Below m (f s i) (g s i))
    (l : List ι) (s : σ) : Below m (l.foldlM f s) (l.foldlM g s) := by
  induction l generalizing s with
  | nil => exact .refl _
  | cons i l ih =>
    rw [List.foldlM_cons, List.foldlM_cons]
    exact .bind (hfg s i) ih

theorem Below.post {P : α → Prop} {x y : Outcome ε α} (hxy : Below m x y) (hy : Post P y) :
    Post P x := by
  intro a ha
  apply hy a
  rw [hxy (ha ▸ ok_ne_stop a m), ha]

/-- A computation that does not depend on where it is cut off is not cut off. -/
theorem Below.eq_of_forall [Inhabited ε] {x : Option ε → Outcome ε α} {y : Outcome ε α}
    (hxy : ∀ m, Below m (x m) y) (hx : ∀ m m', x m = x m') (m : Option ε) : y = x m := by
  by_cases hdeep : x none = deep
  · have hfault : x (some default) ≠ stop (some default) := by
      rw [hx (some default) none, hdeep]
      exact fun h => nomatch h
    rw [hxy _ hfault]
    exact hx _ _
  · rw [hxy none hdeep]
    exact hx _ _

end Outcome
