import Mathlib

/-!
# Bounded double-ended queues on a ring of slots

`Deque.perform` is a double-ended queue that holds at most `c` elements. A ring of `c`
slots stores one when its `k`-th element is `k` slots behind the slot of the front. The
lemmas say how the slot of the front and the slots move with each operation.
-/

set_option autoImplicit false

universe u

namespace Deque
variable {α : Type u}

inductive Operation (α : Type u)
  | pushFront (a : α)
  | pushBack (a : α)
  | popFront
  | popBack
  | peekFront
  | peekBack
  | clear

/-- What an operation lets its caller see. -/
inductive Observation (α : Type u)
  | pushed (accepted : Bool)
  | element (a : Option α)
  | cleared

/-- A queue of at most `c` elements, the front first. -/
def perform (c : Nat) (q : List α) : Operation α → Observation α × List α
  | .pushFront a => if q.length < c then (.pushed true, a :: q) else (.pushed false, q)
  | .pushBack a => if q.length < c then (.pushed true, q ++ [a]) else (.pushed false, q)
  | .popFront => (.element q.head?, q.tail)
  | .popBack => (.element q.getLast?, q.dropLast)
  | .peekFront => (.element q.head?, q)
  | .peekBack => (.element q.getLast?, q)
  | .clear => (.cleared, [])

/-- The queue after a list of operations. -/
def after (c : Nat) (q : List α) (ops : List (Operation α)) : List α :=
  ops.foldl (fun q op => (perform c q op).2) q

end Deque

namespace Ring
variable {α : Type u} {c head : Nat} {slots : List α} {q : List α}

/-- The slot `k` steps behind `head` on a ring of `c` slots. -/
def behind (c head k : Nat) : Nat := if k ≤ head then head - k else head + c - k

/-- The slot one step ahead. -/
def ahead (c head : Nat) : Nat := if head = c - 1 then 0 else head + 1

theorem behind_lt {k : Nat} (hhead : head < c) : behind c head k < c := by
  unfold behind
  split <;> omega

@[simp] theorem behind_zero : behind c head 0 = head := by simp [behind]

theorem ahead_lt (hhead : head < c) : ahead c head < c := by
  unfold ahead
  split <;> omega

theorem behind_ne {k l : Nat} (hkl : k < l) (hl : l < c) :
    behind c head k ≠ behind c head l := by
  unfold behind
  split <;> split <;> omega

theorem behind_succ {k : Nat} (hhead : head < c) (hk : k < c) :
    behind c head (k + 1) = if behind c head k = 0 then c - 1 else behind c head k - 1 := by
  unfold behind
  split_ifs <;> omega

theorem behind_behind {k : Nat} (hhead : head < c) (hk : k + 1 < c) :
    behind c (behind c head 1) k = behind c head (k + 1) := by
  unfold behind
  split <;> split <;> split <;> omega

theorem behind_ahead {k : Nat} (hhead : head < c) (hk : k + 1 < c) :
    behind c (ahead c head) (k + 1) = behind c head k := by
  unfold behind ahead
  split <;> split <;> split <;> omega

/-- The slots of the front and of those behind it lie on the ring from the last one on. -/
theorem exists_behind_iff {n i : Nat} (hn : 0 < n) (hnc : n ≤ c) :
    (∃ k < n, behind c head k = i) ↔
      if behind c head (n - 1) ≤ head then behind c head (n - 1) ≤ i ∧ i ≤ head
      else behind c head (n - 1) ≤ i ∧ i < c ∨ i ≤ head := by
  constructor
  · rintro ⟨k, hk, rfl⟩
    unfold behind
    split_ifs <;> omega
  · intro h
    refine ⟨if i ≤ head then head - i else head + c - i, ?_, ?_⟩
    · unfold behind at h
      split_ifs at h ⊢ <;> omega
    · unfold behind at h ⊢
      split_ifs at h ⊢ <;> omega

/-- The first `n` slots are those of the front and the `n - 1` behind it exactly when these end
at the first slot or take the whole ring. -/
theorem forall_lt_iff_exists_behind {n : Nat} (hhead : head < c) (hn : 0 < n) (hnc : n ≤ c) :
    (∀ i, i < n ↔ ∃ k < n, behind c head k = i) ↔ head + 1 = n ∨ n = c := by
  constructor
  · intro h
    have hfront : head < n := (h head).mpr ⟨0, hn, behind_zero⟩
    by_contra hne
    -- the ring wraps, so that its last slot is among them
    have hlast : behind c head (head + 1) = c - 1 := by
      unfold behind
      rw [if_neg (by omega)]
      omega
    have hlt := (h (c - 1)).mpr ⟨head + 1, by omega, hlast⟩
    omega
  · intro h i
    rw [exists_behind_iff hn hnc]
    unfold behind
    split_ifs <;> omega

/-- The `k`-th element of the queue is `k` slots behind the front. -/
def Stored (slots : List α) (c head : Nat) (q : List α) : Prop :=
  ∀ k, k < q.length → slots[behind c head k]? = q[k]?

theorem Stored.nil : Stored slots c head [] := fun _ hk => absurd hk (Nat.not_lt_zero _)

theorem Stored.exists_of_lt {n : Nat} (h : ∀ k < n, behind c head k < slots.length) :
    ∃ q : List α, q.length = n ∧ Stored slots c head q := by
  refine ⟨List.ofFn fun k : Fin n => slots.get ⟨behind c head k, h k k.isLt⟩, List.length_ofFn, ?_⟩
  intro k hk
  rw [List.length_ofFn] at hk
  rw [List.getElem?_eq_getElem (h k hk), List.getElem?_ofFn, dif_pos hk]
  rfl

theorem Stored.singleton {a : α} (hlen : head < slots.length) :
    Stored (slots.set head a) c head [a] := by
  intro k hk
  have hk0 : k = 0 := by simpa using hk
  subst hk0
  simp [hlen]

theorem Stored.pushFront (h : Stored slots c head q) (hhead : head < c) (hq : q.length < c)
    (hslot : ahead c head < slots.length) (a : α) :
    Stored (slots.set (ahead c head) a) c (ahead c head) (a :: q) := by
  intro k hk
  cases k with
  | zero => simp [hslot]
  | succ k =>
    rw [List.length_cons] at hk
    have hne : ahead c head ≠ behind c head k := by
      rw [← behind_ahead hhead (by omega)]
      have hzero : behind c (ahead c head) 0 ≠ behind c (ahead c head) (k + 1) :=
        behind_ne (Nat.succ_pos k) (by omega)
      rwa [behind_zero] at hzero
    rw [behind_ahead hhead (by omega), List.getElem?_set_ne hne, List.getElem?_cons_succ]
    exact h k (by omega)

theorem Stored.pushBack (h : Stored slots c head q) (hq : q.length < c)
    (hslot : behind c head q.length < slots.length) (a : α) :
    Stored (slots.set (behind c head q.length) a) c head (q ++ [a]) := by
  intro k hk
  rw [List.length_append, List.length_singleton] at hk
  by_cases hlast : k = q.length
  · subst hlast
    simp [hslot]
  · have hlt : k < q.length := by omega
    rw [List.getElem?_set_ne (behind_ne hlt hq).symm, List.getElem?_append_left hlt]
    exact h k hlt

theorem Stored.popFront (h : Stored slots c head q) (hhead : head < c) (hq : q.length ≤ c) :
    Stored slots c (behind c head 1) q.tail := by
  intro k hk
  rw [List.length_tail] at hk
  rw [behind_behind hhead (by omega), List.getElem?_tail]
  exact h (k + 1) (by omega)

theorem Stored.popBack (h : Stored slots c head q) : Stored slots c head q.dropLast := by
  intro k hk
  rw [List.length_dropLast] at hk
  rw [List.getElem?_dropLast, if_pos hk]
  exact h k (by omega)

theorem Stored.front (h : Stored slots c head q) (hq : q ≠ []) : slots[head]? = q.head? := by
  have hzero := h 0 (List.length_pos_iff.mpr hq)
  rwa [behind_zero, ← List.head?_eq_getElem?] at hzero

theorem Stored.back (h : Stored slots c head q) (hq : q ≠ []) :
    slots[behind c head (q.length - 1)]? = q.getLast? := by
  have hpos := List.length_pos_iff.mpr hq
  rw [h _ (by omega), List.getLast?_eq_getElem?]

end Ring
