import AsciiTerra.World

/-!
# `FixedString`

`Containers/StaticArray.h`. The constructor copies characters until it sees the
terminator one place ahead or the array is full. The characters before the terminator
and the terminator are all that may be read of its argument.
-/

set_option autoImplicit false

namespace AsciiTerra

/-- A string that a `const char*` points to: what stands before the first zero. -/
structure CString where
  chars : List UInt8
  noZero : 0 ∉ chars

/-- What may be read through the pointer. -/
def CString.readable (s : CString) : List UInt8 := s.chars ++ [0]

/-- `FixedString<N>`, the content of its array. -/
abbrev FixedString (n : Nat) := Vector UInt8 n

namespace FixedString
variable {n : Nat}

/-- The loop of the constructor. `charIncStr` is what lies behind the pointer of that name up to
and with the terminator; there is no result when something behind it is read. The index `i`
has 32 bits. -/
def copyChars : List UInt8 → UInt32 → FixedString n → Option (FixedString n)
  | [], i, storage => if i.toNat < n then none else some storage
  | c :: charIncStr, i, storage =>
    if i.toNat < n then
      match charIncStr.head? with
      | none => none
      | some next =>
        if next = 0 then some (storage.setIfInBounds i.toNat c)
        else copyChars charIncStr (i + 1) (storage.setIfInBounds i.toNat c)
    else some storage

/-- `FixedString(const char*)` on what the array held before. -/
def ofCString (storage : FixedString n) (cStr : Option CString) : Option (FixedString n) :=
  match cStr with
  | some s => copyChars s.readable 0 storage
  | none => some storage

/-- The array read as a string, as `strcmp` and `strlen` do: no result without a zero in it. -/
def cString? (storage : FixedString n) : Option (List UInt8) :=
  if 0 ∈ storage.toList then some (storage.toList.takeWhile (· ≠ 0)) else none

/-- All characters of a string, each put at its place modulo `2 ^ 32`. -/
def write (chars : List UInt8) (i : UInt32) (storage : FixedString n) : FixedString n :=
  match chars with
  | [] => storage
  | c :: chars => write chars (i + 1) (storage.setIfInBounds i.toNat c)

theorem copyChars_some {chars : List UInt8} (hne : chars ≠ []) (i : UInt32)
    (storage : FixedString n) : ∃ storage', copyChars (chars ++ [0]) i storage = some storage' := by
  induction chars generalizing i storage with
  | nil => exact absurd rfl hne
  | cons c chars ih =>
    rw [List.cons_append, copyChars]
    split
    · cases chars with
      | nil => exact ⟨_, rfl⟩
      | cons d chars =>
        rw [List.cons_append, List.head?_cons]
        dsimp only
        split
        · exact ⟨_, rfl⟩
        · exact ih (List.cons_ne_nil _ _) _ _
    · exact ⟨storage, rfl⟩

theorem copyChars_eq_write {chars : List UInt8} (hne : chars ≠ []) (hzero : 0 ∉ chars) (i : UInt32)
    (hfits : ∀ k < chars.length, (i + UInt32.ofNat k).toNat < n) (storage : FixedString n) :
    copyChars (chars ++ [0]) i storage = some (write chars i storage) := by
  induction chars generalizing i storage with
  | nil => exact absurd rfl hne
  | cons c chars ih =>
    have hi : i.toNat < n := by simpa using hfits 0 (Nat.succ_pos _)
    rw [List.cons_append, copyChars, if_pos hi]
    cases chars with
    | nil => rfl
    | cons d chars =>
      have hd : d ≠ 0 := by
        rintro rfl
        exact hzero (by simp)
      rw [List.cons_append, List.head?_cons]
      dsimp only
      rw [if_neg hd]
      apply ih (List.cons_ne_nil _ _) (fun h => hzero (List.mem_cons_of_mem _ h))
      intro k hk
      have hnext := hfits (k + 1) (Nat.succ_lt_succ hk)
      rwa [UInt32.ofNat_add, add_comm (UInt32.ofNat k), ← add_assoc] at hnext

theorem write_append (chars : List UInt8) (c : UInt8) (i : UInt32) (storage : FixedString n) :
    write (chars ++ [c]) i storage =
      (write chars i storage).setIfInBounds (i + UInt32.ofNat chars.length).toNat c := by
  induction chars generalizing i storage with
  | nil => simp [write]
  | cons d chars ih =>
    rw [List.cons_append, write, write, ih, List.length_cons, UInt32.ofNat_add,
      add_comm (UInt32.ofNat chars.length), ← add_assoc]
    rfl

theorem toNat_place (k : Nat) : ((0 : UInt32) + UInt32.ofNat k).toNat = k % 2 ^ 32 := by
  rw [zero_add, UInt32.toNat_ofNat']

theorem write_getElem?_of_le {chars : List UInt8} {storage : FixedString n} {k : Nat}
    (h : chars.length ≤ k ∨ 2 ^ 32 ≤ k) : (write chars 0 storage)[k]? = storage[k]? := by
  induction chars using List.reverseRecOn with
  | nil => rfl
  | append_singleton chars c ih =>
    rw [List.length_append, List.length_singleton] at h
    rw [write_append, toNat_place, Vector.getElem?_setIfInBounds, if_neg (by omega)]
    exact ih (by omega)

theorem write_getElem?_last (storage : FixedString n) {chars : List UInt8} {j : Nat}
    (hj : j < chars.length) (hlast : chars.length ≤ j + 2 ^ 32) (hn : j % 2 ^ 32 < n) :
    (write chars 0 storage)[j % 2 ^ 32]? = chars[j]? := by
  induction chars using List.reverseRecOn with
  | nil => exact absurd hj (Nat.not_lt_zero _)
  | append_singleton chars c ih =>
    rw [List.length_append, List.length_singleton] at hj hlast
    rw [write_append, toNat_place, Vector.getElem?_setIfInBounds]
    by_cases hend : j = chars.length
    · subst hend
      rw [if_pos rfl, if_pos hn, List.getElem?_append_right (Nat.le_refl _), Nat.sub_self]
      rfl
    · rw [if_neg (by omega), List.getElem?_append_left (by omega)]
      exact ih (by omega) (by omega)

theorem terminated_prefix_iff {l s : List UInt8} (hzero : 0 ∉ s) :
    0 ∈ l ∧ l.takeWhile (· ≠ 0) = s ↔ s ++ [0] <+: l := by
  induction l generalizing s with
  | nil => simp
  | cons a l ih =>
    cases s with
    | nil =>
      by_cases ha : a = 0
      · simp [ha]
      · simp [ha, Ne.symm ha]
    | cons c s =>
      have hc : c ≠ 0 := by
        rintro rfl
        exact hzero List.mem_cons_self
      rw [List.cons_append, List.cons_prefix_cons,
        ← ih (fun h => hzero (List.mem_cons_of_mem _ h))]
      by_cases ha : a = 0
      · simp [ha, hc]
      · simp [ha, Ne.symm ha, eq_comm (a := c)]
        tauto

theorem cString?_eq_some_iff {storage : FixedString n} {s : List UInt8} (hzero : 0 ∉ s) :
    cString? storage = some s ↔
      storage[s.length]? = some 0 ∧ ∀ j < s.length, storage[j]? = s[j]? := by
  have hstarts : cString? storage = some s ↔ s ++ [0] <+: storage.toList := by
    rw [← terminated_prefix_iff hzero]
    unfold cString?
    split
    · rename_i h
      simp [h]
    · rename_i h
      simp [h]
  have hget : ∀ j : Nat, storage.toList[j]? = storage[j]? := fun j => by simp
  rw [hstarts, List.prefix_iff_getElem?]
  constructor
  · intro h
    refine ⟨?_, ?_⟩
    · simpa [hget] using h s.length (by simp)
    · intro j hj
      have hentry := h j (by simp; omega)
      rw [hget, List.getElem_append_left hj] at hentry
      rw [hentry, List.getElem?_eq_getElem hj]
  · rintro ⟨hend, hchars⟩ j hj
    rw [List.length_append, List.length_singleton] at hj
    rw [hget]
    by_cases hlast : j = s.length
    · subst hlast
      simpa using hend
    · have hlt : j < s.length := by omega
      rw [List.getElem_append_left hlt, hchars j hlt, List.getElem?_eq_getElem hlt]

/-- What the constructor needs of the string and of the array before. The last two conditions only
speak of strings with more than `2 ^ 32` characters, where the index `i` starts again at zero. -/
structure Terminates (storage : FixedString n) (s : CString) : Prop where
  nonempty : s.chars ≠ []
  zeroed : s.chars.length < n → storage[s.chars.length]? = some 0
  kept : s.chars.length < n → ∀ j < s.chars.length, 2 ^ 32 ≤ j → storage[j]? = s.chars[j]?
  repeats : s.chars.length < n → ∀ j < s.chars.length, s.chars.length ≤ j + 2 ^ 32 →
    s.chars[j]? = s.chars[j % 2 ^ 32]?

/-- Nothing behind the terminator is read, and a string that is short enough is what the array
holds then. -/
def HoldsString (storage : FixedString n) (s : CString) : Prop :=
  ∃ storage', ofCString storage (some s) = some storage' ∧
    (s.chars.length < n → cString? storage' = some s.chars)

theorem ofCString_eq_write {storage : FixedString n} {s : CString} (hne : s.chars ≠ [])
    (hlt : s.chars.length < n) :
    ofCString storage (some s) = some (write s.chars 0 storage) := by
  apply copyChars_eq_write hne s.noZero
  intro k hk
  rw [toNat_place]
  omega

theorem cString?_write_iff {storage : FixedString n} {s : CString} (hlt : s.chars.length < n) :
    cString? (write s.chars 0 storage) = some s.chars ↔
      storage[s.chars.length]? = some 0 ∧
      (∀ j < s.chars.length, 2 ^ 32 ≤ j → storage[j]? = s.chars[j]?) ∧
      ∀ j < s.chars.length, s.chars.length ≤ j + 2 ^ 32 → s.chars[j]? = s.chars[j % 2 ^ 32]? := by
  rw [cString?_eq_some_iff s.noZero, write_getElem?_of_le (.inl (Nat.le_refl _))]
  apply and_congr_right
  intro _
  constructor
  · intro h
    refine ⟨?_, ?_⟩
    · intro j hj hlarge
      rw [← h j hj, write_getElem?_of_le (.inr hlarge)]
    · intro j hj hlast
      have hmod := Nat.mod_le j (2 ^ 32)
      rw [← write_getElem?_last storage hj hlast (by omega), h (j % 2 ^ 32) (by omega)]
  · rintro ⟨hkept, hrepeats⟩ j hj
    by_cases hlarge : 2 ^ 32 ≤ j
    · rw [write_getElem?_of_le (.inr hlarge)]
      exact hkept j hj hlarge
    · -- the last character that was put at the place
      let last := j + 2 ^ 32 * ((s.chars.length - 1 - j) / 2 ^ 32)
      have hdiv := Nat.div_add_mod (s.chars.length - 1 - j) (2 ^ 32)
      have hrest := Nat.mod_lt (s.chars.length - 1 - j) (show 0 < 2 ^ 32 by norm_num)
      have hmod : last % 2 ^ 32 = j := by
        rw [Nat.add_mul_mod_self_left, Nat.mod_eq_of_lt (by omega)]
      have hlt : last < s.chars.length := by omega
      have hge : s.chars.length ≤ last + 2 ^ 32 := by omega
      have hwrite := write_getElem?_last storage hlt hge (by omega)
      rw [hmod] at hwrite
      rw [hwrite, hrepeats last hlt hge, hmod]

/-- The constructor is right exactly for a string that is not empty, when the array holds a zero
where the string ends in it. -/
theorem holdsString_iff (storage : FixedString n) (s : CString) (hn : 0 < n) :
    HoldsString storage s ↔ Terminates storage s := by
  constructor
  · rintro ⟨storage', hconstructed, hread⟩
    have hne : s.chars ≠ [] := by
      intro hempty
      have hreads : ofCString storage (some s) = none := by
        change copyChars (s.chars ++ [0]) 0 storage = none
        rw [hempty]
        exact if_pos hn
      rw [hreads] at hconstructed
      cases hconstructed
    by_cases hlt : s.chars.length < n
    · cases hconstructed.symm.trans (ofCString_eq_write hne hlt)
      obtain ⟨hzeroed, hkept, hrepeats⟩ := (cString?_write_iff hlt).mp (hread hlt)
      exact ⟨hne, fun _ => hzeroed, fun _ => hkept, fun _ => hrepeats⟩
    · exact ⟨hne, fun h => absurd h hlt, fun h => absurd h hlt, fun h => absurd h hlt⟩
  · intro h
    by_cases hlt : s.chars.length < n
    · refine ⟨_, ofCString_eq_write h.nonempty hlt, fun _ => ?_⟩
      exact (cString?_write_iff hlt).mpr ⟨h.zeroed hlt, h.kept hlt, h.repeats hlt⟩
    · obtain ⟨storage', hstorage⟩ := copyChars_some h.nonempty 0 storage
      exact ⟨storage', hstorage, fun hlt' => absurd hlt' hlt⟩

theorem Terminates.of_short {storage : FixedString n} {s : CString} (hne : s.chars ≠ [])
    (hshort : s.chars.length ≤ 2 ^ 32)
    (hzeroed : s.chars.length < n → storage[s.chars.length]? = some 0) : Terminates storage s := by
  refine ⟨hne, hzeroed, ?_, ?_⟩
  · intro _ j hj hlarge
    omega
  · intro _ j hj _
    rw [Nat.mod_eq_of_lt (by omega)]

theorem holdsString_apple :
    HoldsString (Vector.replicate 8 0) ⟨cString "Apple", by decide⟩ :=
  (holdsString_iff _ _ (by decide)).mpr
    (Terminates.of_short (by decide) (by decide) (fun _ => by decide))

/-- The empty string is read past its end, and a string in an array that was not zeroed goes on
with what the array held. -/
theorem not_holdsString :
    ofCString (Vector.replicate 8 0) (some ⟨[], by decide⟩) = none ∧
      (ofCString (Vector.replicate 8 120 |>.set 7 0) (some ⟨cString "Bow", by decide⟩)).bind
          cString? = some (cString "Bowxxxx") ∧
      ¬ HoldsString (Vector.replicate 8 0) ⟨[], by decide⟩ := by
  have hreads : ofCString (Vector.replicate 8 0) (some ⟨[], by decide⟩) = none := by decide
  refine ⟨hreads, by decide, ?_⟩
  rintro ⟨storage', hconstructed, -⟩
  cases hreads.symm.trans hconstructed

theorem ofCString_zeroed {s : CString} (hne : s.chars ≠ []) (hlt : s.chars.length < 75) :
    ofCString (Vector.replicate 75 0) (some s) = some (fixedString s.chars) := by
  have hentry : ∀ j < 75, (write s.chars 0 (Vector.replicate 75 0))[j]? =
      some (s.chars.getD j 0) := by
    intro j hj
    by_cases hchar : j < s.chars.length
    · have hlast := write_getElem?_last (Vector.replicate 75 0) hchar (by omega)
        (by omega)
      rw [Nat.mod_eq_of_lt (by omega)] at hlast
      rw [hlast, List.getD_eq_getElem?_getD, List.getElem?_eq_getElem hchar]
      rfl
    · rw [write_getElem?_of_le (.inl (Nat.not_lt.mp hchar)), List.getD_eq_default _ _ (by omega)]
      simp [hj]
  rw [ofCString_eq_write hne hlt]
  refine congrArg some (Vector.ext fun j hj => ?_)
  have hj' := hentry j hj
  rw [Vector.getElem?_eq_getElem hj] at hj'
  simpa [fixedString] using Option.some.inj hj'

end FixedString

end AsciiTerra
