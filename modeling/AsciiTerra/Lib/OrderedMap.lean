import Mathlib
import AsciiTerra.Lib.Lists

/-!
# Hash maps as keyed lists with an iteration order

`AList` supplies lookup and erasure. Its entry list is the iteration order: erasing
and assigning keep it, and an insertion of a new key may rearrange it in any way,
which an `Arrangement` chooses.
-/

set_option autoImplicit false

universe u v

/-- A choice of iteration order: any rearrangement. -/
structure Arrangement (α : Type u) where
  arrange : List α → List α
  perm : ∀ l, (arrange l).Perm l

/-- New entries come first. -/
def Arrangement.same (α : Type u) : Arrangement α := ⟨id, fun _ => .refl _⟩

/-- Keyed entries in iteration order. -/
abbrev OrderedMap (κ : Type u) (ν : Type v) := AList (fun _ : κ => ν)

namespace OrderedMap
variable {κ : Type u} {ν : Type v}

/-- An entry of the map: what an iterator designates. -/
abbrev Entry (κ : Type u) (ν : Type v) := (_ : κ) × ν

/-- Two maps with the same keys in the same order and related records. -/
def Related (R : ν → ν → Prop) (m m' : OrderedMap κ ν) : Prop :=
  List.Forall₂ (fun e e' => e'.1 = e.1 ∧ R e.2 e'.2) m.entries m'.entries

namespace Related
variable {R : ν → ν → Prop} {m m' m'' : OrderedMap κ ν}

theorem refl (hrefl : ∀ v, R v v) (m : OrderedMap κ ν) : Related R m m :=
  List.forall₂_same.mpr fun e _ => ⟨rfl, hrefl e.2⟩

theorem trans (htrans : ∀ x y z, R x y → R y z → R x z) (h : Related R m m')
    (h' : Related R m' m'') : Related R m m'' :=
  List.Forall₂.trans_of
    (fun _ _ _ hxy hyz => ⟨hyz.1.trans hxy.1, htrans _ _ _ hxy.2 hyz.2⟩) h h'

theorem imp {S : ν → ν → Prop} (hRS : ∀ v v', R v v' → S v v') (h : Related R m m') :
    Related S m m' :=
  List.Forall₂.imp (fun _ _ he => ⟨he.1, hRS _ _ he.2⟩) h

theorem keys_eq (h : Related R m m') : m'.keys = m.keys := by
  unfold Related at h
  unfold AList.keys List.keys
  generalize m.entries = l at h
  generalize m'.entries = l' at h
  induction h with
  | nil => rfl
  | cons he _ ih => rw [List.map_cons, List.map_cons, he.1, ih]

theorem mem_iff (h : Related R m m') {k : κ} : k ∈ m' ↔ k ∈ m := by
  rw [AList.mem_keys, h.keys_eq, AList.mem_keys]

theorem forall_entries (h : Related R m m') {P : κ → ν → Prop}
    (hP : ∀ k v v', R v v' → P k v → P k v') (hm : ∀ e ∈ m.entries, P e.1 e.2) :
    ∀ e ∈ m'.entries, P e.1 e.2 := by
  intro e' he'
  obtain ⟨i, hi, rfl⟩ := List.getElem_of_mem he'
  obtain ⟨e, he, hkey, hR⟩ := List.Forall₂.getElem?_eq_some h.flip
    (List.getElem?_eq_some_iff.mpr ⟨hi, rfl⟩)
  rw [hkey]
  exact hP _ _ _ hR (hm e (List.mem_of_getElem? he))

theorem lookup [DecidableEq κ] (h : Related R m m') {k : κ} {v : ν} (hv : m.lookup k = some v) :
    ∃ v', m'.lookup k = some v' ∧ R v v' := by
  obtain ⟨i, hi, hget⟩ := List.getElem_of_mem (AList.mem_lookup_iff.mp hv)
  obtain ⟨⟨a, v'⟩, he, hkey, hR⟩ :=
    List.Forall₂.getElem?_eq_some h (List.getElem?_eq_some_iff.mpr ⟨hi, hget⟩)
  cases hkey
  exact ⟨v', AList.mem_lookup_iff.mpr (List.mem_of_getElem? he), hR⟩

end Related

theorem mem_of_mem_entries {m : OrderedMap κ ν} {e : Entry κ ν} (h : e ∈ m.entries) :
    e.1 ∈ m :=
  AList.mem_keys.mpr (List.mem_keys_of_mem h)

variable [DecidableEq κ]

def modifyEntry (k : κ) (f : ν → ν) (e : Entry κ ν) : Entry κ ν :=
  ⟨e.1, if e.1 = k then f e.2 else e.2⟩

theorem keys_map_modifyEntry (k : κ) (f : ν → ν) (l : List (Entry κ ν)) :
    (l.map (modifyEntry k f)).keys = l.keys := by
  simp [List.keys, modifyEntry, Function.comp_def]

theorem dlookup_cons (a : κ) (e : Entry κ ν) (l : List (Entry κ ν)) :
    (e :: l).dlookup a = if a = e.1 then some e.2 else l.dlookup a := by
  obtain ⟨b, v⟩ := e
  by_cases h : a = b
  · subst b
    simp
  · simp only [h, if_false]
    exact List.dlookup_cons_ne l ⟨b, v⟩ h

theorem dlookup_map_modifyEntry (k : κ) (f : ν → ν) (a : κ) (l : List (Entry κ ν)) :
    (l.map (modifyEntry k f)).dlookup a =
      if a = k then (l.dlookup a).map f else l.dlookup a := by
  induction l with
  | nil => simp
  | cons e l ih =>
    rw [List.map_cons, dlookup_cons, dlookup_cons, ih]
    by_cases hae : a = e.1 <;> by_cases hak : a = k <;> simp_all [modifyEntry]

/-- Change of the record stored under a key, in place. -/
def modify (k : κ) (f : ν → ν) (m : OrderedMap κ ν) : OrderedMap κ ν where
  entries := m.entries.map (modifyEntry k f)
  nodupKeys := by
    rw [List.NodupKeys, keys_map_modifyEntry]
    exact m.nodupKeys

@[simp] theorem keys_modify (k : κ) (f : ν → ν) (m : OrderedMap κ ν) :
    (modify k f m).keys = m.keys :=
  keys_map_modifyEntry k f m.entries

@[simp] theorem mem_modify {k a : κ} {f : ν → ν} {m : OrderedMap κ ν} :
    a ∈ modify k f m ↔ a ∈ m := by
  rw [AList.mem_keys, keys_modify, AList.mem_keys]

theorem lookup_modify (k : κ) (f : ν → ν) (a : κ) (m : OrderedMap κ ν) :
    (modify k f m).lookup a = if a = k then (m.lookup a).map f else m.lookup a :=
  dlookup_map_modifyEntry k f a m.entries

@[simp] theorem lookup_modify_self (k : κ) (f : ν → ν) (m : OrderedMap κ ν) :
    (modify k f m).lookup k = (m.lookup k).map f := by
  simp [lookup_modify]

theorem lookup_modify_ne {k a : κ} (h : a ≠ k) (f : ν → ν) (m : OrderedMap κ ν) :
    (modify k f m).lookup a = m.lookup a := by
  simp [lookup_modify, h]

theorem Related.modify {R : ν → ν → Prop} (hrefl : ∀ v, R v v) {k : κ} {f : ν → ν}
    {m : OrderedMap κ ν} (hf : ∀ v, m.lookup k = some v → R v (f v)) :
    Related R m (OrderedMap.modify k f m) := by
  unfold Related OrderedMap.modify
  rw [List.forall₂_map_right_iff, List.forall₂_same]
  intro e he
  refine ⟨rfl, ?_⟩
  unfold modifyEntry
  split
  · rename_i hk
    exact hf e.2 (hk ▸ AList.mem_lookup_iff.mpr he)
  · exact hrefl e.2

def insertLast (k : κ) (v : ν) (m : OrderedMap κ ν) (h : k ∉ m) : OrderedMap κ ν where
  entries := m.entries ++ [⟨k, v⟩]
  nodupKeys := by
    have hcons : (⟨k, v⟩ :: (m.entries ++ [])).NodupKeys := by
      rw [List.append_nil]
      exact List.nodupKeys_cons.mpr ⟨h, m.nodupKeys⟩
    exact List.nodupKeys_middle.mpr hcons

/-- The subscript operator: a missing key is inserted with a default record. -/
def modifyOrInsert (default : ν) (k : κ) (f : ν → ν) (m : OrderedMap κ ν) : OrderedMap κ ν :=
  if h : k ∈ m then modify k f m else insertLast k (f default) m h

theorem modifyOrInsert_of_mem {default : ν} {k : κ} {f : ν → ν} {m : OrderedMap κ ν}
    (h : k ∈ m) : modifyOrInsert default k f m = modify k f m := by
  simp [modifyOrInsert, h]

/-- The effect of repeated updates of present keys is counted per key. -/
theorem lookup_foldl_modifyOrInsert {default : ν} {f : ν → ν} (a : κ) {ks : List κ}
    {m : OrderedMap κ ν} (h : ∀ k ∈ ks, k ∈ m) :
    (ks.foldl (fun m k => modifyOrInsert default k f m) m).lookup a =
      (m.lookup a).map f^[ks.count a] := by
  induction ks generalizing m with
  | nil => simp
  | cons k ks ih =>
    have hk : modifyOrInsert default k f m = modify k f m :=
      modifyOrInsert_of_mem (h k List.mem_cons_self)
    rw [List.foldl_cons, hk,
      ih fun k' hk' => mem_modify.mpr (h k' (List.mem_cons_of_mem k hk')), lookup_modify]
    by_cases hak : a = k
    · subst k
      cases m.lookup a <;> simp
    · have hka : k ≠ a := fun hka => hak hka.symm
      cases m.lookup a <;> simp [hak, hka]

theorem mem_modifyOrInsert {default : ν} {k a : κ} {f : ν → ν} {m : OrderedMap κ ν} :
    a ∈ modifyOrInsert default k f m ↔ a = k ∨ a ∈ m := by
  unfold modifyOrInsert
  split
  · rename_i hk
    rw [mem_modify]
    exact ⟨.inr, fun h => h.elim (fun hak => hak ▸ hk) id⟩
  · rw [AList.mem_keys, AList.mem_keys, AList.keys, insertLast, List.keys_append, List.mem_append,
      or_comm]
    simp [List.keys, AList.keys]

theorem lookup_modifyOrInsert_of_mem {default : ν} {k a : κ} {f : ν → ν} {m : OrderedMap κ ν}
    (ha : a ∈ m) : (modifyOrInsert default k f m).lookup a =
      if a = k then (m.lookup a).map f else m.lookup a := by
  unfold modifyOrInsert
  split
  · exact lookup_modify k f a m
  · rename_i hk
    have hak : a ≠ k := fun hak => hk (hak ▸ ha)
    obtain ⟨v, hv⟩ := Option.isSome_iff_exists.mp (AList.lookup_isSome.mpr ha)
    rw [if_neg hak, hv]
    exact AList.mem_lookup_iff.mpr (List.mem_append_left _ (AList.mem_lookup_iff.mp hv))

theorem mem_foldl_modifyOrInsert {default : ν} {f : ν → ν} {a : κ} {ks : List κ}
    {m : OrderedMap κ ν} :
    a ∈ ks.foldl (fun m k => modifyOrInsert default k f m) m ↔ a ∈ ks ∨ a ∈ m := by
  induction ks generalizing m with
  | nil => simp
  | cons k ks ih => rw [List.foldl_cons, ih, mem_modifyOrInsert, List.mem_cons, or_left_comm, or_assoc]

theorem lookup_foldl_modifyOrInsert_of_mem {default : ν} {f : ν → ν} {a : κ} {ks : List κ}
    {m : OrderedMap κ ν} (ha : a ∈ m) :
    (ks.foldl (fun m k => modifyOrInsert default k f m) m).lookup a =
      (m.lookup a).map f^[ks.count a] := by
  induction ks generalizing m with
  | nil => simp
  | cons k ks ih =>
    rw [List.foldl_cons, ih (mem_modifyOrInsert.mpr (.inr ha)), lookup_modifyOrInsert_of_mem ha]
    by_cases hak : a = k
    · subst k
      cases m.lookup a <;> simp
    · have hka : k ≠ a := fun hka => hak hka.symm
      cases m.lookup a <;> simp [hak, hka]

theorem modify_congr {k : κ} {f g : ν → ν} {m : OrderedMap κ ν}
    (h : ∀ v, m.lookup k = some v → f v = g v) : modify k f m = modify k g m := by
  apply AList.ext
  refine List.map_congr_left fun e he => ?_
  unfold modifyEntry
  split
  · rename_i hek
    rw [h e.2 (hek ▸ AList.mem_lookup_iff.mpr he)]
  · rfl

theorem modify_modify (k : κ) (f g : ν → ν) (m : OrderedMap κ ν) :
    modify k f (modify k g m) = modify k (fun v => f (g v)) m := by
  apply AList.ext
  refine List.map_map.trans (List.map_congr_left fun e _ => ?_)
  by_cases hek : e.1 = k
  · simp [modifyEntry, hek]
  · simp [modifyEntry, hek]

theorem modify_eq_self {k : κ} {f : ν → ν} {m : OrderedMap κ ν}
    (h : ∀ v, m.lookup k = some v → f v = v) : modify k f m = m := by
  rw [modify_congr (show ∀ v, m.lookup k = some v → f v = id v from h)]
  apply AList.ext
  refine (List.map_congr_left fun e _ => ?_).trans (List.map_id _)
  unfold modifyEntry
  split <;> rfl

theorem foldl_modifyOrInsert_eq_self {default : ν} {f : ν → ν} {ks : List κ} {m : OrderedMap κ ν}
    (h : ∀ k ∈ ks, ∃ v, m.lookup k = some v ∧ f v = v) :
    ks.foldl (fun m k => modifyOrInsert default k f m) m = m := by
  induction ks with
  | nil => rfl
  | cons k ks ih =>
    obtain ⟨v, hv, hfix⟩ := h k List.mem_cons_self
    have hk : k ∈ m := AList.lookup_isSome.mp (by rw [hv]; rfl)
    have hsame : modifyOrInsert default k f m = m := by
      rw [modifyOrInsert_of_mem hk]
      refine modify_eq_self fun v' hv' => ?_
      cases hv.symm.trans hv'
      exact hfix
    rw [List.foldl_cons, hsame]
    exact ih fun k' hk' => h k' (List.mem_cons_of_mem k hk')

theorem forall_modifyOrInsert {P : ν → Prop} {default : ν} {k : κ} {f : ν → ν}
    {m : OrderedMap κ ν} (hd : P (f default)) (hf : ∀ v, P v → P (f v))
    (h : ∀ e ∈ m.entries, P e.2) : ∀ e ∈ (modifyOrInsert default k f m).entries, P e.2 := by
  intro e he
  unfold modifyOrInsert at he
  split at he
  · obtain ⟨e', he', rfl⟩ := List.mem_map.mp he
    unfold modifyEntry
    split
    · exact hf _ (h e' he')
    · exact h e' he'
  · rcases List.mem_append.mp he with he | he
    · exact h e he
    · cases List.mem_singleton.mp he
      exact hd

/-- Assignment to a key that is there, insertion at any place of one that is not. -/
def insertOrAssign (order : Arrangement (Entry κ ν)) (k : κ) (v : ν) (m : OrderedMap κ ν) :
    OrderedMap κ ν :=
  if h : k ∈ m then modify k (fun _ => v) m
  else
    { entries := order.arrange (⟨k, v⟩ :: m.entries)
      nodupKeys := (List.perm_nodupKeys (order.perm _)).mpr
        (List.nodupKeys_cons.mpr ⟨h, m.nodupKeys⟩) }

theorem lookup_insertOrAssign (order : Arrangement (Entry κ ν)) (k : κ) (v : ν) (a : κ)
    (m : OrderedMap κ ν) :
    (insertOrAssign order k v m).lookup a = if a = k then some v else m.lookup a := by
  unfold insertOrAssign
  split
  · rename_i h
    by_cases hak : a = k
    · subst a
      obtain ⟨w, hw⟩ := Option.isSome_iff_exists.mp (AList.lookup_isSome.mpr h)
      simp [hw]
    · simp [lookup_modify_ne hak, hak]
  · rename_i h
    let cons : OrderedMap κ ν := ⟨⟨k, v⟩ :: m.entries, List.nodupKeys_cons.mpr ⟨h, m.nodupKeys⟩⟩
    have hperm : (order.arrange (⟨k, v⟩ :: m.entries)).Perm cons.entries := order.perm _
    have hlookup : cons.lookup a = if a = k then some v else m.lookup a :=
      dlookup_cons a ⟨k, v⟩ m.entries
    rw [← hlookup]
    exact AList.perm_lookup hperm

@[simp] theorem lookup_insertOrAssign_self (order : Arrangement (Entry κ ν)) (k : κ) (v : ν)
    (m : OrderedMap κ ν) : (insertOrAssign order k v m).lookup k = some v := by
  simp [lookup_insertOrAssign]

theorem lookup_insertOrAssign_ne (order : Arrangement (Entry κ ν)) {k a : κ} (h : a ≠ k) (v : ν)
    (m : OrderedMap κ ν) : (insertOrAssign order k v m).lookup a = m.lookup a := by
  simp [lookup_insertOrAssign, h]

theorem mem_insertOrAssign {order : Arrangement (Entry κ ν)} {k a : κ} {v : ν}
    {m : OrderedMap κ ν} : a ∈ insertOrAssign order k v m ↔ a = k ∨ a ∈ m := by
  rw [← AList.lookup_isSome, lookup_insertOrAssign, ← AList.lookup_isSome]
  by_cases h : a = k <;> simp [h]

/-- What iteration still has to visit after a key. -/
def after (k : κ) (m : OrderedMap κ ν) : List (Entry κ ν) :=
  (m.entries.dropWhile (fun e => e.1 ≠ k)).tail

theorem entries_eq_after {k : κ} {m : OrderedMap κ ν} (h : k ∈ m) :
    ∃ before v, m.entries = before ++ ⟨k, v⟩ :: after k m ∧ k ∉ before.keys := by
  refine ⟨m.entries.takeWhile (fun e => e.1 ≠ k), ?_⟩
  have hsplit := List.takeWhile_append_dropWhile (p := fun e : Entry κ ν => e.1 ≠ k)
    (l := m.entries)
  have hbefore : k ∉ (m.entries.takeWhile (fun e => e.1 ≠ k)).keys := by
    intro hk
    obtain ⟨v, hv⟩ := List.exists_of_mem_keys hk
    simpa using List.mem_takeWhile_imp hv
  cases hd : m.entries.dropWhile (fun e => e.1 ≠ k) with
  | nil =>
    rw [hd, List.append_nil] at hsplit
    rw [hsplit] at hbefore
    exact absurd (AList.mem_keys.mp h) hbefore
  | cons e tail =>
    have he : e.1 = k := by
      have := List.head?_dropWhile_not (fun e : Entry κ ν => e.1 ≠ k) m.entries
      rw [hd] at this
      simpa using this
    obtain ⟨a, v⟩ := e
    cases he
    refine ⟨v, ?_, hbefore⟩
    rw [after, hd, List.tail_cons, ← hd, hsplit]

theorem keys_after (k : κ) (m : OrderedMap κ ν) :
    (after k m).keys = (m.keys.dropWhile (fun a => a ≠ k)).tail := by
  unfold after AList.keys List.keys
  rw [List.map_tail, List.dropWhile_map]
  rfl

theorem after_eq_nil_of_keys {k : κ} {m m' : OrderedMap κ ν} (hkeys : m'.keys = m.keys)
    (h : after k m = []) : after k m' = [] := by
  have hsame := keys_after k m'
  rw [hkeys, ← keys_after, h] at hsame
  exact List.map_eq_nil_iff.mp hsame

/-- The entry at a place is where the iteration stands before what follows. -/
theorem after_of_entries {m : OrderedMap κ ν} {before rest : List (Entry κ ν)} {e : Entry κ ν}
    (h : m.entries = before ++ e :: rest) : after e.1 m = rest := by
  have hnodup : (before ++ e :: rest).NodupKeys := h ▸ m.nodupKeys
  have hbefore : ∀ a ∈ before, decide (a.1 ≠ e.1) = true := by
    intro a ha
    have hnot := (List.nodupKeys_cons.mp (List.nodupKeys_middle.mp hnodup)).1
    refine decide_eq_true fun heq => hnot ?_
    rw [List.keys_append]
    exact List.mem_append_left _ (heq ▸ List.mem_keys_of_mem ha)
  unfold after
  rw [h, List.dropWhile_append_of_pos hbefore, List.dropWhile_cons_of_neg (by simp), List.tail_cons]

theorem after_after {k : κ} {m : OrderedMap κ ν} {e : Entry κ ν} {rest : List (Entry κ ν)}
    (hk : k ∈ m) (h : after k m = e :: rest) : after e.1 m = rest := by
  obtain ⟨before, v, hentries, _⟩ := entries_eq_after hk
  rw [h] at hentries
  have hsplit : m.entries = (before ++ [⟨k, v⟩]) ++ e :: rest := by simp [hentries]
  exact after_of_entries hsplit

theorem getLast?_keys_of_after {k : κ} {m : OrderedMap κ ν} (hk : k ∈ m) (h : after k m = []) :
    m.keys.getLast? = some k := by
  obtain ⟨before, v, hentries, _⟩ := entries_eq_after hk
  unfold AList.keys
  rw [hentries, h, List.keys_append]
  simp [List.keys]

theorem after_erase_eq_nil {k a : κ} {m : OrderedMap κ ν} (hk : k ∈ m) (hne : k ≠ a)
    (h : after k m = []) : after k (m.erase a) = [] := by
  obtain ⟨before, v, hentries, _⟩ := entries_eq_after hk
  rw [h] at hentries
  have herase : (m.erase a).entries = before.kerase a ++ [⟨k, v⟩] := by
    have hlast : ([⟨k, v⟩] : List (Entry κ ν)).kerase a = [⟨k, v⟩] := by
      rw [List.kerase_cons_ne hne.symm, List.kerase_nil]
    have hkerase : (m.erase a).entries = m.entries.kerase a := rfl
    rw [hkerase, hentries]
    by_cases ha : a ∈ before.keys
    · exact List.kerase_append_left ha
    · rw [List.kerase_append_right ha, hlast, List.kerase_of_notMem_keys ha]
  exact after_of_entries herase

theorem mem_of_mem_after {k : κ} {m : OrderedMap κ ν} {e : Entry κ ν} (h : e ∈ after k m) :
    e ∈ m.entries :=
  (List.dropWhile_sublist _).subset (List.mem_of_mem_tail h)

theorem mem_iff_lookup {k : κ} {m : OrderedMap κ ν} : k ∈ m ↔ ∃ v, m.lookup k = some v := by
  rw [← AList.lookup_isSome, Option.isSome_iff_exists]

theorem lookup_of_mem_entries {m : OrderedMap κ ν} {e : Entry κ ν} (h : e ∈ m.entries) :
    m.lookup e.1 = some e.2 :=
  AList.mem_lookup_iff.mpr h

theorem mem_entries_of_lookup {m : OrderedMap κ ν} {k : κ} {v : ν} (h : m.lookup k = some v) :
    (⟨k, v⟩ : Entry κ ν) ∈ m.entries :=
  AList.mem_lookup_iff.mp h

theorem forall_insertOrAssign {order : Arrangement (Entry κ ν)} {P : κ → ν → Prop} {k : κ} {v : ν}
    {m : OrderedMap κ ν} (hnew : P k v) (h : ∀ e ∈ m.entries, P e.1 e.2) :
    ∀ e ∈ (insertOrAssign order k v m).entries, P e.1 e.2 := by
  intro e he
  have hlookup := lookup_of_mem_entries he
  rw [lookup_insertOrAssign] at hlookup
  split at hlookup
  · rename_i hek
    cases hlookup
    exact hek ▸ hnew
  · exact h _ (mem_entries_of_lookup hlookup)

end OrderedMap
