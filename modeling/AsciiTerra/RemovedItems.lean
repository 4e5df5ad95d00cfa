import AsciiTerra.InventorySupply
import AsciiTerra.Lib.Machine

/-!
# Removing items

`Inventory::RemoveItem` looks for a slot by the name alone, and `MakeAttack` leaves the
name in a slot of arrows that it empties.
-/

set_option autoImplicit false

namespace AsciiTerra

/-- Whether `strcmp` of two arrays is zero: no result when it runs past them. -/
def strcmpIsZero : List UInt8 → List UInt8 → Option Bool
  | a :: as, b :: bs => if a ≠ b then some false else if a = 0 then some true else strcmpIsZero as bs
  | _, _ => none

def stringOf (name : List UInt8) : List UInt8 := name.takeWhile (· ≠ 0)

theorem strcmpIsZero_eq {as bs : List UInt8} (hlen : as.length = bs.length) :
    strcmpIsZero as bs =
      if stringOf as = stringOf bs then if 0 ∈ bs then some true else none else some false := by
  induction as generalizing bs with
  | nil =>
    cases List.length_eq_zero_iff.mp hlen.symm
    rfl
  | cons a as ih =>
    cases bs with
    | nil => exact absurd hlen (Nat.succ_ne_zero _)
    | cons b bs =>
      rw [strcmpIsZero]
      by_cases hab : a = b
      · subst hab
        rw [if_neg (not_not.mpr rfl)]
        by_cases ha : a = 0
        · simp [ha, stringOf]
        · rw [if_neg ha, ih (Nat.succ_injective hlen)]
          simp [stringOf, ha, Ne.symm ha]
      · rw [if_pos hab, if_neg]
        intro heq
        unfold stringOf at heq
        rw [List.takeWhile_cons, List.takeWhile_cons] at heq
        by_cases ha : a = 0 <;> by_cases hb : b = 0 <;> simp_all

namespace ItemSlot

/-- The slot holds a name that reads like that of the item. -/
def Named (item : Item) (slot : ItemSlot) : Prop :=
  stringOf slot.item.itemName.toList = stringOf item.itemName.toList

instance (item : Item) (slot : ItemSlot) : Decidable (Named item slot) :=
  inferInstanceAs (Decidable (_ = _))

end ItemSlot

namespace Inventory

/-- The slot `RemoveItem` resets, if any, unless a comparison runs past the names. -/
def firstNamed (item : Item) : List ItemSlot → Nat → Option (Option Nat)
  | [], _ => some none
  | slot :: slots, i =>
    match strcmpIsZero slot.item.itemName.toList item.itemName.toList with
    | none => none
    | some true => some (some i)
    | some false => firstNamed item slots (i + 1)

def removeItem (item : Item) (inv : Inventory) : Option Inventory :=
  match firstNamed item inv.storage.toList 0 with
  | none => none
  | some none => some inv
  | some (some i) => some ⟨inv.storage.setIfInBounds i ItemSlot.default⟩

/-- The steps of an inventory; `MakeAttack` is one of a player with an equipped slot. -/
inductive Step
  | addItem (item : Item)
  | removeItem (item : Item)
  | makeAttack (equipedItemID : UInt32)

def step (inv : Inventory) : Step → Option Inventory
  | .addItem item => some (inv.addItem item)
  | .removeItem item => inv.removeItem item
  | .makeAttack equipedItemID =>
    match inv.attack equipedItemID with
    | .ok (some (_, inv')) => some inv'
    | .ok none => some inv
    | .error _ => none

/-- Slot `i` is not empty and holds an item of the name. -/
def HeldAt (inv : Inventory) (item : Item) (i : Nat) : Prop :=
  ∃ slot, inv.storage[i]? = some slot ∧ slot.empty = false ∧ slot.Named item

/-- An item that is held is removed once and nothing else; what is not held is not removed. -/
structure Removes (inv : Inventory) (item : Item) (inv' : Inventory) : Prop where
  held : (∃ i, inv.HeldAt item i) →
    ∃ i, inv.HeldAt item i ∧ (∃ slot, inv'.storage[i]? = some slot ∧ slot.empty = true) ∧
      ∀ j : Nat, j ≠ i → inv'.storage[j]? = inv.storage[j]?
  notHeld : (¬ ∃ i, inv.HeldAt item i) →
    ∀ j : Nat, inv'.storage[j]?.map ItemSlot.empty = inv.storage[j]?.map ItemSlot.empty

/-- The name ends in its array or is the name of no slot, and the first slot of the name is not an
empty one when the item is held. -/
structure FirstIsHeld (inv : Inventory) (item : Item) : Prop where
  ends : 0 ∈ item.itemName.toList ∨ ∀ slot ∈ inv.storage.toList, ¬ slot.Named item
  first : (∃ i, inv.HeldAt item i) →
    ∃ i, inv.HeldAt item i ∧ ∀ j < i, ∀ slot, inv.storage[j]? = some slot → ¬ slot.Named item

theorem firstNamed_eq (item : Item) (slots : List ItemSlot) (k : Nat) :
    firstNamed item slots k =
      if 0 ∈ item.itemName.toList ∨ ∀ slot ∈ slots, ¬ slot.Named item then
        some ((slots.findIdx? fun slot => slot.Named item).map (· + k))
      else none := by
  induction slots generalizing k with
  | nil => simp [firstNamed]
  | cons slot slots ih =>
    rw [firstNamed, strcmpIsZero_eq (by simp), List.findIdx?_cons]
    change (match (if slot.Named item then _ else _ : Option Bool) with
      | none => _ | some true => _ | some false => _) = _
    by_cases hnamed : slot.Named item
    · by_cases hzero : 0 ∈ item.itemName.toList <;> simp [hnamed, hzero]
    · have hshift : ((slots.findIdx? fun slot => slot.Named item).map (· + 1)).map (· + k) =
          (slots.findIdx? fun slot => slot.Named item).map (· + (k + 1)) := by
        rw [Option.map_map]
        congr 1
        funext j
        simp only [Function.comp_apply]
        omega
      simp only [hnamed, if_false, ih, List.forall_mem_cons, not_false_eq_true, true_and,
        decide_false, hshift, Bool.false_eq_true]

theorem removeItem_eq (inv : Inventory) (item : Item) :
    inv.removeItem item =
      if 0 ∈ item.itemName.toList ∨ ∀ slot ∈ inv.storage.toList, ¬ slot.Named item then
        some (match inv.storage.toList.findIdx? fun slot => slot.Named item with
          | none => inv
          | some i => ⟨inv.storage.setIfInBounds i ItemSlot.default⟩)
      else none := by
  unfold removeItem
  rw [firstNamed_eq]
  by_cases hends : 0 ∈ item.itemName.toList ∨ ∀ slot ∈ inv.storage.toList, ¬ slot.Named item
  · rw [if_pos hends, if_pos hends]
    cases inv.storage.toList.findIdx? fun slot => slot.Named item <;> rfl
  · rw [if_neg hends, if_neg hends]

theorem HeldAt.not_lt {inv : Inventory} {item : Item} {i k : Nat} (h : inv.HeldAt item k)
    (hbefore : ∀ j < i, ∀ slot, inv.storage[j]? = some slot → ¬ slot.Named item) : i ≤ k := by
  obtain ⟨slot, hslot, -, hnamed⟩ := h
  by_contra hlt
  exact hbefore k (Nat.not_le.mp hlt) slot hslot hnamed

/-- The slot that was reset was the right one exactly when it was not empty or nothing is held. -/
theorem removes_reset_iff {inv : Inventory} {item : Item} {i : Nat} {slot : ItemSlot}
    (hslot : inv.storage[i]? = some slot) (hnamed : slot.Named item) :
    Removes inv item ⟨inv.storage.setIfInBounds i ItemSlot.default⟩ ↔
      slot.empty = false ∨ ¬ ∃ i, inv.HeldAt item i := by
  have hi : i < maxInventorySize := by
    by_contra hge
    rw [Vector.getElem?_eq_none (Nat.not_lt.mp hge)] at hslot
    cases hslot
  have hreset : (inv.storage.setIfInBounds i ItemSlot.default)[i]? = some ItemSlot.default := by
    rw [Vector.getElem?_setIfInBounds, if_pos rfl, if_pos hi]
  have hother : ∀ j, j ≠ i →
      (inv.storage.setIfInBounds i ItemSlot.default)[j]? = inv.storage[j]? := by
    intro j hj
    rw [Vector.getElem?_setIfInBounds, if_neg hj.symm]
  constructor
  · intro h
    by_cases hheld : ∃ i, inv.HeldAt item i
    · obtain ⟨k, ⟨held, hk, hfull, -⟩, ⟨after, hafter, hempty⟩, -⟩ := h.held hheld
      by_cases hki : k = i
      · subst hki
        cases hslot.symm.trans hk
        exact .inl hfull
      · rw [hother k hki, hk] at hafter
        cases hafter
        rw [hfull] at hempty
        cases hempty
    · exact .inr hheld
  · intro h
    refine ⟨?_, ?_⟩
    · intro hheld
      have hfull := h.resolve_right (not_not.mpr hheld)
      exact ⟨i, ⟨slot, hslot, hfull, hnamed⟩, ⟨_, hreset, rfl⟩, hother⟩
    · intro hnone j
      by_cases hj : j = i
      · subst hj
        have hempty : slot.empty = true := by
          by_contra hfull
          exact hnone ⟨j, slot, hslot, Bool.not_eq_true _ ▸ hfull, hnamed⟩
        rw [hreset, hslot]
        exact congrArg some hempty.symm
      · rw [hother j hj]

/-- `RemoveItem` removes a held item exactly when the first slot of the name holds it. -/
theorem removes_iff (inv : Inventory) (item : Item) :
    (∃ inv', inv.removeItem item = some inv' ∧ Removes inv item inv') ↔ FirstIsHeld inv item := by
  rw [removeItem_eq]
  by_cases hends : 0 ∈ item.itemName.toList ∨ ∀ slot ∈ inv.storage.toList, ¬ slot.Named item
  · rw [if_pos hends]
    cases hfind : inv.storage.toList.findIdx? fun slot => slot.Named item with
    | none =>
      have hnone : ¬ ∃ i, inv.HeldAt item i := by
        rintro ⟨i, slot, hslot, -, hnamed⟩
        have hmem : slot ∈ inv.storage.toList :=
          Vector.mem_toList_iff.mpr (Vector.mem_of_getElem? hslot)
        simpa [hnamed] using List.findIdx?_eq_none_iff.mp hfind slot hmem
      constructor
      · intro _
        exact ⟨hends, fun h => absurd h hnone⟩
      · intro _
        exact ⟨inv, rfl, fun h => absurd h hnone, fun _ _ => rfl⟩
    | some i =>
      obtain ⟨hlt, hnamed, hbefore⟩ := List.findIdx?_eq_some_iff_getElem.mp hfind
      rw [Vector.length_toList] at hlt
      have hslot : inv.storage[i]? = some inv.storage[i] := Vector.getElem?_eq_getElem hlt
      have hnamed : inv.storage[i].Named item := by simpa using hnamed
      have hbefore : ∀ j < i, ∀ slot, inv.storage[j]? = some slot → ¬ slot.Named item := by
        intro j hj slot hget
        have hnot := hbefore j hj
        rw [Vector.getElem?_eq_getElem (hj.trans hlt)] at hget
        cases hget
        simpa using hnot
      have hreset := removes_reset_iff hslot hnamed
      constructor
      · rintro ⟨inv', hremove, hremoves⟩
        cases hremove
        refine ⟨hends, fun hheld => ⟨i, ⟨_, hslot, ?_, hnamed⟩, hbefore⟩⟩
        exact (hreset.mp hremoves).resolve_right (not_not.mpr hheld)
      · intro h
        refine ⟨_, rfl, hreset.mpr ?_⟩
        by_cases hheld : ∃ i, inv.HeldAt item i
        · obtain ⟨k, hk, hfirst⟩ := h.first hheld
          have hki : k = i := by
            apply Nat.le_antisymm _ (hk.not_lt hbefore)
            by_contra hgt
            exact hfirst i (Nat.not_le.mp hgt) _ hslot hnamed
          subst hki
          obtain ⟨slot, hget, hfull, -⟩ := hk
          cases hslot.symm.trans hget
          exact .inl hfull
        · exact .inr hheld
  · rw [if_neg hends]
    constructor
    · rintro ⟨inv', h, -⟩
      cases h
    · intro h
      exact absurd h.ends hends

/-- A slot whose last arrow was used keeps the name of the arrows. -/
def UsedUp (slot : ItemSlot) : Prop :=
  slot.item.type = ItemType.arrow.code ∧ slot.quantity = 0

def BlankOrUsedUp (inv : Inventory) : Prop :=
  ∀ (i : Nat) (slot : ItemSlot), inv.storage[i]? = some slot → slot.empty = true →
    slot = ItemSlot.default ∨ UsedUp slot

theorem BlankOrUsedUp.set {inv : Inventory} (h : inv.BlankOrUsedUp) {i : Nat} {slot : ItemSlot}
    (hslot : slot.empty = true → slot = ItemSlot.default ∨ UsedUp slot) :
    BlankOrUsedUp ⟨inv.storage.setIfInBounds i slot⟩ := by
  intro j slot' hj
  rw [Vector.getElem?_setIfInBounds] at hj
  split at hj
  · split at hj
    · cases hj
      exact hslot
    · cases hj
  · exact h j slot' hj

theorem blankOrUsedUp_empty : empty.BlankOrUsedUp := by
  intro i slot hslot _
  have hget : (Vector.replicate maxInventorySize ItemSlot.default)[i]? = some slot := hslot
  rw [Vector.getElem?_replicate] at hget
  split at hget
  · cases hget
    exact .inl rfl
  · cases hget

theorem BlankOrUsedUp.attack {inv inv' : Inventory} {id damage : UInt32} (h : inv.BlankOrUsedUp)
    (hattack : inv.attack id = .ok (some (damage, inv'))) : inv'.BlankOrUsedUp := by
  unfold Inventory.attack at hattack
  split at hattack
  · cases hattack
  · split at hattack
    · cases hattack
    · split at hattack
      · cases hattack
        exact h
      · split at hattack
        · split at hattack
          · cases hattack
            exact h
          · rename_i arrowID hfind
            split at hattack
            · cases hattack
            · rename_i arrows harrows
              cases hattack
              obtain ⟨hfull, harrow⟩ := findIndex_arrow hfind harrows
              apply h.set
              intro hempty
              refine .inr ⟨harrow, ?_⟩
              by_contra hleft
              simp only [useArrow] at hempty hleft
              rw [if_neg hleft, hfull] at hempty
              cases hempty
        · cases hattack
          exact h

theorem BlankOrUsedUp.step {inv inv' : Inventory} (e : Step) (h : inv.BlankOrUsedUp)
    (hstep : inv.step e = some inv') : inv'.BlankOrUsedUp := by
  cases e with
  | addItem item =>
    cases hstep
    unfold Inventory.addItem
    split
    · apply h.set
      intro hempty
      cases hempty
    · exact h
  | removeItem item =>
    have hremove : inv.removeItem item = some inv' := hstep
    unfold Inventory.removeItem at hremove
    split at hremove
    · cases hremove
    · cases hremove
      exact h
    · cases hremove
      exact h.set fun _ => .inl rfl
  | makeAttack id =>
    have hattack : (match inv.attack id with
      | .ok (some (_, inv')) => some inv' | .ok none => some inv | .error _ => none) = some inv' :=
      hstep
    split at hattack
    · rename_i hok
      cases hattack
      exact h.attack hok
    · cases hattack
      exact h
    · cases hattack

/-- In every inventory that calls lead to, `RemoveItem` removes a held item exactly when the first
slot of the name holds it, and only used-up arrows leave their name in an empty slot. -/
theorem removeItem_reached (es : List Step) (inv : Inventory)
    (h : Machine.run Inventory.step empty es = some inv) :
    inv.BlankOrUsedUp ∧ ∀ item,
      (∃ inv', inv.removeItem item = some inv' ∧ Removes inv item inv') ↔ FirstIsHeld inv item := by
  refine ⟨?_, removes_iff inv⟩
  exact Machine.invariant (fun inv e inv' hinv hstep => hinv.step e hstep) blankOrUsedUp_empty h

def justArrow : Item := ⟨fixedString (AsciiTerra.cString "Just Arrow"), ItemType.arrow.code, 1, 1⟩

def villagerBow : Item := ⟨fixedString (AsciiTerra.cString "Villager Bow"), ItemType.bow.code, 27, 1⟩

theorem removeItem_reached_arrow :
    ∃ inv, Machine.run Inventory.step empty [.addItem villagerBow, .addItem justArrow] = some inv ∧
      inv.BlankOrUsedUp ∧
      ((∃ inv', inv.removeItem justArrow = some inv' ∧ Removes inv justArrow inv') ↔
        FirstIsHeld inv justArrow) := by
  refine ⟨_, rfl, ?_⟩
  obtain ⟨hblank, hiff⟩ := removeItem_reached [.addItem villagerBow, .addItem justArrow] _ rfl
  exact ⟨hblank, hiff justArrow⟩

/-- A bow, a slot whose only arrow was shot, and another arrow. -/
def shotOnce : Inventory :=
  ofSlots [slotOf villagerBow, useArrow (slotOf justArrow), slotOf justArrow]

/-- Removing an arrow resets the empty slot of the arrow that was shot; the other one stays. -/
theorem removeItem_usedUp :
    Machine.run Inventory.step empty
        [.addItem villagerBow, .addItem justArrow, .addItem justArrow, .makeAttack 0] =
      some shotOnce ∧
    shotOnce.HeldAt justArrow 2 ∧
    ¬ ∃ inv', shotOnce.removeItem justArrow = some inv' ∧ Removes shotOnce justArrow inv' := by
  have hheld : shotOnce.HeldAt justArrow 2 := ⟨slotOf justArrow, rfl, rfl, rfl⟩
  refine ⟨by decide +kernel, hheld, ?_⟩
  rintro ⟨inv', hremove, hremoves⟩
  have hreset : shotOnce.removeItem justArrow =
      some (ofSlots [slotOf villagerBow, ItemSlot.default, slotOf justArrow]) := by decide +kernel
  cases hreset.symm.trans hremove
  obtain ⟨i, ⟨slot, hslot, hfull, -⟩, ⟨slot', hslot', hempty⟩, -⟩ := hremoves.held ⟨2, hheld⟩
  have hflags : (ofSlots [slotOf villagerBow, ItemSlot.default, slotOf justArrow]).storage.map
      ItemSlot.empty = shotOnce.storage.map ItemSlot.empty := by decide +kernel
  have hflag := congrArg (fun v => v[i]?) hflags
  rw [Vector.getElem?_map, Vector.getElem?_map, hslot, hslot', Option.map_some, Option.map_some,
    hfull, hempty] at hflag
  cases hflag

end Inventory

end AsciiTerra
