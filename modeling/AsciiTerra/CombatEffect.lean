import AsciiTerra.StrikeEffect
import AsciiTerra.InventorySupply

/-!
# The effect of an attack

Every listed unit loses the same damage once, down to no hit points at most; a bow costs its
owner one arrow, and nothing else changes.
-/

set_option autoImplicit false

namespace AsciiTerra

namespace Inventory
variable {inv : Inventory}

def HoldsArrows (slot : ItemSlot) : Prop :=
  slot.empty = false ∧ slot.item.type = ItemType.arrow.code

structure FirstArrows (inv : Inventory) (i : Nat) (arrows : ItemSlot) : Prop where
  slot : inv.storage[i]? = some arrows
  holds : HoldsArrows arrows
  first : ∀ j < i, ∀ slot, inv.storage[j]? = some slot → ¬ HoldsArrows slot

/-- The damage of an attack with this slot equipped and the inventory it leaves. -/
inductive Strikes (inv : Inventory) (slot : ItemSlot) : UInt32 → Inventory → Prop
  | sword (hsword : slot.item.type = ItemType.sword.code) :
      Strikes inv slot slot.item.power.toUInt32 inv
  | shot {i : Nat} {arrows left : ItemSlot} {inv' : Inventory}
      (hbow : slot.item.type = ItemType.bow.code) (hfirst : inv.FirstArrows i arrows)
      (hleft : inv'.storage[i]? = some left)
      (hrest : left = { arrows with quantity := left.quantity, empty := left.empty })
      (hone : left.quantity.toNat + 1 = arrows.quantity.toNat)
      (hlast : left.empty = true ↔ left.quantity = 0)
      (hother : ∀ j, j ≠ i → inv'.storage[j]? = inv.storage[j]?) :
      Strikes inv slot arrows.item.power.toUInt32 inv'
  | noArrows (hbow : slot.item.type = ItemType.bow.code)
      (hnone : ∀ (j : Nat) slot', inv.storage[j]? = some slot' → ¬ HoldsArrows slot') :
      Strikes inv slot 0 inv
  | other (hsword : slot.item.type ≠ ItemType.sword.code)
      (hbow : slot.item.type ≠ ItemType.bow.code) : Strikes inv slot 1 inv

theorem holdsArrows_iff {slot : ItemSlot} :
    HoldsArrows slot ↔ (!slot.empty && slot.item.type == ItemType.arrow.code) = true := by
  simp [HoldsArrows]

theorem findIndex_eq_some {i : Nat} (h : inv.findIndex .arrow = some i) :
    ∃ arrows, inv.FirstArrows i arrows := by
  obtain ⟨hlt, hfound, hfirst⟩ := List.findIdx?_eq_some_iff_getElem.mp h
  rw [Vector.length_toList] at hlt
  refine ⟨inv.storage[i], Vector.getElem?_eq_getElem hlt, ?_, ?_⟩
  · rw [holdsArrows_iff]
    simpa using hfound
  · intro j hj slot hslot
    rw [Vector.getElem?_eq_getElem (hj.trans hlt), Option.some.injEq] at hslot
    rw [holdsArrows_iff, ← hslot]
    simpa using hfirst j hj

theorem findIndex_eq_none (h : inv.findIndex .arrow = none) :
    ∀ (j : Nat) slot, inv.storage[j]? = some slot → ¬ HoldsArrows slot := by
  intro j slot hslot
  have hmem : slot ∈ inv.storage.toList := by
    obtain ⟨hlt, rfl⟩ := Vector.getElem?_eq_some_iff.mp hslot
    exact Vector.mem_toList_iff.mpr (Vector.getElem_mem hlt)
  rw [holdsArrows_iff, Bool.not_eq_true]
  exact List.findIdx?_eq_none_iff.mp h slot hmem

theorem strikes_spent (hstocked : inv.Stocked) (slot : ItemSlot) :
    inv.Strikes slot (inv.attackDamage slot) (inv.spent slot) := by
  unfold attackDamage spent
  by_cases hsword : slot.item.type = ItemType.sword.code
  · have hbow : slot.item.type ≠ ItemType.bow.code := by
      rw [hsword]
      decide
    rw [if_pos hsword, if_neg hbow]
    exact .sword hsword
  rw [if_neg hsword]
  by_cases hbow : slot.item.type = ItemType.bow.code
  · rw [if_pos hbow, if_pos hbow]
    cases hfind : inv.findIndex .arrow with
    | none => exact .noArrows hbow (findIndex_eq_none hfind)
    | some i =>
      obtain ⟨arrows, hfirst⟩ := findIndex_eq_some hfind
      have hne : arrows.quantity ≠ 0 := hstocked i arrows hfirst.slot hfirst.holds.1 hfirst.holds.2
      have hpos : arrows.quantity.toNat ≠ 0 := fun h0 => hne (UInt32.toNat_inj.mp h0)
      simp only [hfirst.slot, Option.getD_some]
      have hleft : (inv.storage.setIfInBounds i (useArrow arrows))[i]? =
          some (useArrow arrows) := by
        rw [Vector.getElem?_setIfInBounds, if_pos rfl, if_pos (findIndex_lt hfind)]
      refine .shot hbow hfirst hleft rfl ?_ ?_ fun j hj => ?_
      · simp only [useArrow]
        rw [uint32_toNat_sub_one hne]
        omega
      · simp only [useArrow]
        split
        · rename_i h0
          exact iff_of_true rfl h0
        · rename_i h0
          exact iff_of_false (by simp [hfirst.holds.1]) h0
      · rw [Vector.getElem?_setIfInBounds, if_neg (fun h => hj h.symm)]
  · rw [if_neg hbow, if_neg hbow]
    exact .other hsword hbow

end Inventory

namespace GameWorld
variable {w : GameWorld} {damage : UInt32} {target : AttackTarget}

/-- The hit points of a unit after a hit, or without one. -/
def HitPoints (hit : Prop) [Decidable hit] (damage : UInt32) (hp hp' : Int32) : Prop :=
  hp'.toInt = if hit then max 0 (hp.toInt - damage.toNat) else hp.toInt

/-- Each listed unit has lost the damage, and nothing else has changed. -/
structure Struck (damage : UInt32) (target : AttackTarget) (w w' : GameWorld) : Prop where
  keys : w'.playersList.keys = w.playersList.keys
  players : ∀ a p, w.playersList.lookup a = some p → ∃ p', w'.playersList.lookup a = some p' ∧
    p' = { p with hp := p'.hp } ∧ HitPoints (a ∈ target.playerIDs) damage p.hp p'.hp
  length : w'.enemyList.length = w.enemyList.length
  enemies : ∀ (i : Nat) e, w.enemyList[i]? = some e → ∃ e', w'.enemyList[i]? = some e' ∧
    e' = { e with hp := e'.hp } ∧ HitPoints (i ∈ target.enemyIDs) damage e.hp e'.hp
  map : w'.gameWorldMap = w.gameWorldMap

structure NonnegativeHP (w : GameWorld) : Prop where
  players : ∀ a p, w.playersList.lookup a = some p → 0 ≤ p.hp
  enemies : ∀ e ∈ w.enemyList, 0 ≤ e.hp

/-- No unit has gained hit points, and none has less than zero. -/
structure Weakened (w w' : GameWorld) : Prop where
  players : ∀ a p p', w.playersList.lookup a = some p → w'.playersList.lookup a = some p' →
    0 ≤ p'.hp ∧ p'.hp ≤ p.hp
  enemies : ∀ (i : Nat) e e', w.enemyList[i]? = some e → w'.enemyList[i]? = some e' →
    0 ≤ e'.hp ∧ e'.hp ≤ e.hp

theorem hitPoints_iterate {n : Nat} {hit : Prop} [Decidable hit] {hp : Int32} (h : 0 ≤ hp)
    (hn : n = if hit then 1 else 0) : HitPoints hit damage hp ((damagedHP damage)^[n] hp) := by
  unfold HitPoints
  subst hn
  by_cases hhit : hit
  · rw [if_pos hhit, if_pos hhit, Function.iterate_one, damagedHP_toInt damage h]
  · rw [if_neg hhit, if_neg hhit, Function.iterate_zero, id_eq]

theorem HitPoints.bounds {hit : Prop} [Decidable hit] {hp hp' : Int32}
    (h : HitPoints hit damage hp hp') (hnonneg : 0 ≤ hp) : 0 ≤ hp' ∧ hp' ≤ hp := by
  unfold HitPoints at h
  have h0 : (0 : Int32).toInt = 0 := rfl
  rw [Int32.le_iff_toInt_le, h0] at hnonneg
  rw [Int32.le_iff_toInt_le, Int32.le_iff_toInt_le, h0]
  split at h <;> omega

theorem struck_strike (damage : UInt32) (target : AttackTarget) (hhp : w.NonnegativeHP)
    (hids : ∀ id ∈ target.playerIDs, id ∈ w.playersList) (hplayers : target.playerIDs.Nodup)
    (henemies : target.enemyIDs.Nodup) :
    Struck damage target w (w.strike damage target) where
  keys := (strike_players hids).keys_eq
  players a p hp := by
    refine ⟨_, by rw [strike_lookup hids, hp]; rfl, ?_, ?_⟩
    · rw [Player.iterate_takeDamage]
    · rw [Player.iterate_takeDamage]
      exact hitPoints_iterate (hhp.players a p hp) hplayers.count
  length := (strike_enemies damage target w).length_eq.symm
  enemies i e he := by
    refine ⟨_, by rw [strike_getElem?, he]; rfl, ?_, ?_⟩
    · rw [Enemy.iterate_takeDamage]
    · rw [Enemy.iterate_takeDamage]
      exact hitPoints_iterate (hhp.enemies e (List.mem_of_getElem? he)) henemies.count
  map := rfl

theorem Struck.weakened {w' : GameWorld} (h : Struck damage target w w') (hhp : w.NonnegativeHP) :
    Weakened w w' where
  players a p p' hp hp' := by
    obtain ⟨q, hq, -, hhit⟩ := h.players a p hp
    cases hp'.symm.trans hq
    exact hhit.bounds (hhp.players a p hp)
  enemies i e e' he he' := by
    obtain ⟨q, hq, -, hhit⟩ := h.enemies i e he
    cases he'.symm.trans hq
    exact hhit.bounds (hhp.enemies e (List.mem_of_getElem? he))

/-- What a unit's `MakeAttack` comes to, `carry` giving the unit an inventory: nothing with an
empty slot, and otherwise the targets are struck while the unit has what is left. -/
def AttackEffect (w : GameWorld) (inv : Inventory) (slot : ItemSlot)
    (carry : Inventory → GameWorld) (target : AttackTarget) (result : Except Fault GameWorld) :
    Prop :=
  (slot.empty = true → result = .ok w) ∧
    (slot.empty = false → ∃ damage inv' w', inv.Strikes slot damage inv' ∧ result = .ok w' ∧
      Struck damage target (carry inv') w' ∧ Weakened w w')

theorem NonnegativeHP.modifyPlayer (h : w.NonnegativeHP) (id : UInt32) (inv : Inventory) :
    (w.modifyPlayer id fun q => { q with inventory := inv }).NonnegativeHP where
  players a p hp := by
    rw [modifyPlayer_playersList, OrderedMap.lookup_modify] at hp
    split at hp
    · obtain ⟨q, hq, rfl⟩ := Option.map_eq_some_iff.mp hp
      exact h.players a q hq
    · exact h.players a p hp
  enemies := h.enemies

theorem NonnegativeHP.modifyEnemy (h : w.NonnegativeHP) (i : Nat) (inv : Inventory) :
    (w.modifyEnemy i fun q => { q with inventory := inv }).NonnegativeHP where
  players := h.players
  enemies := forall_modify h.enemies fun _ _ he => he

theorem Weakened.of_modifyPlayer {w' : GameWorld} {id : UInt32} {inv : Inventory}
    (h : Weakened (w.modifyPlayer id fun q => { q with inventory := inv }) w') : Weakened w w' where
  players a p p' hp hp' := by
    have hcarried := OrderedMap.lookup_modify id (fun q : Player => { q with inventory := inv }) a
      w.playersList
    rw [hp] at hcarried
    split at hcarried
    · exact h.players a { p with inventory := inv } p' hcarried hp'
    · exact h.players a p p' hcarried hp'
  enemies := h.enemies

theorem Weakened.of_modifyEnemy {w' : GameWorld} {i : Nat} {inv : Inventory}
    (h : Weakened (w.modifyEnemy i fun q => { q with inventory := inv }) w') : Weakened w w' where
  players := h.players
  enemies j e e' he he' := by
    have hcarried : (w.modifyEnemy i fun q => { q with inventory := inv }).enemyList[j]? = some
        (if i = j then { e with inventory := inv } else e) := by
      rw [modifyEnemy_enemyList, List.getElem?_modify, he]
      split <;> rfl
    have hbounds := h.enemies j _ e' hcarried he'
    split at hbounds
    · exact hbounds
    · exact hbounds

theorem playerFindAttackTarget_nodup (hk : KeysAreIDs w.playersList) (p : Player)
    (action : PlayerAction) : (w.playerFindAttackTarget p action).playerIDs.Nodup :=
  nodup_playersOn hk (p.coords + direction action.actionInfo) fun q => q.id != p.id

theorem enemyFindAttackTarget_nodup (hk : KeysAreIDs w.playersList) (e : Enemy)
    (action : EnemyAction) : (w.enemyFindAttackTarget e action).playerIDs.Nodup :=
  nodup_playersOn hk (e.coords + direction action.actionInfo) fun _ => true

/-- Combat: every attacker with a slot equipped that exists, on the targets its search found. -/
theorem makeAttack_effect (hk : KeysAreIDs w.playersList) (hhp : w.NonnegativeHP)
    (hplayers : ∀ a p, w.playersList.lookup a = some p → p.inventory.Stocked)
    (henemies : ∀ e ∈ w.enemyList, e.inventory.Stocked) :
    (∀ id p action, w.playersList.lookup id = some p →
      p.equipedItemID.toNat < maxInventorySize →
        ∃ slot, p.inventory.storage[p.equipedItemID.toNat]? = some slot ∧
          AttackEffect w p.inventory slot
            (fun inv => w.modifyPlayer id fun q => { q with inventory := inv })
            (w.playerFindAttackTarget p action)
            (w.playerMakeAttack id (w.playerFindAttackTarget p action))) ∧
    ∀ (i : Nat) e action, w.enemyList[i]? = some e → e.equipedItemID.toNat < maxInventorySize →
      ∃ slot, e.inventory.storage[e.equipedItemID.toNat]? = some slot ∧
        AttackEffect w e.inventory slot
          (fun inv => w.modifyEnemy i fun q => { q with inventory := inv })
          (w.enemyFindAttackTarget e action)
          (w.enemyMakeAttack i (w.enemyFindAttackTarget e action)) := by
  constructor
  · intro id p action hp hrange
    obtain ⟨slot, hslot⟩ := exists_slot p.inventory hrange
    refine ⟨slot, hslot, fun hempty => ?_, fun hempty => ?_⟩
    · rw [playerMakeAttack_eq hp hslot, if_pos hempty]
    · have hcarried := hhp.modifyPlayer id (p.inventory.spent slot)
      have hstruck := struck_strike (p.inventory.attackDamage slot)
        (w.playerFindAttackTarget p action) hcarried
        (fun a ha => OrderedMap.mem_modify.mpr (playerFindAttackTarget_subset hk p action a ha))
        (playerFindAttackTarget_nodup hk p action) (nodup_enemiesOn _ _ _)
      refine ⟨_, _, _, Inventory.strikes_spent (hplayers id p hp) slot, ?_, hstruck,
        (hstruck.weakened hcarried).of_modifyPlayer⟩
      rw [playerMakeAttack_eq hp hslot, if_neg (by rw [hempty]; exact Bool.false_ne_true)]
  · intro i e action he hrange
    have hmem := List.mem_of_getElem? he
    obtain ⟨slot, hslot⟩ := exists_slot e.inventory hrange
    refine ⟨slot, hslot, fun hempty => ?_, fun hempty => ?_⟩
    · rw [enemyMakeAttack_eq he hslot, if_pos hempty]
    · have hcarried := hhp.modifyEnemy i (e.inventory.spent slot)
      have hstruck := struck_strike (e.inventory.attackDamage slot)
        (w.enemyFindAttackTarget e action) hcarried
        (enemyFindAttackTarget_subset hk e action)
        (enemyFindAttackTarget_nodup hk e action) (nodup_enemiesOn _ _ _)
      refine ⟨_, _, _, Inventory.strikes_spent (henemies e hmem) slot, ?_, hstruck,
        (hstruck.weakened hcarried).of_modifyEnemy⟩
      rw [enemyMakeAttack_eq he hslot, if_neg (by rw [hempty]; exact Bool.false_ne_true)]

/-- A zombie beside a player. -/
theorem makeAttack_effect_zombie : ∃ e slot, (zombieAndPlayer ⟨1, 0, 0⟩).enemyList[0]? = some e ∧
    AttackEffect (zombieAndPlayer ⟨1, 0, 0⟩) e.inventory slot
      (fun inv => (zombieAndPlayer ⟨1, 0, 0⟩).modifyEnemy 0 fun q => { q with inventory := inv })
      ((zombieAndPlayer ⟨1, 0, 0⟩).enemyFindAttackTarget e (enemyAction .enemyBaseAttack 0 1 0))
      ((zombieAndPlayer ⟨1, 0, 0⟩).enemyMakeAttack 0
        ((zombieAndPlayer ⟨1, 0, 0⟩).enemyFindAttackTarget e
          (enemyAction .enemyBaseAttack 0 1 0))) := by
  have hplayer : ∀ a p, (zombieAndPlayer ⟨1, 0, 0⟩).playersList.lookup a = some p →
      p = { Player.default with id := 10000, hp := 20, coords := ⟨1, 0, 0⟩ } := by
    intro a p hp
    cases List.mem_singleton.mp (OrderedMap.mem_entries_of_lookup hp)
    rfl
  have hzombie : ∀ e ∈ (zombieAndPlayer ⟨1, 0, 0⟩).enemyList, 0 ≤ e.hp ∧ e.inventory.Stocked := by
    decide
  have hk : KeysAreIDs (zombieAndPlayer ⟨1, 0, 0⟩).playersList := by
    intro e he
    cases List.mem_singleton.mp he
    rfl
  have heffect := (makeAttack_effect hk
    ⟨fun a p hp => by rw [hplayer a p hp]; decide, fun e he => (hzombie e he).1⟩
    (fun a p hp => by rw [hplayer a p hp]; decide) fun e he => (hzombie e he).2).2 0 _
      (enemyAction .enemyBaseAttack 0 1 0) rfl (by decide)
  obtain ⟨slot, -, heffect⟩ := heffect
  exact ⟨_, slot, rfl, heffect⟩

end GameWorld

end AsciiTerra
