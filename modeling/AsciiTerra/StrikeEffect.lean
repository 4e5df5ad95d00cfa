import AsciiTerra.Agreement

/-!
# What a strike does to each unit

The loops of `MakeAttack` looked at per unit: how often it is hit, and what that does to
its hit points. `TakeDamage` subtracts as on natural numbers from the unsigned hit points.
-/

set_option autoImplicit false

namespace AsciiTerra

theorem damagedHP_toNat (damage : UInt32) (hp : Int32) :
    (damagedHP damage hp).toUInt32.toNat = hp.toUInt32.toNat - damage.toNat := by
  unfold damagedHP
  split
  · rename_i hle
    rw [Nat.sub_eq_zero_of_le (UInt32.le_iff_toNat_le.mp hle)]
    rfl
  · rename_i hlt
    have hlt := UInt32.lt_iff_toNat_lt.mp (UInt32.not_le.mp hlt)
    exact UInt32.toNat_sub_of_le _ _ (UInt32.le_iff_toNat_le.mpr hlt.le)

theorem iterate_damagedHP_toNat (damage : UInt32) (n : Nat) (hp : Int32) :
    ((damagedHP damage)^[n] hp).toUInt32.toNat = hp.toUInt32.toNat - n * damage.toNat := by
  induction n generalizing hp with
  | zero => simp
  | succ n ih =>
    rw [Function.iterate_succ_apply, ih, damagedHP_toNat, Nat.succ_mul]
    omega

theorem int32_toNat_inj {a b : Int32} (h : a.toUInt32.toNat = b.toUInt32.toNat) : a = b :=
  Int32.toBitVec_inj.mp (BitVec.eq_of_toNat_eq h)

theorem iterate_damagedHP_eq_self_iff {damage : UInt32} {n : Nat} (hn : n ≠ 0) {hp : Int32} :
    (damagedHP damage)^[n] hp = hp ↔ damage = 0 ∨ hp = 0 := by
  have hnat : (damagedHP damage)^[n] hp = hp ↔
      hp.toUInt32.toNat - n * damage.toNat = hp.toUInt32.toNat := by
    rw [← iterate_damagedHP_toNat]
    exact ⟨fun h => by rw [h], int32_toNat_inj⟩
  have hdamage : damage = 0 ↔ damage.toNat = 0 :=
    ⟨fun h => by rw [h]; rfl, fun h => UInt32.toNat_inj.mp h⟩
  have hhp : hp = 0 ↔ hp.toUInt32.toNat = 0 :=
    ⟨fun h => by rw [h]; rfl, fun h => int32_toNat_inj h⟩
  rw [hnat, hdamage, hhp]
  constructor
  · intro h
    by_cases h0 : hp.toUInt32.toNat = 0
    · exact .inr h0
    · have hmul : n * damage.toNat = 0 := by omega
      exact .inl ((Nat.mul_eq_zero.mp hmul).resolve_left hn)
  · rintro (h | h)
    · rw [h, Nat.mul_zero, Nat.sub_zero]
    · omega

/-- Non-negative hit points read as unsigned are what they are. -/
theorem int32_toInt_of_nonneg {hp : Int32} (h : 0 ≤ hp) : hp.toInt = hp.toUInt32.toNat := by
  have h := Int32.le_iff_toInt_le.mp h
  have h0 : (0 : Int32).toInt = 0 := rfl
  have hcases := BitVec.toInt_eq_toNat_cond hp.toBitVec
  have hnat : hp.toUInt32.toNat = hp.toBitVec.toNat := rfl
  have hint : hp.toInt = hp.toBitVec.toInt := rfl
  rw [hnat, hint]
  rw [h0, hint] at h
  have hlt := hp.toBitVec.isLt
  split at hcases <;> omega

theorem damagedHP_toInt (damage : UInt32) {hp : Int32} (h : 0 ≤ hp) :
    (damagedHP damage hp).toInt = max 0 (hp.toInt - damage.toNat) := by
  have hnat := damagedHP_toNat damage hp
  have hhp := int32_toInt_of_nonneg h
  have hlt : hp.toInt < 2 ^ 31 := hp.toInt_lt
  have hcases := BitVec.toInt_eq_toNat_cond (damagedHP damage hp).toBitVec
  have hnat' : (damagedHP damage hp).toUInt32.toNat = (damagedHP damage hp).toBitVec.toNat := rfl
  have hint : (damagedHP damage hp).toInt = (damagedHP damage hp).toBitVec.toInt := rfl
  rw [hint]
  split at hcases <;> omega

theorem damagedHP_eq_zero_iff {damage : UInt32} {hp : Int32} (h : 0 ≤ hp) :
    damagedHP damage hp = 0 ↔ hp.toInt ≤ damage.toNat := by
  have hint := damagedHP_toInt damage h
  have h0 : (0 : Int32).toInt = 0 := rfl
  rw [← Int32.toInt_inj, h0, hint]
  omega

theorem Player.iterate_takeDamage (damage : UInt32) (n : Nat) (p : Player) :
    (Player.takeDamage damage)^[n] p = { p with hp := (damagedHP damage)^[n] p.hp } := by
  induction n generalizing p with
  | zero => rfl
  | succ n ih =>
    rw [Function.iterate_succ_apply, ih]
    rfl

theorem Enemy.iterate_takeDamage (damage : UInt32) (n : Nat) (e : Enemy) :
    (Enemy.takeDamage damage)^[n] e = { e with hp := (damagedHP damage)^[n] e.hp } := by
  induction n generalizing e with
  | zero => rfl
  | succ n ih =>
    rw [Function.iterate_succ_apply, ih]
    rfl

namespace GameWorld
variable {w : GameWorld} {damage : UInt32} {target : AttackTarget}

/-- A stored player is hit as often as its key is listed, whatever else is inserted. -/
theorem strike_lookup_of_mem {a : UInt32} (ha : a ∈ w.playersList) :
    (w.strike damage target).playersList.lookup a =
      (w.playersList.lookup a).map (Player.takeDamage damage)^[target.playerIDs.count a] :=
  OrderedMap.lookup_foldl_modifyOrInsert_of_mem ha

theorem mem_strike {a : UInt32} : a ∈ (w.strike damage target).playersList ↔
    a ∈ target.playerIDs ∨ a ∈ w.playersList :=
  OrderedMap.mem_foldl_modifyOrInsert

theorem strike_getElem? (i : Nat) : (w.strike damage target).enemyList[i]? =
    w.enemyList[i]?.map (Enemy.takeDamage damage)^[target.enemyIDs.count i] :=
  List.getElem?_foldl_modify target.enemyIDs w.enemyList i

theorem nodup_enemiesOn (w : GameWorld) (tile : CoordVec) (suits : Enemy → Bool) :
    (w.enemiesOn tile suits).Nodup :=
  List.nodup_range.filter _

end GameWorld

namespace Inventory
variable {inv : Inventory} {equipedItemID : UInt32} {slot : ItemSlot}

/-- The damage `MakeAttack` deals with this slot equipped: the power of a sword, with a bow
that of the first arrows, if there are any, and 1 with anything else. -/
def attackDamage (inv : Inventory) (slot : ItemSlot) : UInt32 :=
  if slot.item.type = ItemType.sword.code then slot.item.power.toUInt32
  else if slot.item.type = ItemType.bow.code then
    match inv.findIndex .arrow with
    | some i => (inv.storage[i]?.getD ItemSlot.default).item.power.toUInt32
    | none => 0
  else 1

/-- The inventory afterwards: with a bow the first arrows are one less. -/
def spent (inv : Inventory) (slot : ItemSlot) : Inventory :=
  if slot.item.type = ItemType.bow.code then
    match inv.findIndex .arrow with
    | some i => ⟨inv.storage.setIfInBounds i (useArrow (inv.storage[i]?.getD ItemSlot.default))⟩
    | none => inv
  else inv

theorem findIndex_lt {type : ItemType} {i : Nat} (h : inv.findIndex type = some i) :
    i < maxInventorySize := by
  obtain ⟨hlt, -⟩ := List.findIdx?_eq_some_iff_getElem.mp h
  rwa [Vector.length_toList] at hlt

theorem attack_eq (hslot : inv.storage[equipedItemID.toNat]? = some slot) :
    inv.attack equipedItemID =
      .ok (if slot.empty then none else some (inv.attackDamage slot, inv.spent slot)) := by
  unfold attack
  rw [hslot]
  by_cases hempty : slot.empty = true
  · simp only [hempty, if_true]
  simp only [hempty, if_false, Bool.false_eq_true]
  by_cases hsword : slot.item.type = ItemType.sword.code
  · have hbow : slot.item.type ≠ ItemType.bow.code := by
      rw [hsword]
      decide
    rw [if_pos hsword, attackDamage, if_pos hsword, spent, if_neg hbow]
  rw [if_neg hsword, attackDamage, if_neg hsword]
  by_cases hbow : slot.item.type = ItemType.bow.code
  · rw [if_pos hbow, if_pos hbow, spent, if_pos hbow]
    cases hfind : inv.findIndex .arrow with
    | none => rfl
    | some i =>
      obtain ⟨arrows, harrows⟩ : ∃ arrows, inv.storage[i]? = some arrows :=
        ⟨_, Vector.getElem?_eq_getElem (findIndex_lt hfind)⟩
      simp only [harrows, Option.getD_some]
  · rw [if_neg hbow, if_neg hbow, spent, if_neg hbow]

end Inventory

namespace GameWorld
variable {w : GameWorld} {target : AttackTarget} {slot : ItemSlot}

theorem playerMakeAttack_eq {id : UInt32} {p : Player} (hp : w.playersList.lookup id = some p)
    (hslot : p.inventory.storage[p.equipedItemID.toNat]? = some slot) :
    w.playerMakeAttack id target = .ok (if slot.empty then w else
      (w.modifyPlayer id fun q => { q with inventory := p.inventory.spent slot }).strike
        (p.inventory.attackDamage slot) target) := by
  unfold playerMakeAttack
  rw [playerAt_eq_ok.mpr hp, except_ok_bind, Inventory.attack_eq hslot, except_ok_bind]
  by_cases hempty : slot.empty = true
  · rw [if_pos hempty, if_pos hempty]
  · rw [if_neg hempty, if_neg hempty]

theorem enemyMakeAttack_eq {i : Nat} {e : Enemy} (he : w.enemyList[i]? = some e)
    (hslot : e.inventory.storage[e.equipedItemID.toNat]? = some slot) :
    w.enemyMakeAttack i target = .ok (if slot.empty then w else
      (w.modifyEnemy i fun q => { q with inventory := e.inventory.spent slot }).strike
        (e.inventory.attackDamage slot) target) := by
  unfold enemyMakeAttack
  rw [he]
  simp only
  rw [Inventory.attack_eq hslot, except_ok_bind]
  by_cases hempty : slot.empty = true
  · rw [if_pos hempty, if_pos hempty]
  · rw [if_neg hempty, if_neg hempty]

theorem attackOf_eq {id : UInt32} {p : Player} {action : PlayerAction}
    (hp : w.playersList.lookup id = some p)
    (hslot : p.inventory.storage[p.equipedItemID.toNat]? = some slot) :
    w.attackOf id action = .ok (if slot.empty then w else
      (w.modifyPlayer id fun q => { q with inventory := p.inventory.spent slot }).strike
        (p.inventory.attackDamage slot) (w.playerFindAttackTarget p action)) := by
  unfold attackOf
  rw [playerAt_eq_ok.mpr hp, except_ok_bind, playerMakeAttack_eq hp hslot]

theorem exists_slot (inv : Inventory) {equipedItemID : UInt32}
    (h : equipedItemID.toNat < maxInventorySize) :
    ∃ slot, inv.storage[equipedItemID.toNat]? = some slot :=
  ⟨_, Vector.getElem?_eq_getElem h⟩

end GameWorld

end AsciiTerra
