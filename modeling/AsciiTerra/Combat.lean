import AsciiTerra.World

/-!
# Moves and attacks

`GameWorld::MakeApprovedAction`, `MakeEnemyAction` and what they call. The acting
unit is a reference into the world, so it is given by its key in `PlayersList` or by
its index in `EnemyList`. The kill callback only reports to the client; it changes
no part of the world and is not part of these functions.
-/

set_option autoImplicit false

namespace AsciiTerra

structure AttackTarget where
  valid : Bool
  playerIDs : List UInt32
  enemyIDs : List Nat
deriving DecidableEq, Repr

namespace GameWorld

def enemiesOn (w : GameWorld) (tile : CoordVec) (suits : Enemy → Bool) : List Nat :=
  (List.range w.enemyList.length).filter fun i =>
    match w.enemyList[i]? with
    | some e => suits e && e.coords.equal tile
    | none => false

/-- IDs of the players on a tile that pass a test, in iteration order. -/
def playersOn (w : GameWorld) (tile : CoordVec) (suits : Player → Bool) : List UInt32 :=
  (w.playersList.entries.filter fun e => suits e.2 && e.2.coords.equal tile).map fun e => e.2.id

def attackTarget (playerIDs : List UInt32) (enemyIDs : List Nat) : AttackTarget :=
  ⟨!playerIDs.isEmpty || !enemyIDs.isEmpty, playerIDs, enemyIDs⟩

def playerFindAttackTarget (w : GameWorld) (player : Player) (action : PlayerAction) :
    AttackTarget :=
  let tile := player.coords + direction action.actionInfo
  attackTarget (w.playersOn tile fun p => p.id != player.id) (w.enemiesOn tile fun _ => true)

def enemyFindAttackTarget (w : GameWorld) (enemy : Enemy) (action : EnemyAction) : AttackTarget :=
  let tile := enemy.coords + direction action.actionInfo
  attackTarget (w.playersOn tile fun _ => true)
    (w.enemiesOn tile fun e => e.faction != enemy.faction)

end GameWorld

/-- What `MakeAttack` does with the attacker's inventory: the damage and the inventory
afterwards, or nothing with an empty equipped slot. -/
def Inventory.attack (inv : Inventory) (equipedItemID : UInt32) :
    Except Fault (Option (UInt32 × Inventory)) :=
  match inv.storage[equipedItemID.toNat]? with
  | none => .error .assertion
  | some slot =>
    if slot.empty then .ok none
    else if slot.item.type = ItemType.sword.code then .ok (some (slot.item.power.toUInt32, inv))
    else if slot.item.type = ItemType.bow.code then
      match inv.findIndex .arrow with
      | none => .ok (some (0, inv))
      | some arrowID =>
        match inv.storage[arrowID]? with
        | none => .error .assertion
        | some arrows => .ok (some (arrows.item.power.toUInt32,
            ⟨inv.storage.setIfInBounds arrowID (Inventory.useArrow arrows)⟩))
    else .ok (some (1, inv))

namespace GameWorld

/-- The loops of `MakeAttack` over its targets. -/
def strike (damage : UInt32) (target : AttackTarget) (w : GameWorld) : GameWorld :=
  { w with
    playersList := target.playerIDs.foldl
      (fun ps id => OrderedMap.modifyOrInsert Player.default id (Player.takeDamage damage) ps)
      w.playersList
    enemyList := target.enemyIDs.foldl (fun es i => es.modify i (Enemy.takeDamage damage))
      w.enemyList }

/-- `Player::MakeAttack` of the player stored under `id`. -/
def playerMakeAttack (w : GameWorld) (id : UInt32) (target : AttackTarget) :
    Except Fault GameWorld := do
  let player ← w.playerAt id
  match ← player.inventory.attack player.equipedItemID with
  | none => .ok w
  | some (damage, inventory) =>
    .ok ((w.modifyPlayer id fun p => { p with inventory := inventory }).strike damage target)

/-- `Enemy::MakeAttack` of the enemy at index `i`. -/
def enemyMakeAttack (w : GameWorld) (i : Nat) (target : AttackTarget) : Except Fault GameWorld :=
  match w.enemyList[i]? with
  | none => .error .badIndex
  | some enemy => do
    match ← enemy.inventory.attack enemy.equipedItemID with
    | none => .ok w
    | some (damage, inventory) =>
      .ok ((w.modifyEnemy i fun e => { e with inventory := inventory }).strike damage target)

/-- `case Attack` of `MakeApprovedAction`. -/
def attackOf (id : UInt32) (action : PlayerAction) (w : GameWorld) : Except Fault GameWorld := do
  let player ← w.playerAt id
  w.playerMakeAttack id (w.playerFindAttackTarget player action)

/-- The `switch` of `MakeApprovedAction`; `case Move` has no `break`. -/
def actOf (id : UInt32) (action : PlayerAction) (w : GameWorld) : Except Fault GameWorld :=
  match EPlayerActionType.ofCode action.actionType with
  | some .move =>
    (w.modifyPlayer id fun p =>
      { p with coords := p.coords + direction action.actionInfo }).attackOf id action
  | some .attack => w.attackOf id action
  | _ => .ok w

/-- `MakeApprovedAction` on the player stored under `id`. -/
def makeApprovedAction (w : GameWorld) (id : UInt32) (action : PlayerAction) :
    Except Fault GameWorld := do
  let w ← w.actOf id action
  let player ← w.playerAt id
  let player ← player.setCurrentTurnActions (player.getCurrentTurnActions - 1)
  .ok (w.modifyPlayer id fun _ => player)

/-- `MakeEnemyAction` on the enemy at index `i`. -/
def makeEnemyAction (w : GameWorld) (i : Nat) (action : EnemyAction) : Except Fault GameWorld :=
  match w.enemyList[i]? with
  | none => .error .badIndex
  | some enemy =>
    match EEnemyActionType.ofCode action.actionType with
    | some .enemyMove =>
      .ok (w.modifyEnemy i fun e => { e with coords := e.coords + direction action.actionInfo })
    | some .enemyBaseAttack => w.enemyMakeAttack i (w.enemyFindAttackTarget enemy action)
    | none => .ok w

end GameWorld

/-- The keys of `PlayersList` are the IDs of the records. -/
def KeysAreIDs (ps : PlayersList) : Prop := ∀ e ∈ ps.entries, e.2.id = e.1

theorem KeysAreIDs.id_eq {ps : PlayersList} (h : KeysAreIDs ps) {id : UInt32} {p : Player}
    (hp : ps.lookup id = some p) : p.id = id :=
  h ⟨id, p⟩ (OrderedMap.mem_entries_of_lookup hp)

theorem KeysAreIDs.insertOrAssign {order : Arrangement (OrderedMap.Entry UInt32 Player)}
    {ps : PlayersList} (h : KeysAreIDs ps) {id : UInt32} {p : Player} (hp : p.id = id) :
    KeysAreIDs (OrderedMap.insertOrAssign order id p ps) :=
  OrderedMap.forall_insertOrAssign (P := fun (k : UInt32) (p : Player) => p.id = k) hp h

/-- Nothing but the hit points differs. -/
def Player.Hurt (p p' : Player) : Prop := p' = { p with hp := p'.hp }

theorem Player.Hurt.refl (p : Player) : p.Hurt p := rfl

theorem Player.Hurt.trans (p q r : Player) (h : p.Hurt q) (h' : q.Hurt r) : p.Hurt r := by
  unfold Player.Hurt at h h' ⊢
  rw [h', h]

theorem Player.hurt_takeDamage (damage : UInt32) (p : Player) : p.Hurt (p.takeDamage damage) := rfl

def Enemy.Armed (e : Enemy) : Prop :=
  ∃ slot, e.inventory.storage[e.equipedItemID.toNat]? = some slot ∧ slot.empty = false

/-- What no action of the enemies changes: everything but the hit points, the position
and the slots that are not equipped. The dead stay dead. -/
structure Enemy.Kept (e e' : Enemy) : Prop where
  type : e'.type = e.type
  faction : e'.faction = e.faction
  maxActions : e'.maxActions = e.maxActions
  equipedItemID : e'.equipedItemID = e.equipedItemID
  weapon : e'.inventory.storage[e.equipedItemID.toNat]? =
    e.inventory.storage[e.equipedItemID.toNat]?
  dead : e.hp = 0 → e'.hp = 0

/-- `Kept`, and the position is the same. -/
def Enemy.KeptInPlace (e e' : Enemy) : Prop := e.Kept e' ∧ e'.coords = e.coords

namespace Enemy

theorem Kept.refl (e : Enemy) : e.Kept e := ⟨rfl, rfl, rfl, rfl, rfl, fun h => h⟩

theorem Kept.trans (a b c : Enemy) (h : a.Kept b) (h' : b.Kept c) : a.Kept c where
  type := h'.type.trans h.type
  faction := h'.faction.trans h.faction
  maxActions := h'.maxActions.trans h.maxActions
  equipedItemID := h'.equipedItemID.trans h.equipedItemID
  weapon := by
    have hw := h'.weapon
    rw [h.equipedItemID] at hw
    exact hw.trans h.weapon
  dead h0 := h'.dead (h.dead h0)

theorem KeptInPlace.refl (e : Enemy) : e.KeptInPlace e := ⟨.refl e, rfl⟩

theorem KeptInPlace.trans (a b c : Enemy) (h : a.KeptInPlace b) (h' : b.KeptInPlace c) :
    a.KeptInPlace c :=
  ⟨Kept.trans a b c h.1 h'.1, h'.2.trans h.2⟩

theorem keptInPlace_takeDamage (damage : UInt32) (e : Enemy) :
    e.KeptInPlace (e.takeDamage damage) :=
  ⟨⟨rfl, rfl, rfl, rfl, rfl, damagedHP_of_eq_zero damage⟩, rfl⟩

theorem Kept.armed {e e' : Enemy} (h : e.Kept e') (he : e.Armed) : e'.Armed := by
  obtain ⟨slot, hslot, hempty⟩ := he
  exact ⟨slot, by rw [h.equipedItemID, h.weapon, hslot], hempty⟩

end Enemy

/-- An item in the equipped slot makes the attack succeed and stays where it is: the slot
that loses an arrow holds an arrow, the equipped one then a bow. -/
theorem Inventory.attack_armed {inv : Inventory} {equiped : UInt32} {slot : ItemSlot}
    (hslot : inv.storage[equiped.toNat]? = some slot) (hempty : slot.empty = false) :
    ∃ damage inv', inv.attack equiped = .ok (some (damage, inv')) ∧
      inv'.storage[equiped.toNat]? = some slot := by
  unfold Inventory.attack
  rw [hslot]
  by_cases hsword : slot.item.type = ItemType.sword.code
  · exact ⟨_, inv, by simp [hempty, hsword]; rfl, hslot⟩
  by_cases hbow : slot.item.type = ItemType.bow.code
  · cases harrow : inv.findIndex .arrow with
    | none => exact ⟨0, inv, by simp [hempty, hbow, ItemType.code], hslot⟩
    | some arrowID =>
      obtain ⟨hlt, hfound, _⟩ := List.findIdx?_eq_some_iff_getElem.mp harrow
      rw [Vector.length_toList] at hlt
      have hne : arrowID ≠ equiped.toNat := by
        intro heq
        have hget : inv.storage[arrowID]? = some slot := by rw [heq, hslot]
        rw [Vector.getElem?_eq_getElem hlt, Option.some.injEq] at hget
        simp [hget, hbow, ItemType.code] at hfound
      refine ⟨_, ⟨inv.storage.setIfInBounds arrowID (Inventory.useArrow inv.storage[arrowID])⟩,
        by simp [hempty, hbow, ItemType.code, Vector.getElem?_eq_getElem hlt]; rfl, ?_⟩
      rw [Vector.getElem?_setIfInBounds, if_neg hne, hslot]
  · exact ⟨1, inv, by simp [hempty, hsword, hbow], hslot⟩

namespace GameWorld

@[simp] theorem strike_gameWorldMap (damage : UInt32) (t : AttackTarget) (w : GameWorld) :
    (w.strike damage t).gameWorldMap = w.gameWorldMap := rfl

theorem strike_enemies (damage : UInt32) (t : AttackTarget) (w : GameWorld) :
    List.Forall₂ Enemy.KeptInPlace w.enemyList (w.strike damage t).enemyList :=
  List.forall₂_foldl_modify Enemy.KeptInPlace.refl Enemy.KeptInPlace.trans
    (Enemy.keptInPlace_takeDamage damage) t.enemyIDs w.enemyList

theorem strike_players {damage : UInt32} {t : AttackTarget} {w : GameWorld}
    (h : ∀ id ∈ t.playerIDs, id ∈ w.playersList) :
    OrderedMap.Related Player.Hurt w.playersList (w.strike damage t).playersList := by
  have go : ∀ (ids : List UInt32) (ps : PlayersList), (∀ id ∈ ids, id ∈ ps) →
      OrderedMap.Related Player.Hurt ps
        (ids.foldl (fun ps id => OrderedMap.modifyOrInsert Player.default id
          (Player.takeDamage damage) ps) ps) := by
    intro ids
    induction ids with
    | nil => exact fun ps _ => .refl Player.Hurt.refl ps
    | cons id ids ih =>
      intro ps hids
      have hone : OrderedMap.Related Player.Hurt ps
          (OrderedMap.modifyOrInsert Player.default id (Player.takeDamage damage) ps) := by
        rw [OrderedMap.modifyOrInsert_of_mem (hids id List.mem_cons_self)]
        exact .modify Player.Hurt.refl fun p _ => Player.hurt_takeDamage damage p
      refine hone.trans Player.Hurt.trans (ih _ fun a ha => ?_)
      exact hone.mem_iff.mpr (hids a (List.mem_cons_of_mem id ha))
  exact go t.playerIDs w.playersList h

theorem strike_lookup {damage : UInt32} {t : AttackTarget} {w : GameWorld}
    (h : ∀ id ∈ t.playerIDs, id ∈ w.playersList) (a : UInt32) :
    (w.strike damage t).playersList.lookup a =
      (w.playersList.lookup a).map (Player.takeDamage damage)^[t.playerIDs.count a] :=
  OrderedMap.lookup_foldl_modifyOrInsert a h

theorem playersOn_subset {w : GameWorld} (hk : KeysAreIDs w.playersList) {tile : CoordVec}
    {suits : Player → Bool} : ∀ id ∈ w.playersOn tile suits, id ∈ w.playersList := by
  intro id hid
  obtain ⟨e, he, rfl⟩ := List.mem_map.mp hid
  have hmem := List.mem_of_mem_filter he
  rw [hk e hmem]
  exact OrderedMap.mem_of_mem_entries hmem

theorem enemyFindAttackTarget_subset {w : GameWorld} (hk : KeysAreIDs w.playersList)
    (enemy : Enemy) (action : EnemyAction) :
    ∀ id ∈ (w.enemyFindAttackTarget enemy action).playerIDs, id ∈ w.playersList := by
  simp only [enemyFindAttackTarget, attackTarget]
  exact playersOn_subset hk

theorem playerFindAttackTarget_subset {w : GameWorld} (hk : KeysAreIDs w.playersList)
    (player : Player) (action : PlayerAction) :
    ∀ id ∈ (w.playerFindAttackTarget player action).playerIDs, id ∈ w.playersList := by
  simp only [playerFindAttackTarget, attackTarget]
  exact playersOn_subset hk

theorem makeEnemyAction_move {w : GameWorld} {i : Nat} {enemy : Enemy} {action : EnemyAction}
    (he : w.enemyList[i]? = some enemy)
    (ha : EEnemyActionType.ofCode action.actionType = some .enemyMove) :
    w.makeEnemyAction i action = .ok (w.modifyEnemy i fun e =>
      { e with coords := e.coords + direction action.actionInfo }) := by
  simp only [makeEnemyAction, he, ha]

theorem makeEnemyAction_attack {w : GameWorld} {i : Nat} {enemy : Enemy} {action : EnemyAction}
    (he : w.enemyList[i]? = some enemy) (harmed : enemy.Armed)
    (ha : EEnemyActionType.ofCode action.actionType = some .enemyBaseAttack) :
    ∃ damage inventory, w.makeEnemyAction i action =
        .ok ((w.modifyEnemy i fun e => { e with inventory := inventory }).strike damage
          (w.enemyFindAttackTarget enemy action)) ∧
      inventory.storage[enemy.equipedItemID.toNat]? =
        enemy.inventory.storage[enemy.equipedItemID.toNat]? := by
  obtain ⟨slot, hslot, hempty⟩ := harmed
  obtain ⟨damage, inventory, hattack, hkept⟩ := Inventory.attack_armed hslot hempty
  refine ⟨damage, inventory, ?_, by rw [hkept, hslot]⟩
  simp only [makeEnemyAction, he, ha, enemyMakeAttack, hattack, except_ok_bind]

end GameWorld

end AsciiTerra
