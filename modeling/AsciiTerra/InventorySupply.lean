import AsciiTerra.RegisteredRecord
import AsciiTerra.SmallSteps

/-!
# Arrows in stock

`MakeAttack` indexes the inventory with `EquipedItemID` and takes an arrow from the first
slot with arrows. The enemies keep a weapon and only slots with arrows in them; so do the
players, as long as the records they register with do.
-/

set_option autoImplicit false

namespace AsciiTerra

namespace Inventory
variable {inv inv' : Inventory}

/-- `MakeAttack` with this slot equipped stays within the inventory and takes an arrow only
where there is one. -/
structure Usable (inv : Inventory) (equipedItemID : UInt32) : Prop where
  index : equipedItemID.toNat < maxInventorySize
  arrows : ∀ slot, inv.storage[equipedItemID.toNat]? = some slot → slot.empty = false →
    slot.item.type = ItemType.bow.code → ∀ arrowID arrows, inv.findIndex .arrow = some arrowID →
      inv.storage[arrowID]? = some arrows → 1 ≤ arrows.quantity

/-- No slot with arrows has run out of them. -/
def Stocked (inv : Inventory) : Prop :=
  ∀ (i : Nat) (slot : ItemSlot), inv.storage[i]? = some slot → slot.empty = false →
    slot.item.type = ItemType.arrow.code → slot.quantity ≠ 0

theorem findIndex_arrow {i : Nat} {slot : ItemSlot} (h : inv.findIndex .arrow = some i)
    (hslot : inv.storage[i]? = some slot) :
    slot.empty = false ∧ slot.item.type = ItemType.arrow.code := by
  obtain ⟨hlt, hfound, -⟩ := List.findIdx?_eq_some_iff_getElem.mp h
  rw [Vector.length_toList] at hlt
  rw [Vector.getElem?_eq_getElem hlt, Option.some.injEq] at hslot
  rw [Vector.getElem_toList, hslot] at hfound
  simpa using hfound

theorem Stocked.usable (h : inv.Stocked) {id : UInt32} (hid : id.toNat < maxInventorySize) :
    inv.Usable id := by
  refine ⟨hid, ?_⟩
  intro slot _ _ _ arrowID arrows hfind harrows
  obtain ⟨hempty, harrow⟩ := findIndex_arrow hfind harrows
  have hne := h arrowID arrows harrows hempty harrow
  have hpos : arrows.quantity.toNat ≠ 0 := fun h0 => hne (UInt32.toNat_inj.mp h0)
  apply UInt32.le_iff_toNat_le.mpr
  rw [UInt32.toNat_one]
  omega

theorem Stocked.set (h : inv.Stocked) {i : Nat} {slot : ItemSlot}
    (hslot : slot.empty = false → slot.item.type = ItemType.arrow.code → slot.quantity ≠ 0) :
    Stocked ⟨inv.storage.setIfInBounds i slot⟩ := by
  intro j slot' hj
  rw [Vector.getElem?_setIfInBounds] at hj
  split at hj
  · split at hj
    · cases hj
      exact hslot
    · exact nomatch hj
  · exact h j slot' hj

theorem Stocked.addItem (h : inv.Stocked) {item : Item}
    (hitem : item.type = ItemType.arrow.code → item.usage ≠ 0) : (inv.addItem item).Stocked := by
  unfold Inventory.addItem
  split
  · refine h.set fun _ harrow => ?_
    have harrow : item.type = ItemType.arrow.code := harrow
    have hworn : ¬ (item.type = ItemType.sword.code ∨ item.type = ItemType.bow.code) := by
      rw [harrow]
      decide
    simp only [slotOf, if_neg hworn]
    intro h0
    apply hitem harrow
    apply UInt8.toNat_inj.mp
    simpa using congrArg UInt32.toNat h0
  · exact h

theorem Stocked.attack (h : inv.Stocked) {id damage : UInt32}
    (hattack : inv.attack id = .ok (some (damage, inv'))) : inv'.Stocked := by
  unfold Inventory.attack at hattack
  split at hattack
  · exact nomatch hattack
  · split at hattack
    · exact nomatch hattack
    · split at hattack
      · cases hattack
        exact h
      · split at hattack
        · split at hattack
          · cases hattack
            exact h
          · split at hattack
            · exact nomatch hattack
            · cases hattack
              refine h.set fun hempty _ h0 => ?_
              -- the slot becomes empty with its last arrow
              simp only [useArrow] at hempty h0
              rw [if_pos h0] at hempty
              exact nomatch hempty
        · cases hattack
          exact h

theorem itemTable_usage (n : Nat) : (itemTable.getD n Item.default).type = ItemType.arrow.code →
    (itemTable.getD n Item.default).usage ≠ 0 := by
  have htable : ∀ item ∈ itemTable, item.type = ItemType.arrow.code → item.usage ≠ 0 := by
    simp [itemTable, ItemType.code]
  rw [List.getD_eq_getElem?_getD]
  cases hn : itemTable[n]? with
  | none => exact fun h => absurd h (by decide)
  | some item => exact htable item (List.mem_of_getElem? hn)

theorem Stocked.giveItems (h : inv.Stocked) (rand : Nat → Nat) (left i drawn : Nat) :
    (giveItems rand left i drawn inv).Stocked := by
  induction left generalizing i drawn inv with
  | zero => exact h
  | succ left ih =>
    unfold AsciiTerra.giveItems
    split
    · exact ih (h.addItem (itemTable_usage _)) _ _
    · exact h

end Inventory

/-- `EquipedItemID` is a slot, and there are arrows where there should be. -/
structure Player.Equipped (p : Player) : Prop where
  index : p.equipedItemID.toNat < maxInventorySize
  stocked : p.inventory.Stocked

instance (inv : Inventory) : Decidable inv.Stocked :=
  decidable_of_iff (∀ i : Fin maxInventorySize, inv.storage[i].empty = false →
    inv.storage[i].item.type = ItemType.arrow.code → inv.storage[i].quantity ≠ 0) <| by
    constructor
    · intro h i slot hslot
      obtain ⟨hlt, rfl⟩ := Vector.getElem?_eq_some_iff.mp hslot
      exact h ⟨i, hlt⟩
    · intro h i
      exact h i _ (Vector.getElem?_eq_getElem i.isLt)

theorem Player.Equipped.hurt {p p' : Player} (h : p.Equipped) (hp : p.Hurt p') : p'.Equipped := by
  rw [hp]
  exact ⟨h.index, h.stocked⟩

theorem Player.Equipped.registered {p : Player} (h : p.Equipped) (rand : Nat → Nat) (id : UInt32) :
    (p.registered rand id).Equipped :=
  ⟨h.index, h.stocked.giveItems rand 5 0 2⟩

namespace GameWorld
variable {w w' : GameWorld}

/-- Every enemy has a weapon from its table and arrows in stock. -/
structure Supplied (w : GameWorld) : Prop where
  keysAreIDs : KeysAreIDs w.playersList
  fromTable : ∀ e ∈ w.enemyList, e.FromTable
  stocked : ∀ e ∈ w.enemyList, e.inventory.Stocked

theorem Supplied.allArmed (h : w.Supplied) : w.AllArmed := fun e he => (h.fromTable e he).armed

theorem forall_modify {P : Enemy → Prop} {l : List Enemy} {i : Nat} {f : Enemy → Enemy}
    (h : ∀ e ∈ l, P e) (hf : ∀ e, l[i]? = some e → P e → P (f e)) : ∀ e ∈ l.modify i f, P e := by
  intro e he
  obtain ⟨j, hj⟩ := List.mem_iff_getElem?.mp he
  rw [List.getElem?_modify] at hj
  obtain ⟨e', he', rfl⟩ := Option.map_eq_some_iff.mp hj
  have hold := h e' (List.mem_of_getElem? he')
  split
  · rename_i hij
    exact hf e' (hij ▸ he') hold
  · exact hold

theorem strike_stocked (h : ∀ e ∈ w.enemyList, e.inventory.Stocked) (damage : UInt32)
    (target : AttackTarget) : ∀ e ∈ (w.strike damage target).enemyList, e.inventory.Stocked := by
  have go : ∀ (ids : List Nat) (l : List Enemy), (∀ e ∈ l, e.inventory.Stocked) →
      ∀ e ∈ ids.foldl (fun es i => es.modify i (Enemy.takeDamage damage)) l,
        e.inventory.Stocked := by
    intro ids
    induction ids with
    | nil => exact fun l hl => hl
    | cons i ids ih => exact fun l hl => ih _ (forall_modify hl fun e _ he => he)
  exact go target.enemyIDs w.enemyList h

theorem makeEnemyAction_stocked {i : Nat} {action : EnemyAction}
    (h : ∀ e ∈ w.enemyList, e.inventory.Stocked) (hw : w.makeEnemyAction i action = .ok w') :
    ∀ e ∈ w'.enemyList, e.inventory.Stocked := by
  unfold makeEnemyAction at hw
  split at hw
  · exact nomatch hw
  · rename_i enemy henemy
    have hstock := h enemy (List.mem_of_getElem? henemy)
    split at hw
    · cases hw
      exact forall_modify h fun e _ he => he
    · simp only [enemyMakeAttack, henemy] at hw
      obtain ⟨r, hr, hw⟩ := except_bind_eq_ok.mp hw
      cases r with
      | none =>
        cases hw
        exact h
      | some r =>
        cases hw
        exact strike_stocked (forall_modify h fun _ _ _ => hstock.attack hr) _ _
    · cases hw
      exact h

end GameWorld

theorem GameWorld.Supplied.related {w w' : GameWorld} (h : w.Supplied) (hrelated : w.AIRelated w')
    (hstocked : ∀ e ∈ w'.enemyList, e.inventory.Stocked) : w'.Supplied where
  keysAreIDs := hrelated.keysAreIDs h.keysAreIDs
  fromTable := hrelated.forall_enemies (fun _ _ => Enemy.Turned.fromTable) h.fromTable
  stocked := hstocked

theorem aiIteration_supplied {i : Nat} {id : UInt32} {st st' : AILoop} (h : st.world.Supplied)
    (hst : aiIteration i id st = .ok st') : st'.world.Supplied := by
  cases he : st.world.enemyList[i]? with
  | none =>
    simp only [aiIteration, he] at hst
    cases hst
  | some enemy =>
    rcases aiIteration_cases id he (h.allArmed enemy (List.mem_of_getElem? he)) with
      ⟨-, hit⟩ | ⟨action, t, w, -, hw, hrelated, hit⟩
    · cases hit.symm.trans hst
      exact h
    · cases hit.symm.trans hst
      exact h.related hrelated (GameWorld.makeEnemyAction_stocked h.stocked hw)

theorem aiWhile_supplied {i : Nat} {id : UInt32} {n : Nat} {st st' : AILoop}
    (h : st.world.Supplied) (hst : aiWhile i id n st = .ok st') : st'.world.Supplied := by
  induction n generalizing st with
  | zero => exact nomatch hst
  | succ n ih =>
    unfold aiWhile at hst
    split at hst
    · cases hst
      exact h
    · obtain ⟨st1, h1, hst⟩ := Outcome.bind_eq_ok.mp hst
      exact ih (aiIteration_supplied h (Outcome.ofExcept_eq_ok.mp h1)) hst

theorem enemyTurn_supplied {n i : Nat} {st st' : AITurn} (h : st.world.Supplied)
    (hst : enemyTurn n st i = .ok st') : st'.world.Supplied := by
  cases he : st.world.enemyList[i]? with
  | none =>
    simp only [enemyTurn, he] at hst
    cases hst
  | some enemy =>
    rcases enemyTurn_cases he (h.allArmed enemy (List.mem_of_getElem? he)) with
      ⟨-, ht⟩ | ⟨-, -, ht⟩ | ⟨-, -, ht⟩
    · cases (ht n).symm.trans hst
      exact h
    · cases (ht n).symm.trans hst
      exact h
    · rw [ht n] at hst
      obtain ⟨loop, hloop, hst⟩ := Outcome.bind_eq_ok.mp hst
      cases hst
      exact @aiWhile_supplied _ _ _ ⟨_, _, _, _⟩ _ h hloop

theorem enemyTurns_supplied {n k : Nat} {w : GameWorld} {st : AITurn} (h : w.Supplied)
    (hst : enemyTurns n w k = .ok st) : st.world.Supplied := by
  induction k generalizing st with
  | zero =>
    cases hst
    exact h
  | succ k ih =>
    rw [enemyTurns_succ] at hst
    obtain ⟨st1, h1, hst⟩ := Outcome.bind_eq_ok.mp hst
    exact enemyTurn_supplied (ih h1) hst

/-- The states that the `while` loop of the enemy at index `i` comes to. -/
inductive LoopReaches (i : Nat) (activeEnemyID : UInt32) : AILoop → AILoop → Prop
  | start (st : AILoop) : LoopReaches i activeEnemyID st st
  | next {st st' st'' : AILoop} : LoopReaches i activeEnemyID st st' → st'.leftedAction ≠ 0 →
      aiIteration i activeEnemyID st' = .ok st'' → LoopReaches i activeEnemyID st st''

/-- `Enemy::MakeAttack` is executed with this record in the turn of the enemies from `w`: one of
its enemies is alive, has a target, and an iteration of its loop decides on an attack. -/
def EnemyAttacks (w : GameWorld) (e : Enemy) : Prop :=
  ∃ (k : Nat) (st : AITurn) (enemy armed : Enemy) (loop : AILoop) (action : EnemyAction)
    (targetCoords : CoordVec),
    enemyTurns (aiIterations w) w k = .ok st ∧ st.world.enemyList[k]? = some enemy ∧
    enemy.hp ≠ 0 ∧ reequip enemy = .ok armed ∧
    (chooseTarget (st.world.modifyEnemy k fun _ => armed) armed).bestAttackCandidate ≠ invalidID ∧
    LoopReaches k st.activeEnemyID ⟨st.world.modifyEnemy k fun _ => armed,
      (chooseTarget (st.world.modifyEnemy k fun _ => armed) armed).targetCoords, armed.maxActions,
      st.enemyActions⟩ loop ∧
    loop.leftedAction ≠ 0 ∧ loop.world.enemyList[k]? = some e ∧
    decideAction st.activeEnemyID loop.targetCoords e.coords = some (action, targetCoords) ∧
    EEnemyActionType.ofCode action.actionType = some .enemyBaseAttack

theorem Enemy.Armed.index {e : Enemy} (h : e.Armed) : e.equipedItemID.toNat < maxInventorySize := by
  obtain ⟨slot, hslot, -⟩ := h
  exact (Vector.getElem?_eq_some_iff.mp hslot).1

theorem LoopReaches.supplied {i : Nat} {id : UInt32} {st st' : AILoop} (h : st.world.Supplied)
    (hreach : LoopReaches i id st st') : st'.world.Supplied := by
  induction hreach with
  | start => exact h
  | next _ _ hit ih => exact aiIteration_supplied ih hit

theorem EnemyAttacks.usable {w : GameWorld} {e : Enemy} (h : w.Supplied) (ha : EnemyAttacks w e) :
    e.inventory.Usable e.equipedItemID := by
  obtain ⟨k, st, enemy, armed, loop, action, t, hst, henemy, -, hequip, -, hloop, -, he, -, -⟩ := ha
  have hst' := enemyTurns_supplied h hst
  -- nobody comes to the search for another weapon
  cases (reequip_armed (hst'.allArmed enemy (List.mem_of_getElem? henemy))).symm.trans hequip
  have hstart : (st.world.modifyEnemy k fun _ => enemy).Supplied := by
    have hsame : (st.world.modifyEnemy k fun _ => enemy) = st.world := by
      simp [GameWorld.modifyEnemy, modify_eq_self henemy]
    rw [hsame]
    exact hst'
  have hend := hloop.supplied hstart
  have hmem := List.mem_of_getElem? he
  exact (hend.stocked e hmem).usable (hend.allArmed e hmem).index

namespace GameWorld
variable {w w' : GameWorld} {id : UInt32} {action : PlayerAction}

/-- The world in which `MakeApprovedAction` calls `MakeAttack`; after a step there is an attack,
too. -/
def attackWorld (w : GameWorld) (id : UInt32) (action : PlayerAction) : Option GameWorld :=
  match EPlayerActionType.ofCode action.actionType with
  | some .move => some (w.modifyPlayer id fun p =>
      { p with coords := p.coords + direction action.actionInfo })
  | some .attack => some w
  | _ => none

theorem actOf_eq : w.actOf id action =
    match w.attackWorld id action with
    | some v => v.attackOf id action
    | none => .ok w := by
  unfold actOf attackWorld
  cases EPlayerActionType.ofCode action.actionType with
  | none => rfl
  | some type => cases type <;> rfl

/-- `Player::MakeAttack` is executed with this record for an approved action. -/
def PlayerAttacks (w : GameWorld) (id : UInt32) (action : PlayerAction) (player : Player) : Prop :=
  ∃ v, w.attackWorld id action = some v ∧ v.playersList.lookup id = some player

def AllEquipped (w : GameWorld) : Prop := ∀ e ∈ w.playersList.entries, e.2.Equipped

theorem AllEquipped.related {R : Player → Player → Prop} (h : w.AllEquipped)
    (hrelated : OrderedMap.Related R w.playersList w'.playersList)
    (hR : ∀ p p', R p p' → p.Equipped → p'.Equipped) : w'.AllEquipped :=
  hrelated.forall_entries (P := fun _ (p : Player) => p.Equipped) (fun _ => hR) h

theorem AllEquipped.modifyPlayer {f : Player → Player} (h : w.AllEquipped)
    (hf : ∀ p, w.playersList.lookup id = some p → p.Equipped → (f p).Equipped) :
    (w.modifyPlayer id f).AllEquipped :=
  h.related (R := fun p p' => p.Equipped → p'.Equipped) (.modify (fun _ hp => hp) hf)
    fun _ _ himp => himp

theorem attackWorld_spec {v : GameWorld} (hk : KeysAreIDs w.playersList) (h : w.AllEquipped)
    (hv : w.attackWorld id action = some v) : KeysAreIDs v.playersList ∧ v.AllEquipped ∧
      v.enemyList = w.enemyList := by
  unfold attackWorld at hv
  split at hv
  · cases hv
    exact ⟨Agrees.modifyPlayer_keysAreIDs hk fun p => rfl, h.modifyPlayer fun _ _ hp =>
      ⟨hp.index, hp.stocked⟩, rfl⟩
  · cases hv
    exact ⟨hk, h, rfl⟩
  · exact nomatch hv

theorem PlayerAttacks.usable {player : Player} (hk : KeysAreIDs w.playersList) (h : w.AllEquipped)
    (ha : w.PlayerAttacks id action player) : player.inventory.Usable player.equipedItemID := by
  obtain ⟨v, hv, hplayer⟩ := ha
  have hequipped := (attackWorld_spec hk h hv).2.1 ⟨id, player⟩
    (OrderedMap.mem_entries_of_lookup hplayer)
  exact hequipped.stocked.usable hequipped.index

theorem attackOf_equipped (hk : KeysAreIDs w.playersList) (h : w.AllEquipped)
    (hw : w.attackOf id action = .ok w') : w'.AllEquipped := by
  unfold attackOf playerMakeAttack at hw
  obtain ⟨player, hplayer, hw⟩ := except_bind_eq_ok.mp hw
  rw [hplayer, except_ok_bind] at hw
  obtain ⟨result, hresult, hw⟩ := except_bind_eq_ok.mp hw
  cases result with
  | none =>
    cases hw
    exact h
  | some r =>
    cases hw
    have hlookup := playerAt_eq_ok.mp hplayer
    have hspent : (w.modifyPlayer id fun p => { p with inventory := r.2 }).AllEquipped := by
      refine h.modifyPlayer fun p hp hequipped => ?_
      cases hlookup.symm.trans hp
      exact ⟨hequipped.index, hequipped.stocked.attack hresult⟩
    have hids : ∀ a ∈ (w.playerFindAttackTarget player action).playerIDs,
        a ∈ (w.modifyPlayer id fun p => { p with inventory := r.2 }).playersList :=
      fun a ha => OrderedMap.mem_modify.mpr (playerFindAttackTarget_subset hk player action a ha)
    exact hspent.related (strike_players hids) fun _ _ hhurt hp => hp.hurt hhurt

theorem attackOf_stocked (h : ∀ e ∈ w.enemyList, e.inventory.Stocked)
    (hw : w.attackOf id action = .ok w') : ∀ e ∈ w'.enemyList, e.inventory.Stocked := by
  unfold attackOf playerMakeAttack at hw
  obtain ⟨player, hplayer, hw⟩ := except_bind_eq_ok.mp hw
  rw [hplayer, except_ok_bind] at hw
  obtain ⟨result, -, hw⟩ := except_bind_eq_ok.mp hw
  cases result with
  | none =>
    cases hw
    exact h
  | some r =>
    cases hw
    exact strike_stocked (w := w.modifyPlayer id fun p => { p with inventory := r.2 }) h _ _

theorem makeApprovedAction_equipped (hk : KeysAreIDs w.playersList) (h : w.AllEquipped)
    (hw : w.makeApprovedAction id action = .ok w') : w'.AllEquipped := by
  obtain ⟨u, hu, hw⟩ := except_bind_eq_ok.mp hw
  obtain ⟨p, hp, hw⟩ := except_bind_eq_ok.mp hw
  obtain ⟨q, hq, hw⟩ := except_bind_eq_ok.mp hw
  cases hw
  have hact : u.AllEquipped := by
    rw [actOf_eq] at hu
    split at hu
    · rename_i v hv
      obtain ⟨hkeys, hequipped, -⟩ := attackWorld_spec hk h hv
      exact attackOf_equipped hkeys hequipped hu
    · cases hu
      exact h
  refine hact.modifyPlayer fun p' hp' hequipped => ?_
  cases (playerAt_eq_ok.mp hp).symm.trans hp'
  rw [(setCurrentTurnActions_sub_one hq).2]
  exact ⟨hequipped.index, hequipped.stocked⟩

theorem makeApprovedAction_supplied (h : w.Supplied)
    (hw : w.makeApprovedAction id action = .ok w') : w'.Supplied := by
  have hacted := makeApprovedAction_actedBy h.keysAreIDs hw
  refine ⟨hacted.players.forall_entries (P := fun k p => p.id = k)
    (fun _ _ _ hp hk => hp.id.trans hk) h.keysAreIDs, ?_, ?_⟩
  · exact hacted.enemies.forall_mem (fun _ _ hkept he => hkept.turned.fromTable he) h.fromTable
  · obtain ⟨u, hu, hw⟩ := except_bind_eq_ok.mp hw
    obtain ⟨p, -, hw⟩ := except_bind_eq_ok.mp hw
    obtain ⟨q, -, hw⟩ := except_bind_eq_ok.mp hw
    cases hw
    suffices hact : ∀ e ∈ u.enemyList, e.inventory.Stocked from hact
    rw [actOf_eq] at hu
    split at hu
    · rename_i v hv
      refine attackOf_stocked (w := v) ?_ hu
      unfold attackWorld at hv
      split at hv
      · cases hv
        exact h.stocked
      · cases hv
        exact h.stocked
      · exact nomatch hv
    · cases hu
      exact h.stocked

end GameWorld

end AsciiTerra
