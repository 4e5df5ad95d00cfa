import AsciiTerra.StrikeEffect

/-!
# Replays on maps with another order

Server and clients apply the same action to hash maps that iterate in different orders. The
targets come out in different orders too, but each of them is hit once, by the same damage.
-/

set_option autoImplicit false

namespace AsciiTerra

namespace GameWorld
variable {w w' : GameWorld}

/-- Both fail, or both give worlds that agree. -/
def SameOutcome (x y : Except Fault GameWorld) : Prop :=
  Option.Rel Agrees x.toOption y.toOption

theorem sameOutcome_of {x y : Except Fault GameWorld}
    (h : ∀ v, x = .ok v → ∃ v', y = .ok v' ∧ v.Agrees v')
    (h' : ∀ v', y = .ok v' → ∃ v, x = .ok v) : SameOutcome x y := by
  unfold SameOutcome
  cases x with
  | ok v =>
    obtain ⟨v', rfl, hagree⟩ := h v rfl
    exact .some hagree
  | error f =>
    cases y with
    | ok v' =>
      obtain ⟨v, hv⟩ := h' v' rfl
      exact nomatch hv
    | error f' => exact .none

theorem Agrees.sameOutcome_makeApprovedAction (h : w.Agrees w') (hk : KeysAreIDs w.playersList)
    (id : UInt32) (action : PlayerAction) :
    SameOutcome (w.makeApprovedAction id action) (w'.makeApprovedAction id action) := by
  refine sameOutcome_of (fun v hv => h.makeApprovedAction hk hv) fun v' hv' => ?_
  obtain ⟨v, hv, -⟩ := h.symm.makeApprovedAction (h.keysAreIDs hk) hv'
  exact ⟨v, hv⟩

theorem Agrees.sameOutcome_makeEnemyAction (h : w.Agrees w') (hk : KeysAreIDs w.playersList)
    (i : Nat) (action : EnemyAction) :
    SameOutcome (w.makeEnemyAction i action) (w'.makeEnemyAction i action) := by
  refine sameOutcome_of (fun v hv => h.makeEnemyAction hk hv) fun v' hv' => ?_
  obtain ⟨v, hv, -⟩ := h.symm.makeEnemyAction (h.keysAreIDs hk) hv'
  exact ⟨v, hv⟩

structure EquippedInRange (w : GameWorld) : Prop where
  players : ∀ e ∈ w.playersList.entries, e.2.equipedItemID.toNat < maxInventorySize
  enemies : ∀ e ∈ w.enemyList, e.equipedItemID.toNat < maxInventorySize

theorem attackOf_turns {id : UInt32} {p : Player} {action : PlayerAction}
    (hp : w.playersList.lookup id = some p) (hrange : p.equipedItemID.toNat < maxInventorySize) :
    ∃ v p', w.attackOf id action = .ok v ∧ v.playersList.lookup id = some p' ∧
      p'.currentTurns = p.currentTurns := by
  obtain ⟨slot, hslot⟩ := exists_slot p.inventory hrange
  rw [attackOf_eq hp hslot]
  by_cases hempty : slot.empty = true
  · rw [if_pos hempty]
    exact ⟨w, p, rfl, hp, rfl⟩
  · rw [if_neg hempty]
    have hmem : id ∈ (w.modifyPlayer id fun q =>
        { q with inventory := p.inventory.spent slot }).playersList :=
      OrderedMap.mem_modify.mpr (OrderedMap.mem_iff_lookup.mpr ⟨p, hp⟩)
    have hafter : ((w.modifyPlayer id fun q => { q with inventory := p.inventory.spent slot }).strike
        (p.inventory.attackDamage slot) (w.playerFindAttackTarget p action)).playersList.lookup id =
          some ((Player.takeDamage (p.inventory.attackDamage slot))^[
            (w.playerFindAttackTarget p action).playerIDs.count id]
              { p with inventory := p.inventory.spent slot }) := by
      rw [strike_lookup_of_mem hmem, modifyPlayer_playersList, OrderedMap.lookup_modify_self, hp]
      rfl
    refine ⟨_, _, rfl, hafter, ?_⟩
    rw [Player.iterate_takeDamage]

theorem actOf_turns {id : UInt32} {p : Player} {action : PlayerAction}
    (hp : w.playersList.lookup id = some p) (hrange : p.equipedItemID.toNat < maxInventorySize) :
    ∃ v p', w.actOf id action = .ok v ∧ v.playersList.lookup id = some p' ∧
      p'.currentTurns = p.currentTurns := by
  unfold actOf
  split
  · have hmoved : (w.modifyPlayer id fun p =>
        { p with coords := p.coords + direction action.actionInfo }).playersList.lookup id =
          some { p with coords := p.coords + direction action.actionInfo } := by
      rw [modifyPlayer_playersList, OrderedMap.lookup_modify_self, hp]
      rfl
    obtain ⟨v, p', hv, hp', hturns⟩ := attackOf_turns hmoved hrange
    exact ⟨v, p', hv, hp', hturns⟩
  · exact attackOf_turns hp hrange
  · exact ⟨w, p, rfl, hp, rfl⟩

theorem setCurrentTurnActions_of_pos {p : Player} (h : 0 < p.currentTurns.val) :
    p.setCurrentTurnActions (p.getCurrentTurnActions - 1) =
      .ok { p with currentTurns := p.currentTurns - 1 } := by
  have hlt := p.currentTurns.isLt
  have hnat := p.getCurrentTurnActions_toNat
  have hne : p.getCurrentTurnActions ≠ 0 := by
    intro hzero
    rw [hzero, UInt32.toNat_zero] at hnat
    omega
  have hsub : (p.getCurrentTurnActions - 1).toNat = p.currentTurns.val - 1 := by
    rw [uint32_toNat_sub_one hne, hnat]
  unfold Player.setCurrentTurnActions
  rw [if_pos (by rw [UInt32.le_iff_toNat_le, hsub]; exact (Nat.sub_le _ _).trans hlt.le)]
  congr 2
  apply Fin.ext
  rw [hsub, Fin.sub_val_of_le (by exact h)]
  exact Nat.mod_eq_of_lt (by omega)

theorem makeApprovedAction_of_pos {id : UInt32} {p : Player} {action : PlayerAction}
    (hp : w.playersList.lookup id = some p) (hrange : p.equipedItemID.toNat < maxInventorySize)
    (hturns : 0 < p.currentTurns.val) : ∃ v, w.makeApprovedAction id action = .ok v := by
  obtain ⟨u, q, hu, hq, hsame⟩ := actOf_turns hp hrange
  unfold makeApprovedAction
  rw [hu, except_ok_bind, playerAt_eq_ok.mpr hq, except_ok_bind,
    setCurrentTurnActions_of_pos (hsame ▸ hturns), except_ok_bind]
  exact ⟨_, rfl⟩

theorem makeEnemyAction_of_range {i : Nat} {e : Enemy} {action : EnemyAction}
    (he : w.enemyList[i]? = some e) (hrange : e.equipedItemID.toNat < maxInventorySize) :
    ∃ v, w.makeEnemyAction i action = .ok v := by
  obtain ⟨slot, hslot⟩ := exists_slot e.inventory hrange
  unfold makeEnemyAction
  rw [he]
  simp only
  split
  · exact ⟨_, rfl⟩
  · exact ⟨_, enemyMakeAttack_eq he hslot⟩
  · exact ⟨_, rfl⟩

/-- The same action on the same unit has the same outcome, whatever the order of the maps is,
and the actions of an enemy, and those of a player that has one left, succeed. -/
theorem replay_anyOrder (h : w.Agrees w') (hk : KeysAreIDs w.playersList)
    (hrange : w.EquippedInRange) :
    (∀ id action, SameOutcome (w.makeApprovedAction id action) (w'.makeApprovedAction id action) ∧
      ∀ p, w.playersList.lookup id = some p → 0 < p.currentTurns.val →
        ∃ v v', w.makeApprovedAction id action = .ok v ∧ w'.makeApprovedAction id action = .ok v' ∧
          v.Agrees v') ∧
    ∀ i action, SameOutcome (w.makeEnemyAction i action) (w'.makeEnemyAction i action) ∧
      (i < w.enemyList.length → ∃ v v', w.makeEnemyAction i action = .ok v ∧
        w'.makeEnemyAction i action = .ok v' ∧ v.Agrees v') := by
  constructor
  · refine fun id action => ⟨h.sameOutcome_makeApprovedAction hk id action, ?_⟩
    intro p hp hturns
    obtain ⟨v, hv⟩ := makeApprovedAction_of_pos hp
      (hrange.players ⟨id, p⟩ (OrderedMap.mem_entries_of_lookup hp)) hturns
    obtain ⟨v', hv', hagree⟩ := h.makeApprovedAction hk hv
    exact ⟨v, v', hv, hv', hagree⟩
  · refine fun i action => ⟨h.sameOutcome_makeEnemyAction hk i action, fun hi => ?_⟩
    have he := List.getElem?_eq_getElem hi
    obtain ⟨v, hv⟩ := makeEnemyAction_of_range he
      (hrange.enemies _ (List.mem_of_getElem? he))
    obtain ⟨v', hv', hagree⟩ := h.makeEnemyAction hk hv
    exact ⟨v, v', hv, hv', hagree⟩

/-- A player with an iron sword and a turn. -/
def swordBearer : Player :=
  { Player.default with
    id := 1
    hp := 45
    currentTurns := 3
    inventory := Inventory.ofSlots [Inventory.slotOf (itemTable.getD 5 Item.default)] }

def bystander (id : UInt32) : Player := { Player.default with id := id, hp := 45, coords := ⟨1, 0, 0⟩ }

/-- The bearer of the sword and two players on the tile beside it, in either order of the map. -/
def besideBearer (first second : UInt32) : GameWorld :=
  ⟨((AList.singleton 1 swordBearer).insert first (bystander first)).insert second (bystander second),
    [], ⟨Vector.replicate _ 0⟩⟩

def blow : PlayerAction := ⟨EPlayerActionType.attack.code, 1, (Vector.replicate 4 0).setIfInBounds 1 1⟩

/-- Both are struck by the same blow, whoever comes first. -/
theorem replay_anyOrder_struck : ∃ v v',
    (besideBearer 2 3).makeApprovedAction 1 blow = .ok v ∧
    (besideBearer 3 2).makeApprovedAction 1 blow = .ok v' ∧
    v.Agrees v' ∧ (v.playersList.lookup 2).map Player.hp = some 42 ∧
    (v.playersList.lookup 3).map Player.hp = some 42 := by
  have hagree : (besideBearer 2 3).Agrees (besideBearer 3 2) :=
    ⟨fun _ => AList.perm_lookup (AList.insert_insert_of_ne _ (by decide)), rfl, rfl⟩
  have hkeys : KeysAreIDs (besideBearer 2 3).playersList := by
    unfold KeysAreIDs
    decide +kernel
  have hstruck : ((besideBearer 2 3).makeApprovedAction 1 blow).toOption.map (fun v =>
        ((v.playersList.lookup 2).map Player.hp, (v.playersList.lookup 3).map Player.hp)) =
      some (some 42, some 42) := by decide +kernel
  obtain ⟨v, v', hv, hv', hsame⟩ := ((replay_anyOrder hagree hkeys ⟨by decide +kernel,
    by decide +kernel⟩).1 1 blow).2 swordBearer rfl (by decide)
  rw [hv] at hstruck
  obtain ⟨hsecond, hthird⟩ := Prod.mk.inj (Option.some.inj hstruck)
  exact ⟨v, v', hv, hv', hsame, hsecond, hthird⟩

end GameWorld

end AsciiTerra
