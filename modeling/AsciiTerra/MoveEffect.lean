import AsciiTerra.AITurn
import AsciiTerra.ApprovedAction
import AsciiTerra.KillReports
import AsciiTerra.ReplayOrder

/-!
# What a move does

`case Move` of `MakeApprovedAction` falls through into `case Attack`: after its step the
player strikes whoever stands one more step in the same direction.
-/

set_option autoImplicit false

namespace AsciiTerra

namespace Inventory
variable {inv : Inventory} {slot : ItemSlot}

/-- An attack with this slot equipped takes an arrow. -/
def Shoots (inv : Inventory) (slot : ItemSlot) : Prop :=
  slot.item.type = ItemType.bow.code ∧ inv.findIndex .arrow ≠ none

theorem spent_eq_self_iff : inv.spent slot = inv ↔ ¬ inv.Shoots slot := by
  unfold spent Shoots
  by_cases hbow : slot.item.type = ItemType.bow.code
  · rw [if_pos hbow]
    cases hfind : inv.findIndex .arrow with
    | none => simp
    | some i =>
      refine iff_of_false (fun h => ?_) (not_not.mpr ⟨hbow, nofun⟩)
      have hget := congrArg (fun inv : Inventory => inv.storage[i]?) h
      simp only [Vector.getElem?_eq_getElem (findIndex_lt hfind), Option.getD_some,
        Option.some.injEq] at hget
      have hquantity := congrArg ItemSlot.quantity hget
      simp [useArrow] at hquantity
  · rw [if_neg hbow]
    exact iff_of_true rfl fun h => hbow h.1

end Inventory

namespace GameWorld
variable {w : GameWorld} {id : UInt32} {p : Player} {action : PlayerAction}

def stepped (w : GameWorld) (id : UInt32) (action : PlayerAction) : GameWorld :=
  w.modifyPlayer id fun q => { q with coords := q.coords + direction action.actionInfo }

/-- What a move should come to: the step, one turn action less and no calls. -/
def OnlyMoves (w : GameWorld) (id : UInt32) (action : PlayerAction)
    (result : Except Fault Reported) : Prop :=
  result = .ok ⟨w.modifyPlayer id fun q =>
    { q with coords := q.coords + direction action.actionInfo, currentTurns := q.currentTurns - 1 },
    []⟩

/-- An attack with this slot equipped, on the units listed, goes without notice. -/
structure Harmless (installed : Bool) (w : GameWorld) (inv : Inventory) (slot : ItemSlot)
    (playerIDs : List UInt32) (enemyIDs : List Nat) : Prop where
  noShot : ¬ inv.Shoots slot
  noCall : installed = true → playerIDs = [] ∧ enemyIDs = []
  players : ∀ a ∈ playerIDs, ∃ q, w.playersList.lookup a = some q ∧
    (inv.attackDamage slot = 0 ∨ q.hp = 0)
  enemies : ∀ i ∈ enemyIDs, ∀ e, w.enemyList[i]? = some e → inv.attackDamage slot = 0 ∨ e.hp = 0

theorem playersOn_stepped (hp : w.playersList.lookup id = some p) (tile : CoordVec) :
    (w.stepped id action).playersOn tile (fun q => q.id != p.id) =
      w.playersOn tile fun q => q.id != p.id := by
  unfold playersOn stepped
  rw [modifyPlayer_playersList, OrderedMap.modify, List.filter_map, List.map_map]
  have hentry : ∀ e ∈ w.playersList.entries, e.1 = id → e.2 = p := by
    intro e he hek
    have hlookup := OrderedMap.lookup_of_mem_entries he
    rw [hek, hp] at hlookup
    exact (Option.some.inj hlookup).symm
  have hfilter : ∀ e ∈ w.playersList.entries,
      ((fun e : OrderedMap.Entry UInt32 Player => e.2.id != p.id && e.2.coords.equal tile) ∘
        OrderedMap.modifyEntry id fun q =>
          { q with coords := q.coords + direction action.actionInfo }) e =
        (e.2.id != p.id && e.2.coords.equal tile) := by
    intro e he
    by_cases hek : e.1 = id
    · simp [OrderedMap.modifyEntry, hek, hentry e he hek]
    · simp [OrderedMap.modifyEntry, hek]
  rw [List.filter_congr hfilter]
  refine List.map_congr_left fun e _ => ?_
  by_cases hek : e.1 = id
  · simp [OrderedMap.modifyEntry, hek]
  · simp [OrderedMap.modifyEntry, hek]

theorem lookup_stepped (hp : w.playersList.lookup id = some p) :
    (w.stepped id action).playersList.lookup id =
      some { p with coords := p.coords + direction action.actionInfo } := by
  unfold stepped
  rw [modifyPlayer_playersList, OrderedMap.lookup_modify_self, hp]
  rfl

def struckTile (p : Player) (action : PlayerAction) : CoordVec :=
  p.coords + direction action.actionInfo + direction action.actionInfo

theorem target_stepped (hp : w.playersList.lookup id = some p) :
    (w.stepped id action).playerFindAttackTarget
        { p with coords := p.coords + direction action.actionInfo } action =
      attackTarget (w.playersOn (struckTile p action) fun q => q.id != p.id)
        (w.enemiesOn (struckTile p action) fun _ => true) := by
  unfold playerFindAttackTarget
  simp only [playersOn_stepped hp]
  rfl

theorem takeDamage_eq_self {damage : UInt32} {q : Player} (h : damage = 0 ∨ q.hp = 0) :
    q.takeDamage damage = q := by
  have hfix := (iterate_damagedHP_eq_self_iff Nat.one_ne_zero).mpr h
  rw [Function.iterate_one] at hfix
  rw [Player.takeDamage, hfix]

theorem enemy_takeDamage_eq_self {damage : UInt32} {e : Enemy} (h : damage = 0 ∨ e.hp = 0) :
    e.takeDamage damage = e := by
  have hfix := (iterate_damagedHP_eq_self_iff Nat.one_ne_zero).mpr h
  rw [Function.iterate_one] at hfix
  rw [Enemy.takeDamage, hfix]

theorem Harmless.callsOf_eq_nil {installed : Bool} {slot : ItemSlot} {inv : Inventory}
    {playerIDs : List UInt32} {enemyIDs : List Nat}
    (h : Harmless installed w inv slot playerIDs enemyIDs) :
    Reported.callsOf installed (attackTarget playerIDs enemyIDs) = [] := by
  unfold Reported.callsOf
  cases hinstalled : installed with
  | false => rfl
  | true =>
    obtain ⟨hnone, hnone'⟩ := h.noCall hinstalled
    simp only [attackTarget, hnone, hnone']
    rfl

theorem Harmless.strike_stepped {installed : Bool} {slot : ItemSlot} {inv : Inventory}
    {playerIDs : List UInt32} {enemyIDs : List Nat}
    (h : Harmless installed w inv slot playerIDs enemyIDs) :
    (w.stepped id action).strike (inv.attackDamage slot) (attackTarget playerIDs enemyIDs) =
      w.stepped id action := by
  have hplayers : ∀ a ∈ playerIDs, ∃ q, (w.stepped id action).playersList.lookup a = some q ∧
      q.takeDamage (inv.attackDamage slot) = q := by
    intro a ha
    obtain ⟨q, hq, hfix⟩ := h.players a ha
    unfold stepped
    rw [modifyPlayer_playersList, OrderedMap.lookup_modify, hq]
    split
    · exact ⟨_, rfl, takeDamage_eq_self hfix⟩
    · exact ⟨q, rfl, takeDamage_eq_self hfix⟩
  have henemies : ∀ i ∈ enemyIDs, ∀ e, (w.stepped id action).enemyList[i]? = some e →
      e.takeDamage (inv.attackDamage slot) = e := by
    intro i hi e he
    exact enemy_takeDamage_eq_self (h.enemies i hi e he)
  unfold strike
  simp only [attackTarget]
  rw [OrderedMap.foldl_modifyOrInsert_eq_self hplayers, List.foldl_modify_eq_self henemies]

theorem attackOf_harmless {installed : Bool} {slot : ItemSlot}
    (hp : w.playersList.lookup id = some p)
    (hslot : p.inventory.storage[p.equipedItemID.toNat]? = some slot)
    (h : slot.empty = true ∨ Harmless installed w p.inventory slot
      (w.playersOn (struckTile p action) fun q => q.id != p.id)
      (w.enemiesOn (struckTile p action) fun _ => true)) :
    Reported.attackOf installed id action (w.stepped id action) =
      .ok ⟨w.stepped id action, []⟩ := by
  rw [Reported.attackOf_eq (lookup_stepped hp) hslot, target_stepped hp]
  by_cases hempty : slot.empty = true
  · rw [if_pos hempty]
  rw [if_neg hempty]
  have hharmless := h.resolve_left hempty
  have hcarry : ((w.stepped id action).modifyPlayer id fun q =>
      { q with inventory := p.inventory.spent slot }) = w.stepped id action := by
    unfold modifyPlayer
    rw [OrderedMap.modify_eq_self fun q hq => ?_]
    cases (lookup_stepped hp).symm.trans hq
    rw [Inventory.spent_eq_self_iff.mpr hharmless.noShot]
  rw [hcarry, hharmless.callsOf_eq_nil, hharmless.strike_stepped]

/-- A move whose attack does nothing. -/
def MovesInPeace (installed : Bool) (w : GameWorld) (p : Player) (action : PlayerAction) : Prop :=
  0 < p.currentTurns.val ∧ ∃ slot, p.inventory.storage[p.equipedItemID.toNat]? = some slot ∧
    (slot.empty = true ∨ Harmless installed w p.inventory slot
      (w.playersOn (struckTile p action) fun q => q.id != p.id)
      (w.enemiesOn (struckTile p action) fun _ => true))

theorem onlyMoves_of_inPeace {installed : Bool} (hp : w.playersList.lookup id = some p)
    (hmove : EPlayerActionType.ofCode action.actionType = some .move)
    (h : MovesInPeace installed w p action) :
    OnlyMoves w id action (Reported.makeApprovedAction installed w id action) := by
  obtain ⟨hturns, slot, hslot, hpeace⟩ := h
  have hact : Reported.actOf installed id action w = .ok ⟨w.stepped id action, []⟩ := by
    unfold Reported.actOf
    rw [hmove]
    exact attackOf_harmless hp hslot hpeace
  unfold OnlyMoves Reported.makeApprovedAction
  have hset := setCurrentTurnActions_of_pos
    (p := { p with coords := p.coords + direction action.actionInfo }) hturns
  rw [hact, except_ok_bind, playerAt_eq_ok.mpr (lookup_stepped hp), except_ok_bind, hset,
    except_ok_bind]
  congr 2
  unfold stepped modifyPlayer
  rw [OrderedMap.modify_modify, OrderedMap.modify_congr fun q hq => ?_]
  cases hp.symm.trans hq
  rfl

theorem exists_slot_of_attackOf {installed : Bool} {st : Reported}
    (hp : w.playersList.lookup id = some p)
    (h : Reported.attackOf installed id action w = .ok st) :
    ∃ slot, p.inventory.storage[p.equipedItemID.toNat]? = some slot := by
  unfold Reported.attackOf Reported.playerMakeAttack at h
  rw [playerAt_eq_ok.mpr hp, except_ok_bind, except_ok_bind] at h
  obtain ⟨result, hresult, -⟩ := except_bind_eq_ok.mp h
  unfold Inventory.attack at hresult
  split at hresult
  · exact nomatch hresult
  · rename_i slot hslot
    exact ⟨slot, hslot⟩

theorem harmless_of_strike {installed : Bool} {slot : ItemSlot} {target : AttackTarget}
    {u : GameWorld} (hu : u.playerHP = w.playerHP) (hu' : u.enemyHP = w.enemyHP)
    (hplayers : ∀ a ∈ (u.strike (p.inventory.attackDamage slot) target).playersList,
      a ∈ w.playersList)
    (hplayerHP : (u.strike (p.inventory.attackDamage slot) target).playerHP = w.playerHP)
    (henemyHP : (u.strike (p.inventory.attackDamage slot) target).enemyHP = w.enemyHP)
    (hspent : p.inventory.spent slot = p.inventory)
    (hcalls : Reported.callsOf installed target = []) :
    Harmless installed w p.inventory slot target.playerIDs target.enemyIDs where
  noShot := Inventory.spent_eq_self_iff.mp hspent
  noCall hinstalled := by
    rw [hinstalled] at hcalls
    obtain ⟨hnone, hnone'⟩ := List.append_eq_nil_iff.mp hcalls
    exact ⟨List.map_eq_nil_iff.mp hnone, List.map_eq_nil_iff.mp hnone'⟩
  players a ha := by
    obtain ⟨q, hq⟩ := OrderedMap.mem_iff_lookup.mp (hplayers a (mem_strike.mpr (.inl ha)))
    have hhp : u.playerHP a = some q.hp := by rw [hu, playerHP, hq, Option.map_some]
    have hsame : (u.strike (p.inventory.attackDamage slot) target).playerHP a =
        (u.playerHP a).map (damagedHP (p.inventory.attackDamage slot))^[target.playerIDs.count a] :=
      playerHP_strike (by rw [hhp]; rfl)
    rw [hplayerHP, ← hu, hhp, Option.map_some, Option.some.injEq] at hsame
    have hcount : target.playerIDs.count a ≠ 0 := by
      rw [ne_eq, List.count_eq_zero]
      exact not_not.mpr ha
    exact ⟨q, hq, (iterate_damagedHP_eq_self_iff hcount).mp hsame.symm⟩
  enemies i hi e he := by
    have hhp : u.enemyHP i = some e.hp := by rw [hu', enemyHP, he, Option.map_some]
    have hsame : (u.strike (p.inventory.attackDamage slot) target).enemyHP i =
        (u.enemyHP i).map (damagedHP (p.inventory.attackDamage slot))^[target.enemyIDs.count i] :=
      enemyHP_strike i
    rw [henemyHP, ← hu', hhp, Option.map_some, Option.some.injEq] at hsame
    have hcount : target.enemyIDs.count i ≠ 0 := by
      rw [ne_eq, List.count_eq_zero]
      exact not_not.mpr hi
    exact (iterate_damagedHP_eq_self_iff hcount).mp hsame.symm

theorem turns_pos_of_sub_one {n : Fin 16} (h : (n - 1).val + 1 < 16) : 0 < n.val := by
  by_contra hzero
  obtain rfl : n = 0 := Fin.ext (Nat.eq_zero_of_not_pos hzero)
  exact absurd h (by decide)

theorem inventory_of_strike {damage : UInt32} {target : AttackTarget} {inv : Inventory}
    {q : Player} (hp : w.playersList.lookup id = some p)
    (hq : ((w.modifyPlayer id fun q => { q with inventory := inv }).strike damage
      target).playersList.lookup id = some q) : q.inventory = inv := by
  have hmem : id ∈ (w.modifyPlayer id fun q => { q with inventory := inv }).playersList :=
    OrderedMap.mem_modify.mpr (OrderedMap.mem_iff_lookup.mpr ⟨_, hp⟩)
  rw [strike_lookup_of_mem hmem, modifyPlayer_playersList, OrderedMap.lookup_modify_self, hp,
    Option.map_some, Option.map_some, Option.some.injEq, Player.iterate_takeDamage] at hq
  exact (congrArg Player.inventory hq).symm

theorem inPeace_of_onlyMoves {installed : Bool} (hp : w.playersList.lookup id = some p)
    (hmove : EPlayerActionType.ofCode action.actionType = some .move)
    (h : OnlyMoves w id action (Reported.makeApprovedAction installed w id action)) :
    MovesInPeace installed w p action := by
  unfold OnlyMoves Reported.makeApprovedAction at h
  obtain ⟨st, hst, h⟩ := except_bind_eq_ok.mp h
  obtain ⟨q, hq, h⟩ := except_bind_eq_ok.mp h
  obtain ⟨q', hq', h⟩ := except_bind_eq_ok.mp h
  obtain ⟨hworld, hcalls⟩ := Reported.mk.injEq .. |>.mp (Except.ok.inj h)
  obtain ⟨hpred, hrest⟩ := setCurrentTurnActions_sub_one hq'
  have hq := playerAt_eq_ok.mp hq
  -- the record of the mover afterwards
  have hrecord : q' = { p with
      coords := p.coords + direction action.actionInfo, currentTurns := p.currentTurns - 1 } := by
    have hlookup := congrArg (fun v : GameWorld => v.playersList.lookup id) hworld
    simp only [modifyPlayer_playersList, OrderedMap.lookup_modify_self, hq, hp, Option.map_some,
      Option.some.injEq] at hlookup
    exact hlookup
  unfold Reported.actOf at hst
  rw [hmove] at hst
  have hst : Reported.attackOf installed id action (w.stepped id action) = .ok st := hst
  obtain ⟨slot, hslot⟩ := exists_slot_of_attackOf (lookup_stepped hp) hst
  rw [Reported.attackOf_eq (lookup_stepped hp) hslot, target_stepped hp] at hst
  have hst := (Except.ok.inj hst).symm
  refine ⟨?_, slot, hslot, ?_⟩
  · have hturns := congrArg (fun r : Player => r.currentTurns.val) hrecord
    simp only at hturns
    apply turns_pos_of_sub_one
    rw [← hturns, hpred]
    exact q.currentTurns.isLt
  by_cases hempty : slot.empty = true
  · exact .inl hempty
  rw [if_neg hempty] at hst
  subst hst
  right
  have hstepped : (w.stepped id action).playerHP = w.playerHP :=
    playerHP_modifyPlayer (f := fun q => { q with
      coords := q.coords + direction action.actionInfo }) fun _ _ => rfl
  have hcarried : ((w.stepped id action).modifyPlayer id fun q =>
      { q with inventory := p.inventory.spent slot }).playerHP = (w.stepped id action).playerHP :=
    playerHP_modifyPlayer fun _ _ => rfl
  have hafter : (w.modifyPlayer id fun q => { q with
      coords := q.coords + direction action.actionInfo, currentTurns := q.currentTurns - 1 }).playerHP =
        w.playerHP := playerHP_modifyPlayer fun _ _ => rfl
  refine harmless_of_strike (hcarried.trans hstepped) rfl (fun a ha => ?_) ?_ ?_ ?_ hcalls
  · have hmem := congrArg (fun v : GameWorld => a ∈ v.playersList) hworld
    simp only [modifyPlayer_playersList, OrderedMap.mem_modify] at hmem
    exact hmem ▸ ha
  · rw [← hafter, ← hworld]
    refine (playerHP_modifyPlayer fun r hr => ?_).symm
    cases hq.symm.trans hr
    rw [hrest]
  · have henemies := congrArg GameWorld.enemyList hworld
    simp only [modifyPlayer_enemyList] at henemies
    unfold enemyHP
    rw [henemies]
  · have hleft := inventory_of_strike (lookup_stepped hp) hq
    rw [hrecord] at hrest
    exact hleft.symm.trans (congrArg Player.inventory hrest).symm

/-- A move is only a move if and only if the mover has a turn action left and its attack, which
follows from the missing `break`, does nothing. -/
theorem makeApprovedAction_onlyMoves_iff (installed : Bool)
    (hp : w.playersList.lookup id = some p)
    (hmove : EPlayerActionType.ofCode action.actionType = some .move) :
    OnlyMoves w id action (Reported.makeApprovedAction installed w id action) ↔
      MovesInPeace installed w p action :=
  ⟨inPeace_of_onlyMoves hp hmove, onlyMoves_of_inPeace hp hmove⟩

def swordsman (tile : CoordVec) : GameWorld × Player :=
  let p : Player := { Player.default with
    id := 10000, hp := 45, currentTurns := 3
    inventory := .ofSlots [⟨false, itemTable.getD 0 Item.default, 0, 1⟩] }
  (⟨AList.singleton 10000 p, (enemiesTable.take 1).map fun e => { e with coords := tile },
    ⟨Vector.replicate _ 0⟩⟩, p)

def stepEast : PlayerAction := ⟨EPlayerActionType.move.code, 10000, moveInfo 1 0⟩

theorem onlyMoves_swordsman : OnlyMoves (swordsman ⟨5, 5, 0⟩).1 10000 stepEast
    (Reported.makeApprovedAction true (swordsman ⟨5, 5, 0⟩).1 10000 stepEast) := by
  refine (makeApprovedAction_onlyMoves_iff true (p := (swordsman ⟨5, 5, 0⟩).2) rfl rfl).mpr ?_
  have hplayers : ((swordsman ⟨5, 5, 0⟩).1.playersOn (struckTile (swordsman ⟨5, 5, 0⟩).2 stepEast)
      fun q => q.id != (swordsman ⟨5, 5, 0⟩).2.id) = [] := by decide
  have henemies : ((swordsman ⟨5, 5, 0⟩).1.enemiesOn (struckTile (swordsman ⟨5, 5, 0⟩).2 stepEast)
      fun _ => true) = [] := by decide
  refine ⟨by decide, _, rfl, .inr ⟨fun h => absurd h.1 (by decide), fun _ => ⟨hplayers, henemies⟩,
    fun a ha => ?_, fun i hi => ?_⟩⟩
  · rw [hplayers] at ha
    exact absurd ha List.not_mem_nil
  · rw [henemies] at hi
    exact absurd hi List.not_mem_nil

/-- The step of the swordsman brings it next to the zombie, which it strikes in passing. -/
theorem move_strikes : ¬ OnlyMoves (swordsman ⟨2, 0, 0⟩).1 10000 stepEast
    (Reported.makeApprovedAction false (swordsman ⟨2, 0, 0⟩).1 10000 stepEast) := by
  intro h
  have henemies := congrArg (fun r : Except Fault Reported =>
    r.toOption.map fun st => st.world.enemyList.map Enemy.hp) h
  revert henemies
  decide

end GameWorld

end AsciiTerra
