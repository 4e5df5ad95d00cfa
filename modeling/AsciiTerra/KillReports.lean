import AsciiTerra.StrikeEffect

/-!
# Calls of the kill callback

`MakeAttack` once more, with the calls of `KillCallback` that it makes on the way. The
callback is called after every `TakeDamage`, whose result is not read.
-/

set_option autoImplicit false

namespace AsciiTerra

/-- A call of `KillCallback`: the ID of a player or that of an enemy. -/
inductive KillCall
  | player (playerID : UInt32)
  | enemy (enemyID : Nat)
deriving DecidableEq, Repr

structure Reported where
  world : GameWorld
  calls : List KillCall

namespace Reported

/-- The body of the loop over `playerIDs`; `installed` says whether there is a callback. -/
def hitPlayer (installed : Bool) (damage : UInt32) (st : Reported) (id : UInt32) : Reported where
  world := { st.world with
    playersList := OrderedMap.modifyOrInsert Player.default id (Player.takeDamage damage)
      st.world.playersList }
  calls := if installed then st.calls ++ [.player id] else st.calls

/-- The body of the loop over `EnemyIDs`. -/
def hitEnemy (installed : Bool) (damage : UInt32) (st : Reported) (i : Nat) : Reported where
  world := st.world.modifyEnemy i (Enemy.takeDamage damage)
  calls := if installed then st.calls ++ [.enemy i] else st.calls

/-- The loops of `MakeAttack` over its targets. -/
def strike (installed : Bool) (damage : UInt32) (target : AttackTarget) (w : GameWorld) :
    Reported :=
  target.enemyIDs.foldl (hitEnemy installed damage)
    (target.playerIDs.foldl (hitPlayer installed damage) ⟨w, []⟩)

/-- `Player::MakeAttack` of the player stored under `id`. -/
def playerMakeAttack (installed : Bool) (w : GameWorld) (id : UInt32) (target : AttackTarget) :
    Except Fault Reported := do
  let player ← w.playerAt id
  match ← player.inventory.attack player.equipedItemID with
  | none => .ok ⟨w, []⟩
  | some (damage, inventory) =>
    .ok (strike installed damage target (w.modifyPlayer id fun p => { p with inventory := inventory }))

/-- `Enemy::MakeAttack` of the enemy at index `i`. -/
def enemyMakeAttack (installed : Bool) (w : GameWorld) (i : Nat) (target : AttackTarget) :
    Except Fault Reported :=
  match w.enemyList[i]? with
  | none => .error .badIndex
  | some enemy => do
    match ← enemy.inventory.attack enemy.equipedItemID with
    | none => .ok ⟨w, []⟩
    | some (damage, inventory) =>
      .ok (strike installed damage target
        (w.modifyEnemy i fun e => { e with inventory := inventory }))

/-- `case Attack` of `MakeApprovedAction`. -/
def attackOf (installed : Bool) (id : UInt32) (action : PlayerAction) (w : GameWorld) :
    Except Fault Reported := do
  let player ← w.playerAt id
  playerMakeAttack installed w id (w.playerFindAttackTarget player action)

/-- The `switch` of `MakeApprovedAction`; `case Move` has no `break`. -/
def actOf (installed : Bool) (id : UInt32) (action : PlayerAction) (w : GameWorld) :
    Except Fault Reported :=
  match EPlayerActionType.ofCode action.actionType with
  | some .move =>
    attackOf installed id action (w.modifyPlayer id fun p =>
      { p with coords := p.coords + direction action.actionInfo })
  | some .attack => attackOf installed id action w
  | _ => .ok ⟨w, []⟩

/-- `MakeApprovedAction` on the player stored under `id`. -/
def makeApprovedAction (installed : Bool) (w : GameWorld) (id : UInt32) (action : PlayerAction) :
    Except Fault Reported := do
  let st ← actOf installed id action w
  let player ← st.world.playerAt id
  let player ← player.setCurrentTurnActions (player.getCurrentTurnActions - 1)
  .ok ⟨st.world.modifyPlayer id fun _ => player, st.calls⟩

section Strike
variable (installed : Bool) (damage : UInt32)

theorem foldl_hitPlayer (ids : List UInt32) (st : Reported) :
    ids.foldl (hitPlayer installed damage) st =
      ⟨{ st.world with
          playersList := ids.foldl (fun ps id => OrderedMap.modifyOrInsert Player.default id
            (Player.takeDamage damage) ps) st.world.playersList },
        if installed then st.calls ++ ids.map .player else st.calls⟩ := by
  induction ids generalizing st with
  | nil => cases installed <;> simp
  | cons id ids ih =>
    rw [List.foldl_cons, ih]
    cases installed <;> simp [hitPlayer]

theorem foldl_hitEnemy (ids : List Nat) (st : Reported) :
    ids.foldl (hitEnemy installed damage) st =
      ⟨{ st.world with
          enemyList := ids.foldl (fun es i => es.modify i (Enemy.takeDamage damage))
            st.world.enemyList },
        if installed then st.calls ++ ids.map .enemy else st.calls⟩ := by
  induction ids generalizing st with
  | nil => cases installed <;> simp
  | cons i ids ih =>
    rw [List.foldl_cons, ih]
    cases installed <;> simp [hitEnemy, GameWorld.modifyEnemy]

def callsOf (installed : Bool) (target : AttackTarget) : List KillCall :=
  if installed then target.playerIDs.map .player ++ target.enemyIDs.map .enemy else []

theorem strike_eq (target : AttackTarget) (w : GameWorld) :
    strike installed damage target w = ⟨w.strike damage target, callsOf installed target⟩ := by
  unfold strike
  rw [foldl_hitPlayer, foldl_hitEnemy]
  cases installed <;> rfl

end Strike

section World
variable (installed : Bool) {w : GameWorld}

theorem map_world_playerMakeAttack (id : UInt32) (target : AttackTarget) :
    (playerMakeAttack installed w id target).map world = w.playerMakeAttack id target := by
  unfold playerMakeAttack GameWorld.playerMakeAttack
  cases w.playerAt id with
  | error f => rfl
  | ok player =>
    rw [except_ok_bind, except_ok_bind]
    cases player.inventory.attack player.equipedItemID with
    | error f => rfl
    | ok result =>
      cases result with
      | none => rfl
      | some r =>
        obtain ⟨damage, inventory⟩ := r
        simp only [except_ok_bind, Except.map, strike_eq]

theorem map_world_enemyMakeAttack (i : Nat) (target : AttackTarget) :
    (enemyMakeAttack installed w i target).map world = w.enemyMakeAttack i target := by
  unfold enemyMakeAttack GameWorld.enemyMakeAttack
  cases w.enemyList[i]? with
  | none => rfl
  | some enemy =>
    simp only
    cases enemy.inventory.attack enemy.equipedItemID with
    | error f => rfl
    | ok result =>
      cases result with
      | none => rfl
      | some r =>
        obtain ⟨damage, inventory⟩ := r
        simp only [except_ok_bind, Except.map, strike_eq]

theorem map_world_attackOf (id : UInt32) (action : PlayerAction) :
    (attackOf installed id action w).map world = w.attackOf id action := by
  unfold attackOf GameWorld.attackOf
  cases w.playerAt id with
  | error f => rfl
  | ok player => exact map_world_playerMakeAttack installed id _

theorem map_world_actOf (id : UInt32) (action : PlayerAction) :
    (actOf installed id action w).map world = w.actOf id action := by
  unfold actOf GameWorld.actOf
  cases EPlayerActionType.ofCode action.actionType with
  | none => rfl
  | some type =>
    cases type with
    | move => exact map_world_attackOf installed id action
    | attack => exact map_world_attackOf installed id action
    | endTurn => rfl

theorem map_world_makeApprovedAction (id : UInt32) (action : PlayerAction) :
    (makeApprovedAction installed w id action).map world = w.makeApprovedAction id action := by
  unfold makeApprovedAction GameWorld.makeApprovedAction
  rw [← map_world_actOf installed]
  cases actOf installed id action w with
  | error f => rfl
  | ok st =>
    simp only [Except.map, except_ok_bind]
    cases st.world.playerAt id with
    | error f => rfl
    | ok player =>
      rw [except_ok_bind, except_ok_bind]
      cases player.setCurrentTurnActions (player.getCurrentTurnActions - 1) <;> rfl

end World

section Slots
variable {installed : Bool} {w : GameWorld} {target : AttackTarget} {slot : ItemSlot}

theorem playerMakeAttack_eq {id : UInt32} {p : Player} (hp : w.playersList.lookup id = some p)
    (hslot : p.inventory.storage[p.equipedItemID.toNat]? = some slot) :
    playerMakeAttack installed w id target = .ok (if slot.empty then ⟨w, []⟩ else
      ⟨(w.modifyPlayer id fun q => { q with inventory := p.inventory.spent slot }).strike
        (p.inventory.attackDamage slot) target, callsOf installed target⟩) := by
  unfold playerMakeAttack
  rw [GameWorld.playerAt_eq_ok.mpr hp, except_ok_bind, Inventory.attack_eq hslot, except_ok_bind]
  by_cases hempty : slot.empty = true
  · rw [if_pos hempty, if_pos hempty]
  · rw [if_neg hempty, if_neg hempty]
    simp only [strike_eq]

theorem enemyMakeAttack_eq {i : Nat} {e : Enemy} (he : w.enemyList[i]? = some e)
    (hslot : e.inventory.storage[e.equipedItemID.toNat]? = some slot) :
    enemyMakeAttack installed w i target = .ok (if slot.empty then ⟨w, []⟩ else
      ⟨(w.modifyEnemy i fun q => { q with inventory := e.inventory.spent slot }).strike
        (e.inventory.attackDamage slot) target, callsOf installed target⟩) := by
  unfold enemyMakeAttack
  rw [he]
  simp only
  rw [Inventory.attack_eq hslot, except_ok_bind]
  by_cases hempty : slot.empty = true
  · rw [if_pos hempty, if_pos hempty]
  · rw [if_neg hempty, if_neg hempty]
    simp only [strike_eq]

theorem attackOf_eq {id : UInt32} {p : Player} {action : PlayerAction}
    (hp : w.playersList.lookup id = some p)
    (hslot : p.inventory.storage[p.equipedItemID.toNat]? = some slot) :
    attackOf installed id action w = .ok (if slot.empty then ⟨w, []⟩ else
      ⟨(w.modifyPlayer id fun q => { q with inventory := p.inventory.spent slot }).strike
        (p.inventory.attackDamage slot) (w.playerFindAttackTarget p action),
        callsOf installed (w.playerFindAttackTarget p action)⟩) := by
  unfold attackOf
  rw [GameWorld.playerAt_eq_ok.mpr hp, except_ok_bind, playerMakeAttack_eq hp hslot]

end Slots

end Reported

namespace GameWorld
variable {w w' : GameWorld} {damage : UInt32} {target : AttackTarget}

def playerHP (w : GameWorld) (id : UInt32) : Option Int32 := (w.playersList.lookup id).map Player.hp

def enemyHP (w : GameWorld) (i : Nat) : Option Int32 := w.enemyList[i]?.map Enemy.hp

def Killed (before after : Option Int32) : Prop :=
  ∃ hp, before = some hp ∧ 0 < hp ∧ after = some 0

/-- Each unit killed on the way from `w` is reported once, and nothing else is. -/
def ReportsKills (w : GameWorld) (r : Reported) : Prop :=
  (∀ id, (Killed (w.playerHP id) (r.world.playerHP id) → r.calls.count (.player id) = 1) ∧
      (¬ Killed (w.playerHP id) (r.world.playerHP id) → r.calls.count (.player id) = 0)) ∧
    ∀ i, (Killed (w.enemyHP i) (r.world.enemyHP i) → r.calls.count (.enemy i) = 1) ∧
      (¬ Killed (w.enemyHP i) (r.world.enemyHP i) → r.calls.count (.enemy i) = 0)

/-- The damage kills the unit with these hit points. -/
def Deadly (damage : UInt32) (hp : Option Int32) : Prop :=
  ∃ h, hp = some h ∧ 0 < h ∧ h.toInt ≤ damage.toNat

/-- The damage kills every unit that is listed, and no player is listed twice. -/
def KillsAll (w : GameWorld) (damage : UInt32) (target : AttackTarget) : Prop :=
  (∀ id ∈ target.playerIDs, target.playerIDs.count id = 1 ∧ Deadly damage (w.playerHP id)) ∧
    ∀ i ∈ target.enemyIDs, target.enemyIDs.count i = 1 ∧ Deadly damage (w.enemyHP i)

theorem killed_iff_deadly {n : Nat} (hn : n = 1) {hp : Option Int32} :
    Killed hp (hp.map (damagedHP damage)^[n]) ↔ Deadly damage hp := by
  subst hn
  rw [Function.iterate_one]
  constructor
  · rintro ⟨h, rfl, hpos, hafter⟩
    have hzero : damagedHP damage h = 0 := by simpa using hafter
    exact ⟨h, rfl, hpos, (damagedHP_eq_zero_iff (Int32.le_of_lt hpos)).mp hzero⟩
  · rintro ⟨h, rfl, hpos, hle⟩
    refine ⟨h, rfl, hpos, ?_⟩
    rw [Option.map_some, (damagedHP_eq_zero_iff (Int32.le_of_lt hpos)).mpr hle]

/-- One kind of unit: calls as often as listed are right exactly where each listed unit is listed
once and killed. -/
theorem counts_iff {κ : Type} [DecidableEq κ] {keys : List κ} {hp after : κ → Option Int32}
    (hafter : ∀ k, (hp k).isSome → after k = (hp k).map (damagedHP damage)^[keys.count k]) :
    (∀ k, (Killed (hp k) (after k) → keys.count k = 1) ∧
        (¬ Killed (hp k) (after k) → keys.count k = 0)) ↔
      ∀ k ∈ keys, keys.count k = 1 ∧ Deadly damage (hp k) := by
  constructor
  · intro h k hk
    have hkilled : Killed (hp k) (after k) := by
      by_contra hnot
      exact absurd hk (List.count_eq_zero.mp ((h k).2 hnot))
    have hone := (h k).1 hkilled
    obtain ⟨x, hx, -⟩ := id hkilled
    rw [hafter k (by rw [hx]; rfl)] at hkilled
    exact ⟨hone, (killed_iff_deadly hone).mp hkilled⟩
  · intro h k
    by_cases hk : k ∈ keys
    · obtain ⟨hone, hdeadly⟩ := h k hk
      obtain ⟨x, hx, -⟩ := id hdeadly
      refine ⟨fun _ => hone, fun hnot => absurd ?_ hnot⟩
      rw [hafter k (by rw [hx]; rfl)]
      exact (killed_iff_deadly hone).mpr hdeadly
    · have hzero := List.count_eq_zero.mpr hk
      refine ⟨fun hkilled => ?_, fun _ => hzero⟩
      -- a unit that is not listed keeps its hit points
      obtain ⟨x, hx, hpos, hdead⟩ := hkilled
      rw [hafter k (by rw [hx]; rfl), hzero, hx] at hdead
      cases hdead
      exact absurd hpos (by decide)

theorem playerHP_strike {id : UInt32} (h : (w.playerHP id).isSome) :
    (w.strike damage target).playerHP id =
      (w.playerHP id).map (damagedHP damage)^[target.playerIDs.count id] := by
  unfold playerHP at h ⊢
  have hmem : id ∈ w.playersList := AList.lookup_isSome.mp (by simpa using h)
  rw [strike_lookup_of_mem hmem, Option.map_map, Option.map_map]
  congr 1
  funext p
  simp only [Function.comp_apply]
  rw [Player.iterate_takeDamage]

theorem enemyHP_strike (i : Nat) : (w.strike damage target).enemyHP i =
    (w.enemyHP i).map (damagedHP damage)^[target.enemyIDs.count i] := by
  unfold enemyHP
  rw [strike_getElem?, Option.map_map, Option.map_map]
  congr 1
  funext e
  simp only [Function.comp_apply]
  rw [Enemy.iterate_takeDamage]

theorem count_callsOf (target : AttackTarget) :
    (∀ id, (Reported.callsOf true target).count (.player id) = target.playerIDs.count id) ∧
      ∀ i, (Reported.callsOf true target).count (.enemy i) = target.enemyIDs.count i := by
  unfold Reported.callsOf
  constructor
  · intro id
    have hother : (target.enemyIDs.map KillCall.enemy).count (.player id) = 0 := by
      rw [List.count_eq_zero]
      simp
    rw [if_pos rfl, List.count_append, hother,
      List.count_map_of_injective _ _ fun _ _ h => KillCall.player.inj h, Nat.add_zero]
  · intro i
    have hother : (target.playerIDs.map KillCall.player).count (.enemy i) = 0 := by
      rw [List.count_eq_zero]
      simp
    rw [if_pos rfl, List.count_append, hother,
      List.count_map_of_injective _ _ fun _ _ h => KillCall.enemy.inj h, Nat.zero_add]

/-- The loops report exactly the kills if and only if every listed unit is killed. -/
theorem reportsKills_strike_iff :
    ReportsKills w ⟨w.strike damage target, Reported.callsOf true target⟩ ↔
      KillsAll w damage target := by
  unfold ReportsKills KillsAll
  simp only [(count_callsOf target).1, (count_callsOf target).2]
  exact and_congr (counts_iff fun id h => playerHP_strike h)
    (counts_iff fun i _ => enemyHP_strike i)

theorem playerHP_modifyPlayer {id : UInt32} {f : Player → Player}
    (hf : ∀ q, w.playersList.lookup id = some q → (f q).hp = q.hp) :
    (w.modifyPlayer id f).playerHP = w.playerHP := by
  funext a
  unfold playerHP
  rw [modifyPlayer_playersList, OrderedMap.lookup_modify]
  split
  · rename_i hak
    subst hak
    cases hlookup : w.playersList.lookup a with
    | none => rfl
    | some q => exact congrArg some (hf q hlookup)
  · rfl

theorem enemyHP_modifyEnemy (i : Nat) (inv : Inventory) (w : GameWorld) :
    (w.modifyEnemy i fun q => { q with inventory := inv }).enemyHP = w.enemyHP := by
  funext j
  unfold enemyHP
  rw [modifyEnemy_enemyList, List.getElem?_modify]
  cases w.enemyList[j]? with
  | none => rfl
  | some e => by_cases hij : i = j <;> simp [hij]

theorem reportsKills_congr {r : Reported} (hplayers : w'.playerHP = w.playerHP)
    (henemies : w'.enemyHP = w.enemyHP) : ReportsKills w' r ↔ ReportsKills w r := by
  unfold ReportsKills
  rw [hplayers, henemies]

theorem killsAll_congr (hplayers : w'.playerHP = w.playerHP) (henemies : w'.enemyHP = w.enemyHP) :
    KillsAll w' damage target ↔ KillsAll w damage target := by
  unfold KillsAll
  rw [hplayers, henemies]

theorem reportsKills_nothing : ReportsKills w ⟨w, []⟩ := by
  have hnot : ∀ hp, ¬ Killed hp hp := by
    rintro hp ⟨h, rfl, hpos, hzero⟩
    cases hzero
    exact absurd hpos (by decide)
  exact ⟨fun id => ⟨fun h => absurd h (hnot _), fun _ => rfl⟩,
    fun i => ⟨fun h => absurd h (hnot _), fun _ => rfl⟩⟩

/-- The calls of an attack are exact if and only if it is no attack, with an empty slot equipped,
or it kills every unit it hits. -/
theorem makeAttack_reports_iff (w : GameWorld) :
    (∀ id p action, w.playersList.lookup id = some p →
      p.equipedItemID.toNat < maxInventorySize →
        ∃ slot r, p.inventory.storage[p.equipedItemID.toNat]? = some slot ∧
          Reported.playerMakeAttack true w id (w.playerFindAttackTarget p action) = .ok r ∧
          (ReportsKills w r ↔ slot.empty = true ∨
            KillsAll w (p.inventory.attackDamage slot) (w.playerFindAttackTarget p action))) ∧
    ∀ (i : Nat) e action, w.enemyList[i]? = some e → e.equipedItemID.toNat < maxInventorySize →
      ∃ slot r, e.inventory.storage[e.equipedItemID.toNat]? = some slot ∧
        Reported.enemyMakeAttack true w i (w.enemyFindAttackTarget e action) = .ok r ∧
        (ReportsKills w r ↔ slot.empty = true ∨
          KillsAll w (e.inventory.attackDamage slot) (w.enemyFindAttackTarget e action)) := by
  constructor
  · intro id p action hp hrange
    obtain ⟨slot, hslot⟩ := exists_slot p.inventory hrange
    refine ⟨slot, _, hslot, Reported.playerMakeAttack_eq hp hslot, ?_⟩
    by_cases hempty : slot.empty = true
    · rw [if_pos hempty]
      exact iff_of_true reportsKills_nothing (.inl hempty)
    · rw [if_neg hempty, or_iff_right hempty]
      have hplayers : (w.modifyPlayer id fun q =>
          { q with inventory := p.inventory.spent slot }).playerHP = w.playerHP :=
        playerHP_modifyPlayer fun _ _ => rfl
      rw [← reportsKills_congr hplayers rfl, reportsKills_strike_iff]
      exact killsAll_congr hplayers rfl
  · intro i e action he hrange
    obtain ⟨slot, hslot⟩ := exists_slot e.inventory hrange
    refine ⟨slot, _, hslot, Reported.enemyMakeAttack_eq he hslot, ?_⟩
    by_cases hempty : slot.empty = true
    · rw [if_pos hempty]
      exact iff_of_true reportsKills_nothing (.inl hempty)
    · rw [if_neg hempty, or_iff_right hempty]
      have henemies := enemyHP_modifyEnemy i (e.inventory.spent slot) w
      have hplayers : (w.modifyEnemy i fun q =>
          { q with inventory := e.inventory.spent slot }).playerHP = w.playerHP := rfl
      rw [← reportsKills_congr hplayers henemies, reportsKills_strike_iff]
      exact killsAll_congr hplayers henemies

/-- An apple in hand, and a zombie with 17 hit points beside its owner: it survives the blow. -/
theorem makeAttack_reports_survivor : ∃ (w : GameWorld) (id : UInt32) (p : Player)
    (action : PlayerAction) (r : Reported), w.playersList.lookup id = some p ∧
      p.equipedItemID.toNat < maxInventorySize ∧
      Reported.playerMakeAttack true w id (w.playerFindAttackTarget p action) = .ok r ∧
      ¬ ReportsKills w r := by
  let player : Player := { Player.default with
    inventory := .ofSlots [⟨false, itemTable.getD 2 Item.default, 0, 1⟩] }
  let w : GameWorld := ⟨AList.singleton 0 player, enemiesTable.take 1, ⟨Vector.replicate _ 0⟩⟩
  refine ⟨w, 0, player, ⟨EPlayerActionType.attack.code, 0, #v[0, 0, 0, 0]⟩, _, rfl, by decide,
    Reported.playerMakeAttack_eq rfl rfl, fun h => ?_⟩
  have hnone := (h.2 0).2 ?_
  · revert hnone
    decide
  · rintro ⟨hp, -, -, hzero⟩
    revert hzero
    decide

end GameWorld

end AsciiTerra
