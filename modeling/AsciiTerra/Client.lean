import AsciiTerra.Message
import AsciiTerra.AITurnReplay
import AsciiTerra.ApprovedAction

/-!
# The client

`CustomClient`: its copy of the world and the message switch of `UpdatePlayer`. What it
only prints is left out, the records that it reads for the text are not.
-/

set_option autoImplicit false

namespace AsciiTerra

/-- `CustomClient`. -/
structure Client where
  gameWorld : GameWorld
  playerID : UInt32

namespace Client

/-- A client at its start; the tiles of its map are arbitrary until it gets one. -/
def start (map : Map) : Client := ⟨⟨∅, [], map⟩, 0⟩

/-- `PlayersList.insert_or_assign(desc.ID, desc)`. -/
def putPlayer (order : Arrangement (OrderedMap.Entry UInt32 Player)) (desc : Player)
    (c : Client) : Client :=
  { c with gameWorld := { c.gameWorld with
    playersList := OrderedMap.insertOrAssign order desc.id desc c.gameWorld.playersList } }

/-- `case GamePlayerTurn`: the subscript inserts a missing record. -/
def gamePlayerTurn (order : Arrangement (OrderedMap.Entry UInt32 Player)) (c : Client) :
    Except Fault Client := do
  let currentPlayer := (c.gameWorld.playersList.lookup c.playerID).getD Player.default
  let currentPlayer ← currentPlayer.setCurrentTurnActions currentPlayer.getMaxTurnActions
  .ok { c with gameWorld := { c.gameWorld with
    playersList := OrderedMap.insertOrAssign order c.playerID currentPlayer
      c.gameWorld.playersList } }

/-- `case GameNextPlayerTurn`. -/
def gameNextPlayerTurn (nextPlayerID : UInt32) (c : Client) : Except Fault Client :=
  if nextPlayerID = c.playerID then .ok c
  else do
    let _ ← c.gameWorld.playerAt nextPlayerID
    .ok c

/-- `case GamePlayerActionValidated`; the action of an unknown player is an error text. -/
def gamePlayerActionValidated (action : PlayerAction) (c : Client) : Except Fault Client :=
  if action.playerID ∈ c.gameWorld.playersList then do
    let w ← c.gameWorld.makeApprovedAction action.playerID action
    .ok { c with gameWorld := w }
  else .ok c

/-- `case ServerMessage`. -/
def serverMessage (clientID : UInt32) (c : Client) : Except Fault Client :=
  if clientID ∈ c.gameWorld.playersList then .ok c else .error .endIterator

/-- `case GameAITurnAction`. -/
def gameAITurnAction (action : EnemyAction) (c : Client) : Except Fault Client := do
  let w ← c.gameWorld.makeEnemyAction action.enemyID.toNat action
  .ok { c with gameWorld := w }

/-- The `switch` of `UpdatePlayer`. -/
def updatePlayer (order : Arrangement (OrderedMap.Entry UInt32 Player)) (c : Client)
    (msg : Message) : Except Fault Client :=
  match ECustomMetaMSG.ofCode msg.header.id with
  | some .clientRegisterFromServer => do
    let (registeredPlayer, _) ← msg.pop Layout.player
    .ok { c.putPlayer order registeredPlayer with playerID := registeredPlayer.id }
  | some .clientUpdateMap => do
    let (gameWorldMap, _) ← msg.pop Layout.map
    .ok { c with gameWorld := { c.gameWorld with gameWorldMap := gameWorldMap } }
  | some .clientInitEnemy => do
    let (enemy, _) ← msg.pop Layout.enemy
    .ok { c with gameWorld := { c.gameWorld with enemyList := c.gameWorld.enemyList ++ [enemy] } }
  | some .clientAddPlayer | some .gameUpdatePlayer => do
    let (desc, _) ← msg.pop Layout.player
    .ok (c.putPlayer order desc)
  | some .gameRemovePlayer => do
    let (removalID, _) ← msg.pop Codec.u32
    .ok { c with gameWorld := { c.gameWorld with
      playersList := c.gameWorld.playersList.erase removalID } }
  | some .gamePlayerTurn => c.gamePlayerTurn order
  | some .gameNextPlayerTurn => do
    let (nextPlayerID, _) ← msg.pop Codec.u32
    c.gameNextPlayerTurn nextPlayerID
  | some .gamePlayerActionValidated => do
    let (action, _) ← msg.pop Layout.playerAction
    c.gamePlayerActionValidated action
  | some .gamePlayerActionAborted => do
    let _ ← msg.pop Layout.playerAction
    .ok c
  | some .serverMessage => do
    let (clientID, _) ← msg.pop Codec.u32
    c.serverMessage clientID
  | some .gameAITurnAction => do
    let (action, _) ← msg.pop Layout.enemyAction
    c.gameAITurnAction action
  | _ => .ok c

def updates (order : Arrangement (OrderedMap.Entry UInt32 Player)) (c : Client)
    (msgs : List Message) : Except Fault Client :=
  msgs.foldlM (updatePlayer order) c

section Updates
variable {order : Arrangement (OrderedMap.Entry UInt32 Player)} {c d : Client}

@[simp] theorem updates_nil : c.updates order [] = .ok c := rfl

theorem updates_concat {msgs : List Message} {msg : Message} :
    c.updates order (msgs ++ [msg]) = .ok d ↔
      ∃ e, c.updates order msgs = .ok e ∧ e.updatePlayer order msg = .ok d := by
  unfold updates
  rw [List.foldlM_append]
  have hone : ∀ e : Client, [msg].foldlM (updatePlayer order) e = e.updatePlayer order msg := by
    intro e
    rw [List.foldlM_cons]
    cases e.updatePlayer order msg <;> rfl
  simp only [hone]
  exact except_bind_eq_ok

end Updates

end Client

def SameTurns (players players' : PlayersList) : Prop :=
  ∀ id p, players.lookup id = some p → ∃ p', players'.lookup id = some p' ∧
    p'.maxTurns = p.maxTurns ∧ p'.currentTurns = p.currentTurns

namespace SameTurns
variable {ps ps' ps'' : PlayersList}

theorem refl (ps : PlayersList) : SameTurns ps ps := fun _ p hp => ⟨p, hp, rfl, rfl⟩

theorem trans (h : SameTurns ps ps') (h' : SameTurns ps' ps'') : SameTurns ps ps'' := by
  intro id p hp
  obtain ⟨p', hp', hmax, hcurrent⟩ := h id p hp
  obtain ⟨p'', hp'', hmax', hcurrent'⟩ := h' id p' hp'
  exact ⟨p'', hp'', hmax'.trans hmax, hcurrent'.trans hcurrent⟩

theorem mem (h : SameTurns ps ps') {id : UInt32} (hid : id ∈ ps) : id ∈ ps' := by
  obtain ⟨p, hp⟩ := OrderedMap.mem_iff_lookup.mp hid
  obtain ⟨p', hp', _⟩ := h id p hp
  exact OrderedMap.mem_iff_lookup.mpr ⟨p', hp'⟩

theorem modify (k : UInt32) {f : Player → Player}
    (hf : ∀ p, (f p).maxTurns = p.maxTurns ∧ (f p).currentTurns = p.currentTurns) :
    SameTurns ps (OrderedMap.modify k f ps) := by
  intro id p hp
  rw [OrderedMap.lookup_modify, hp]
  by_cases hid : id = k
  · exact ⟨f p, by simp [hid], hf p⟩
  · exact ⟨p, by simp [hid], rfl, rfl⟩

theorem modifyOrInsert (k : UInt32) {f : Player → Player}
    (hf : ∀ p, (f p).maxTurns = p.maxTurns ∧ (f p).currentTurns = p.currentTurns) :
    SameTurns ps (OrderedMap.modifyOrInsert Player.default k f ps) := by
  unfold OrderedMap.modifyOrInsert
  split
  · exact modify k hf
  · rename_i hk
    intro id p hp
    refine ⟨p, ?_, rfl, rfl⟩
    have hmem : (⟨id, p⟩ : OrderedMap.Entry UInt32 Player) ∈
        (OrderedMap.insertLast k (f Player.default) ps hk).entries :=
      List.mem_append_left _ (OrderedMap.mem_entries_of_lookup hp)
    exact OrderedMap.lookup_of_mem_entries hmem

end SameTurns

namespace GameWorld
variable {w v : GameWorld}

/-- Attacks keep the counters and the number of enemies. -/
def Fought (w v : GameWorld) : Prop :=
  SameTurns w.playersList v.playersList ∧ v.enemyList.length = w.enemyList.length

theorem Fought.refl (w : GameWorld) : w.Fought w := ⟨.refl _, rfl⟩

theorem Fought.trans {u : GameWorld} (h : w.Fought v) (h' : v.Fought u) : w.Fought u :=
  ⟨h.1.trans h'.1, h'.2.trans h.2⟩

theorem fought_modifyPlayer (id : UInt32) {f : Player → Player}
    (hf : ∀ p, (f p).maxTurns = p.maxTurns ∧ (f p).currentTurns = p.currentTurns) :
    w.Fought (w.modifyPlayer id f) :=
  ⟨.modify id hf, rfl⟩

theorem fought_modifyEnemy (i : Nat) (f : Enemy → Enemy) : w.Fought (w.modifyEnemy i f) :=
  ⟨.refl _, List.length_modify ..⟩

theorem fought_strike (damage : UInt32) (target : AttackTarget) :
    w.Fought (w.strike damage target) := by
  refine ⟨?_, strike_length damage target w⟩
  have go : ∀ (ids : List UInt32) (ps : PlayersList), SameTurns ps (ids.foldl
      (fun ps id => OrderedMap.modifyOrInsert Player.default id (Player.takeDamage damage) ps)
      ps) := by
    intro ids
    induction ids with
    | nil => exact fun ps => .refl ps
    | cons id ids ih =>
      intro ps
      have hone : SameTurns ps
          (OrderedMap.modifyOrInsert Player.default id (Player.takeDamage damage) ps) :=
        .modifyOrInsert id fun _ => ⟨rfl, rfl⟩
      exact hone.trans (ih _)
  exact go target.playerIDs w.playersList

theorem makeEnemyAction_fought {i : Nat} {action : EnemyAction}
    (h : w.makeEnemyAction i action = .ok v) : w.Fought v := by
  rcases makeEnemyAction_cases h with rfl | ⟨f, rfl⟩ | ⟨f, damage, e, rfl⟩
  · exact .refl v
  · exact fought_modifyEnemy i f
  · exact (fought_modifyEnemy i f).trans (fought_strike _ _)

theorem attackOf_fought {id : UInt32} {action : PlayerAction}
    (h : w.attackOf id action = .ok v) : w.Fought v := by
  obtain ⟨p, _, h⟩ := except_bind_eq_ok.mp h
  obtain ⟨q, _, h⟩ := except_bind_eq_ok.mp h
  obtain ⟨result, _, h⟩ := except_bind_eq_ok.mp h
  cases result with
  | none =>
    cases h
    exact .refl w
  | some r =>
    cases h
    have hset : w.Fought (w.modifyPlayer id fun p => { p with inventory := r.2 }) :=
      fought_modifyPlayer id fun _ => ⟨rfl, rfl⟩
    exact hset.trans (fought_strike _ _)

theorem actOf_fought {id : UInt32} {action : PlayerAction} (h : w.actOf id action = .ok v) :
    w.Fought v := by
  unfold actOf at h
  split at h
  · have hmove : w.Fought (w.modifyPlayer id fun p =>
        { p with coords := p.coords + direction action.actionInfo }) :=
      fought_modifyPlayer id fun _ => ⟨rfl, rfl⟩
    exact hmove.trans (attackOf_fought h)
  · exact attackOf_fought h
  · cases h
    exact .refl w

theorem makeApprovedAction_counts {id : UInt32} {action : PlayerAction}
    (h : w.makeApprovedAction id action = .ok v) :
    v.enemyList.length = w.enemyList.length ∧ ∀ a p, w.playersList.lookup a = some p →
      ∃ p', v.playersList.lookup a = some p' ∧ p'.maxTurns = p.maxTurns ∧
        if a = id then p'.currentTurns.val + 1 = p.currentTurns.val
        else p'.currentTurns = p.currentTurns := by
  obtain ⟨u, hu, h⟩ := except_bind_eq_ok.mp h
  obtain ⟨q, hq, h⟩ := except_bind_eq_ok.mp h
  obtain ⟨q', hq', h⟩ := except_bind_eq_ok.mp h
  cases h
  obtain ⟨hturns, hlength⟩ := actOf_fought hu
  refine ⟨hlength, fun a p hp => ?_⟩
  obtain ⟨p', hp', hmax, hcurrent⟩ := hturns a p hp
  rw [modifyPlayer_playersList, OrderedMap.lookup_modify, hp']
  by_cases ha : a = id
  · subst a
    cases (playerAt_eq_ok.mp hq).symm.trans hp'
    obtain ⟨hminus, hrest⟩ := setCurrentTurnActions_sub_one hq'
    refine ⟨q', by simp, ?_, ?_⟩
    · rw [hrest]
      exact hmax
    · rw [if_pos rfl, hminus, hcurrent]
  · refine ⟨p', by simp [ha], hmax, ?_⟩
    rw [if_neg ha]
    exact hcurrent

end GameWorld

end AsciiTerra
