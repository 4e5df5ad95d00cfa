import AsciiTerra.CountersInRange

/-!
# The world of a client

How much of the world of the server a client has, before, in and after its registration, and
what the messages make of it.
-/

set_option autoImplicit false

namespace AsciiTerra

/-- A registered client with the world of the server. -/
structure Client.Mirrors (w : GameWorld) (e : UInt32) (c : Client) : Prop where
  playerID : c.playerID = e
  agrees : w.Agrees c.gameWorld

/-- A client before its registration: no enemies, and nobody who is not on the server. -/
structure Client.Waits (ps : PlayersList) (c : Client) : Prop where
  enemies : c.gameWorld.enemyList = []
  keysAreIDs : KeysAreIDs c.gameWorld.playersList
  players : ∀ id ∈ c.gameWorld.playersList, id ∈ ps

structure Client.Follows (w : GameWorld) (e : UInt32) (c : Client) : Prop where
  registered : e ∈ w.playersList → c.Mirrors w e
  waiting : e ∉ w.playersList → c.Waits w.playersList

namespace Client
variable {order : Arrangement (OrderedMap.Entry UInt32 Player)} {c c' : Client} {w v : GameWorld}
variable {e : UInt32}

theorem Waits.mono {ps ps' : PlayersList} (h : c.Waits ps) (hps : ∀ id ∈ ps, id ∈ ps') :
    c.Waits ps' :=
  ⟨h.enemies, h.keysAreIDs, fun id hid => hps id (h.players id hid)⟩

/-- A message that only prints something. -/
def quietKinds : List ECustomMetaMSG :=
  [.serverAccept, .clientAccepted, .serverShyConnectionCheck, .serverPing, .gameEndPlayerTurn,
    .gameNextPlayerTurn, .gamePlayerActionAborted, .serverMessage]

theorem updatePlayer_quiet {msg : Message} {kind : ECustomMetaMSG}
    (hid : ECustomMetaMSG.ofCode msg.header.id = some kind) (hkind : kind ∈ quietKinds)
    (hok : c.updatePlayer order msg = .ok c') : c' = c := by
  have hne : ∀ kind', ECustomMetaMSG.ofCode msg.header.id = some kind' → kind' ∈ quietKinds := by
    intro kind' hid'
    cases hid.symm.trans hid'
    exact hkind
  cases updatePlayer_updated hok with
  | registered hid' _ | mapped hid' | enemyAdded hid' | removed hid' _ | turn hid' _
    | acted hid' _ _ | enemyActed hid' _ => exact absurd (hne _ hid') (by decide)
  | put hid' _ =>
    rcases hid' with hid' | hid'
    · exact absurd (hne _ hid') (by decide)
    · exact absurd (hne _ hid') (by decide)
  | untouched => rfl

theorem updatePlayer_register (p : Player) :
    c.updatePlayer order ((Message.ofID .clientRegisterFromServer).push Layout.player p) =
      .ok { c.putPlayer order p with playerID := p.id } := by
  simp [updatePlayer, Message.pop_push]

theorem updatePlayer_map (map : Map) :
    c.updatePlayer order ((Message.ofID .clientUpdateMap).push Layout.map map) =
      .ok { c with gameWorld := { c.gameWorld with gameWorldMap := map } } := by
  simp [updatePlayer, Message.pop_push]

theorem updatePlayer_enemy (enemy : Enemy) :
    c.updatePlayer order ((Message.ofID .clientInitEnemy).push Layout.enemy enemy) =
      .ok { c with gameWorld :=
        { c.gameWorld with enemyList := c.gameWorld.enemyList ++ [enemy] } } := by
  simp [updatePlayer, Message.pop_push]

theorem updatePlayer_add (p : Player) :
    c.updatePlayer order ((Message.ofID .clientAddPlayer).push Layout.player p) =
      .ok (c.putPlayer order p) := by
  simp [updatePlayer, Message.pop_push]

theorem updatePlayer_turn :
    c.updatePlayer order (.ofID .gamePlayerTurn) = c.gamePlayerTurn order := by
  simp [updatePlayer]

theorem updatePlayer_action (action : PlayerAction) :
    c.updatePlayer order
        ((Message.ofID .gamePlayerActionValidated).push Layout.playerAction action) =
      c.gamePlayerActionValidated action := by
  simp [updatePlayer, Message.pop_push]

theorem updatePlayer_enemyAction (action : EnemyAction) :
    c.updatePlayer order (AsciiTerra.gameAITurnAction action) = c.gameAITurnAction action := by
  simp [updatePlayer, Message.pop_push, AsciiTerra.gameAITurnAction]

/-- Another player enters. -/
theorem Follows.enter (h : c.Follows w e) {p : Player} (hp : e ≠ p.id)
    {o : Arrangement (OrderedMap.Entry UInt32 Player)} :
    (c.putPlayer order p).Follows
      { w with playersList := OrderedMap.insertOrAssign o p.id p w.playersList } e := by
  have hmem : e ∈ OrderedMap.insertOrAssign o p.id p w.playersList ↔ e ∈ w.playersList := by
    rw [OrderedMap.mem_insertOrAssign]
    exact ⟨fun he => he.resolve_left hp, Or.inr⟩
  constructor
  · intro he
    obtain ⟨hid, hagrees⟩ := h.registered (hmem.mp he)
    refine ⟨hid, fun id => ?_, hagrees.enemies, hagrees.map⟩
    change (OrderedMap.insertOrAssign order p.id p c.gameWorld.playersList).lookup id = _
    rw [OrderedMap.lookup_insertOrAssign, OrderedMap.lookup_insertOrAssign, hagrees.players]
  · intro he
    obtain ⟨henemies, hkeys, hplayers⟩ := h.waiting fun hin => he (hmem.mpr hin)
    refine ⟨henemies, hkeys.insertOrAssign rfl, fun id hid => ?_⟩
    rcases OrderedMap.mem_insertOrAssign.mp hid with rfl | hid
    · exact OrderedMap.mem_insertOrAssign.mpr (Or.inl rfl)
    · exact OrderedMap.mem_insertOrAssign.mpr (Or.inr (hplayers id hid))

/-- A player acts. -/
theorem Follows.act (h : c.Follows w e) (hk : KeysAreIDs w.playersList) {action : PlayerAction}
    (hmem : action.playerID ∈ w.playersList)
    (hv : w.makeApprovedAction action.playerID action = .ok v)
    (hok : c.gamePlayerActionValidated action = .ok c') : c'.Follows v e := by
  have hplayers := (GameWorld.makeApprovedAction_actedBy hk hv).players
  constructor
  · intro he
    obtain ⟨hid, hagrees⟩ := h.registered (hplayers.mem_iff.mp he)
    obtain ⟨v', hv', hagrees'⟩ := hagrees.makeApprovedAction hk hv
    unfold gamePlayerActionValidated at hok
    rw [if_pos (hagrees.mem_iff.mpr hmem), hv', except_ok_bind] at hok
    cases hok
    exact ⟨hid, hagrees'⟩
  · intro he
    have hwaits := (h.waiting fun hin => he (hplayers.mem_iff.mpr hin)).mono
      fun id hid => hplayers.mem_iff.mpr hid
    unfold gamePlayerActionValidated at hok
    split at hok
    · obtain ⟨u, hu, hok⟩ := except_bind_eq_ok.mp hok
      cases hok
      have hacted := GameWorld.makeApprovedAction_actedBy hwaits.keysAreIDs hu
      have henemies := hacted.enemies
      rw [hwaits.enemies] at henemies
      refine ⟨List.forall₂_nil_left_iff.mp henemies, hacted.keysAreIDs hwaits.keysAreIDs, ?_⟩
      exact fun id hid => hwaits.players id (hacted.players.mem_iff.mp hid)
    · cases hok
      exact hwaits

theorem Follows.agrees (h : c.Follows w e) (hv : v.Agrees w) : c.Follows v e := by
  constructor
  · intro he
    obtain ⟨hid, hagrees⟩ := h.registered (hv.mem_iff.mpr he)
    refine ⟨hid, fun id => (hagrees.players id).trans (hv.players id),
      hagrees.enemies.trans hv.enemies, hagrees.map.trans hv.map⟩
  · intro he
    exact (h.waiting fun hin => he (hv.mem_iff.mp hin)).mono fun id hid => hv.mem_iff.mp hid

theorem mem_modifyPlayer {id : UInt32} {f : Player → Player} :
    e ∈ (w.modifyPlayer id f).playersList ↔ e ∈ w.playersList :=
  OrderedMap.mem_modify

theorem refilled_eq {p : Player} (h : p.currentTurns = p.maxTurns) :
    ({ p with currentTurns := p.maxTurns } : Player) = p := by
  cases p
  cases h
  rfl

/-- The turn begins for the client that holds it. -/
theorem Follows.turn (h : c.Follows w e) {p : Player} (hp : w.playersList.lookup e = some p)
    (hok : c.gamePlayerTurn order = .ok c') :
    c'.Follows (w.modifyPlayer e fun _ => { p with currentTurns := p.maxTurns }) e := by
  have hmem : e ∈ w.playersList := OrderedMap.mem_iff_lookup.mpr ⟨p, hp⟩
  obtain ⟨hid, hagrees⟩ := h.registered hmem
  constructor
  · intro _
    have hrecord : (c.gameWorld.playersList.lookup c.playerID).getD Player.default = p := by
      rw [hid, hagrees.players, hp, Option.getD_some]
    unfold gamePlayerTurn at hok
    rw [hrecord] at hok
    simp only [Server.setCurrentTurnActions_max, except_ok_bind] at hok
    cases hok
    refine ⟨hid, fun id => ?_, hagrees.enemies, hagrees.map⟩
    change (OrderedMap.insertOrAssign order c.playerID _ c.gameWorld.playersList).lookup id = _
    rw [hid, OrderedMap.lookup_insertOrAssign, GameWorld.modifyPlayer_playersList,
      OrderedMap.lookup_modify, hagrees.players]
    by_cases heq : id = e
    · subst heq
      rw [if_pos rfl, if_pos rfl, hp, Option.map_some]
    · rw [if_neg heq, if_neg heq]
  · intro he
    exact absurd (mem_modifyPlayer.mpr hmem) he

/-- The turn begins for another player, whose counter is full or who is alone. -/
theorem Follows.otherTurn (h : c.Follows w e) {id : UInt32} {p : Player} (hne : e ≠ id)
    (hp : w.playersList.lookup id = some p)
    (hfits : p.currentTurns = p.maxTurns ∨ ∀ a ∈ w.playersList, a = id) :
    c.Follows (w.modifyPlayer id fun _ => { p with currentTurns := p.maxTurns }) e := by
  rcases hfits with hfull | halone
  · refine h.agrees ⟨fun a => ?_, rfl, rfl⟩
    rw [GameWorld.modifyPlayer_playersList, OrderedMap.lookup_modify]
    by_cases ha : a = id
    · subst ha
      rw [if_pos rfl, hp, Option.map_some, refilled_eq hfull]
    · rw [if_neg ha]
  · have hout : e ∉ w.playersList := fun he => hne (halone e he)
    refine ⟨fun he => absurd (mem_modifyPlayer.mp he) hout, fun _ => ?_⟩
    exact (h.waiting hout).mono fun a ha => mem_modifyPlayer.mpr ha

/-- A client in the middle of the enemies' turn. -/
structure Replays (w : GameWorld) (actions : List EnemyAction) (e : UInt32) (c : Client) :
    Prop where
  registered : e ∈ w.playersList →
    c.playerID = e ∧ ∃ wc, w.Agrees wc ∧ replay wc actions = .ok c.gameWorld
  waiting : e ∉ w.playersList → c.Waits w.playersList

theorem Replays.next {actions : List EnemyAction} {action : EnemyAction}
    (h : c.Replays w actions e) (hok : c.gameAITurnAction action = .ok c') :
    c'.Replays w (actions ++ [action]) e := by
  obtain ⟨u, hu, hok⟩ := except_bind_eq_ok.mp hok
  cases hok
  constructor
  · intro he
    obtain ⟨hid, wc, hagrees, hreplay⟩ := h.registered he
    refine ⟨hid, wc, hagrees, replay_append_eq_ok.mpr ⟨_, hreplay, ?_⟩⟩
    rw [replay_cons, hu, except_ok_bind, replay_nil]
  · intro he
    have henemies := (h.waiting he).enemies
    unfold GameWorld.makeEnemyAction at hu
    rw [henemies] at hu
    cases hu

/-- A client in the middle of its registration as `p`: with the first `k` enemies, the players
under `keys` and, once it `got` it, the map. -/
structure Joins (w : GameWorld) (p : Player) (got : Prop) (k : Nat) (keys : List UInt32)
    (c : Client) : Prop where
  playerID : c.playerID = p.id
  players : ∀ id ∈ c.gameWorld.playersList, id ∈ w.playersList
  known : ∀ id, id = p.id ∨ id ∈ keys →
    c.gameWorld.playersList.lookup id = w.playersList.lookup id
  map : got → c.gameWorld.gameWorldMap = w.gameWorldMap
  enemies : c.gameWorld.enemyList = w.enemyList.take k

theorem Waits.join (h : c.Waits w.playersList) {p : Player}
    {o : Arrangement (OrderedMap.Entry UInt32 Player)} :
    Joins { w with playersList := OrderedMap.insertOrAssign o p.id p w.playersList } p False 0 []
      { c.putPlayer order p with playerID := p.id } where
  playerID := rfl
  players id hid := by
    rcases OrderedMap.mem_insertOrAssign.mp hid with rfl | hid
    · exact OrderedMap.mem_insertOrAssign.mpr (Or.inl rfl)
    · exact OrderedMap.mem_insertOrAssign.mpr (Or.inr (h.players id hid))
  known id hid := by
    obtain rfl := hid.resolve_right List.not_mem_nil
    exact (OrderedMap.lookup_insertOrAssign_self ..).trans
      (OrderedMap.lookup_insertOrAssign_self ..).symm
  map hgot := hgot.elim
  enemies := h.enemies

theorem Joins.add {p q : Player} {got : Prop} {k : Nat} {keys : List UInt32}
    (h : Joins w p got k keys c) (hq : w.playersList.lookup q.id = some q) :
    Joins w p got k (keys ++ [q.id]) (c.putPlayer order q) where
  playerID := h.playerID
  players id hid := by
    rcases OrderedMap.mem_insertOrAssign.mp hid with rfl | hid
    · exact OrderedMap.mem_iff_lookup.mpr ⟨q, hq⟩
    · exact h.players id hid
  known id hid := by
    change (OrderedMap.insertOrAssign order q.id q c.gameWorld.playersList).lookup id = _
    rw [OrderedMap.lookup_insertOrAssign]
    split
    · rename_i heq
      rw [heq, hq]
    · rename_i hne
      rw [List.mem_append, List.mem_singleton] at hid
      exact h.known id (hid.imp_right fun hmem => hmem.resolve_right hne)
  map := h.map
  enemies := h.enemies

theorem Joins.skip {p : Player} {got : Prop} {k : Nat} {keys : List UInt32} {key : UInt32}
    (h : Joins w p got k keys c) (hkey : key = p.id ∨ w.playersList.lookup key = none) :
    Joins w p got k (keys ++ [key]) c where
  playerID := h.playerID
  players := h.players
  known id hid := by
    rw [List.mem_append, List.mem_singleton] at hid
    rcases hid with hid | hid | rfl
    · exact h.known id (Or.inl hid)
    · exact h.known id (Or.inr hid)
    · rcases hkey with hkey | hnone
      · exact h.known id (Or.inl hkey)
      · rw [hnone, AList.lookup_eq_none]
        intro hmem
        exact AList.lookup_eq_none.mp hnone (h.players id hmem)
  map := h.map
  enemies := h.enemies

theorem Joins.mirrors {p : Player} (h : Joins w p True w.enemyList.length w.playersList.keys c) :
    c.Mirrors w p.id where
  playerID := h.playerID
  agrees := by
    refine ⟨fun id => ?_, h.enemies.trans List.take_length, h.map trivial⟩
    by_cases hid : id ∈ w.playersList
    · exact h.known id (Or.inr (AList.mem_keys.mp hid))
    · rw [AList.lookup_eq_none.mpr hid, AList.lookup_eq_none]
      exact fun hmem => hid (h.players id hmem)

/-- The clients while `p` registers; `base` is what the others have. -/
structure Entering (base w : GameWorld) (p : Player) (got : Prop) (k : Nat) (keys : List UInt32)
    (e : UInt32) (c : Client) : Prop where
  self : e = p.id → c.Joins w p got k keys
  other : e ≠ p.id → c.Follows base e

end Client

end AsciiTerra
