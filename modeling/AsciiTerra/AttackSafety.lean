import AsciiTerra.InventorySupply

/-!
# Attacks in a run

No attack leaves the inventory or takes an arrow that is not there, as long as the records
that players register with are in order.
-/

set_option autoImplicit false

namespace AsciiTerra

namespace Server
variable {s t : Server}

open Outcome (Post)

theorem Small.supplied {sender : Option UInt32} (hs : s.gameWorld.Supplied)
    (h : Small sender s t) : t.gameWorld.Supplied := by
  cases h with
  | tick | send _ _ _ | eraseNulls | resetAt | choosing | giveTo _ => exact hs
  | enemies hst => exact enemyTurns_supplied hs hst
  | removeDead dirt =>
    unfold removeDeadEnemies
    split
    · exact ⟨hs.keysAreIDs, fun e he => hs.fromTable e (List.mem_of_mem_filter he),
        fun e he => hs.stocked e (List.mem_of_mem_filter he)⟩
    · exact hs
  | resetTurn h =>
    obtain ⟨p, hp, rfl⟩ := resetTurn_eq_ok.mp h
    exact ⟨(resetTurn_sameOwner hp).forall_entries (P := fun k p => p.id = k)
      (fun _ _ _ hp hk => hp.id.trans hk) hs.keysAreIDs, hs.fromTable, hs.stocked⟩
  | removePlayer _ =>
    exact ⟨fun e he => hs.keysAreIDs e ((List.kerase_sublist _ _).subset he), hs.fromTable,
      hs.stocked⟩

theorem Change.supplied {c : UInt32} (hs : s.gameWorld.Supplied) (h : Change c s t) :
    t.gameWorld.Supplied := by
  cases h with
  | small h => exact h.supplied hs
  | reply => exact hs
  | enter order hid => exact ⟨hs.keysAreIDs.insertOrAssign rfl, hs.fromTable, hs.stocked⟩
  | apply _ hw => exact GameWorld.makeApprovedAction_supplied hs hw

theorem Changes.supplied {c : UInt32} (hs : s.gameWorld.Supplied) (h : Changes c s t) :
    t.gameWorld.Supplied :=
  h.preserves (I := fun s => s.gameWorld.Supplied) (fun _ _ hs hstep => hstep.supplied hs) hs

theorem stocked_of_mem_enemiesTable {e : Enemy} (h : e ∈ enemiesTable) : e.inventory.Stocked := by
  have htable : ∀ e ∈ enemiesTable, e.inventory.Stocked := by decide
  exact htable e h

theorem start_supplied (mapRand enemyRand : Nat → Nat) (closing : Nat → List UInt32) :
    (start mapRand enemyRand closing).gameWorld.Supplied := by
  refine ⟨fun e he => (nomatch he), fun e he => ?_, fun e he => ?_⟩
  · obtain ⟨i, -, hi⟩ := List.mem_filterMap.mp he
    exact generateEnemy_fromTable hi
  · obtain ⟨i, -, hi⟩ := List.mem_filterMap.mp he
    obtain ⟨entry, hentry, rfl⟩ := Option.map_eq_some_iff.mp hi
    have hstocked := stocked_of_mem_enemiesTable (List.mem_of_getElem? hentry)
    exact hstocked

/-- Enemies and players are in order. -/
structure Outfitted (w : GameWorld) : Prop where
  supplied : w.Supplied
  equipped : w.AllEquipped

theorem Small.outfitted {sender : Option UInt32} (hs : Outfitted s.gameWorld)
    (h : Small sender s t) : Outfitted t.gameWorld := by
  refine ⟨h.supplied hs.supplied, ?_⟩
  cases h with
  | tick | send _ _ _ | eraseNulls | resetAt | choosing | giveTo _ => exact hs.equipped
  | enemies hst =>
    have hrelated := aiTurn_aiRelated hs.supplied.allArmed hst
    exact hs.equipped.related (hrelated.players hs.supplied.keysAreIDs)
      fun _ _ hhurt hp => hp.hurt hhurt
  | removeDead dirt =>
    unfold removeDeadEnemies
    split
    · exact hs.equipped
    · exact hs.equipped
  | resetTurn h =>
    obtain ⟨player, hplayer, rfl⟩ := resetTurn_eq_ok.mp h
    refine hs.equipped.modifyPlayer fun p hp hequipped => ?_
    cases hplayer.symm.trans hp
    exact ⟨hequipped.index, hequipped.stocked⟩
  | removePlayer _ => exact fun e he => hs.equipped e ((List.kerase_sublist _ _).subset he)

theorem Smalls.outfitted {sender : Option UInt32} (hs : Outfitted s.gameWorld)
    (h : Smalls sender s t) : Outfitted t.gameWorld :=
  h.preserves (I := fun s => Outfitted s.gameWorld) (fun _ _ hs hstep => hstep.outfitted hs) hs

/-- A registration in the event has a record that is in order. -/
def RegistersEquipped : Event → Prop
  | .message _ _ _ msg => ∀ p, Registers msg p → p.Equipped
  | _ => True

theorem enterGame_outfitted {hook : Option UInt32 → Server → Outcome Fault Server} {c : UInt32}
    (hh : SmallHook (some c) hook) {order : Arrangement (OrderedMap.Entry UInt32 Player)}
    {p : Player} (hid : p.id = c) (hp : p.Equipped) (hs : Outfitted s.gameWorld) :
    Post (fun t => Outfitted t.gameWorld) (s.enterGame hook order c p) := by
  have hentered : Outfitted (s.setPlayersList
      (OrderedMap.insertOrAssign order c p s.gameWorld.playersList)).gameWorld :=
    ⟨⟨hs.supplied.keysAreIDs.insertOrAssign hid, hs.supplied.fromTable, hs.supplied.stocked⟩,
      OrderedMap.forall_insertOrAssign (P := fun (_ : UInt32) (p : Player) => p.Equipped) hp
        hs.equipped⟩
  refine Post.bind (announce_smalls hh p) fun t ht => ?_
  split
  · exact (chooseNextPlayerForTurn_smalls hh none).mono fun u hu => (ht.trans hu).outfitted hentered
  · exact Post.of_ok (ht.outfitted hentered)

theorem handleMessage_outfitted {n : Nat} {chance : Chance} {c : UInt32} {msg : Message}
    (hreg : ∀ p, Registers msg p → p.Equipped) (hs : Outfitted s.gameWorld) :
    Post (fun t => Outfitted t.gameWorld)
      (s.handleMessage (onClientDisconnect n) chance c msg) := by
  have hh : SmallHook (some c) (onClientDisconnect n) := onClientDisconnect_smalls n
  have hall : ∀ m ignore, Post (fun t : Server => Outfitted t.gameWorld)
      (messageAllClients (onClientDisconnect n) m ignore s) := fun m ignore =>
    (messageAllClients_smalls hh).mono fun _ ht => ht.outfitted hs
  unfold handleMessage
  split
  · rename_i hid
    intro t hok
    obtain ⟨⟨p, rest⟩, hpop, hok⟩ := Outcome.bind_eq_ok.mp hok
    have hequipped := hreg p ⟨hid, rest, Outcome.ofExcept_eq_ok.mp hpop⟩
    exact enterGame_outfitted hh rfl (hequipped.registered chance.rand c) hs t hok
  · refine (actionApprove_smalls hh msg).mono fun t ht => ?_
    rcases ht with ht | ⟨action, w, -, hw, ht⟩
    · exact ht.outfitted hs
    · refine ht.outfitted ⟨GameWorld.makeApprovedAction_supplied hs.supplied hw, ?_⟩
      exact GameWorld.makeApprovedAction_equipped hs.supplied.keysAreIDs hs.equipped hw
  · exact hall _ _
  · exact Post.of_ok hs
  · split
    · exact hall _ _
    · exact Post.of_fault
  · exact Post.of_ok hs

theorem step_outfitted {e : Event} (hs : Outfitted s.gameWorld) (he : RegistersEquipped e)
    (h : step s e = some t) : Outfitted t.gameWorld := by
  refine step_world (fun _ _ _ hs hstep => hstep.outfitted hs) ?_ hs h
  rintro n chance c msg rfl u v hu hok
  exact handleMessage_outfitted he hu v hok

/-- `Player::MakeAttack` is executed with this record when the server of state `s` handles a
message: the action is approved once the removals of `GarbageIDs` are sent. -/
def PlayerAttacks (s : Server) (player : Player) : Prop :=
  ∃ (n : Nat) (c : UInt32) (msg : Message) (action : PlayerAction) (rest : Message) (t : Server),
    s.Accepted c ∧ s.flushGarbage (onClientDisconnect n) = .ok t ∧
    ECustomMetaMSG.ofCode msg.header.id = some .serverGamePlayerActionApprove ∧
    msg.pop Layout.playerAction = .ok (action, rest) ∧ t.approves c action = .ok true ∧
    t.gameWorld.PlayerAttacks c action player

/-- `Enemy::MakeAttack` is executed with this record in a turn of the enemies that begins in one
of the states a handler comes to. -/
def EnemyAttacks (s : Server) (e : Enemy) : Prop :=
  ∃ (c : UInt32) (u : Server), Relation.ReflTransGen (Handling c) s u ∧
    AsciiTerra.EnemyAttacks u.gameWorld e

theorem Handling.supplied {c : UInt32} (hs : s.gameWorld.Supplied) (h : Handling c s t) :
    t.gameWorld.Supplied := by
  cases h with
  | change h => exact h.supplied hs
  | note | clear => exact hs

theorem Handling.supplied_run {c : UInt32} (hs : s.gameWorld.Supplied)
    (h : Relation.ReflTransGen (Handling c) s t) : t.gameWorld.Supplied := by
  induction h with
  | refl => exact hs
  | tail _ hstep ih => exact hstep.supplied ih

/-- Every attack is made with a slot of the inventory, and takes an arrow where there is one. -/
theorem attacks_usable {mapRand enemyRand : Nat → Nat} {closing : Nat → List UInt32}
    {events : List Event}
    (hrun : Machine.run step (start mapRand enemyRand closing) events = some s)
    (hequipped : ∀ e ∈ events, RegistersEquipped e) :
    (∀ player, s.PlayerAttacks player → player.inventory.Usable player.equipedItemID) ∧
      ∀ e, s.EnemyAttacks e → e.inventory.Usable e.equipedItemID := by
  have hs : Outfitted s.gameWorld := by
    have hstart : Outfitted (start mapRand enemyRand closing).gameWorld :=
      ⟨start_supplied mapRand enemyRand closing, fun e he => nomatch he⟩
    apply Machine.invariant_history (I := fun _ (s : Server) => Outfitted s.gameWorld)
      (P := fun es => ∀ e ∈ es, RegistersEquipped e) _ _ hstart hequipped hrun
    · intro es e h e' he'
      exact h e' (List.mem_append_left _ he')
    · intro es e s t h hs hst
      exact step_outfitted hs (h e (by simp)) hst
  constructor
  · rintro player ⟨n, c, msg, action, rest, t, -, ht, -, -, -, hattack⟩
    have hhook : SmallHook (some c) (onClientDisconnect n) := onClientDisconnect_smalls n
    have hflushed : Outfitted t.gameWorld := flushGarbage_preserves
      (I := fun s => Outfitted s.gameWorld) hhook
      (fun _ _ hs hstep => hstep.outfitted hs) (fun _ _ h => h) (fun _ h => h) hs t ht
    exact hattack.usable hflushed.supplied.keysAreIDs hflushed.equipped
  · rintro e ⟨c, u, hu, hattack⟩
    exact hattack.usable (Handling.supplied_run hs.supplied hu)

theorem registersEquipped_request {n : Nat} {chance : Chance} {c : UInt32} {p : Player}
    (hp : p.Equipped) : RegistersEquipped (.message n chance c (registerRequest p)) := by
  intro q hq
  obtain ⟨rest, hpop⟩ := hq.pop
  obtain ⟨rest', hpop'⟩ := (registerRequest_registers p).pop
  cases hpop.symm.trans hpop'
  exact hp

/-- The record that the attack of an action of client `c` is made with, if the action is approved. -/
def attackRecord (c : UInt32) (action : PlayerAction) (s : Server) :
    Outcome Fault (Bool × Option Player) := do
  let t ← s.flushGarbage (onClientDisconnect 0)
  let approved ← Outcome.ofExcept (t.approves c action)
  .ok (approved, (t.gameWorld.attackWorld c action).bind fun v => v.playersList.lookup c)

theorem playerAttacks_of_attackRecord {c : UInt32} {action : PlayerAction} {player : Player}
    (hc : s.Accepted c) (h : s.attackRecord c action = .ok (true, some player)) :
    s.PlayerAttacks player := by
  obtain ⟨t, ht, h⟩ := Outcome.bind_eq_ok.mp h
  obtain ⟨approved, happroved, h⟩ := Outcome.bind_eq_ok.mp h
  obtain ⟨rfl, hplayer⟩ := Prod.mk.inj (Outcome.ok.inj h)
  obtain ⟨v, hv, hplayer⟩ := Option.bind_eq_some_iff.mp hplayer
  have hpop := Message.pop_push Layout.playerAction action (.ofID .serverGamePlayerActionApprove)
  exact ⟨0, c, _, action, _, t, hc, ht, rfl, hpop, Outcome.ofExcept_eq_ok.mp happroved, v, hv,
    hplayer⟩

def moveRightAction : PlayerAction := ⟨EPlayerActionType.move.code, 10000, moveInfo 1 0⟩

/-- A client registers with record `p`. -/
def registersWith (p : Player) : List Event :=
  [.accept, .message 0 (.always 5) 10000 (registerRequest p)]

/-- What `f` says of the record with which the first action after a registration with `p` attacks. -/
def firstAttack {α : Type} (f : Player → α) (p : Player) : Option (Bool × Outcome Fault (Bool × Option α)) :=
  (Machine.run step (start (fun _ => 0) (fun _ => 0) fun _ => []) (registersWith p)).map fun s =>
    (decide (s.Accepted 10000),
      s.attackRecord 10000 moveRightAction >>= fun r => .ok (r.1, r.2.map f))

theorem firstAttack_eq_some {α : Type} {f : Player → α} {p : Player} {a : α}
    (h : firstAttack f p = some (true, .ok (true, some a))) : ∃ s player,
      Machine.run step (start (fun _ => 0) (fun _ => 0) fun _ => []) (registersWith p) = some s ∧
      s.PlayerAttacks player ∧ f player = a := by
  obtain ⟨s, hs, h⟩ := Option.map_eq_some_iff.mp h
  obtain ⟨haccepted, h⟩ := Prod.mk.inj h
  obtain ⟨⟨approved, record⟩, hrecord, h⟩ := Outcome.bind_eq_ok.mp h
  obtain ⟨rfl, h⟩ := Prod.mk.inj (Outcome.ok.inj h)
  obtain ⟨player, rfl, hf⟩ := Option.map_eq_some_iff.mp h
  exact ⟨s, player, hs, playerAttacks_of_attackRecord (of_decide_eq_true haccepted) hrecord, hf⟩

def bowAndArrow : Player :=
  { Player.default with inventory := Inventory.ofSlots [
      Inventory.slotOf ⟨fixedString (cString "Villager Bow"), ItemType.bow.code, 27, 1⟩,
      Inventory.slotOf ⟨fixedString (cString "Just Arrow"), ItemType.arrow.code, 1, 1⟩] }

/-- An archer with one arrow uses it in its first action. -/
theorem attacks_usable_archer : ∃ s player,
    Machine.run step (start (fun _ => 0) (fun _ => 0) fun _ => []) (registersWith bowAndArrow) =
      some s ∧
    s.PlayerAttacks player ∧ player.equipedItemID = 0 ∧
    player.inventory.storage[0].item.type = ItemType.bow.code ∧
    player.inventory.findIndex .arrow = some 1 ∧ player.inventory.storage[1].quantity = 1 ∧
    (∀ player, s.PlayerAttacks player → player.inventory.Usable player.equipedItemID) ∧
      ∀ e, s.EnemyAttacks e → e.inventory.Usable e.equipedItemID := by
  have hattack : firstAttack (fun p => decide (p.equipedItemID = 0 ∧
      p.inventory.storage[0].item.type = ItemType.bow.code ∧ p.inventory.findIndex .arrow = some 1 ∧
      p.inventory.storage[1].quantity = 1)) bowAndArrow =
      some (true, .ok (true, some true)) := by decide +kernel
  obtain ⟨s, player, hrun, hattacks, hplayer⟩ := firstAttack_eq_some hattack
  obtain ⟨hequiped, hbow, hfind, hquantity⟩ := of_decide_eq_true hplayer
  refine ⟨s, player, hrun, hattacks, hequiped, hbow, hfind, hquantity,
    attacks_usable hrun fun e he => ?_⟩
  rcases List.mem_pair.mp he with rfl | rfl
  · trivial
  · exact registersEquipped_request ⟨by decide, by decide +kernel⟩

/-- A client registers with `EquipedItemID = 20` and takes a step. -/
theorem attack_outOfInventory : ∃ (s : Server) (player : Player), s.Reachable ∧
    s.PlayerAttacks player ∧ ¬ player.equipedItemID.toNat < maxInventorySize := by
  have hattack : firstAttack Player.equipedItemID { Player.default with equipedItemID := 20 } =
      some (true, .ok (true, some 20)) := by decide +kernel
  obtain ⟨s, player, hrun, hattacks, hequiped⟩ := firstAttack_eq_some hattack
  refine ⟨s, player, ⟨_, _, _, _, hrun⟩, hattacks, ?_⟩
  rw [hequiped]
  decide

end Server

end AsciiTerra
