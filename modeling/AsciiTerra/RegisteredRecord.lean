import AsciiTerra.Handlers
import AsciiTerra.MessageBounds

/-!
# What a registration keeps

`ClientOnRegister` overwrites the ID, the position, HP and the turn counters of the record
that a client sends. It adds to the inventory and leaves `EquipedItemID` as it is.
-/

set_option autoImplicit false

namespace AsciiTerra

/-- The record that `ClientOnRegister` makes. -/
def Player.registered (rand : Nat → Nat) (id : UInt32) (p : Player) : Player :=
  { p with
    id := id
    coords := ⟨spawnCoord (rand 0), spawnCoord (rand 1), 0⟩
    maxTurns := 4
    currentTurns := 4
    hp := 45
    inventory := giveItems rand 5 0 2 p.inventory }

theorem clientOnRegister_eq (rand : Nat → Nat) (id : UInt32) (p : Player) :
    clientOnRegister rand id p = .ok (p.registered rand id) := rfl

/-- Two records that a registration turns into the same one. -/
structure Player.SameKept (p q : Player) : Prop where
  name : p.name = q.name
  equipedItemID : p.equipedItemID = q.equipedItemID
  inventory : p.inventory = q.inventory

theorem Player.SameKept.registered {p q : Player} (h : p.SameKept q) (rand : Nat → Nat)
    (id : UInt32) : p.registered rand id = q.registered rand id := by
  unfold Player.registered
  rw [h.name, h.equipedItemID, h.inventory]

namespace Server

/-- The message is a registration with the record `p`. -/
structure Registers (msg : Message) (p : Player) : Prop where
  id : ECustomMetaMSG.ofCode msg.header.id = some .clientRegisterOnServer
  pop : ∃ rest, msg.pop Layout.player = .ok (p, rest)

theorem registerRequest_registers (p : Player) : Registers (registerRequest p) p := by
  refine ⟨rfl, ?_⟩
  exact ⟨_, Message.pop_push Layout.player p _⟩

/-- A registration from `ClientOnRegister` on. -/
def enterGame (onClientDisconnect : Option UInt32 → Server → Outcome Fault Server)
    (order : Arrangement (OrderedMap.Entry UInt32 Player)) (c : UInt32) (playerDesc : Player)
    (s : Server) : Outcome Fault Server := do
  let s ← announce onClientDisconnect c playerDesc
    (s.setPlayersList (OrderedMap.insertOrAssign order c playerDesc s.gameWorld.playersList))
  if s.currentPlayerID = 0 then s.chooseNextPlayerForTurn onClientDisconnect none else .ok s

theorem onMessage_registers {hook : Option UInt32 → Server → Outcome Fault Server}
    {chance : Chance} {c : UInt32} {msg : Message} {p : Player} (h : Registers msg p) (s : Server) :
    s.onMessage hook chance c msg = s.flushGarbage hook >>=
      enterGame hook chance.order c (p.registered chance.rand c) := by
  obtain ⟨rest, hpop⟩ := h.pop
  unfold onMessage handleMessage
  simp only [h.id, register, hpop, clientOnRegister_eq, Outcome.ofExcept_ok, Outcome.ok_bind]
  rfl

/-- Nothing else of the payload matters, whatever the state is. -/
theorem onMessage_sameKept {hook : Option UInt32 → Server → Outcome Fault Server}
    {chance : Chance} {c : UInt32} {msg msg' : Message} {p q : Player} (hp : Registers msg p)
    (hq : Registers msg' q) (h : p.SameKept q) (s : Server) :
    s.onMessage hook chance c msg = s.onMessage hook chance c msg' := by
  rw [onMessage_registers hp, onMessage_registers hq, h.registered]

/-- A first client registers while `rand` gives no items. -/
theorem register_oneClient (p : Player) : ∃ t,
    oneClient.onMessage (onClientDisconnect 1) Chance.zero 10000 (registerRequest p) = .ok t ∧
      t.gameWorld.playersList.lookup 10000 = some (p.registered Chance.zero.rand 10000) := by
  rw [onMessage_registers (registerRequest_registers p)]
  exact ⟨_, rfl, rfl⟩

/-- The entry of a new player is independent of what the client sent, apart from the name, if
and only if `EquipedItemID` and the inventory are. -/
theorem registration_independent_iff {p q : Player} (hname : p.name = q.name) :
    (∀ (s : Server) (c : UInt32) (n : Nat) (chance : Chance) (msg msg' : Message),
      Registers msg p → Registers msg' q → ∀ t t' : Server,
        s.onMessage (onClientDisconnect n) chance c msg = .ok t →
        s.onMessage (onClientDisconnect n) chance c msg' = .ok t' →
        t.gameWorld.playersList.lookup c = t'.gameWorld.playersList.lookup c) ↔
      p.equipedItemID = q.equipedItemID ∧ p.inventory = q.inventory := by
  constructor
  · intro h
    obtain ⟨t, ht, hp⟩ := register_oneClient p
    obtain ⟨t', ht', hq⟩ := register_oneClient q
    have hsame := h oneClient 10000 1 Chance.zero _ _ (registerRequest_registers p)
      (registerRequest_registers q) t t' ht ht'
    rw [hp, hq] at hsame
    have hrecord := Option.some.inj hsame
    have hequiped : (p.registered Chance.zero.rand 10000).equipedItemID =
        (q.registered Chance.zero.rand 10000).equipedItemID := by rw [hrecord]
    have hinventory : (p.registered Chance.zero.rand 10000).inventory =
        (q.registered Chance.zero.rand 10000).inventory := by rw [hrecord]
    exact ⟨hequiped, hinventory⟩
  · rintro ⟨hequiped, hinventory⟩ s c n chance msg msg' hp hq t t' ht ht'
    rw [onMessage_sameKept hp hq ⟨hname, hequiped, hinventory⟩] at ht
    cases ht.symm.trans ht'
    rfl

/-- A client that sends `EquipedItemID = 1` and otherwise an empty record. -/
def equipedOne : Player := { Player.default with equipedItemID := 1 }

theorem registration_independent_default :
    (∀ (s : Server) (c : UInt32) (n : Nat) (chance : Chance) (msg msg' : Message),
      Registers msg Player.default → Registers msg' equipedOne → ∀ t t' : Server,
        s.onMessage (onClientDisconnect n) chance c msg = .ok t →
        s.onMessage (onClientDisconnect n) chance c msg' = .ok t' →
        t.gameWorld.playersList.lookup c = t'.gameWorld.playersList.lookup c) ↔
      Player.default.equipedItemID = equipedOne.equipedItemID ∧
        Player.default.inventory = equipedOne.inventory :=
  registration_independent_iff rfl

/-- The server keeps the `EquipedItemID` of the payload. -/
theorem registration_dependent : oneClient.Reachable ∧ oneClient.Accepted 10000 ∧
    Player.default.name = equipedOne.name ∧ ∃ t t' : Server,
      oneClient.onMessage (onClientDisconnect 1) Chance.zero 10000
        (registerRequest Player.default) = .ok t ∧
      oneClient.onMessage (onClientDisconnect 1) Chance.zero 10000
        (registerRequest equipedOne) = .ok t' ∧
      t.gameWorld.playersList.lookup 10000 ≠ t'.gameWorld.playersList.lookup 10000 := by
  obtain ⟨t, ht, hp⟩ := register_oneClient Player.default
  obtain ⟨t', ht', hq⟩ := register_oneClient equipedOne
  refine ⟨oneClient_reachable, by decide, rfl, t, t', ht, ht', ?_⟩
  rw [hp, hq]
  intro heq
  have hequiped : (0 : UInt32) = 1 := congrArg Player.equipedItemID (Option.some.inj heq)
  exact absurd hequiped (by decide)

end Server

end AsciiTerra
