import AsciiTerra.Lib.Machine
import AsciiTerra.TurnOrder

/-!
# The game server

`CustomServer`: generation of the world, the message handlers and the steps of the
server. Every call of `rand` returns an arbitrary number; the place of a new entry in
`PlayersList` is arbitrary too.
-/

set_option autoImplicit false

namespace AsciiTerra

/-- What a handler cannot foresee: the values of `rand` and the order of the hash map. -/
structure Chance where
  rand : Nat → Nat
  order : Arrangement (OrderedMap.Entry UInt32 Player)

/-- The loop body of `GenerateMap` for the tile `width + height * Width`. -/
def generateTile (rand : Nat → Nat) (i : Nat) : UInt8 :=
  let width := i % Map.width
  let height := i / Map.width
  if width = 0 ∨ width = Map.width - 1 ∨ height = 0 ∨ height = Map.height - 1 then
    ETileType.hill.code
  else UInt8.ofNat (rand i % ETileType.hill.code.toNat)

def generateMap (rand : Nat → Nat) : Map where
  mapTiles := ⟨((List.range (40 * 40)).map (generateTile rand)).toArray, by simp⟩

/-- An enemy that `GenerateEnemies` places, with three values of `rand`. -/
def generateEnemy (kind x y : Nat) : Option Enemy :=
  enemiesTable[kind % 2]?.map fun e =>
    { e with coords := ⟨Int16.ofNat (x % 25 + 1), Int16.ofNat (y % 25 + 1), 0⟩ }

def generateEnemies (rand : Nat → Nat) : List Enemy :=
  (List.range (rand 0 % 25)).filterMap fun i =>
    generateEnemy (rand (3 * i + 1)) (rand (3 * i + 2)) (rand (3 * i + 3))

/-- `(short)(rand() % Width - 2 + 1)`, computed in `uint32`. -/
def spawnCoord (r : Nat) : Int16 := (UInt32.ofNat (r % Map.width) - 2 + 1).toUInt16.toInt16

/-- The loop of `ClientOnRegister` over items: its condition draws anew each time, so at
most four items are given. -/
def giveItems (rand : Nat → Nat) : Nat → Nat → Nat → Inventory → Inventory
  | 0, _, _, inv => inv
  | left + 1, i, drawn, inv =>
    if i < rand drawn % 5 then
      giveItems rand left (i + 1) (drawn + 2)
        (inv.addItem (itemTable.getD (rand (drawn + 1) % 5) Item.default))
    else inv

def clientOnRegister (rand : Nat → Nat) (id : UInt32) (playerInfo : Player) :
    Except Fault Player := do
  -- each `continue` belongs to the loop over the units, so the first place is taken
  let p := { playerInfo with
    id := id
    coords := ⟨spawnCoord (rand 0), spawnCoord (rand 1), 0⟩ }
  let p ← p.setMaxTurnActions 4
  let p ← p.setCurrentTurnActions 4
  .ok { p with hp := 45, inventory := giveItems rand 5 0 2 p.inventory }

/-- `MapTiles[x + y * Width]`, with the `assert` of `StaticArray`. -/
def Map.tileAt (m : Map) (x y : Int16) : Except Fault UInt8 :=
  match m.mapTiles[x.toInt.toNat + y.toInt.toNat * Map.width]? with
  | none => .error .assertion
  | some tile => .ok tile

def checkPlayerAction (w : GameWorld) (action : PlayerAction) : Except Fault Bool := do
  let player ← w.playerAt action.playerID
  if player.hp ≤ 0 then .ok false
  else
    match EPlayerActionType.ofCode action.actionType with
    | some .attack => .ok (w.playerFindAttackTarget player action).valid
    | some .move =>
      let newCoords := player.coords + direction action.actionInfo
      if newCoords.x < 0 ∨ newCoords.x.toInt > Map.width ∨
          newCoords.y < 0 ∨ newCoords.y.toInt > Map.height then .ok false
      else do
        let tile ← w.gameWorldMap.tileAt newCoords.x newCoords.y
        .ok (tile != ETileType.hill.code)
    | _ => .ok false

namespace Server

/-- The conditions under which `OnMessage` applies an action of client `c`. -/
def approves (s : Server) (c : UInt32) (action : PlayerAction) : Except Fault Bool :=
  if c = s.currentPlayerID then
    match s.gameWorld.playersList.lookup c with
    | none => .ok false
    | some player =>
      if player.getCurrentTurnActions > 0 then checkPlayerAction s.gameWorld action else .ok false
  else .ok false

section Hook
variable (onClientDisconnect : Option UInt32 → Server → Outcome Fault Server)

/-- The loop of `OnMessage` over `GarbageIDs`, which a nested disconnect must not extend. -/
def flushGarbage (s : Server) : Outcome Fault Server := do
  let s ← s.garbageIDs.foldlM (fun s pid => do
    let s' ← messageAllClients onClientDisconnect
      ((Message.ofID .gameRemovePlayer).push Codec.u32 pid) none (s.note (.broadcast pid))
    if s'.garbageIDs.length = s.garbageIDs.length then .ok s' else .fault .grownVector) s
  .ok { s with garbageIDs := [] }

/-- One `ClientInitEnemy`. -/
def sendEnemy (c : UInt32) (s : Server) (i : Nat) : Outcome Fault Server :=
  match s.gameWorld.enemyList[i]? with
  | none => .fault .badIndex
  | some enemy => messageClient onClientDisconnect (some c)
      ((Message.ofID .clientInitEnemy).push Layout.enemy enemy) s

/-- One iteration over `PlayersList` in the registration of `playerDesc`. An entry erased
before is not reached, one erased by the body ends the iteration. -/
def sendOtherPlayer (c : UInt32) (playerDesc : Player) (s : Server) (key : UInt32) :
    Outcome Fault Server :=
  match s.gameWorld.playersList.lookup key with
  | none => .ok s
  | some player =>
    if player.id = playerDesc.id then .ok s
    else do
      let s ← messageClient onClientDisconnect (some c)
        ((Message.ofID .clientAddPlayer).push Layout.player player) s
      if key ∈ s.gameWorld.playersList then .ok s else .fault .erasedEntry

def announce (c : UInt32) (playerDesc : Player) (s : Server) : Outcome Fault Server := do
  let s ← messageClient onClientDisconnect (some c)
    ((Message.ofID .clientRegisterFromServer).push Layout.player playerDesc) s
  let s ← messageClient onClientDisconnect (some c)
    ((Message.ofID .clientUpdateMap).push Layout.map s.gameWorld.gameWorldMap) s
  let s ← (List.range s.gameWorld.enemyList.length).foldlM (sendEnemy onClientDisconnect c) s
  let s ← messageAllClients onClientDisconnect
    ((Message.ofID .clientAddPlayer).push Layout.player playerDesc) (some c) s
  s.gameWorld.playersList.keys.foldlM (sendOtherPlayer onClientDisconnect c playerDesc) s

/-- `case ClientRegisterOnServer`. -/
def register (chance : Chance) (c : UInt32) (msg : Message) (s : Server) :
    Outcome Fault Server := do
  let (playerDesc, _) ← Outcome.ofExcept (msg.pop Layout.player)
  let playerDesc ← Outcome.ofExcept (clientOnRegister chance.rand c playerDesc)
  let s ← announce onClientDisconnect c playerDesc (s.setPlayersList
    (OrderedMap.insertOrAssign chance.order playerDesc.id playerDesc s.gameWorld.playersList))
  if s.currentPlayerID = 0 then s.chooseNextPlayerForTurn onClientDisconnect none else .ok s

/-- The turn of client `c` ends. -/
def endTurn (c : UInt32) (s : Server) : Outcome Fault Server := do
  let s ← messageClient onClientDisconnect (some c) (.ofID .gameEndPlayerTurn) s
  let s ← s.chooseNextPlayerForTurn onClientDisconnect (some c)
  messageAllClients onClientDisconnect
    ((Message.ofID .gameNextPlayerTurn).push Codec.u32 s.currentPlayerID) none s

/-- An approved action: the check and `MakeApprovedAction` look up two records, and only
then `PlayerID` becomes that of the sender. -/
def applyAction (c : UInt32) (action : PlayerAction) (s : Server) : Outcome Fault Server := do
  let w ← Outcome.ofExcept (s.gameWorld.makeApprovedAction c action)
  let s ← messageAllClients onClientDisconnect
    ((Message.ofID .gamePlayerActionValidated).push Layout.playerAction
      { action with playerID := c }) none ({ s with gameWorld := w }.log (.applied c))
  match s.gameWorld.playersList.lookup c with
  | none => .fault .erasedEntry
  | some player => if player.getCurrentTurnActions ≤ 0 then s.endTurn onClientDisconnect c else .ok s

/-- `case ServerGamePlayerActionApprove`. -/
def actionApprove (c : UInt32) (msg : Message) (s : Server) : Outcome Fault Server := do
  let (action, _) ← Outcome.ofExcept (msg.pop Layout.playerAction)
  let approved ← Outcome.ofExcept (s.approves c action)
  if approved then s.applyAction onClientDisconnect c action
  else
    messageClient onClientDisconnect (some c)
      ((Message.ofID .gamePlayerActionAborted).push Layout.playerAction action) s

/-- The `switch` of `OnMessage`. -/
def handleMessage (chance : Chance) (c : UInt32) (msg : Message) (s : Server) :
    Outcome Fault Server :=
  match ECustomMetaMSG.ofCode msg.header.id with
  | some .clientRegisterOnServer => s.register onClientDisconnect chance c msg
  | some .serverGamePlayerActionApprove => s.actionApprove onClientDisconnect c msg
  | some .gameUpdatePlayer => messageAllClients onClientDisconnect msg (some c) s
  | some .serverPing => .ok (s.send c msg)
  | some .messageAll =>
    if c ∈ s.gameWorld.playersList then
      messageAllClients onClientDisconnect ((Message.ofID .serverMessage).push Codec.u32 c)
        (some c) s
    else .fault .outOfRange
  | _ => .ok s

def onMessage (chance : Chance) (c : UInt32) (msg : Message) (s : Server) :
    Outcome Fault Server := do
  let s ← s.flushGarbage onClientDisconnect
  s.handleMessage onClientDisconnect chance c msg

def shyCheckAllPlayers (s : Server) : Outcome Fault Server :=
  messageAllClients onClientDisconnect (.ofID .serverShyConnectionCheck) none s

end Hook

/-- The server after its constructor. -/
def start (mapRand enemyRand : Nat → Nat) (closing : Nat → List UInt32) : Server where
  deqConnection := []
  nIDCounter := 10000
  gameWorld := ⟨∅, generateEnemies enemyRand, generateMap mapRand⟩
  garbageIDs := []
  currentPlayerID := 0
  closed := []
  closing := closing
  clock := 0
  sent := []
  trace := []
  notices := []

/-- The handler of `async_accept`: `OnClientConnect` and the new entry. -/
def accept (s : Server) : Server :=
  let c := UInt32.ofNat s.nIDCounter
  { s.send c (.ofID .serverAccept) with
    deqConnection := s.deqConnection ++ [some c]
    nIDCounter := s.nIDCounter + 1 }

/-- What happens to the server, one handler at a time. A handler is given the number of
nested disconnects it may use. -/
inductive Event
  | accept
  /-- `OnClientValidated` -/
  | validated (c : UInt32)
  /-- the socket of a connection closes -/
  | close (c : UInt32)
  | shyCheck (depth : Nat)
  /-- `OnMessage` for a client that was accepted -/
  | message (depth : Nat) (chance : Chance) (c : UInt32) (msg : Message)

/-- A completed handler. `nIDCounter` has not come around to IDs in use or to `InvalidID`. -/
def step (s : Server) : Event → Option Server
  | .accept => if s.nIDCounter < invalidID.toNat then some s.accept else none
  | .validated c => if s.Accepted c then some (s.send c (.ofID .clientAccepted)) else none
  | .close c => if s.Accepted c then some { s with closed := c :: s.closed } else none
  | .shyCheck depth =>
    match s.shyCheckAllPlayers (onClientDisconnect depth) with
    | .ok s' => some s'
    | _ => none
  | .message depth chance c msg =>
    if s.Accepted c then
      match s.onMessage (onClientDisconnect depth) chance c msg with
      | .ok s' => some s'
      | _ => none
    else none

/-- The states between two handlers. -/
def Reachable (s : Server) : Prop :=
  ∃ mapRand enemyRand closing events,
    Machine.run step (start mapRand enemyRand closing) events = some s

end Server

end AsciiTerra
