import AsciiTerra.AITurn
import AsciiTerra.ServerInterface

/-!
# Turns and disconnects

`ChooseNextPlayerForTurn`, `OnClientDisconnect` and `MakeAITurn` of the server call each
other through `MessageClient` and `MessageAllClients`. `onClientDisconnect n` is the hook
with at most `n` nested calls of itself, and `deep` when these are used up.
-/

set_option autoImplicit false

namespace AsciiTerra

/-- `GameAITurnAction` with its action. -/
def gameAITurnAction (action : EnemyAction) : Message :=
  (Message.ofID .gameAITurnAction).push Layout.enemyAction action

namespace Server

def setPlayersList (ps : PlayersList) (s : Server) : Server :=
  { s with gameWorld := { s.gameWorld with playersList := ps } }

/-- The first entry of `m_deqConnection` with an ID; a null entry before it is dereferenced. -/
def findConnection : List (Option UInt32) → UInt32 → Except Fault (Option UInt32)
  | [], _ => .ok none
  | none :: _, _ => .error .nullConnection
  | some c :: deq, id => if c = id then .ok (some c) else findConnection deq id

section Hook
variable (onClientDisconnect : Option UInt32 → Server → Outcome Fault Server)

def makeAITurn (s : Server) : Outcome Fault Server := do
  let st ← aiTurn s.gameWorld
  let s ← st.enemyActions.foldlM
    (fun s action => messageAllClients onClientDisconnect (gameAITurnAction action) none s)
    { s with gameWorld := st.world }
  .ok { s with gameWorld := removeDeadEnemies st.enemyListDirt s.gameWorld }

/-- The last statement of `ChooseNextPlayerForTurn`. -/
def resetTurn (s : Server) : Outcome Fault Server :=
  match s.gameWorld.playersList.lookup s.currentPlayerID with
  | none => .fault .outOfRange
  | some player => do
    let player ← Outcome.ofExcept (player.setCurrentTurnActions player.getMaxTurnActions)
    let w := s.gameWorld.modifyPlayer s.currentPlayerID fun _ => player
    .ok ({ s with gameWorld := w }.log (.turnGiven player))

/-- The loop of `ChooseNextPlayerForTurn` over `m_deqConnection`. -/
def sendTurn (s : Server) : Outcome Fault Server :=
  match findConnection s.deqConnection s.currentPlayerID with
  | .error e => .fault e
  | .ok none => .ok s
  | .ok (some c) => messageClient onClientDisconnect (some c) (.ofID .gamePlayerTurn) s

/-- `ChooseNextPlayerForTurn` from the message `GamePlayerTurn` on. -/
def startTurn (s : Server) : Outcome Fault Server := do
  let s ← s.sendTurn onClientDisconnect
  s.resetTurn

/-- `CurrentPlayerID = PlayersList.begin()->second.ID`. -/
def giveToFirst (s : Server) : Outcome Fault Server :=
  match s.gameWorld.playersList.entries with
  | [] => .fault .endIterator
  | first :: _ => .ok { s with currentPlayerID := first.2.id }

/-- The choice in `ChooseNextPlayerForTurn`; the enemies play after the last player. -/
def passTurn (client : Option UInt32) (s : Server) : Outcome Fault Server :=
  match client with
  | none => s.giveToFirst
  | some c =>
    if c ∈ s.gameWorld.playersList then
      match OrderedMap.after c s.gameWorld.playersList with
      | next :: _ => .ok { s with currentPlayerID := next.2.id }
      | [] => do
        let s ← s.makeAITurn onClientDisconnect
        s.giveToFirst
    else .fault .endIterator

def chooseNextPlayerForTurn (client : Option UInt32) (s : Server) : Outcome Fault Server :=
  let s := s.log .choosing
  if s.gameWorld.playersList.entries.isEmpty then .ok s
  else do
    let s ← s.passTurn onClientDisconnect client
    s.startTurn onClientDisconnect

end Hook

/-- The end of `OnClientDisconnect` for a player. -/
def removePlayer (c : UInt32) (s : Server) : Server :=
  { s.setPlayersList (s.gameWorld.playersList.erase c) with
    garbageIDs := s.garbageIDs ++ [c]
    notices := s.notices ++ [if c ∈ s.gameWorld.playersList then .erased c else .repeated c] }

def onClientDisconnect : Nat → Option UInt32 → Server → Outcome Fault Server
  | 0, _, _ => .deep
  | _ + 1, none, _ => .fault .nullConnection
  | n + 1, some c, s =>
    if c ∈ s.gameWorld.playersList then do
      let s ← (if c = s.currentPlayerID then
        s.chooseNextPlayerForTurn (onClientDisconnect n) (some c) else .ok s)
      .ok (s.removePlayer c)
    else .ok s

end Server

end AsciiTerra
