import AsciiTerra.Message
import AsciiTerra.Lib.Outcome

/-!
# The server interface

`server_interface` with the fields of the derived class. A connection is named by the
ID it got on acceptance, an entry of `m_deqConnection` that was reset is `none`.

Sockets are closed by the network, also while a handler runs: `closing n` are those that
close before the `n`-th `IsConnected`. `OnClientDisconnect` is virtual, so the functions
that call it take it as an argument.
-/

set_option autoImplicit false

namespace AsciiTerra

/-- What the server does to the turn; kept for the statements, the program has no log. -/
inductive TurnEvent
  /-- `ChooseNextPlayerForTurn` is called -/
  | choosing
  /-- it gives the turn to a player, whose record is reset -/
  | turnGiven (player : Player)
  /-- an action of the player is applied -/
  | applied (id : UInt32)
deriving DecidableEq

/-- What happens to the players that leave; kept for the statements too. -/
inductive Notice
  /-- `OnClientDisconnect` erases the player -/
  | erased (id : UInt32)
  /-- it erases a player that a nested call has erased -/
  | repeated (id : UInt32)
  /-- `GameRemovePlayer` is broadcast for it -/
  | broadcast (id : UInt32)
  /-- `OnClientDisconnect` is called, noted where any hook takes its place -/
  | called (client : Option UInt32)
deriving DecidableEq

/-- The server. `sent` is every message handed to `Send`, in order, `trace` the log of turns, the
latest first, and `notices` that of removals, the latest last. -/
structure Server where
  deqConnection : List (Option UInt32)
  nIDCounter : Nat
  gameWorld : GameWorld
  garbageIDs : List UInt32
  currentPlayerID : UInt32
  closed : List UInt32
  closing : Nat → List UInt32
  clock : Nat
  sent : List (UInt32 × Message)
  trace : List TurnEvent
  notices : List Notice

namespace Server

/-- `GetID` values that have been handed out. -/
def Accepted (s : Server) (c : UInt32) : Prop := 10000 ≤ c.toNat ∧ c.toNat < s.nIDCounter

instance (s : Server) (c : UInt32) : Decidable (s.Accepted c) :=
  inferInstanceAs (Decidable (_ ∧ _))

/-- Time passes until the next `IsConnected`. -/
def tick (s : Server) : Server :=
  { s with closed := s.closing s.clock ++ s.closed, clock := s.clock + 1 }

/-- `client && client->IsConnected()`. -/
def connected : Option UInt32 → Server → Bool × Server
  | none, s => (false, s)
  | some c, s => (!s.tick.closed.contains c, s.tick)

/-- `Send` of a connection. -/
def send (c : UInt32) (msg : Message) (s : Server) : Server :=
  { s with sent := s.sent ++ [(c, msg)] }

/-- `erase(remove(..., nullptr))` on `m_deqConnection`. -/
def eraseNulls (s : Server) : Server :=
  { s with deqConnection := s.deqConnection.filter Option.isSome }

/-- `client.reset()` on an entry of `m_deqConnection`. -/
def resetAt (i : Nat) (s : Server) : Server :=
  { s with deqConnection := s.deqConnection.set i none }

def log (e : TurnEvent) (s : Server) : Server := { s with trace := e :: s.trace }

def note (n : Notice) (s : Server) : Server := { s with notices := s.notices ++ [n] }

section Messages
variable (onClientDisconnect : Option UInt32 → Server → Outcome Fault Server)

/-- `MessageClient`. It resets its own copy of the pointer and erases the null entries. -/
def messageClient (client : Option UInt32) (msg : Message) (s : Server) :
    Outcome Fault Server :=
  let (up, s) := connected client s
  match up, client with
  | true, some c => .ok (s.send c msg)
  | _, _ => do
    let s ← onClientDisconnect client s
    .ok s.eraseNulls

/-- The loop body of `MessageAllClients` for the `i`-th entry, with `bInvalidClientExists`. -/
def messageEntry (msg : Message) (ignoreClient : Option UInt32) (st : Server × Bool) (i : Nat) :
    Outcome Fault (Server × Bool) :=
  match st.1.deqConnection[i]? with
  | none => .fault .invalidIterator
  | some client =>
    let (up, s) := connected client st.1
    match up, client with
    | true, some c => .ok (if some c ≠ ignoreClient then s.send c msg else s, st.2)
    | _, _ => do
      let s' ← onClientDisconnect client s
      -- the iteration does not survive an erasure by a nested call
      if s'.deqConnection.length = s.deqConnection.length then .ok (s'.resetAt i, true)
      else .fault .invalidIterator

def messageAllClients (msg : Message) (ignoreClient : Option UInt32) (s : Server) :
    Outcome Fault Server := do
  let (s, invalidClientExists) ←
    (List.range s.deqConnection.length).foldlM
      (messageEntry onClientDisconnect msg ignoreClient) (s, false)
  .ok (if invalidClientExists then s.eraseNulls else s)

end Messages

end Server

end AsciiTerra
