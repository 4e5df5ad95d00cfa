import AsciiTerra.Layouts

/-!
# Messages

`spNetMessage.h`: a header and a body of bytes. `operator<<` appends a record to the
body, `operator>>` takes one from its end. The header keeps the raw id, which a peer
may choose freely.
-/

set_option autoImplicit false

namespace AsciiTerra

inductive ECustomMetaMSG
  | serverAccept
  | serverDeny
  | serverPing
  | clientAccepted
  | clientRegisterOnServer
  | clientRegisterFromServer
  | clientUpdateMap
  | clientInitEnemy
  | clientAddPlayer
  | clientJustCheck
  | gameRemovePlayer
  | gameUpdatePlayer
  | gamePlayerActionValidated
  | gamePlayerActionAborted
  | gameAITurnAction
  | gamePlayerTurn
  | gameEndPlayerTurn
  | gameNextPlayerTurn
  | serverGamePlayerActionApprove
  | serverShyConnectionCheck
  | messageAll
  | serverMessage
deriving DecidableEq, Repr

namespace ECustomMetaMSG

def all : List ECustomMetaMSG :=
  [serverAccept, serverDeny, serverPing, clientAccepted, clientRegisterOnServer,
    clientRegisterFromServer, clientUpdateMap, clientInitEnemy, clientAddPlayer, clientJustCheck,
    gameRemovePlayer, gameUpdatePlayer, gamePlayerActionValidated, gamePlayerActionAborted,
    gameAITurnAction, gamePlayerTurn, gameEndPlayerTurn, gameNextPlayerTurn,
    serverGamePlayerActionApprove, serverShyConnectionCheck, messageAll, serverMessage]

def code (id : ECustomMetaMSG) : UInt32 := UInt32.ofNat (all.idxOf id)

def ofCode (c : UInt32) : Option ECustomMetaMSG := all[c.toNat]?

@[simp] theorem ofCode_code (id : ECustomMetaMSG) : ofCode id.code = some id := by
  cases id <;> decide

end ECustomMetaMSG

structure MessageHeader where
  id : UInt32
  size : UInt32
deriving DecidableEq, Repr

structure Message where
  header : MessageHeader
  body : List UInt8
deriving DecidableEq, Repr

namespace Message

/-- A message with only its `header.id` set. -/
def ofID (id : ECustomMetaMSG) : Message := ⟨⟨id.code, 0⟩, []⟩

/-- `operator<<`. -/
def push {α : Type} (c : Codec α) (a : α) (msg : Message) : Message :=
  let body := msg.body ++ c.encode a
  ⟨⟨msg.header.id, UInt32.ofNat body.length⟩, body⟩

/-- `operator>>`. -/
def pop {α : Type} (c : Codec α) (msg : Message) : Except Fault (α × Message) :=
  if c.size ≤ msg.body.length then
    let i := msg.body.length - c.size
    .ok (c.decode (msg.body.drop i), ⟨⟨msg.header.id, UInt32.ofNat i⟩, msg.body.take i⟩)
  else .error .shortBody

@[simp] theorem ofID_id (id : ECustomMetaMSG) : (ofID id).header.id = id.code := rfl

@[simp] theorem push_id {α : Type} (c : Codec α) (a : α) (msg : Message) :
    (msg.push c a).header.id = msg.header.id := rfl

theorem pop_push {α : Type} (c : Codec α) (a : α) (msg : Message) :
    (msg.push c a).pop c = .ok (a, ⟨⟨msg.header.id, UInt32.ofNat msg.body.length⟩, msg.body⟩) := by
  have hsize : (msg.body ++ c.encode a).length - c.size = msg.body.length := by simp
  unfold pop push
  rw [if_pos (by simp)]
  simp only [hsize, List.drop_left, List.take_left, c.decode_encode]

theorem pop_eq_ok_iff {α : Type} {c : Codec α} {msg : Message} :
    (∃ r, msg.pop c = .ok r) ↔ c.size ≤ msg.body.length := by
  unfold pop
  split
  · rename_i h
    exact iff_of_true ⟨_, rfl⟩ h
  · rename_i h
    refine iff_of_false ?_ h
    rintro ⟨r, hr⟩
    exact nomatch hr

/-- The header of a message built by `operator<<` alone states the length of its body. -/
def SizeIsRight (msg : Message) : Prop := msg.header.size = UInt32.ofNat msg.body.length

theorem sizeIsRight_push {α : Type} (c : Codec α) (a : α) (msg : Message) :
    (msg.push c a).SizeIsRight := rfl

end Message

end AsciiTerra
