import AsciiTerra.Client
import AsciiTerra.SmallSteps

/-!
# What a client is sent

The connections are reliable and keep the order, so a client processes a prefix of what the
server handed to `Send` for it. What a client knows is what every client that has processed
these messages knows.
-/

set_option autoImplicit false

namespace AsciiTerra

namespace Server

/-- The messages for client `c`, in order. -/
def stream (c : UInt32) (s : Server) : List Message :=
  (s.sent.filter fun m => m.1 = c).map Prod.snd

theorem stream_congr {s t : Server} (h : t.sent = s.sent) (c : UInt32) : t.stream c = s.stream c := by
  rw [stream, stream, h]

@[simp] theorem stream_send_self (c : UInt32) (msg : Message) (s : Server) :
    (s.send c msg).stream c = s.stream c ++ [msg] := by
  simp [stream, send]

theorem stream_send_ne {c e : UInt32} (h : e ≠ c) (msg : Message) (s : Server) :
    (s.send c msg).stream e = s.stream e := by
  simp [stream, send, h.symm]

end Server

/-- The messages of a client with ID `c`. Before it is registered its `PlayerID` is 0. -/
inductive ClientSends (c : UInt32) : Message → Prop
  | ping {msg : Message} : msg.header.id = ECustomMetaMSG.serverPing.code → ClientSends c msg
  | messageAll : ClientSends c (.ofID .messageAll)
  | justCheck : ClientSends c (.ofID .clientJustCheck)
  | register (playerDesc : Player) : ClientSends c (registerRequest playerDesc)
  | approve {action : PlayerAction} : action.actionType = EPlayerActionType.move.code →
      action.playerID = c ∨ action.playerID = 0 → ClientSends c (actionRequest action)

theorem ClientSends.not_update {c : UInt32} {msg : Message} (h : ClientSends c msg) :
    ECustomMetaMSG.ofCode msg.header.id ≠ some .gameUpdatePlayer := by
  cases h with
  | ping hid =>
    rw [hid, ECustomMetaMSG.ofCode_code]
    exact nofun
  | messageAll => simp
  | justCheck => simp
  | register playerDesc => simp [registerRequest]
  | approve _ _ => simp [actionRequest]

section Knows
variable (order : Arrangement (OrderedMap.Entry UInt32 Player)) (map : Map)

/-- Every client that has processed these messages satisfies `D`. -/
def Knows (D : Client → Prop) (msgs : List Message) : Prop :=
  ∀ c, (Client.start map).updates order msgs = .ok c → D c

variable {order map} {D D' : Client → Prop} {msgs : List Message}

theorem Knows.mono (h : Knows order map D msgs) (hD : ∀ c, D c → D' c) : Knows order map D' msgs :=
  fun c hc => hD c (h c hc)

theorem Knows.concat {msg : Message} (h : Knows order map D msgs)
    (hstep : ∀ c c', D c → c.updatePlayer order msg = .ok c' → D' c') :
    Knows order map D' (msgs ++ [msg]) := by
  intro c' hc'
  obtain ⟨c, hc, hmsg⟩ := Client.updates_concat.mp hc'
  exact hstep c c' (h c hc) hmsg

end Knows

/-- Some players, and the enemies up to a number. -/
structure Units where
  players : UInt32 → Prop
  enemies : Nat

structure Client.Has (u : Units) (c : Client) : Prop where
  players : ∀ id, u.players id → id ∈ c.gameWorld.playersList
  enemies : u.enemies ≤ c.gameWorld.enemyList.length

theorem Client.Has.mono {u v : Units} {c : Client} (h : c.Has u)
    (hplayers : ∀ id, v.players id → u.players id) (henemies : v.enemies ≤ u.enemies) : c.Has v :=
  ⟨fun id hid => h.players id (hplayers id hid), henemies.trans h.enemies⟩

/-- The message is no `GameRemovePlayer` for one of `P`. -/
def RemovesNone (P : UInt32 → Prop) (msg : Message) : Prop :=
  ECustomMetaMSG.ofCode msg.header.id = some .gameRemovePlayer →
    ∀ id rest, msg.pop Codec.u32 = .ok (id, rest) → ¬ P id

namespace Client
variable {order : Arrangement (OrderedMap.Entry UInt32 Player)} {c c' : Client} {msg : Message}

theorem putPlayer_units {u : Units} (h : c.Has u) (desc : Player) :
    (c.putPlayer order desc).Has ⟨fun id => u.players id ∨ id = desc.id, u.enemies⟩ := by
  refine ⟨fun id hid => ?_, h.enemies⟩
  have hmem : id ∈ OrderedMap.insertOrAssign order desc.id desc c.gameWorld.playersList := by
    rw [OrderedMap.mem_insertOrAssign]
    exact hid.symm.imp_right (h.players id)
  exact hmem

theorem gameNextPlayerTurn_same {id : UInt32} (h : c.gameNextPlayerTurn id = .ok c') : c' = c := by
  unfold gameNextPlayerTurn at h
  split at h
  · cases h
    rfl
  · obtain ⟨p, _, h⟩ := except_bind_eq_ok.mp h
    cases h
    rfl

theorem serverMessage_same {id : UInt32} (h : c.serverMessage id = .ok c') : c' = c := by
  unfold serverMessage at h
  split at h
  · cases h
    rfl
  · exact nomatch h

theorem gamePlayerActionValidated_units {u : Units} (h : c.Has u) {action : PlayerAction}
    (hok : c.gamePlayerActionValidated action = .ok c') : c'.Has u := by
  unfold gamePlayerActionValidated at hok
  split at hok
  · obtain ⟨w, hw, hok⟩ := except_bind_eq_ok.mp hok
    cases hok
    obtain ⟨hlength, hcounts⟩ := GameWorld.makeApprovedAction_counts hw
    refine ⟨fun a ha => ?_, hlength ▸ h.enemies⟩
    obtain ⟨p, hp⟩ := OrderedMap.mem_iff_lookup.mp (h.players a ha)
    obtain ⟨p', hp', _⟩ := hcounts a p hp
    exact OrderedMap.mem_iff_lookup.mpr ⟨p', hp'⟩
  · cases hok
    exact h

/-- What a message does to a client that processes it. -/
inductive Updated (order : Arrangement (OrderedMap.Entry UInt32 Player)) (msg : Message)
    (c : Client) : Client → Prop
  | registered {p : Player} {rest : Message}
      (hid : ECustomMetaMSG.ofCode msg.header.id = some .clientRegisterFromServer)
      (hpop : msg.pop Layout.player = .ok (p, rest)) :
      Updated order msg c { c.putPlayer order p with playerID := p.id }
  | mapped {m : Map} (hid : ECustomMetaMSG.ofCode msg.header.id = some .clientUpdateMap) :
      Updated order msg c { c with gameWorld := { c.gameWorld with gameWorldMap := m } }
  | enemyAdded {e : Enemy} (hid : ECustomMetaMSG.ofCode msg.header.id = some .clientInitEnemy) :
      Updated order msg c
        { c with gameWorld := { c.gameWorld with enemyList := c.gameWorld.enemyList ++ [e] } }
  | put {p : Player} {rest : Message}
      (hid : ECustomMetaMSG.ofCode msg.header.id = some .clientAddPlayer ∨
        ECustomMetaMSG.ofCode msg.header.id = some .gameUpdatePlayer)
      (hpop : msg.pop Layout.player = .ok (p, rest)) : Updated order msg c (c.putPlayer order p)
  | removed {id : UInt32} {rest : Message}
      (hid : ECustomMetaMSG.ofCode msg.header.id = some .gameRemovePlayer)
      (hpop : msg.pop Codec.u32 = .ok (id, rest)) :
      Updated order msg c { c with gameWorld := { c.gameWorld with
        playersList := c.gameWorld.playersList.erase id } }
  | turn {c' : Client} (hid : ECustomMetaMSG.ofCode msg.header.id = some .gamePlayerTurn)
      (hturn : c.gamePlayerTurn order = .ok c') : Updated order msg c c'
  | acted {c' : Client} {action : PlayerAction} {rest : Message}
      (hid : ECustomMetaMSG.ofCode msg.header.id = some .gamePlayerActionValidated)
      (hpop : msg.pop Layout.playerAction = .ok (action, rest))
      (hact : c.gamePlayerActionValidated action = .ok c') : Updated order msg c c'
  | enemyActed {action : EnemyAction} {w : GameWorld}
      (hid : ECustomMetaMSG.ofCode msg.header.id = some .gameAITurnAction)
      (hw : c.gameWorld.makeEnemyAction action.enemyID.toNat action = .ok w) :
      Updated order msg c { c with gameWorld := w }
  | untouched (hid : ∀ kind ∈ [ECustomMetaMSG.clientRegisterFromServer, .clientAddPlayer,
      .gameUpdatePlayer, .gamePlayerActionValidated],
        ECustomMetaMSG.ofCode msg.header.id ≠ some kind) : Updated order msg c c

theorem updatePlayer_updated (h : c.updatePlayer order msg = .ok c') :
    Updated order msg c c' := by
  unfold updatePlayer at h
  split at h
  · obtain ⟨⟨p, rest⟩, hpop, h⟩ := except_bind_eq_ok.mp h
    cases h
    exact .registered ‹_› hpop
  · obtain ⟨⟨m, rest⟩, -, h⟩ := except_bind_eq_ok.mp h
    cases h
    exact .mapped ‹_›
  · obtain ⟨⟨e, rest⟩, -, h⟩ := except_bind_eq_ok.mp h
    cases h
    exact .enemyAdded ‹_›
  · obtain ⟨⟨p, rest⟩, hpop, h⟩ := except_bind_eq_ok.mp h
    cases h
    exact .put (.inl ‹_›) hpop
  · obtain ⟨⟨p, rest⟩, hpop, h⟩ := except_bind_eq_ok.mp h
    cases h
    exact .put (.inr ‹_›) hpop
  · obtain ⟨⟨id, rest⟩, hpop, h⟩ := except_bind_eq_ok.mp h
    cases h
    exact .removed ‹_› hpop
  · exact .turn ‹_› h
  · rename_i hid
    obtain ⟨⟨id, rest⟩, -, h⟩ := except_bind_eq_ok.mp h
    rw [gameNextPlayerTurn_same h]
    exact .untouched (by simp [hid])
  · obtain ⟨⟨action, rest⟩, hpop, h⟩ := except_bind_eq_ok.mp h
    exact .acted ‹_› hpop h
  · rename_i hid
    obtain ⟨_, -, h⟩ := except_bind_eq_ok.mp h
    cases h
    exact .untouched (by simp [hid])
  · rename_i hid
    obtain ⟨⟨id, rest⟩, -, h⟩ := except_bind_eq_ok.mp h
    rw [serverMessage_same h]
    exact .untouched (by simp [hid])
  · obtain ⟨⟨action, rest⟩, -, h⟩ := except_bind_eq_ok.mp h
    obtain ⟨w, hw, h⟩ := except_bind_eq_ok.mp h
    cases h
    exact .enemyActed ‹_› hw
  · rename_i hregister _ _ hadd hupdate _ _ _ hvalid _ _ _
    cases h
    refine .untouched fun kind hkind => ?_
    simp only [List.mem_cons, List.not_mem_nil, or_false] at hkind
    rcases hkind with rfl | rfl | rfl | rfl
    · exact hregister
    · exact hadd
    · exact hupdate
    · exact hvalid

theorem updatePlayer_units {u : Units} (h : c.Has u) (hmsg : RemovesNone u.players msg)
    (hok : c.updatePlayer order msg = .ok c') : c'.Has u := by
  have hput (desc : Player) : (c.putPlayer order desc).Has u :=
    (putPlayer_units h desc).mono (fun _ => Or.inl) le_rfl
  cases updatePlayer_updated hok with
  | @registered p => exact ⟨(hput p).players, (hput p).enemies⟩
  | mapped => exact ⟨h.players, h.enemies⟩
  | enemyAdded =>
    refine ⟨h.players, h.enemies.trans ?_⟩
    simp
  | put => exact hput _
  | removed hid hpop =>
    refine ⟨fun a ha => AList.mem_erase.mpr ⟨?_, h.players a ha⟩, h.enemies⟩
    rintro rfl
    exact hmsg hid _ _ hpop ha
  | turn _ hturn =>
    obtain ⟨p, -, hturn⟩ := except_bind_eq_ok.mp hturn
    cases hturn
    refine ⟨fun a ha => ?_, h.enemies⟩
    exact OrderedMap.mem_insertOrAssign.mpr (Or.inr (h.players a ha))
  | acted _ _ hact => exact gamePlayerActionValidated_units h hact
  | enemyActed _ hw =>
    obtain ⟨hturns, hlength⟩ := GameWorld.makeEnemyAction_fought hw
    exact ⟨fun a ha => hturns.mem (h.players a ha), hlength ▸ h.enemies⟩
  | untouched => exact h

end Client

end AsciiTerra
