import AsciiTerra.TurnCounters
import AsciiTerra.KnownUnits

/-!
# A client's own turn counter

The client's own record is refilled by `GamePlayerTurn` and counted down by its own actions;
no other message that the server sends changes its counter.
-/

set_option autoImplicit false

namespace AsciiTerra

/-- The client knows its ID `e`, and its own record has `k` actions left. -/
structure Client.Owns (e : UInt32) (k : Nat) (cl : Client) : Prop where
  playerID : cl.playerID = e
  record : ∃ p, cl.gameWorld.playersList.lookup e = some p ∧ p.maxTurns = 4 ∧ p.currentTurns.val = k

/-- A message that leaves the own record of client `e` alone. -/
structure Message.Quiet (e : UInt32) (msg : Message) : Prop where
  record : ∀ p, msg.record = some p → p.currentTurns.val ≤ p.maxTurns.val ∧ p.id ≠ e
  registers : ¬ msg.Registers
  turn : ECustomMetaMSG.ofCode msg.header.id ≠ some .gamePlayerTurn
  removes : RemovesNone (· = e) msg
  action : msg.actor ≠ some e

namespace Client
variable {order : Arrangement (OrderedMap.Entry UInt32 Player)} {e : UInt32} {k : Nat}
variable {cl cl' : Client} {msg : Message}

theorem Owns.players (h : cl.Owns e k) (hid : cl'.playerID = cl.playerID)
    (hlookup : cl'.gameWorld.playersList.lookup e = cl.gameWorld.playersList.lookup e) :
    cl'.Owns e k := by
  obtain ⟨p, hp, hturns⟩ := h.record
  exact ⟨hid.trans h.playerID, p, hlookup.trans hp, hturns⟩

theorem Owns.sameTurns (h : cl.Owns e k) (hid : cl'.playerID = cl.playerID)
    (hturns : SameTurns cl.gameWorld.playersList cl'.gameWorld.playersList) : cl'.Owns e k := by
  obtain ⟨p, hp, hmax, hcurrent⟩ := h.record
  obtain ⟨p', hp', hmax', hcurrent'⟩ := hturns e p hp
  exact ⟨hid.trans h.playerID, p', hp', hmax'.trans hmax, hcurrent' ▸ hcurrent⟩

theorem Owns.put (h : cl.Owns e k) {desc : Player} (hdesc : desc.id ≠ e) :
    (cl.putPlayer order desc).Owns e k :=
  h.players rfl (OrderedMap.lookup_insertOrAssign_ne order hdesc.symm _ _)

theorem Owns.other (h : cl.Owns e k) {action : PlayerAction} (hother : action.playerID ≠ e)
    (hok : cl.gamePlayerActionValidated action = .ok cl') : cl'.Owns e k := by
  unfold gamePlayerActionValidated at hok
  split at hok
  · obtain ⟨w, hw, hok⟩ := except_bind_eq_ok.mp hok
    cases hok
    obtain ⟨p, hp, hmax, hcurrent⟩ := h.record
    obtain ⟨p', hp', hmax', hcurrent'⟩ := (GameWorld.makeApprovedAction_counts hw).2 e p hp
    rw [if_neg hother.symm] at hcurrent'
    exact ⟨h.playerID, p', hp', hmax'.trans hmax, hcurrent' ▸ hcurrent⟩
  · cases hok
    exact h

theorem Owns.quiet (h : cl.Owns e k) (hmsg : msg.Quiet e)
    (hok : cl.updatePlayer order msg = .ok cl') : cl'.Owns e k := by
  cases updatePlayer_updated hok with
  | registered hid => exact absurd hid hmsg.registers
  | mapped => exact h.players rfl rfl
  | enemyAdded => exact h.players rfl rfl
  | @put p rest hid hpop =>
    have hput : msg.record = some p := by
      rcases hid with hid | hid
      · simp [Message.record, hid, hpop]
      · simp [Message.record, hid, hpop]
    exact h.put (hmsg.record p hput).2
  | removed hid hpop =>
    have hne : e ≠ _ := fun heq => hmsg.removes hid _ _ hpop heq.symm
    exact h.players rfl (AList.lookup_erase_ne hne)
  | turn hid => exact absurd hid hmsg.turn
  | acted hid hpop hact =>
    refine h.other (fun heq => hmsg.action ?_) hact
    simp [Message.actor, hid, hpop, heq]
  | enemyActed _ hw => exact h.sameTurns rfl (GameWorld.makeEnemyAction_fought hw).1
  | untouched => exact h

theorem Owns.refill (h : cl.Owns e k)
    (hok : cl.updatePlayer order (.ofID .gamePlayerTurn) = .ok cl') : cl'.Owns e 4 := by
  have hturn : cl.gamePlayerTurn order = .ok cl' := hok
  obtain ⟨p, hp, hmax, _⟩ := h.record
  obtain ⟨q, hq, hok⟩ := except_bind_eq_ok.mp hturn
  rw [h.playerID, hp, Option.getD_some, Server.setCurrentTurnActions_max] at hq
  cases hq
  cases hok
  refine ⟨h.playerID, { p with currentTurns := p.maxTurns }, ?_, hmax, ?_⟩
  · rw [h.playerID]
    exact OrderedMap.lookup_insertOrAssign_self ..
  · exact congrArg Fin.val hmax

theorem Owns.count (h : cl.Owns e (k + 1)) {action : PlayerAction} (hown : action.playerID = e)
    (hok : cl.updatePlayer order ((Message.ofID .gamePlayerActionValidated).push
      Layout.playerAction action) = .ok cl') : cl'.Owns e k := by
  obtain ⟨p, hp, hmax, hcurrent⟩ := h.record
  have hid : ECustomMetaMSG.ofCode ((Message.ofID .gamePlayerActionValidated).push
      Layout.playerAction action).header.id = some .gamePlayerActionValidated := by simp
  unfold updatePlayer at hok
  rw [hid] at hok
  simp only [Message.pop_push, except_ok_bind] at hok
  unfold gamePlayerActionValidated at hok
  rw [if_pos (hown ▸ OrderedMap.mem_iff_lookup.mpr ⟨p, hp⟩)] at hok
  obtain ⟨w, hw, hok⟩ := except_bind_eq_ok.mp hok
  cases hok
  obtain ⟨p', hp', hmax', hcurrent'⟩ := (GameWorld.makeApprovedAction_counts hw).2 e p hp
  rw [if_pos hown.symm] at hcurrent'
  exact ⟨h.playerID, p', hp', hmax'.trans hmax, by omega⟩

theorem owns_registered {p : Player} (hid : p.id = e) (hmax : p.maxTurns = 4)
    (hok : cl.updatePlayer order ((Message.ofID .clientRegisterFromServer).push
      Layout.player p) = .ok cl') : cl'.Owns e p.currentTurns.val := by
  have hkind : ECustomMetaMSG.ofCode ((Message.ofID .clientRegisterFromServer).push
      Layout.player p).header.id = some .clientRegisterFromServer := by simp
  unfold updatePlayer at hok
  rw [hkind] at hok
  simp only [Message.pop_push, except_ok_bind] at hok
  cases hok
  subst hid
  exact ⟨rfl, p, OrderedMap.lookup_insertOrAssign_self .., hmax, rfl⟩

end Client

theorem quiet_of_kind {msg : Message} (kind : ECustomMetaMSG)
    (hid : ECustomMetaMSG.ofCode msg.header.id = some kind) (hkind : kind ∉
      [.clientRegisterFromServer, .clientAddPlayer, .gameUpdatePlayer, .gameRemovePlayer,
        .gamePlayerTurn, .gamePlayerActionValidated]) (e : UInt32) : msg.Quiet e := by
  simp only [List.mem_cons, List.not_mem_nil, or_false, not_or] at hkind
  obtain ⟨hregister, hadd, hupdate, hremove, hturn, hvalid⟩ := hkind
  have hrecord : msg.record = none := by
    unfold Message.record
    rw [hid]
    split
    · exact absurd (Option.some.inj ‹_›) hregister
    · exact absurd (Option.some.inj ‹_›) hadd
    · exact absurd (Option.some.inj ‹_›) hupdate
    · rfl
  have hactor : msg.actor = none := by
    unfold Message.actor
    rw [hid]
    split
    · exact absurd (Option.some.inj ‹_›) hvalid
    · rfl
  refine ⟨fun p hp => (nomatch hrecord.symm.trans hp), ?_, ?_, ?_, ?_⟩
  · exact fun hr => hregister (Option.some.inj (hid.symm.trans hr))
  · exact fun ht => hturn (Option.some.inj (hid.symm.trans ht))
  · exact fun hr => absurd (Option.some.inj (hid.symm.trans hr)) hremove
  · rw [hactor]
    exact nofun

theorem quiet_addPlayer {e : UInt32} {p : Player} (hturns : p.currentTurns.val ≤ p.maxTurns.val)
    (hne : p.id ≠ e) : ((Message.ofID .clientAddPlayer).push Layout.player p).Quiet e := by
  have hrecord : ((Message.ofID .clientAddPlayer).push Layout.player p).record = some p := by
    simp [Message.record, Message.pop_push]
  refine ⟨fun q hq => ?_, ?_, ?_, ?_, ?_⟩
  · cases hrecord.symm.trans hq
    exact ⟨hturns, hne⟩
  · simp [Message.Registers]
  · simp
  · exact fun hr => absurd hr (by simp)
  · simp [Message.actor]

theorem quiet_removal {e id : UInt32} (hne : id ≠ e) :
    ((Message.ofID .gameRemovePlayer).push Codec.u32 id).Quiet e := by
  refine ⟨fun q hq => ?_, ?_, ?_, fun _ a rest hpop heq => ?_, ?_⟩
  · simp [Message.record] at hq
  · simp [Message.Registers]
  · simp
  · rw [Message.pop_push] at hpop
    cases hpop
    exact hne heq
  · simp [Message.actor]

theorem actor_validated (action : PlayerAction) :
    ((Message.ofID .gamePlayerActionValidated).push Layout.playerAction action).actor =
      some action.playerID := by
  simp [Message.actor, Message.pop_push]

theorem quiet_validated {e : UInt32} {action : PlayerAction} (hne : action.playerID ≠ e) :
    ((Message.ofID .gamePlayerActionValidated).push Layout.playerAction action).Quiet e := by
  refine ⟨fun q hq => ?_, ?_, ?_, ?_, ?_⟩
  · simp [Message.record] at hq
  · simp [Message.Registers]
  · simp
  · exact fun hr => absurd hr (by simp)
  · rw [actor_validated]
    exact fun heq => hne (Option.some.inj heq)

end AsciiTerra
