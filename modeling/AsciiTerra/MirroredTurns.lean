import AsciiTerra.DisconnectEnds
import AsciiTerra.SparedMessages

/-!
# Turns on the server and its clients

While the clients have the world of the server, a turn of the enemies keeps it so if none of them
is dead as its turn comes, and so does a turn that is given to a player whose counter is full.
-/

set_option autoImplicit false

namespace AsciiTerra

open Outcome (Below Post)

namespace Server
variable {s t : Server} {m : Option Fault}
variable {order : Arrangement (OrderedMap.Entry UInt32 Player)} {map : Map}

section Spared
variable {n : Nat}

/-- A turn is given to a player whose counter is full, or to the only one. -/
def TurnFits (w : GameWorld) (id : UInt32) : Prop :=
  ∀ p, w.playersList.lookup id = some p →
    p.currentTurns = p.maxTurns ∨ ∀ e ∈ w.playersList, e = id

/-- Between two messages the clients follow the server. -/
structure Mirrored (order : Arrangement (OrderedMap.Entry UInt32 Player)) (map : Map)
    (s : Server) : Prop where
  wellFormed : s.WellFormed
  garbage : s.garbageIDs = []
  shown : Shown order map (fun e c => c.Follows s.gameWorld e) s

theorem Mirrored.kept (h : Mirrored order map s) (hk : Kept s t)
    (hshown : Shown order map (fun e c => c.Follows s.gameWorld e) t) : Mirrored order map t where
  wellFormed := hk.wellFormed
  garbage := hk.garbageIDs.trans h.garbage
  shown := hshown.mono fun _ _ hc => hk.gameWorld ▸ hc

theorem messageClient_mirrored (h : Mirrored order map s) {c : UInt32} (hc : s.Accepted c)
    {msg : Message} (kind : ECustomMetaMSG) (hid : ECustomMetaMSG.ofCode msg.header.id = some kind)
    (hkind : kind ∈ Client.quietKinds) :
    Post (fun t => Kept s t ∧ Mirrored order map t)
      (messageClient (spared m n) (some c) msg s) := by
  refine (messageClient_shown h.wellFormed hc h.shown ?_ fun _ _ _ hcl => hcl).mono
    fun t ⟨hk, hshown⟩ => ⟨hk, h.kept hk hshown⟩
  intro cl cl' hcl hok
  rw [Client.updatePlayer_quiet hid hkind hok]
  exact hcl

theorem messageAllClients_mirrored (h : Mirrored order map s) {msg : Message}
    {ignore : Option UInt32} (kind : ECustomMetaMSG)
    (hid : ECustomMetaMSG.ofCode msg.header.id = some kind) (hkind : kind ∈ Client.quietKinds) :
    Post (fun t => Kept s t ∧ Mirrored order map t)
      (messageAllClients (spared m n) msg ignore s) := by
  refine (messageAllClients_shown h.wellFormed h.shown ?_ fun _ _ _ hcl => hcl).mono
    fun t ⟨hk, hshown⟩ => ⟨hk, h.kept hk hshown⟩
  intro e cl cl' _ hcl hok
  rw [Client.updatePlayer_quiet hid hkind hok]
  exact hcl

theorem shown_send {c : UInt32} {msg : Message} {w : GameWorld}
    (h : Shown order map (fun e c => c.Follows w e) s) (kind : ECustomMetaMSG)
    (hid : ECustomMetaMSG.ofCode msg.header.id = some kind) (hkind : kind ∈ Client.quietKinds) :
    Shown order map (fun e c => c.Follows w e) (s.send c msg) := by
  intro e
  by_cases he : e = c
  · subst he
    rw [stream_send_self]
    refine (h e).concat fun cl cl' hcl hok => ?_
    rw [Client.updatePlayer_quiet hid hkind hok]
    exact hcl
  · rw [stream_send_ne he]
    exact h e

theorem startTurn_mirrored (h : Mirrored order map s)
    (hcur : s.currentPlayerID ∈ s.gameWorld.playersList)
    (hfits : TurnFits s.gameWorld s.currentPlayerID) :
    Post (Mirrored order map) (s.startTurn (spared m n)) := by
  intro t ht
  have hwft := (startTurn_spec (spared_spec m n) h.wellFormed hcur t ht).1.wellFormed
  obtain ⟨u, hu, ht⟩ := Outcome.bind_eq_ok.mp ht
  obtain ⟨p, hp⟩ := OrderedMap.mem_iff_lookup.mp hcur
  let w := s.gameWorld.modifyPlayer s.currentPlayerID fun _ => { p with currentTurns := p.maxTurns }
  have hsent : Post (fun v => Kept s v ∧ Shown order map (fun e c => c.Follows w e) v)
      (s.sendTurn (spared m n)) := by
    unfold sendTurn
    split
    · exact Post.of_fault
    · rename_i hfind
      exact absurd (mem_ids.mp (h.wellFormed.present _ hcur)) (not_mem_of_findConnection hfind)
    · rename_i c hfind
      obtain rfl := findConnection_eq_some hfind
      refine messageClient_shown h.wellFormed (h.wellFormed.accepted_of_mem hcur) h.shown ?_ ?_
      · intro cl cl' hcl hok
        rw [Client.updatePlayer_turn] at hok
        exact hcl.turn hp hok
      · intro e cl hne hcl
        exact hcl.otherTurn (fun he => hne ⟨he, hcur⟩) hp (hfits p hp)
  obtain ⟨hk, hshown⟩ := hsent u hu
  obtain ⟨q, hq, rfl⟩ := resetTurn_eq_ok.mp ht
  rw [hk.gameWorld, hk.currentPlayerID, hp] at hq
  cases hq
  refine ⟨hwft, hk.garbageIDs.trans h.garbage, (hshown.congr rfl).mono fun e c hc => ?_⟩
  rw [hk.gameWorld, hk.currentPlayerID]
  exact hc

theorem makeAITurn_mirrored (h : Mirrored order map s)
    (hlength : s.gameWorld.enemyList.length < 2 ^ 32)
    (hnone : NoneDeadInTurn s.gameWorld s.gameWorld.enemyList.length) :
    Post (fun t => Mirrored order map t ∧
        OrderedMap.Related Player.Hurt s.gameWorld.playersList t.gameWorld.playersList)
      (s.makeAITurn (spared m n)) := by
  intro t ht
  have hwf := h.wellFormed
  have hwft := (makeAITurn_spec (spared_spec m n) hwf t ht).1.wellFormed
  have harmed : s.gameWorld.AllArmed := fun e he => (hwf.fromTable e he).armed
  obtain ⟨st, hst, ht⟩ := Outcome.bind_eq_ok.mp ht
  obtain ⟨u, hu, ht⟩ := Outcome.bind_eq_ok.mp ht
  cases ht
  obtain ⟨k, hacts⟩ := (aiTurn_eq_ok_iff harmed).mp hst
  have hrelated := aiTurn_aiRelated harmed hst
  have hplayers := hrelated.players hwf.keysAreIDs
  have hturned := Continues.aiRelated hwf hrelated
  have hloop : Post (fun v => Kept { s with gameWorld := st.world } v ∧
      Shown order map (fun e c => c.Replays s.gameWorld st.enemyActions e) v)
      (st.enemyActions.foldlM
        (fun v action => messageAllClients (spared m n) (gameAITurnAction action) none v)
        { s with gameWorld := st.world }) := by
    refine Post.foldlM_prefix (I := fun done v => Kept { s with gameWorld := st.world } v ∧
      Shown order map (fun e c => c.Replays s.gameWorld done e) v) ⟨?_, ?_⟩ ?_
    · exact ⟨rfl, rfl, rfl, hturned.wellFormed⟩
    · refine (h.shown.congr rfl).mono fun e c hc => ⟨fun he => ?_, hc.waiting⟩
      obtain ⟨hid, hagrees⟩ := hc.registered he
      exact ⟨hid, c.gameWorld, hagrees, rfl⟩
    · intro before action after v _ ⟨hk, hshown⟩
      refine (messageAllClients_shown hk.wellFormed hshown ?_ ?_).mono fun v' ⟨hk', hshown'⟩ =>
        ⟨⟨hk'.gameWorld.trans hk.gameWorld, hk'.currentPlayerID.trans hk.currentPlayerID,
          hk'.garbageIDs.trans hk.garbageIDs, hk'.wellFormed⟩, hshown'⟩
      · intro e cl cl' _ hcl hok
        rw [Client.updatePlayer_enemyAction] at hok
        exact hcl.next hok
      · intro e cl hout hcl
        have hleft : e ∉ s.gameWorld.playersList := by
          rcases hout with hout | hout
          · rw [hk.gameWorld] at hout
            exact fun he => hout (hplayers.mem_iff.mpr he)
          · cases hout
        exact ⟨fun he => absurd he hleft, hcl.waiting⟩
  obtain ⟨hk, hshown⟩ := hloop u hu
  have hworld : u.gameWorld = st.world := hk.gameWorld
  have hmem : ∀ e, e ∈ (removeDeadEnemies st.enemyListDirt st.world).playersList ↔
      e ∈ s.gameWorld.playersList := by
    intro e
    rw [removeDeadEnemies_playersList]
    exact hplayers.mem_iff
  refine ⟨⟨hwft, hk.garbageIDs.trans h.garbage, (hshown.congr rfl).mono fun e c hc => ?_⟩, ?_⟩
  · rw [hworld]
    constructor
    · intro he
      obtain ⟨hid, wc, hagrees, hreplay⟩ := hc.registered ((hmem e).mp he)
      obtain ⟨wc', hwc', hagrees'⟩ :=
        replay_of_noneDead harmed hwf.keysAreIDs hlength hagrees hacts hnone
      cases hreplay.symm.trans hwc'
      exact ⟨hid, hagrees'⟩
    · intro he
      exact (hc.waiting fun hin => he ((hmem e).mpr hin)).mono fun id hid => (hmem id).mpr hid
  · rw [hworld, removeDeadEnemies_playersList]
    exact hplayers

/-- The player that gets the turn after `c`; the enemies do not change who it is. -/
def nextPlayer (c : UInt32) (w : GameWorld) : Option Player :=
  match OrderedMap.after c w.playersList with
  | next :: _ => some next.2
  | [] => w.playersList.entries.head?.map fun first => first.2

/-- The turn of `c` ends with no enemy dead as its turn comes, and goes to a player whose counter
is full. -/
structure PassesFairly (w : GameWorld) (c : UInt32) : Prop where
  enemies : OrderedMap.after c w.playersList = [] → NoneDeadInTurn w w.enemyList.length
  next : ∀ p, nextPlayer c w = some p →
    p.currentTurns = p.maxTurns ∨ ∀ e ∈ w.playersList, e = p.id

/-- What `ChooseNextPlayerForTurn` needs. -/
def Ready (order : Arrangement (OrderedMap.Entry UInt32 Player)) (map : Map) (s : Server) : Prop :=
  Mirrored order map s ∧ s.currentPlayerID ∈ s.gameWorld.playersList ∧
    TurnFits s.gameWorld s.currentPlayerID

theorem turnFits_of_entry (hk : KeysAreIDs s.gameWorld.playersList)
    {first : OrderedMap.Entry UInt32 Player} (hmem : first ∈ s.gameWorld.playersList.entries)
    (h : first.2.currentTurns = first.2.maxTurns ∨
      ∀ e ∈ s.gameWorld.playersList, e = first.2.id) : TurnFits s.gameWorld first.2.id := by
  intro p hp
  rw [hk first hmem, OrderedMap.lookup_of_mem_entries hmem] at hp
  cases hp
  exact h

theorem passTurn_mirrored (h : Mirrored order map s) {c : UInt32}
    (hlength : s.gameWorld.enemyList.length < 2 ^ 32) (hfair : PassesFairly s.gameWorld c) :
    Post (Ready order map) (s.passTurn (spared m n) (some c)) := by
  have hwf := h.wellFormed
  intro t ht
  obtain ⟨hcontinues, -, -, hcur⟩ := passTurn_spec (spared_spec m n) hwf (some c) t ht
  have hwft := hcontinues.wellFormed
  unfold passTurn at ht
  simp only at ht
  split at ht
  · split at ht
    · rename_i next rest hafter
      cases ht
      have hnext : next ∈ s.gameWorld.playersList.entries :=
        OrderedMap.mem_of_mem_after (k := c) (by simp [hafter])
      have hfull := hfair.next next.2 (by rw [nextPlayer, hafter])
      exact ⟨⟨hwft, h.garbage, h.shown.congr rfl⟩, hcur,
        turnFits_of_entry (s := s) hwf.keysAreIDs hnext hfull⟩
    · rename_i hafter
      obtain ⟨u, hu, ht⟩ := Outcome.bind_eq_ok.mp ht
      obtain ⟨hmirrored, hhurt⟩ := makeAITurn_mirrored h hlength (hfair.enemies hafter) u hu
      unfold giveToFirst at ht
      split at ht
      · cases ht
      · rename_i first rest hentries
        cases ht
        have hfirst : first ∈ u.gameWorld.playersList.entries := by simp [hentries]
        refine ⟨⟨hwft, hmirrored.garbage, hmirrored.shown.congr rfl⟩, hcur,
          turnFits_of_entry (s := u) hmirrored.wellFormed.keysAreIDs hfirst ?_⟩
        have hentry := hhurt
        unfold OrderedMap.Related at hentry
        rw [hentries] at hentry
        obtain ⟨old, olds, hold, -, holds⟩ := List.forall₂_cons_right_iff.mp hentry
        have hnext : nextPlayer c s.gameWorld = some old.2 := by
          rw [nextPlayer, hafter, holds]
          rfl
        rw [hold.2]
        exact (hfair.next old.2 hnext).imp_right fun hall e he => hall e (hhurt.mem_iff.mp he)
  · cases ht

theorem Mirrored.log (h : Mirrored order map s) (e : TurnEvent) : Mirrored order map (s.log e) :=
  ⟨h.wellFormed.congr rfl rfl rfl rfl (List.Subset.refl _), h.garbage, h.shown.congr rfl⟩

theorem chooseNextPlayerForTurn_mirrored (h : Mirrored order map s) {client : Option UInt32}
    (hpass : Post (Ready order map) ((s.log .choosing).passTurn (spared m n) client)) :
    Post (Mirrored order map) (s.chooseNextPlayerForTurn (spared m n) client) := by
  unfold chooseNextPlayerForTurn
  simp only
  split
  · exact Post.of_ok (h.log .choosing)
  · exact Post.bind hpass fun t ⟨ht, hcur, hfits⟩ => startTurn_mirrored ht hcur hfits

theorem endTurn_mirrored (h : Mirrored order map s) {c : UInt32} (hc : s.Accepted c)
    (hlength : s.gameWorld.enemyList.length < 2 ^ 32) (hfair : PassesFairly s.gameWorld c) :
    Post (Mirrored order map) (s.endTurn (spared m n) c) := by
  refine Post.bind (messageClient_mirrored h hc .gameEndPlayerTurn (by simp) (by decide))
    fun t ⟨hk, ht⟩ => ?_
  have hpass : Post (Ready order map) ((t.log .choosing).passTurn (spared m n) (some c)) := by
    refine passTurn_mirrored (ht.log .choosing) ?_ ?_
    · change t.gameWorld.enemyList.length < 2 ^ 32
      rw [hk.gameWorld]
      exact hlength
    · change PassesFairly t.gameWorld c
      rw [hk.gameWorld]
      exact hfair
  refine Post.bind (chooseNextPlayerForTurn_mirrored ht hpass) fun u hu => ?_
  exact (messageAllClients_mirrored hu .gameNextPlayerTurn (by simp) (by decide)).mono
    fun _ hv => hv.2

theorem applyAction_mirrored (h : Mirrored order map s) {c : UInt32}
    (hmem : c ∈ s.gameWorld.playersList)
    (hlength : s.gameWorld.enemyList.length < 2 ^ 32) {action : PlayerAction}
    (hid : action.playerID = c)
    (hfair : ∀ w p, s.gameWorld.makeApprovedAction c action = .ok w →
      w.playersList.lookup c = some p → p.getCurrentTurnActions ≤ 0 → PassesFairly w c) :
    Post (Mirrored order map) (s.applyAction (spared m n) c action) := by
  intro t ht
  obtain ⟨w, hw, ht⟩ := Outcome.bind_eq_ok.mp ht
  replace hw := Outcome.ofExcept_eq_ok.mp hw
  obtain ⟨u, hu, ht⟩ := Outcome.bind_eq_ok.mp ht
  have hwf := wellFormed_applied h.wellFormed hw
  have hkeys := h.wellFormed.keysAreIDs
  have hplayers := (GameWorld.makeApprovedAction_actedBy hkeys hw).players
  have hsame : ({ action with playerID := c } : PlayerAction) = action := by rw [← hid]
  rw [hsame] at hu
  have hall : Post (fun v => Kept ({ s with gameWorld := w }.log (.applied c)) v ∧
      Shown order map (fun e cl => cl.Follows w e) v)
      (messageAllClients (spared m n)
        ((Message.ofID .gamePlayerActionValidated).push Layout.playerAction action) none
        ({ s with gameWorld := w }.log (.applied c))) := by
    refine messageAllClients_shown hwf (h.shown.congr rfl) ?_ ?_
    · intro e cl cl' _ hcl hok
      rw [Client.updatePlayer_action] at hok
      exact hcl.act hkeys (hid ▸ hmem) (hid ▸ hw) hok
    · intro e cl hout hcl
      have hleft : e ∉ w.playersList := hout.resolve_right fun heq => (nomatch heq)
      refine ⟨fun he => absurd he hleft, fun _ => ?_⟩
      exact (hcl.waiting fun he => hleft (hplayers.mem_iff.mpr he)).mono
        fun id hid => hplayers.mem_iff.mpr hid
  obtain ⟨hk, hshown⟩ := hall u hu
  have hworld : u.gameWorld = w := hk.gameWorld
  have hmirrored : Mirrored order map u :=
    ⟨hk.wellFormed, hk.garbageIDs.trans h.garbage, hworld ▸ hshown⟩
  split at ht
  · cases ht
  · rename_i player hplayer
    split at ht
    · rename_i hlast
      refine endTurn_mirrored hmirrored ?_ ?_ ?_ t ht
      · exact hk.wellFormed.accepted_of_mem (OrderedMap.mem_iff_lookup.mpr ⟨player, hplayer⟩)
      · rw [hworld, GameWorld.makeApprovedAction_length hw]
        exact hlength
      · rw [hworld] at hplayer ⊢
        exact hfair w player hw hplayer hlast
    · cases ht
      exact hmirrored

end Spared

end Server

end AsciiTerra
