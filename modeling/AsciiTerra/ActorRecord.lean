import AsciiTerra.HolderBroadcast

/-!
# The record of the acting player

After an applied action `OnMessage` goes on with the iterator of the sender, across a broadcast
and a message to the sender. Either call may find the sender's connection closed, and then
`OnClientDisconnect` erases the record.
-/

set_option autoImplicit false

namespace AsciiTerra

namespace Server
variable {s t u : Server} {c : UInt32}

open Outcome (Post)

/-- The holder of the turn is closed when it is its turn in a broadcast: its player is gone
when the broadcast returns. -/
theorem broadcast_removes (h : s.WellFormed) (hnull : none ∉ s.deqConnection) {n : Nat}
    {msg : Message} {ignore : Option UInt32} (hfail : s.currentPlayerID ∈ failing s.ids s)
    (hmem : s.currentPlayerID ∈ s.gameWorld.playersList)
    (hok : messageAllClients (onClientDisconnect (n + 1)) msg ignore s = .ok t) :
    s.currentPlayerID ∉ t.gameWorld.playersList := by
  have hh := onClientDisconnect_spec (n + 1)
  obtain ⟨pre, post, hids⟩ := List.append_of_mem ((failing_sublist _ s).subset hfail)
  have hnodup : (pre ++ s.currentPlayerID :: post).Nodup := hids ▸ h.distinct
  obtain ⟨_, hpost, hdisjoint⟩ := List.nodup_append.mp hnodup
  have hpre : s.currentPlayerID ∉ pre := fun hin => hdisjoint _ hin _ List.mem_cons_self rfl
  have hclosed : s.currentPlayerID ∈ (tick^[pre.length] s).tick.closed := by
    rw [hids, failing_append] at hfail
    have hlater := (List.mem_append.mp hfail).resolve_left fun hin =>
      hpre ((failing_sublist pre s).subset hin)
    by_contra hopen
    rw [failing, if_neg hopen] at hlater
    exact (List.nodup_cons.mp hpost).1 ((failing_sublist post _).subset hlater)
  obtain ⟨u, hu, hsplit⟩ := messageAllClients_split hnull hids hpre rfl msg ignore
  rw [hsplit n] at hok
  obtain ⟨st, hst, hok⟩ := Outcome.bind_eq_ok.mp hok
  obtain ⟨st₁, hst₁, hst⟩ := Outcome.bind_eq_ok.mp hst
  -- the entry of the holder
  have hlooped := hu.looped h
  have hlooped₁ : Looped s st₁ := messageEntry_spec hh hlooped st₁ hst₁
  have hclosedu : s.currentPlayerID ∈ u.tick.closed := hu.sockets.tick.closed ▸ hclosed
  rw [messageEntry_closed hu.entry hclosedu] at hst₁
  obtain ⟨v, hv, hst₁⟩ := Outcome.bind_eq_ok.mp hst₁
  have hdisconnected := hh.disconnected _ u.tick (Continues.tick hlooped.wellFormed).wellFormed
    (hlooped.toContinues.accepted (h.accepted_of_mem hmem)) hclosedu v hv
  have hgone : s.currentPlayerID ∉ st₁.1.gameWorld.playersList := by
    split at hst₁
    · cases hst₁
      exact hdisconnected.left
    · cases hst₁
  -- the entries after it
  have hrest : Looped st₁.1 st :=
    Post.foldlM (I := Looped st₁.1) ⟨.refl hlooped₁.wellFormed, .refl _, fun _ => rfl, .refl _⟩
      (fun st i _ => messageEntry_spec hh) st hst
  cases hok
  intro hin
  apply hgone
  apply hrest.players
  split at hin
  · exact hin
  · exact hin

/-- `GamePlayerActionValidated`. -/
def actionValidated (c : UInt32) (action : PlayerAction) : Message :=
  (Message.ofID .gamePlayerActionValidated).push Layout.playerAction { action with playerID := c }

def applied (c : UInt32) (w : GameWorld) (s : Server) : Server :=
  { s with gameWorld := w }.log (.applied c)

/-- The two uses of the iterator: the record of the sender is there when its turn counter is
read after the broadcast and, with the turn over, when `ChooseNextPlayerForTurn` looks for the
next player, unless no players are left. -/
def UsesOwnRecord (hook : Option UInt32 → Server → Outcome Fault Server) (c : UInt32)
    (action : PlayerAction) (w : GameWorld) (s : Server) : Prop :=
  ∀ t, messageAllClients hook (actionValidated c action) none (s.applied c w) = .ok t →
    ∃ player, t.gameWorld.playersList.lookup c = some player ∧
      (player.getCurrentTurnActions ≤ 0 → ∀ u,
        messageClient hook (some c) (.ofID .gameEndPlayerTurn) t = .ok u →
        u.gameWorld.playersList.entries = [] ∨ c ∈ u.gameWorld.playersList)

/-- The two moments at which the connection of the sender is checked: it is open, or the call
that finds it closed does not return. -/
def StaysOpen (hook : Option UInt32 → Server → Outcome Fault Server) (c : UInt32)
    (action : PlayerAction) (w : GameWorld) (s : Server) : Prop :=
  ∀ t, messageAllClients hook (actionValidated c action) none (s.applied c w) = .ok t →
    c ∉ failing s.ids s ∧ ∀ player, w.playersList.lookup c = some player →
      player.getCurrentTurnActions ≤ 0 → ∀ u,
        messageClient hook (some c) (.ofID .gameEndPlayerTurn) t = .ok u →
        c ∉ (tick^[s.ids.length + 1] s).closed

theorem broadcast_holder (hnull : none ∉ s.deqConnection) {n : Nat} {msg : Message}
    {ignore : Option UInt32} {player : Player} (hcur : s.currentPlayerID = c)
    (hplayer : s.gameWorld.playersList.lookup c = some player) (hopen : c ∉ failing s.ids s)
    (hok : messageAllClients (onClientDisconnect (n + 1)) msg ignore s = .ok t) :
    t.currentPlayerID = c ∧ t.gameWorld.playersList.lookup c = some player ∧
      SameSockets t (tick^[s.ids.length] s) := by
  obtain ⟨t', ht', _, ⟨hcur', hworld⟩, hswept⟩ :=
    messageAllClients_swept _ _ (holder_tame hopen s.gameWorld) ⟨hcur, rfl⟩ (listed_ids hnull)
  cases (ht' n).symm.trans hok
  refine ⟨hcur', ?_, hswept.sockets⟩
  rw [hworld, GameWorld.lookup_without hopen, hplayer]

/-- `MessageClient` to the holder of the turn keeps its record exactly when it is open. -/
theorem messageClient_keeps_iff (h : s.WellFormed) {n : Nat} {msg : Message}
    (hcur : s.currentPlayerID = c) (hmem : c ∈ s.gameWorld.playersList)
    (hok : messageClient (onClientDisconnect n) (some c) msg s = .ok t) :
    (t.gameWorld.playersList.entries = [] ∨ c ∈ t.gameWorld.playersList) ↔ c ∉ s.tick.closed := by
  rcases messageClient_cases (onClientDisconnect_spec n) h (h.accepted_of_mem hmem) hok with
    ⟨hopen, rfl⟩ | ⟨hclosed, u, _, hu, rfl⟩
  · exact iff_of_true (Or.inr hmem) hopen
  · refine iff_of_false ?_ fun hopen => hopen hclosed
    rintro (hnil | hin)
    · have hnext := (hu.passed hcur.symm).1.mem
      obtain ⟨v, hv⟩ := OrderedMap.mem_iff_lookup.mp hnext
      have hentry := OrderedMap.mem_entries_of_lookup hv
      have hnil' : u.gameWorld.playersList.entries = [] := hnil
      rw [hnil'] at hentry
      exact List.not_mem_nil hentry
    · exact hu.left hin

/-- `OnMessage` goes on with a record that is still there exactly when the sender stays
connected. -/
theorem usesOwnRecord_iff (hs : s.Reachable) {m n : Nat} {action : PlayerAction} {w : GameWorld}
    (hflush : s.flushGarbage (onClientDisconnect m) = .ok u) (happroved : u.approves c action = .ok true)
    (hw : u.gameWorld.makeApprovedAction c action = .ok w) :
    UsesOwnRecord (onClientDisconnect (n + 1)) c action w u ↔
      StaysOpen (onClientDisconnect (n + 1)) c action w u := by
  have hidle : u.Idle :=
    (flushGarbage_spec (onClientDisconnect_spec m) hs.idle.wellFormed u hflush).handled.idle hs.idle
  obtain ⟨hcur, hmem⟩ := approves_mem happroved
  have hwf : (u.applied c w).WellFormed := wellFormed_applied hidle.wellFormed hw
  have hmemw : c ∈ w.playersList :=
    (GameWorld.makeApprovedAction_actedBy hidle.wellFormed.keysAreIDs hw).players.mem_iff.mpr hmem
  obtain ⟨player, hplayer⟩ := OrderedMap.mem_iff_lookup.mp hmemw
  have hsockets : SameSockets (u.applied c w) u := ⟨rfl, rfl, rfl⟩
  have hfailing : failing (u.applied c w).ids (u.applied c w) = failing u.ids u := failing_congr hsockets
  refine forall_congr' fun t => forall_congr' fun ht => ?_
  by_cases hfail : c ∈ failing u.ids u
  · refine iff_of_false ?_ fun hstays => hstays.1 hfail
    rintro ⟨player', hplayer', _⟩
    have hgone := broadcast_removes (s := u.applied c w) hwf hidle.noNull
      (by rw [hfailing]; exact hcur ▸ hfail) (hcur ▸ hmemw) ht
    exact hgone (hcur ▸ OrderedMap.mem_iff_lookup.mpr ⟨player', hplayer'⟩)
  · obtain ⟨hcurt, hkept, hlater⟩ := broadcast_holder (s := u.applied c w) hidle.noNull hcur.symm hplayer
      (by rwa [hfailing]) ht
    have hwft : t.WellFormed :=
      (messageAllClients_spec (onClientDisconnect_spec (n + 1)) hwf t ht).wellFormed
    have hclosed : t.tick.closed = (tick^[u.ids.length + 1] u).closed := by
      rw [Function.iterate_succ_apply', (hlater.trans (hsockets.iterate _)).tick.closed]
      rfl
    have hiff : ∀ v, messageClient (onClientDisconnect (n + 1)) (some c) (.ofID .gameEndPlayerTurn) t =
        .ok v → ((v.gameWorld.playersList.entries = [] ∨ c ∈ v.gameWorld.playersList) ↔
          c ∉ (tick^[u.ids.length + 1] u).closed) := fun v hv => by
      rw [← hclosed]
      exact messageClient_keeps_iff hwft hcurt (OrderedMap.mem_iff_lookup.mpr ⟨player, hkept⟩) hv
    constructor
    · rintro ⟨player', hplayer', huse⟩
      refine ⟨hfail, fun player'' hplayer'' hturns v hv => (hiff v hv).mp (huse ?_ v hv)⟩
      cases hkept.symm.trans hplayer'
      cases hplayer.symm.trans hplayer''
      exact hturns
    · rintro ⟨_, hopen⟩
      exact ⟨player, hkept, fun hturns v hv => (hiff v hv).mpr (hopen player hplayer hturns v hv)⟩

/-- Two players, and it is the turn of the first one. -/
def twoRegistered : List Event :=
  [.accept, .accept, .message 0 (.always 10) 10000 (registerRequest Player.default),
    .message 0 (.always 10) 10001 (registerRequest Player.default)]

def walk : PlayerAction := ⟨EPlayerActionType.move.code, 10000, moveInfo 1 0⟩

/-- The connections that fail while the walk is broadcast, and the turn actions left after it. -/
def walked (s : Server) : List UInt32 × Option UInt32 :=
  match s.flushGarbage (onClientDisconnect 0) with
  | .ok u =>
    match u.approves 10000 walk, u.gameWorld.makeApprovedAction 10000 walk with
    | .ok true, .ok w =>
      (failing u.ids u, (w.playersList.lookup 10000).map Player.getCurrentTurnActions)
    | _, _ => ([0], none)
  | _ => ([0], none)

/-- The record of the walker stays while it is connected. -/
theorem connected_usesOwnRecord : ∃ (s u : Server) (w : GameWorld), s.Reachable ∧
    s.flushGarbage (onClientDisconnect 0) = .ok u ∧ u.approves 10000 walk = .ok true ∧
    u.gameWorld.makeApprovedAction 10000 walk = .ok w ∧
    UsesOwnRecord (onClientDisconnect 1) 10000 walk w u := by
  have hrun : (Machine.run step (start (fun _ => 0) (fun _ => 0) fun _ => []) twoRegistered).map
      walked = some ([], some 3) := by decide +kernel
  obtain ⟨s, hs, h⟩ := Option.map_eq_some_iff.mp hrun
  unfold walked at h
  split at h
  · rename_i u hu
    split at h
    · rename_i w happroved hw
      obtain ⟨hfailing, hturns⟩ := Prod.mk.inj h
      refine ⟨s, u, w, ⟨_, _, _, _, hs⟩, hu, happroved, hw,
        (usesOwnRecord_iff ⟨_, _, _, _, hs⟩ hu happroved hw).mpr fun t _ => ⟨by simp [hfailing], ?_⟩⟩
      intro player hplayer hend
      rw [hplayer] at hturns
      rw [Option.some.inj hturns] at hend
      exact absurd hend (by decide)
    · cases (Prod.mk.inj h).2
  · cases (Prod.mk.inj h).2

/-- The record of the walker after the broadcast of its walk. -/
def walkerAfter (s : Server) : Option (Option Player) :=
  match s.approves 10000 walk, s.gameWorld.makeApprovedAction 10000 walk with
  | .ok true, .ok w =>
    match messageAllClients (onClientDisconnect 1) (actionValidated 10000 walk) none
      (s.applied 10000 w) with
    | .ok t => some (t.gameWorld.playersList.lookup 10000)
    | _ => none
  | _, _ => none

/-- What the request to walk runs into. -/
def walkFault (s : Server) : Option Fault :=
  match s.onMessage (onClientDisconnect 1) (.always 0) 10000 (actionRequest walk) with
  | .fault e => some e
  | _ => none

/-- The first player has left when its last message is handled. -/
theorem leaver_erased : ∃ (s : Server) (w : GameWorld), s.Reachable ∧
    s.approves 10000 walk = .ok true ∧ s.gameWorld.makeApprovedAction 10000 walk = .ok w ∧
    ¬ UsesOwnRecord (onClientDisconnect 1) 10000 walk w s ∧
    s.onMessage (onClientDisconnect 1) (.always 0) 10000 (actionRequest walk) = .fault .erasedEntry := by
  have hrun : ((Machine.run step (start (fun _ => 0) (fun _ => 0) fun _ => [])
      (twoRegistered ++ [.close 10000])).map fun s => (walkerAfter s, walkFault s)) =
        some (some none, some .erasedEntry) := by decide +kernel
  obtain ⟨s, hs, h⟩ := Option.map_eq_some_iff.mp hrun
  obtain ⟨hbroadcast, hfault⟩ := Prod.mk.inj h
  unfold walkerAfter at hbroadcast
  unfold walkFault at hfault
  split at hbroadcast
  · rename_i w happroved hw
    split at hbroadcast
    · rename_i t ht
      refine ⟨s, w, ⟨_, _, _, _, hs⟩, happroved, hw, fun huse => ?_, ?_⟩
      · obtain ⟨player, hplayer, _⟩ := huse t ht
        rw [Option.some.inj hbroadcast] at hplayer
        cases hplayer
      · split at hfault
        · rename_i e he
          rw [he, Option.some.inj hfault]
        · cases hfault
    · cases hbroadcast
  · cases hbroadcast

end Server

end AsciiTerra
