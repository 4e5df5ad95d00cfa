import AsciiTerra.AITurnBroadcast

/-!
# While every connection stays open

Without closed sockets nobody is removed: messages are only sent, and the turn moves with
`ChooseNextPlayerForTurn` at the end of a turn only.
-/

set_option autoImplicit false

namespace AsciiTerra

namespace Server
variable {s t u : Server}

open Outcome (Post)

/-- No socket is closed or closes later. -/
structure Steady (s : Server) : Prop where
  wellFormed : s.WellFormed
  noNull : none ∉ s.deqConnection
  closed : s.closed = []
  closing : s.closing = fun _ => []

/-- How often `id` was given the turn. -/
def turnsOf (id : UInt32) (s : Server) : Nat :=
  s.trace.countP fun
    | .turnGiven player => player.id == id
    | _ => false

structure Sends (s t : Server) : Prop where
  gameWorld : t.gameWorld = s.gameWorld
  currentPlayerID : t.currentPlayerID = s.currentPlayerID
  nIDCounter : t.nIDCounter = s.nIDCounter
  deqConnection : t.deqConnection = s.deqConnection
  closed : t.closed = s.closed
  closing : t.closing = s.closing
  trace : t.trace = s.trace

theorem Sends.refl (s : Server) : Sends s s := ⟨rfl, rfl, rfl, rfl, rfl, rfl, rfl⟩

theorem Sends.trans (h : Sends s t) (h' : Sends t u) : Sends s u where
  gameWorld := h'.gameWorld.trans h.gameWorld
  currentPlayerID := h'.currentPlayerID.trans h.currentPlayerID
  nIDCounter := h'.nIDCounter.trans h.nIDCounter
  deqConnection := h'.deqConnection.trans h.deqConnection
  closed := h'.closed.trans h.closed
  closing := h'.closing.trans h.closing
  trace := h'.trace.trans h.trace

theorem Sends.steady (h : Sends s t) (hs : s.Steady) : t.Steady where
  wellFormed := hs.wellFormed.congr (by simp only [ids, h.deqConnection]) h.nIDCounter h.gameWorld
    h.currentPlayerID (by rw [h.closed]; exact List.Subset.refl _)
  noNull := h.deqConnection ▸ hs.noNull
  closed := h.closed.trans hs.closed
  closing := h.closing.trans hs.closing

theorem Steady.tick_closed (hs : s.Steady) : s.tick.closed = [] := by
  simp only [tick, hs.closing, hs.closed, List.append_nil]

theorem Steady.sends_tick (hs : s.Steady) : Sends s s.tick :=
  ⟨rfl, rfl, rfl, rfl, hs.tick_closed.trans hs.closed.symm, rfl, rfl⟩

section Hook
variable {hook : Option UInt32 → Server → Outcome Fault Server}

theorem messageClient_sends (hs : s.Steady) (c : UInt32) (msg : Message) :
    messageClient hook (some c) msg s = .ok (s.tick.send c msg) := by
  apply messageClient_open
  rw [hs.tick_closed]
  exact List.not_mem_nil

theorem Steady.sends_client (hs : s.Steady) (c : UInt32) (msg : Message) :
    Sends s (s.tick.send c msg) :=
  hs.sends_tick.trans ⟨rfl, rfl, rfl, rfl, rfl, rfl, rfl⟩

theorem messageAllClients_sends (hs : s.Steady) (msg : Message) (ignore : Option UInt32) :
    Post (Sends s) (messageAllClients hook msg ignore s) := by
  have hloop : Post (fun st : Server × Bool => Sends s st.1 ∧ st.2 = false)
      ((List.range s.deqConnection.length).foldlM (messageEntry hook msg ignore) (s, false)) := by
    refine Post.foldlM (I := fun st : Server × Bool => Sends s st.1 ∧ st.2 = false)
      ⟨.refl s, rfl⟩ ?_
    rintro ⟨u, b⟩ i - ⟨hu, rfl⟩
    have hu : Sends s u := hu
    have hsteady := hu.steady hs
    cases hi : u.deqConnection[i]? with
    | none =>
      simp only [messageEntry, hi]
      exact Post.of_fault
    | some client =>
      cases client with
      | none => exact absurd (List.mem_of_getElem? hi) hsteady.noNull
      | some c =>
        have hup : c ∉ u.tick.closed := by
          rw [hsteady.tick_closed]
          exact List.not_mem_nil
        rw [messageEntry_open hi hup]
        refine Post.of_ok ⟨?_, rfl⟩
        split
        · exact hu.trans (hsteady.sends_client c msg)
        · exact hu.trans hsteady.sends_tick
  refine Post.bind hloop ?_
  rintro ⟨u, b⟩ ⟨hu, rfl⟩
  exact Post.of_ok hu

theorem flushGarbage_sends (hs : s.Steady) : Post (Sends s) (s.flushGarbage hook) := by
  refine Post.bind (Post.foldlM (Sends.refl s) fun u pid _ hu => ?_) fun u hu => Post.of_ok ?_
  · have hnote : Sends s (u.note (.broadcast pid)) := hu.trans ⟨rfl, rfl, rfl, rfl, rfl, rfl, rfl⟩
    refine Post.bind (messageAllClients_sends (hnote.steady hs) _ _) fun v hv => ?_
    split
    · exact Post.of_ok (hnote.trans hv)
    · exact Post.of_fault
  · exact hu.trans ⟨rfl, rfl, rfl, rfl, rfl, rfl, rfl⟩

theorem announce_sends (hs : s.Steady) (c : UInt32) (playerDesc : Player) :
    Post (Sends s) (s.announce hook c playerDesc) := by
  have hclient : ∀ (msg : Message) (u : Server), Sends s u →
      Post (Sends s) (messageClient hook (some c) msg u) := by
    intro msg u hu
    rw [messageClient_sends (hu.steady hs)]
    exact Post.of_ok (hu.trans ((hu.steady hs).sends_client c msg))
  refine Post.bind (hclient _ s (.refl s)) fun u hu => ?_
  refine Post.bind (hclient _ u hu) fun u hu => ?_
  refine Post.bind (Post.foldlM hu fun u i _ hu => ?_) fun u hu => ?_
  · unfold sendEnemy
    split
    · exact Post.of_fault
    · exact hclient _ u hu
  refine Post.bind ((messageAllClients_sends (hu.steady hs) _ _).mono fun _ => hu.trans) fun u hu => ?_
  refine Post.foldlM hu fun u key _ hu => ?_
  unfold sendOtherPlayer
  split
  · exact Post.of_ok hu
  · split
    · exact Post.of_ok hu
    · refine Post.bind (hclient _ u hu) fun v hv => ?_
      split
      · exact Post.of_ok hv
      · exact Post.of_fault

/-- Nobody comes, goes or gets the turn. -/
structure StaysPut (s t : Server) : Prop where
  steady : t.Steady
  keys : t.gameWorld.playersList.keys = s.gameWorld.playersList.keys
  currentPlayerID : t.currentPlayerID = s.currentPlayerID
  turns : ∀ id, t.turnsOf id = s.turnsOf id

theorem Sends.stays (h : Sends s t) (hs : s.Steady) : StaysPut s t where
  steady := h.steady hs
  keys := by rw [h.gameWorld]
  currentPlayerID := h.currentPlayerID
  turns id := by simp only [turnsOf, h.trace]

theorem StaysPut.refl (hs : s.Steady) : StaysPut s s := (Sends.refl s).stays hs

theorem StaysPut.trans (h : StaysPut s t) (h' : StaysPut t u) : StaysPut s u where
  steady := h'.steady
  keys := h'.keys.trans h.keys
  currentPlayerID := h'.currentPlayerID.trans h.currentPlayerID
  turns id := (h'.turns id).trans (h.turns id)

theorem StaysPut.mem_iff (h : StaysPut s t) {id : UInt32} :
    id ∈ t.gameWorld.playersList ↔ id ∈ s.gameWorld.playersList := by
  rw [AList.mem_keys, h.keys, AList.mem_keys]

theorem makeAITurn_stays (hs : s.Steady) : Post (StaysPut s) (s.makeAITurn hook) := by
  intro t hok
  obtain ⟨st, hst, hok⟩ := Outcome.bind_eq_ok.mp hok
  obtain ⟨u, hu, hok⟩ := Outcome.bind_eq_ok.mp hok
  cases hok
  have harmed : s.gameWorld.AllArmed := fun e he => (hs.wellFormed.fromTable e he).armed
  have hrelated := aiTurn_aiRelated harmed hst
  have hworld := Continues.aiRelated hs.wellFormed hrelated
  have hsteady : Steady { s with gameWorld := st.world } :=
    ⟨hworld.wellFormed, hs.noNull, hs.closed, hs.closing⟩
  have hloop : Sends { s with gameWorld := st.world } u :=
    Post.foldlM (Sends.refl _) (fun v action _ hv =>
      (messageAllClients_sends (hv.steady hsteady) _ _).mono fun _ => hv.trans) u hu
  have hu := hloop.steady hsteady
  have hkeys : u.gameWorld.playersList.keys = s.gameWorld.playersList.keys := by
    rw [hloop.gameWorld]
    exact (hrelated.players hs.wellFormed.keysAreIDs).keys_eq
  have hdead := Continues.removeDeadEnemies hu.wellFormed st.enemyListDirt
  refine ⟨⟨hdead.wellFormed, hu.noNull, hu.closed, hu.closing⟩, ?_, hloop.currentPlayerID, ?_⟩
  · unfold removeDeadEnemies
    split
    · exact hkeys
    · exact hkeys
  · intro id
    simp only [turnsOf, hloop.trace]

/-- The turn has come to player `id`. -/
structure PassedTo (id : UInt32) (s t : Server) : Prop where
  steady : t.Steady
  keys : t.gameWorld.playersList.keys = s.gameWorld.playersList.keys
  currentPlayerID : t.currentPlayerID = id
  turns : ∀ a, t.turnsOf a = s.turnsOf a + if a = id then 1 else 0

theorem StaysPut.passedTo {id : UInt32} (h : StaysPut s t) (h' : PassedTo id t u) : PassedTo id s u where
  steady := h'.steady
  keys := h'.keys.trans h.keys
  currentPlayerID := h'.currentPlayerID
  turns a := by rw [h'.turns, h.turns]

theorem PassedTo.stays {id : UInt32} (h : PassedTo id s t) (h' : StaysPut t u) : PassedTo id s u where
  steady := h'.steady
  keys := h'.keys.trans h.keys
  currentPlayerID := h'.currentPlayerID.trans h.currentPlayerID
  turns a := by rw [h'.turns, h.turns]

theorem resetTurn_passed (hs : s.Steady) : Post (PassedTo s.currentPlayerID s) s.resetTurn := by
  intro t hok
  have hcontinues := (resetTurn_spec hs.wellFormed t hok).1
  obtain ⟨player, hplayer, rfl⟩ := resetTurn_eq_ok.mp hok
  have hid := hs.wellFormed.keysAreIDs.id_eq hplayer
  refine ⟨⟨hcontinues.wellFormed, hs.noNull, hs.closed, hs.closing⟩, ?_, rfl, ?_⟩
  · exact OrderedMap.keys_modify _ _ _
  · intro a
    have hcond : (player.id == a) = true ↔ a = s.currentPlayerID := by rw [beq_iff_eq, hid, eq_comm]
    simp only [turnsOf, log, List.countP_cons, hcond]

theorem startTurn_passed (hs : s.Steady) :
    Post (PassedTo s.currentPlayerID s) (s.startTurn hook) := by
  have hsend : Post (Sends s) (s.sendTurn hook) := by
    unfold sendTurn
    split
    · exact Post.of_fault
    · exact Post.of_ok (.refl s)
    · rw [messageClient_sends hs]
      exact Post.of_ok (hs.sends_client _ _)
  refine Post.bind hsend fun u hu => ?_
  have hstays := hu.stays hs
  have hreset := resetTurn_passed (hu.steady hs)
  rw [hu.currentPlayerID] at hreset
  exact hreset.mono fun _ ht => hstays.passedTo ht

/-- Who comes after client `c`: the next entry of the map or, after the turn of the enemies, the
first one. -/
def Follows (c id : UInt32) (s : Server) : Prop :=
  match (OrderedMap.after c s.gameWorld.playersList).keys with
  | [] => s.gameWorld.playersList.keys.head? = some id
  | next :: _ => next = id

theorem giveToFirst_moves (hs : s.Steady) : Post (fun t => ∃ id,
    s.gameWorld.playersList.keys.head? = some id ∧ t = { s with currentPlayerID := id })
      s.giveToFirst := by
  unfold giveToFirst
  split
  · exact Post.of_fault
  · rename_i first rest hentries
    have hid := hs.wellFormed.keysAreIDs first (by rw [hentries]; exact List.mem_cons_self)
    refine Post.of_ok ⟨first.1, ?_, by rw [hid]⟩
    unfold AList.keys
    rw [hentries]
    rfl

theorem passTurn_moves (hs : s.Steady) {c : UInt32} :
    Post (fun t => ∃ id u, Follows c id s ∧ StaysPut s u ∧ t = { u with currentPlayerID := id })
      (s.passTurn hook (some c)) := by
  unfold passTurn
  simp only
  split
  · split
    · rename_i next rest hafter
      have hmem : next ∈ s.gameWorld.playersList.entries :=
        OrderedMap.mem_of_mem_after (k := c) (by rw [hafter]; exact List.mem_cons_self)
      have hfollows : Follows c next.1 s := by
        unfold Follows
        rw [hafter]
        rfl
      refine Post.of_ok ⟨next.1, s, hfollows, .refl hs, ?_⟩
      rw [hs.wellFormed.keysAreIDs next hmem]
    · rename_i hafter
      refine Post.bind (makeAITurn_stays hs) fun u hu => ?_
      refine (giveToFirst_moves hu.steady).mono ?_
      rintro t ⟨id, hfirst, rfl⟩
      have hfollows : Follows c id s := by
        unfold Follows
        rw [hafter]
        exact hu.keys ▸ hfirst
      exact ⟨id, u, hfollows, hu, rfl⟩
  · exact Post.of_fault

theorem chooseNextPlayerForTurn_passed (hh : HookSpec hook) (hs : s.Steady) {c : UInt32}
    (hc : c ∈ s.gameWorld.playersList) :
    Post (fun t => ∃ id, Follows c id s ∧ PassedTo id s t)
      (s.chooseNextPlayerForTurn hook (some c)) := by
  have hlog : StaysPut s (s.log .choosing) :=
    ⟨⟨(Continues.choosing hs.wellFormed).wellFormed, hs.noNull, hs.closed, hs.closing⟩, rfl, rfl,
      fun id => rfl⟩
  intro t hok
  unfold chooseNextPlayerForTurn at hok
  simp only at hok
  split at hok
  · rename_i hempty
    obtain ⟨v, hv⟩ := OrderedMap.mem_iff_lookup.mp hc
    have hmem := OrderedMap.mem_entries_of_lookup hv
    have hnil : s.gameWorld.playersList.entries = [] := List.isEmpty_iff.mp hempty
    rw [hnil] at hmem
    exact absurd hmem List.not_mem_nil
  · obtain ⟨u, hu, hok⟩ := Outcome.bind_eq_ok.mp hok
    have hwf := (passTurn_spec hh hlog.steady.wellFormed (some c) u hu).1.wellFormed
    obtain ⟨id, v, hfollows, hv, rfl⟩ := passTurn_moves hlog.steady u hu
    have hmoved : Steady { v with currentPlayerID := id } :=
      ⟨hwf, hv.steady.noNull, hv.steady.closed, hv.steady.closing⟩
    have hpassed := startTurn_passed hmoved t hok
    have hkept := hlog.trans hv
    exact ⟨id, hfollows, hpassed.steady, hpassed.keys.trans hkept.keys, hpassed.currentPlayerID,
      fun a => (hpassed.turns a).trans (by rw [← hkept.turns a]; rfl)⟩

end Hook

end Server

end AsciiTerra
