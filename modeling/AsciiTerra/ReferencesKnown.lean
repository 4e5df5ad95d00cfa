import AsciiTerra.InformedRuns
import AsciiTerra.Departures

/-!
# References at the clients

In every run a client that is registered knows the players and enemies that messages name. A
client that is only connected gets the same broadcasts and need not know them.
-/

set_option autoImplicit false

namespace AsciiTerra

namespace Server
variable {s t : Server} {R : UInt32 → Prop} {D : UInt32 → Units}
variable {order : Arrangement (OrderedMap.Entry UInt32 Player)} {map : Map}

open Outcome (Post)

theorem Informed.fewer (h : Informed order map R (fun _ => s.units) t)
    (hplayers : ∀ id ∈ t.gameWorld.playersList, id ∈ s.gameWorld.playersList) (hlater : Later s t) :
    Informed order map R (fun _ => t.units) t :=
  h.mono fun _ _ _ _ hc => hc.mono hplayers hlater.enemies

/-- Between two handlers. -/
structure Briefed (order : Arrangement (OrderedMap.Entry UInt32 Player)) (map : Map)
    (R : UInt32 → Prop) (s : Server) : Prop where
  idle : s.Idle
  informed : Informed order map R (fun _ => s.units) s
  departed : Departed R (fun _ => False) s
  accepted : ∀ e, R e → s.Accepted e

section Handlers
variable {n : Nat} {c : UInt32}

theorem flushGarbage_briefed (hs : Briefed order map R s) :
    Post (Briefed order map R) (s.flushGarbage (onClientDisconnect n)) := by
  have hh := onClientDisconnect_informs order map n
  intro t hok
  have hmessaged := flushGarbage_spec (onClientDisconnect_spec n) hs.idle.wellFormed t hok
  have hdeparted : Departed R (fun _ => False) t := by
    refine flushGarbage_preserves (c := 0) (onClientDisconnect_smalls n)
      (fun u v hu hstep => hstep.departed hu) (fun u _ hu => ?_) (fun u hu => ?_) hs.departed t hok
    · exact hu.congr rfl (fun _ hid => hid) (List.Subset.refl _)
    · exact hu.congr rfl (fun _ hid => absurd hid List.not_mem_nil) (List.Subset.refl _)
  obtain ⟨u, hu, hok⟩ := Outcome.bind_eq_ok.mp hok
  have hloop := Post.foldlM (l := s.garbageIDs) (s := s)
    (f := fun s pid => messageAllClients (onClientDisconnect n)
      ((Message.ofID .gameRemovePlayer).push Codec.u32 pid) none (s.note (.broadcast pid)) >>= fun s' =>
        if s'.garbageIDs.length = s.garbageIDs.length then .ok s' else .fault .grownVector)
    (I := fun u => Informed order map R (fun _ => s.units) u ∧ Later s u)
    ⟨hs.informed, .refl s⟩ fun u pid hpid ⟨hu, hlater⟩ => by
      have hnote : Informed order map R (fun _ => s.units) (u.note (.broadcast pid)) :=
        hu.congr rfl (List.Subset.refl _)
      have henough : Enough (fun _ => s.units) (u.note (.broadcast pid)).gameWorld.enemyList.length
          (u.note (.broadcast pid)) := fun _ _ => hlater.enemies
      have hleft : ¬ s.units.players pid := (hs.departed.garbage pid hpid).2 fun h => h
      refine Post.bind ((messageAllClients_same hh hnote henough
        (fun _ _ _ => teaches_removal hleft) ?_).and (messageAllClients_later hh)) fun v ⟨hv, hl⟩ => ?_
      · simp [Message.Registers]
      · split
        · exact Post.of_ok ⟨hv, hlater.trans ⟨hl.closed, hl.enemies⟩⟩
        · exact Post.of_fault
  obtain ⟨hinformed, hlater⟩ := hloop u hu
  cases hok
  have hdone : Informed order map R (fun _ => s.units) { u with garbageIDs := [] } :=
    hinformed.congr rfl (List.Subset.refl _)
  exact ⟨hmessaged.handled.idle hs.idle, hdone.fewer hmessaged.players ⟨hlater.closed, hlater.enemies⟩,
    hdeparted, fun e he => hmessaged.accepted (hs.accepted e he)⟩

theorem Briefed.handled (hs : Briefed order map R s) (hhandled : Handled s t) (hidle : t.Idle)
    (hinformed : Informed order map R (fun _ => s.units) t) (hsmalls : Smalls (some c) s t) :
    Briefed order map R t :=
  ⟨hidle, hinformed.fewer hhandled.players hsmalls.later, hsmalls.departed hs.departed,
    fun e he => hhandled.accepted (hs.accepted e he)⟩

theorem broadcast_briefed (hs : Briefed order map R s) {msg : Message} {ignore : Option UInt32}
    (hteach : ∀ e, e ∉ s.closed → R e → Teaches s.units s.units msg) (hreg : ¬ msg.Registers) :
    Post (Briefed order map R) (messageAllClients (onClientDisconnect n) msg ignore s) := by
  have hh := onClientDisconnect_informs order map n
  have hsmalls : Post (Smalls (some 0) s) (messageAllClients (onClientDisconnect n) msg ignore s) :=
    messageAllClients_smalls (onClientDisconnect_smalls n)
  refine ((messageAllClients_same hh hs.informed (fun _ _ => le_rfl) hteach hreg).and
    ((messageAllClients_spec (onClientDisconnect_spec n) hs.idle.wellFormed).and hsmalls)).mono ?_
  intro t ⟨ht, hm, hsmalls⟩
  exact hs.handled hm.handled (hm.handled.idle hs.idle) ht hsmalls

theorem toClient_briefed (hs : Briefed order map R s) (hc : s.Accepted c) {msg : Message}
    (hplain : msg.Plain) (hreg : ¬ msg.Registers) :
    Post (Briefed order map R) (messageClient (onClientDisconnect n) (some c) msg s) := by
  have hh := onClientDisconnect_informs order map n
  refine ((messageClient_same hh hs.informed (fun _ _ => le_rfl) (fun _ => hplain.teaches _) hreg).and
    ((messageClient_spec (onClientDisconnect_spec n) hs.idle.wellFormed hc).and
      (messageClient_smalls (onClientDisconnect_smalls n) (Or.inr rfl)))).mono ?_
  intro t ⟨ht, hm, hsmalls⟩
  exact hs.handled hm.handled (hm.handled.idle hs.idle) ht hsmalls

theorem choose_told (hwf : s.WellFormed) (hinformed : Informed order map R (fun _ => s.units) s)
    (hdeparted : Departed R (fun _ => False) s) (client : Option UInt32) :
    Post (fun t => Handled s t ∧ Informed order map R (fun _ => t.units) t ∧
      Departed R (fun _ => False) t) (s.chooseNextPlayerForTurn (onClientDisconnect n) client) := by
  have hh := onClientDisconnect_informs order map n
  have hsmalls : Post (Smalls (some 0) s) (s.chooseNextPlayerForTurn (onClientDisconnect n) client) :=
    chooseNextPlayerForTurn_smalls (onClientDisconnect_smalls n) client
  refine ((chooseNextPlayerForTurn_informed hh hinformed (fun _ _ => le_rfl) client).and
    ((chooseNextPlayerForTurn_handled (onClientDisconnect_spec n) hwf client).and hsmalls)).mono ?_
  intro t ⟨ht, ⟨hhandled, _⟩, hsmalls⟩
  exact ⟨hhandled, ht.fewer hhandled.players hsmalls.later, hsmalls.departed hdeparted⟩

theorem choose_briefed (hs : Briefed order map R s) (client : Option UInt32) :
    Post (Briefed order map R) (s.chooseNextPlayerForTurn (onClientDisconnect n) client) := by
  refine (choose_told hs.idle.wellFormed hs.informed hs.departed client).mono ?_
  intro t ⟨hhandled, hinformed, hdeparted⟩
  exact ⟨hhandled.idle hs.idle, hinformed, hdeparted, fun e he => hhandled.accepted (hs.accepted e he)⟩

theorem endTurn_briefed (hs : Briefed order map R s) (hc : s.Accepted c) :
    Post (Briefed order map R) (s.endTurn (onClientDisconnect n) c) := by
  have hplain : (Message.ofID .gameEndPlayerTurn).Plain :=
    plain_of_kind .gameEndPlayerTurn (by simp) (by decide)
  refine Post.bind (toClient_briefed hs hc hplain (by decide)) fun t ht => ?_
  refine Post.bind (choose_briefed ht (some c)) fun u hu => ?_
  refine broadcast_briefed hu (fun e hopen hR => teaches_named ?_ (Or.inl rfl)) ?_
  · have hplayer := hu.departed.present e hR hopen
    rcases hu.idle.wellFormed.current with hzero | hcur
    · exact absurd hplayer (hu.idle.vacant hzero e)
    · exact hcur
  · simp [Message.Registers]

theorem actionApprove_briefed (hs : Briefed order map R s) (hc : s.Accepted c) {msg : Message} :
    Post (Briefed order map R) (s.actionApprove (onClientDisconnect n) c msg) := by
  intro t hok
  obtain ⟨⟨action, rest⟩, _, hok⟩ := Outcome.bind_eq_ok.mp hok
  obtain ⟨approved, happroved, hok⟩ := Outcome.bind_eq_ok.mp hok
  cases approved with
  | false =>
    have hplain : ((Message.ofID .gamePlayerActionAborted).push Layout.playerAction action).Plain :=
      plain_of_kind .gamePlayerActionAborted (by simp) (by decide)
    exact toClient_briefed hs hc hplain (by simp [Message.Registers]) t hok
  | true =>
    obtain ⟨w, hw, hok⟩ := Outcome.bind_eq_ok.mp hok
    have hw := Outcome.ofExcept_eq_ok.mp hw
    have hwf := wellFormed_applied hs.idle.wellFormed hw
    have hlength := (GameWorld.makeApprovedAction_counts hw).1
    have hplayers := (GameWorld.makeApprovedAction_actedBy hs.idle.wellFormed.keysAreIDs hw).players
    have hbegan : Briefed order map R ({ s with gameWorld := w }.log (.applied c)) := by
      refine ⟨⟨hwf, hs.idle.noNull, fun h0 id hid => ?_⟩, ?_, hs.departed.apply hw, hs.accepted⟩
      · exact hs.idle.vacant h0 id (hplayers.mem_iff.mp hid)
      · have hsame : Informed order map R (fun _ => s.units) ({ s with gameWorld := w }.log (.applied c)) :=
          hs.informed.congr rfl (List.Subset.refl _)
        exact hsame.fewer (fun id hid => hplayers.mem_iff.mp hid) ⟨List.Subset.refl _, hlength.le⟩
    have hplain : ((Message.ofID .gamePlayerActionValidated).push Layout.playerAction
        { action with playerID := c }).Plain :=
      plain_of_kind .gamePlayerActionValidated (by simp) (by decide)
    refine Post.bind (broadcast_briefed hbegan (fun _ _ _ => hplain.teaches _)
      (by simp [Message.Registers])) (fun u hu => ?_) t hok
    split
    · exact Post.of_fault
    · rename_i player hplayer
      have hmem : c ∈ u.gameWorld.playersList := OrderedMap.mem_iff_lookup.mpr ⟨player, hplayer⟩
      split
      · exact endTurn_briefed hu (hu.idle.wellFormed.accepted_of_mem hmem)
      · exact Post.of_ok hu

/-- The first message of a registration: a client whose socket is closed leaves at once. -/
theorem enter_first (hs : Briefed order map R s) (hc : s.Accepted c) {p : Player}
    (hp : NewPlayer c p) {arrangement : Arrangement (OrderedMap.Entry UInt32 Player)} {msg : Message} :
    Post (fun t => t.WellFormed ∧ (∀ e, s.Accepted e → t.Accepted e) ∧
        (∀ id ∈ t.gameWorld.playersList, id = c ∨ id ∈ s.gameWorld.playersList) ∧
        (c ∈ t.garbageIDs → c ∉ t.gameWorld.playersList))
      (messageClient (onClientDisconnect n) (some c) msg
        (s.setPlayersList (OrderedMap.insertOrAssign arrangement c p s.gameWorld.playersList))) := by
  have hspec := onClientDisconnect_spec n
  have hwf := hs.idle.wellFormed
  intro t hok
  by_cases hids : c ∈ s.ids
  · have henter : (s.setPlayersList (OrderedMap.insertOrAssign arrangement c p
        s.gameWorld.playersList)).WellFormed := wellFormed_enter hwf hids hp
    have hm := messageClient_spec hspec henter hc t hok
    refine ⟨hm.wellFormed, fun e he => hm.accepted he, fun id hid => ?_, ?_⟩
    · exact OrderedMap.mem_insertOrAssign.mp (hm.players id hid)
    · rcases messageClient_cases hspec henter hc hok with ⟨hopen, rfl⟩ | ⟨_, u, _, hu, rfl⟩
      · intro hgarbage
        exact absurd ((Continues.tick henter).closed (hs.departed.garbage c hgarbage).1) hopen
      · exact fun _ => hu.left
  · have hm := messageClient_removed hwf hc hids t hok
    refine ⟨hm.wellFormed, fun e he => hm.accepted he, fun id hid => Or.inr (hm.players id hid), ?_⟩
    exact fun _ hmem => hids (hwf.present c (hm.players c hmem))

theorem register_briefed (hs : Briefed order map R s) (hc : s.Accepted c) {msg : Message}
    (hid : ECustomMetaMSG.ofCode msg.header.id = some .clientRegisterOnServer) (chance : Chance) :
    Post (Briefed order map fun e => R e ∨ e = c)
      (s.register (onClientDisconnect n) chance c msg) := by
  have hh := onClientDisconnect_informs order map n
  have hspec := onClientDisconnect_spec n
  intro t hok
  have hanswered := register_spec hs.idle hc hid n chance t hok
  have haccepted : ∀ e, R e ∨ e = c → t.Accepted e := by
    obtain ⟨u, hbegan, hhandled, _⟩ := hanswered
    intro e he
    have he : s.Accepted e := he.elim (hs.accepted e) fun heq => heq ▸ hc
    apply hhandled.accepted
    cases hbegan with
    | nothing => exact he
    | entered order hid hc hp => exact he
    | applied happroved hw => exact he
  obtain ⟨⟨info, rest⟩, _, hok⟩ := Outcome.bind_eq_ok.mp hok
  obtain ⟨p, hp, hok⟩ := Outcome.bind_eq_ok.mp hok
  have hnew := clientOnRegister_spec (Outcome.ofExcept_eq_ok.mp hp)
  rw [hnew.id] at hok
  obtain ⟨u, hannounce, hok⟩ := Outcome.bind_eq_ok.mp hok
  -- before the first message the new client need not know anything
  have hbegan : Informed order map (fun e => R e ∨ e = c)
      (Function.update (fun _ => s.units) c ⟨fun _ => False, 0⟩)
      (s.setPlayersList (OrderedMap.insertOrAssign chance.order c p s.gameWorld.playersList)) := by
    refine ⟨hs.informed.refers, fun e hr => Or.inl (hs.informed.known e hr), fun e hopen hR => ?_⟩
    by_cases he : e = c
    · subst he
      rw [Function.update_self]
      exact fun cl _ => ⟨fun _ h => h.elim, Nat.zero_le _⟩
    · rw [Function.update_of_ne he]
      exact hs.informed.told e hopen (hR.resolve_right he)
  let entered := s.setPlayersList (OrderedMap.insertOrAssign chance.order c p s.gameWorld.playersList)
  let registers := (Message.ofID .clientRegisterFromServer).push Layout.player p
  have hfirst : Post (fun t => t.WellFormed ∧ (∀ e, s.Accepted e → t.Accepted e) ∧
      (∀ id ∈ t.gameWorld.playersList, id = c ∨ id ∈ s.gameWorld.playersList) ∧
      (c ∈ t.garbageIDs → c ∉ t.gameWorld.playersList))
      (messageClient (onClientDisconnect n) (some c) registers entered) := enter_first hs hc hnew
  obtain ⟨hinformed, hwf⟩ := announce_informed hh hspec hnew.id hbegan le_rfl (Or.inr rfl)
    (hfirst.mono fun v ⟨hwf, hacc, hplayers, _⟩ =>
      ⟨hwf, fun e he => hacc e (he.elim (hs.accepted e) fun heq => heq ▸ hc), hplayers⟩) u hannounce
  have hdeparted : Departed (fun e => R e ∨ e = c) (fun _ => False) u := by
    have hsmalls : Post (Smalls (some c) entered)
        (messageClient (onClientDisconnect n) (some c) registers entered) :=
      messageClient_smalls (onClientDisconnect_smalls n) (Or.inr rfl)
    obtain ⟨v, ⟨⟨_, _, _, hleft⟩, hv⟩, hu⟩ := announce_after (onClientDisconnect_smalls n)
      (hfirst.and hsmalls) u hannounce
    exact hu.departed ((hv.departed (hs.departed.enter hnew.id)).left hleft)
  refine ⟨hanswered.idle hs.idle, ?_, ?_, haccepted⟩
  · split at hok
    · exact (choose_told hwf hinformed hdeparted none t hok).2.1
    · cases hok
      exact hinformed
  · split at hok
    · exact (choose_told hwf hinformed hdeparted none t hok).2.2
    · cases hok
      exact hdeparted

theorem handleMessage_briefed (hs : Briefed order map R s) (hc : s.Accepted c) (msg : Message)
    (chance : Chance) : Post (fun t => ∃ R', Briefed order map R' t)
      (s.handleMessage (onClientDisconnect n) chance c msg) := by
  unfold handleMessage
  split
  · rename_i hid
    exact (register_briefed hs hc hid chance).mono fun t ht => ⟨_, ht⟩
  · exact (actionApprove_briefed hs hc).mono fun t ht => ⟨R, ht⟩
  · rename_i hid
    have hplain : msg.Plain := plain_of_kind .gameUpdatePlayer hid (by decide)
    have hreg : ¬ msg.Registers := fun hr => nomatch hid.symm.trans hr
    exact (broadcast_briefed hs (fun _ _ _ => hplain.teaches _) hreg).mono fun t ht => ⟨R, ht⟩
  · rename_i hid
    have hplain : msg.Plain := plain_of_kind .serverPing hid (by decide)
    have hreg : ¬ msg.Registers := fun hr => nomatch hid.symm.trans hr
    exact Post.of_ok ⟨R, ⟨(Continues.send hs.idle.wellFormed c msg).wellFormed, hs.idle.noNull,
      hs.idle.vacant⟩, hs.informed.send_plain hplain hreg,
      hs.departed.congr rfl (fun _ hid => hid) (List.Subset.refl _), hs.accepted⟩
  · split
    · rename_i hmem
      refine (broadcast_briefed hs (fun _ _ _ => teaches_named hmem (Or.inr rfl)) ?_).mono
        fun t ht => ⟨R, ht⟩
      simp [Message.Registers]
    · exact Post.of_fault
  · exact Post.of_ok ⟨R, hs⟩

end Handlers

theorem step_briefed {e : Event} (hs : Briefed order map R s) (h : step s e = some t) :
    ∃ R', Briefed order map R' t := by
  have hidle := step_idle hs.idle h
  cases step_cases h with
  | accept _ =>
    have hplain : (Message.ofID .serverAccept).Plain :=
      plain_of_kind .serverAccept (by simp) (by decide)
    have hsent := hs.informed.send_plain (c := UInt32.ofNat s.nIDCounter) hplain (by decide)
    exact ⟨R, hidle, hsent.congr rfl (List.Subset.refl _),
      hs.departed.congr rfl (fun _ hid => hid) (List.Subset.refl _),
      fun e he => ⟨(hs.accepted e he).1, (hs.accepted e he).2.trans (Nat.lt_succ_self _)⟩⟩
  | validated c _ =>
    have hplain : (Message.ofID .clientAccepted).Plain :=
      plain_of_kind .clientAccepted (by simp) (by decide)
    exact ⟨R, hidle, hs.informed.send_plain hplain (by decide),
      hs.departed.congr rfl (fun _ hid => hid) (List.Subset.refl _), hs.accepted⟩
  | close c _ =>
    have hclosed : s.closed ⊆ c :: s.closed := List.subset_cons_self c _
    exact ⟨R, hidle, hs.informed.congr rfl hclosed,
      hs.departed.congr rfl (fun _ hid => hid) hclosed, hs.accepted⟩
  | shyCheck n hok =>
    have hplain : (Message.ofID .serverShyConnectionCheck).Plain :=
      plain_of_kind .serverShyConnectionCheck (by simp) (by decide)
    have hall : Post (Briefed order map R) (s.shyCheckAllPlayers (onClientDisconnect n)) :=
      broadcast_briefed hs (fun _ _ _ => hplain.teaches _) (by decide)
    exact ⟨R, hall t hok⟩
  | message n chance c msg hc hok =>
    obtain ⟨u, hu, hok⟩ := Outcome.bind_eq_ok.mp hok
    have hflushed := flushGarbage_briefed hs u hu
    have hm := flushGarbage_spec (onClientDisconnect_spec n) hs.idle.wellFormed u hu
    exact handleMessage_briefed hflushed (hm.accepted hc) msg chance t hok

theorem Reachable.briefed (h : s.Reachable) (order : Arrangement (OrderedMap.Entry UInt32 Player))
    (map : Map) : ∃ R, Briefed order map R s := by
  obtain ⟨mapRand, enemyRand, closing, events, hrun⟩ := h
  refine Machine.invariant (I := fun s => ∃ R, Briefed order map R s)
    (fun s e s' ⟨R, hs⟩ hstep => step_briefed hs hstep) ⟨fun _ => False, ?_⟩ hrun
  have hidle := start_idle mapRand enemyRand closing
  refine ⟨hidle, ⟨fun e => ?_, fun e he => ?_, fun e _ he => he.elim⟩, ?_, fun e he => he.elim⟩
  · intro before msg hprefix
    have hnil := List.prefix_nil.mp hprefix
    exact absurd hnil (List.append_ne_nil_of_right_ne_nil _ (List.cons_ne_nil _ _))
  · obtain ⟨msg, hmsg, _⟩ := he
    exact nomatch hmsg
  · exact ⟨hidle.wellFormed.keysAreIDs, hidle.wellFormed.fromTable, fun id hid => (nomatch hid),
      fun id hR => hR.elim⟩

/-- A client that is registered before a message to it names a player or an enemy knows every
one that is named. -/
theorem refers_only (hs : s.Reachable) (e : UInt32) (hfirst : RegisteredFirst (s.stream e))
    (order : Arrangement (OrderedMap.Entry UInt32 Player)) (map : Map) :
    RefersOnly order map (s.stream e) := by
  obtain ⟨R, hbriefed⟩ := hs.briefed order map
  exact (hbriefed.informed.refers e).refersOnly hfirst

/-- Two players, of whom the second joined last; the first greets it. -/
def greetsRegistered : List Event :=
  [.accept, .message 0 (.always 10) 10000 (registerRequest Player.default), .accept,
    .message 0 (.always 10) 10001 (registerRequest Player.default),
    .message 0 (.always 10) 10000 (.ofID .messageAll)]

theorem refers_only_greeted : ∃ s : Server, s.Reachable ∧ RegisteredFirst (s.stream 10001) ∧
    (∃ msg ∈ s.stream 10001, msg.NamesUnits) ∧
    RefersOnly (Chance.always 10).order (generateMap fun _ => 0) (s.stream 10001) := by
  have hrun : ((Machine.run step (start (fun _ => 0) (fun _ => 0) fun _ => []) greetsRegistered).map
      fun s => (decide (RegisteredFirst (s.stream 10001)),
        decide (∃ msg ∈ s.stream 10001, msg.NamesUnits))) = some (true, true) := by decide +kernel
  obtain ⟨s, hs, h⟩ := Option.map_eq_some_iff.mp hrun
  simp only [Prod.mk.injEq, decide_eq_true_eq] at h
  have hreachable : s.Reachable := ⟨_, _, _, _, hs⟩
  exact ⟨s, hreachable, h.1, h.2, refers_only hreachable 10001 h.1 _ _⟩

/-- The same while the second client has not registered. -/
def greetsConnected : List Event :=
  [.accept, .message 0 (.always 10) 10000 (registerRequest Player.default), .accept,
    .message 0 (.always 10) 10000 (.ofID .messageAll)]

theorem connected_refers_unknown : ∃ s : Server, s.Reachable ∧
    ∀ order map, ¬ RefersOnly order map (s.stream 10001) := by
  have hrun : ((Machine.run step (start (fun _ => 0) (fun _ => 0) fun _ => []) greetsConnected).map
      (stream 10001)) = some [.ofID .serverAccept,
        (Message.ofID .serverMessage).push Codec.u32 10000] := by decide +kernel
  obtain ⟨s, hs, hstream⟩ := Option.map_eq_some_iff.mp hrun
  refine ⟨s, ⟨_, _, _, _, hs⟩, fun order map hrefers => ?_⟩
  rw [hstream] at hrefers
  have hstart : (Client.start map).updates order [.ofID .serverAccept] = .ok (Client.start map) := rfl
  have hknown := hrefers [.ofID .serverAccept] _ (List.prefix_refl _) _ hstart
  have hmem : (10000 : UInt32) ∈ (Client.start map).gameWorld.playersList :=
    hknown.player (Or.inr (by simp)) 10000 _ (Message.pop_push ..)
  exact nomatch hmem

end Server

end AsciiTerra
