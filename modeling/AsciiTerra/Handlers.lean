import AsciiTerra.ServerInvariant

/-!
# What the handlers do

A message handler first changes the world itself, by a registration or by an approved
action, and then only sends messages and passes the turn on. `Began` is the first part,
`Handled` the rest.
-/

set_option autoImplicit false

namespace AsciiTerra

namespace Server
variable {s s' s'' : Server}

open Outcome (Post)

/-- The turn after a handler: kept, passed on or, without players, nobody's. -/
def TurnAfter (s s' : Server) : Prop :=
  TurnMoved s s' ∨ (NoAction s s' ∧ ∀ id, id ∉ s'.gameWorld.playersList)

structure Handled (s s' : Server) : Prop extends Continues s s' where
  deqConnection : s'.deqConnection.Sublist s.deqConnection
  turn : TurnAfter s s'

theorem Messaged.handled (h : Messaged s s') : Handled s s' :=
  ⟨h.toContinues, h.deqConnection, Or.inl h.turn⟩

theorem Handled.refl (h : s.WellFormed) : Handled s s := (Messaged.refl h).handled

theorem Handled.noAction (h : Handled s s') : NoAction s s' := by
  rcases h.turn with h | ⟨h, _⟩
  · exact h.noAction
  · exact h

theorem Handled.trans (h : Handled s s') (h' : Handled s' s'') : Handled s s'' := by
  refine ⟨h.toContinues.trans h'.toContinues, h'.deqConnection.trans h.deqConnection, ?_⟩
  have hbefore := h.noAction
  rcases h'.turn with (hkept | hpassed) | ⟨hno, hvacant⟩
  · rcases h.turn with hmoved | ⟨hno, hvacant⟩
    · exact Or.inl (hmoved.trans (Or.inl hkept))
    · exact Or.inr ⟨hno.trans (Or.inl hkept.trace), fun id hid => hvacant id (h'.players id hid)⟩
  · exact Or.inl (Or.inr (hpassed.after hbefore))
  · exact Or.inr ⟨hbefore.trans hno, hvacant⟩

/-- Between two handlers there is no null entry, and someone plays as soon as there is a
player. -/
structure Idle (s : Server) : Prop where
  wellFormed : s.WellFormed
  noNull : none ∉ s.deqConnection
  vacant : s.currentPlayerID = 0 → ∀ id, id ∉ s.gameWorld.playersList

theorem Handled.vacant (h : Handled s s')
    (hs : s.currentPlayerID = 0 → ∀ id, id ∉ s.gameWorld.playersList)
    (h0 : s'.currentPlayerID = 0) : ∀ id, id ∉ s'.gameWorld.playersList := by
  rcases h.turn with (hkept | hpassed) | ⟨_, hvacant⟩
  · exact fun id hid => hs (hkept.currentPlayerID ▸ h0) id (h.players id hid)
  · exact absurd h0 (h.wellFormed.accepted_of_mem hpassed.mem).ne_zero
  · exact hvacant

theorem Handled.idle (hs : s.Idle) (h : Handled s s') : s'.Idle :=
  ⟨h.wellFormed, fun hmem => hs.noNull (h.deqConnection.subset hmem), h.vacant hs.vacant⟩

section Hook
variable {hook : Option UInt32 → Server → Outcome Fault Server} (hh : HookSpec hook)
include hh

theorem chooseNextPlayerForTurn_handled (h : s.WellFormed) (client : Option UInt32) :
    Post (fun s' => Handled s s' ∧ (s'.currentPlayerID = 0 → ∀ id, id ∉ s'.gameWorld.playersList))
      (s.chooseNextPlayerForTurn hook client) := by
  refine (chooseNextPlayerForTurn_spec hh h client).mono fun s' ⟨hs', hdeq, hpassed, hsame⟩ => ?_
  by_cases hnil : s.gameWorld.playersList.entries = []
  · have hvacant : ∀ id, id ∉ s'.gameWorld.playersList := by
      intro id hid
      obtain ⟨v, hv⟩ := OrderedMap.mem_iff_lookup.mp (hs'.players id hid)
      have hmem := OrderedMap.mem_entries_of_lookup hv
      rw [hnil] at hmem
      exact List.not_mem_nil hmem
    have hno : NoAction s s' := Or.inr ⟨[], by rw [hsame hnil]; rfl, by simp⟩
    exact ⟨⟨hs', hdeq, Or.inr ⟨hno, hvacant⟩⟩, fun _ => hvacant⟩
  · have hmem := (hpassed hnil).1.mem
    exact ⟨⟨hs', hdeq, Or.inl (Or.inr (hpassed hnil).1)⟩,
      fun h0 => absurd h0 (hs'.wellFormed.accepted_of_mem hmem).ne_zero⟩

theorem flushGarbage_spec (h : s.WellFormed) : Post (Messaged s) (s.flushGarbage hook) := by
  refine Post.bind (Post.foldlM (Messaged.refl h) fun t pid _ ht => ?_) fun t ht => ?_
  · have hnote : Messaged t (t.note (.broadcast pid)) :=
      ⟨.of_eq ht.wellFormed rfl rfl rfl rfl rfl rfl, .refl _, .of_eq rfl rfl rfl⟩
    refine Post.bind (messageAllClients_spec hh hnote.wellFormed) fun t' ht' => ?_
    split
    · exact Post.of_ok ((ht.trans hnote).trans ht')
    · exact Post.of_fault
  · refine Post.of_ok (ht.trans ⟨.of_eq ht.wellFormed rfl rfl rfl rfl rfl rfl, .refl _,
      .of_eq rfl rfl rfl⟩)

theorem messageClient_after {t : Server} {c : UInt32} {msg : Message} (hc : s.Accepted c)
    (h : Messaged s t) : Post (Messaged s) (messageClient hook (some c) msg t) :=
  (messageClient_spec hh h.wellFormed (h.accepted hc)).mono fun _ => h.trans

theorem announce_spec {Q : Server → Prop} {c : UInt32} {playerDesc : Player}
    (hfirst : Post Q (messageClient hook (some c)
      ((Message.ofID .clientRegisterFromServer).push Layout.player playerDesc) s))
    (hQ : ∀ t, Q t → t.WellFormed ∧ t.Accepted c) :
    Post (fun s' => ∃ t, Q t ∧ Messaged t s') (s.announce hook c playerDesc) := by
  refine Post.bind hfirst fun t ht => ?_
  obtain ⟨hwf, hc⟩ := hQ t ht
  suffices hrest : Post (Messaged t) _ from hrest.mono fun s' hs' => ⟨t, ht, hs'⟩
  refine Post.bind (messageClient_spec hh hwf hc) fun t1 h1 => ?_
  refine Post.bind (Post.foldlM h1 fun t' i _ ht' => ?_) fun t2 h2 => ?_
  · unfold sendEnemy
    split
    · exact Post.of_fault
    · exact messageClient_after hh hc ht'
  refine Post.bind (messageAllClients_spec hh h2.wellFormed) fun t3 h3 => ?_
  refine Post.foldlM (h2.trans h3) fun t' key _ ht' => ?_
  unfold sendOtherPlayer
  split
  · exact Post.of_ok ht'
  · split
    · exact Post.of_ok ht'
    · refine Post.bind (messageClient_after hh hc ht') fun t4 h4 => ?_
      split
      · exact Post.of_ok h4
      · exact Post.of_fault

theorem endTurn_spec {c : UInt32} (h : s.WellFormed) (hc : s.Accepted c) :
    Post (Handled s) (s.endTurn hook c) := by
  refine Post.bind (messageClient_spec hh h hc) fun t ht => ?_
  refine Post.bind (chooseNextPlayerForTurn_handled hh ht.wellFormed _) fun t' ⟨ht', _⟩ => ?_
  refine (messageAllClients_spec hh ht'.wellFormed).mono fun s' hs' => ?_
  exact (ht.handled.trans ht').trans hs'.handled

end Hook

/-- The record that the server keeps of a new player. -/
structure NewPlayer (c : UInt32) (p : Player) : Prop where
  id : p.id = c
  hp : p.hp = 45
  maxTurns : p.maxTurns = 4
  currentTurns : p.currentTurns = 4

theorem clientOnRegister_spec {rand : Nat → Nat} {c : UInt32} {info p : Player}
    (h : clientOnRegister rand c info = .ok p) : NewPlayer c p := by
  unfold clientOnRegister at h
  obtain ⟨p1, h1, h⟩ := except_bind_eq_ok.mp h
  obtain ⟨p2, h2, h⟩ := except_bind_eq_ok.mp h
  cases h1
  cases h2
  cases h
  exact ⟨rfl, rfl, rfl, rfl⟩

theorem wellFormed_enter (h : s.WellFormed) {order : Arrangement (OrderedMap.Entry UInt32 Player)}
    {c : UInt32} {p : Player} (hc : c ∈ s.ids) (hp : NewPlayer c p) :
    (s.setPlayersList (OrderedMap.insertOrAssign order c p s.gameWorld.playersList)).WellFormed := by
  refine ⟨h.keysAreIDs.insertOrAssign hp.id, h.fromTable,
    OrderedMap.forall_insertOrAssign (P := fun (_ : UInt32) (p : Player) => p.maxTurns = 4) hp.maxTurns h.maxTurns, h.accepted,
    fun id hid => ?_,
    h.current.imp_right fun hcur => ?_, h.gone, h.distinct, h.counter⟩
  · rcases OrderedMap.mem_insertOrAssign.mp hid with rfl | hid
    · exact hc
    · exact h.present id hid
  · exact OrderedMap.mem_insertOrAssign.mpr (Or.inr hcur)

theorem Continues.reordered (h : s.WellFormed) {ps : PlayersList}
    (hps : ∀ id, ps.lookup id = s.gameWorld.playersList.lookup id) :
    Continues s (s.setPlayersList ps) := by
  have hmem : ∀ id, id ∈ ps ↔ id ∈ s.gameWorld.playersList := fun id => by
    rw [OrderedMap.mem_iff_lookup, OrderedMap.mem_iff_lookup, hps]
  have hentries : ∀ e ∈ ps.entries, e ∈ s.gameWorld.playersList.entries := fun e he =>
    OrderedMap.mem_entries_of_lookup ((hps e.1).symm.trans (OrderedMap.lookup_of_mem_entries he))
  exact ⟨⟨fun e he => h.keysAreIDs e (hentries e he), h.fromTable,
    fun e he => h.maxTurns e (hentries e he), h.accepted,
    fun id hid => h.present id ((hmem id).mp hid), h.current.imp_right (hmem _).mpr, h.gone,
    h.distinct, h.counter⟩, rfl, rfl, rfl, List.Subset.refl _, fun id => (hmem id).mp,
    List.Sublist.refl _, fun _ => rfl⟩

/-- A client that was removed and registers leaves again with the first message to it. -/
theorem messageClient_removed (h : s.WellFormed) {c : UInt32} (hc : s.Accepted c) (hids : c ∉ s.ids)
    {order : Arrangement (OrderedMap.Entry UInt32 Player)} {p : Player} {msg : Message} {n : Nat} :
    Post (Messaged s) (messageClient (onClientDisconnect n) (some c) msg
      (s.setPlayersList (OrderedMap.insertOrAssign order c p s.gameWorld.playersList))) := by
  have hplayer : c ∉ s.gameWorld.playersList := fun hmem => hids (h.present c hmem)
  have hcur : c ≠ s.currentPlayerID := by
    rintro rfl
    exact h.current.elim hc.ne_zero hplayer
  have hclosed : c ∈ s.tick.closed := (Continues.tick h).closed ((h.gone c hc).resolve_left hids)
  intro s' hok
  unfold messageClient at hok
  rw [tick_of_connected] at hok
  have hup : (s.setPlayersList (OrderedMap.insertOrAssign order c p
      s.gameWorld.playersList)).tick.closed.contains c = true := List.contains_iff_mem.mpr hclosed
  simp only [hup, Bool.not_true] at hok
  obtain ⟨t, ht, hs'⟩ := Outcome.bind_eq_ok.mp hok
  cases hs'
  cases n with
  | zero => exact nomatch ht
  | succ n =>
    cases (onClientDisconnect_of_ne (s := (s.setPlayersList _).tick)
      (OrderedMap.mem_insertOrAssign.mpr (Or.inl rfl)) hcur).symm.trans ht
    let ps := (OrderedMap.insertOrAssign order c p s.gameWorld.playersList).erase c
    have hps : ∀ id, ps.lookup id = s.gameWorld.playersList.lookup id := by
      intro id
      by_cases hid : id = c
      · subst id
        rw [AList.lookup_erase, AList.lookup_eq_none.mpr hplayer]
      · rw [AList.lookup_erase_ne hid, OrderedMap.lookup_insertOrAssign_ne order hid]
    have hreordered := Continues.reordered h hps
    have hticked := hreordered.trans (.tick hreordered.wellFormed)
    have herased := hticked.trans (.eraseNulls hticked.wellFormed)
    refine ⟨herased.trans (.of_eq herased.wellFormed rfl rfl rfl rfl rfl rfl),
      List.filter_sublist, Or.inl ⟨rfl, hps _, rfl⟩⟩

/-- What a message makes of the world before it is answered. -/
inductive Began (c : UInt32) (msg : Message) (s : Server) : Server → Prop
  | nothing : Began c msg s s
  | entered (order : Arrangement (OrderedMap.Entry UInt32 Player)) {p : Player}
      (hid : ECustomMetaMSG.ofCode msg.header.id = some .clientRegisterOnServer) (hc : c ∈ s.ids)
      (hp : NewPlayer c p) :
      Began c msg s (s.setPlayersList (OrderedMap.insertOrAssign order c p s.gameWorld.playersList))
  | applied {action : PlayerAction} {w : GameWorld} (happroved : s.approves c action = .ok true)
      (hw : s.gameWorld.makeApprovedAction c action = .ok w) :
      Began c msg s ({ s with gameWorld := w }.log (.applied c))

theorem wellFormed_applied (h : s.WellFormed) {c : UInt32} {action : PlayerAction} {w : GameWorld}
    (hw : s.gameWorld.makeApprovedAction c action = .ok w) :
    ({ s with gameWorld := w }.log (.applied c)).WellFormed := by
  have hacted := GameWorld.makeApprovedAction_actedBy h.keysAreIDs hw
  have henemies : ∀ e ∈ w.enemyList, e.FromTable :=
    hacted.enemies.forall_mem (fun _ _ hkept he => hkept.turned.fromTable he) h.fromTable
  have hworld := Continues.world h hacted.players henemies hacted.map
  exact hworld.wellFormed.congr rfl rfl rfl rfl (List.Subset.refl _)

theorem Began.deqConnection {c : UInt32} {msg : Message} (hb : Began c msg s s') :
    s'.deqConnection = s.deqConnection := by
  cases hb <;> rfl

/-- The result of a message handler. -/
def Answered (c : UInt32) (msg : Message) (s s' : Server) : Prop :=
  ∃ t, Began c msg s t ∧ Handled t s' ∧ (s'.currentPlayerID = 0 → ∀ id, id ∉ s'.gameWorld.playersList)

theorem Answered.of_handled {c : UInt32} {msg : Message} (hs : s.Idle) (h : Handled s s') :
    Answered c msg s s' :=
  ⟨s, .nothing, h, h.vacant hs.vacant⟩

theorem Answered.idle {c : UInt32} {msg : Message} (hs : s.Idle) (h : Answered c msg s s') :
    s'.Idle := by
  obtain ⟨t, hb, ht, hvacant⟩ := h
  exact ⟨ht.wellFormed, fun hmem => hs.noNull (hb.deqConnection ▸ ht.deqConnection.subset hmem), hvacant⟩

theorem register_spec (hs : s.Idle) {c : UInt32} (hc : s.Accepted c) {msg : Message}
    (hid : ECustomMetaMSG.ofCode msg.header.id = some .clientRegisterOnServer) (n : Nat)
    (chance : Chance) :
    Post (Answered c msg s) (s.register (onClientDisconnect n) chance c msg) := by
  have hh := onClientDisconnect_spec n
  intro s' hok
  obtain ⟨⟨info, rest⟩, _, hok⟩ := Outcome.bind_eq_ok.mp hok
  obtain ⟨p, hp, hok⟩ := Outcome.bind_eq_ok.mp hok
  have hnew := clientOnRegister_spec (Outcome.ofExcept_eq_ok.mp hp)
  rw [hnew.id] at hok
  obtain ⟨t, hannounce, hok⟩ := Outcome.bind_eq_ok.mp hok
  -- a client that was removed does not stay in the game
  have hfirst : ∃ s1, Began c msg s s1 ∧ s1.Accepted c ∧ Post (Messaged s1)
      (messageClient (onClientDisconnect n) (some c)
        ((Message.ofID .clientRegisterFromServer).push Layout.player p)
        (s.setPlayersList (OrderedMap.insertOrAssign chance.order c p s.gameWorld.playersList))) := by
    by_cases hmem : c ∈ s.ids
    · exact ⟨_, .entered chance.order hid hmem hnew, hc,
        messageClient_spec hh (wellFormed_enter hs.wellFormed hmem hnew) hc⟩
    · exact ⟨s, .nothing, hc, messageClient_removed hs.wellFormed hc hmem⟩
  obtain ⟨s1, hb, hc1, hfirst⟩ := hfirst
  obtain ⟨t', ht', htt⟩ := announce_spec hh hfirst
    (fun t ht => ⟨ht.wellFormed, ht.accepted hc1⟩) t hannounce
  have hhandled : Handled s1 t := (ht'.trans htt).handled
  split at hok
  · obtain ⟨hchosen, hvacant⟩ :=
      chooseNextPlayerForTurn_handled hh hhandled.wellFormed none s' hok
    exact ⟨s1, hb, hhandled.trans hchosen, hvacant⟩
  · rename_i hne
    cases hok
    exact ⟨s1, hb, hhandled, fun h0 => absurd h0 hne⟩

theorem applyAction_spec {hook : Option UInt32 → Server → Outcome Fault Server} (hh : HookSpec hook)
    (h : s.WellFormed) {c : UInt32} (hc : s.Accepted c) {action : PlayerAction}
    (hok : s.applyAction hook c action = .ok s') :
    ∃ w, s.gameWorld.makeApprovedAction c action = .ok w ∧
      Handled ({ s with gameWorld := w }.log (.applied c)) s' := by
  obtain ⟨w, hw, hok⟩ := Outcome.bind_eq_ok.mp hok
  have hw := Outcome.ofExcept_eq_ok.mp hw
  refine ⟨w, hw, ?_⟩
  obtain ⟨t, ht, hok⟩ := Outcome.bind_eq_ok.mp hok
  have ht := messageAllClients_spec hh (wellFormed_applied h hw) t ht
  split at hok
  · exact nomatch hok
  · split at hok
    · exact ht.handled.trans (endTurn_spec hh ht.wellFormed (ht.accepted hc) s' hok)
    · cases hok
      exact ht.handled

theorem approves_mem {c : UInt32} {action : PlayerAction} (h : s.approves c action = .ok true) :
    c = s.currentPlayerID ∧ c ∈ s.gameWorld.playersList := by
  unfold approves at h
  split at h
  · rename_i hcur
    split at h
    · exact nomatch h
    · rename_i player hplayer
      exact ⟨hcur, OrderedMap.mem_iff_lookup.mpr ⟨player, hplayer⟩⟩
  · exact nomatch h

theorem actionApprove_spec {hook : Option UInt32 → Server → Outcome Fault Server} (hh : HookSpec hook)
    (hs : s.Idle) {c : UInt32} (hc : s.Accepted c) {msg : Message} :
    Post (Answered c msg s) (s.actionApprove hook c msg) := by
  intro s' hok
  obtain ⟨⟨action, rest⟩, _, hok⟩ := Outcome.bind_eq_ok.mp hok
  obtain ⟨approved, happroved, hok⟩ := Outcome.bind_eq_ok.mp hok
  have happroved := Outcome.ofExcept_eq_ok.mp happroved
  cases approved with
  | false => exact .of_handled hs (messageClient_spec hh hs.wellFormed hc s' hok).handled
  | true =>
    obtain ⟨w, hw, hhandled⟩ := applyAction_spec hh hs.wellFormed hc hok
    refine ⟨_, .applied happroved hw, hhandled, hhandled.vacant fun h0 => ?_⟩
    obtain ⟨hcur, _⟩ := approves_mem happroved
    exact absurd (hcur.trans h0) hc.ne_zero

theorem handleMessage_spec (hs : s.Idle) {c : UInt32} (hc : s.Accepted c) (msg : Message) (n : Nat)
    (chance : Chance) :
    Post (Answered c msg s) (s.handleMessage (onClientDisconnect n) chance c msg) := by
  have hh := onClientDisconnect_spec n
  have hall : ∀ m ignore, Post (Answered c msg s)
      (messageAllClients (onClientDisconnect n) m ignore s) := fun m ignore =>
    (messageAllClients_spec hh hs.wellFormed).mono fun _ h => .of_handled hs h.handled
  unfold handleMessage
  split
  · rename_i hid
    exact register_spec hs hc hid n chance
  · exact actionApprove_spec hh hs hc
  · exact hall _ _
  · refine Post.of_ok (.of_handled hs (Messaged.handled ?_))
    exact ⟨.send hs.wellFormed c msg, .refl _, .of_eq rfl rfl rfl⟩
  · split
    · exact hall _ _
    · exact Post.of_fault
  · exact Post.of_ok (.of_handled hs (.refl hs.wellFormed))

theorem onMessage_cases (hs : s.Idle) {c : UInt32} (hc : s.Accepted c) {msg : Message} {n : Nat}
    {chance : Chance} (h : s.onMessage (onClientDisconnect n) chance c msg = .ok s') :
    ∃ t, s.flushGarbage (onClientDisconnect n) = .ok t ∧ Messaged s t ∧ Answered c msg t s' := by
  obtain ⟨t, ht, h⟩ := Outcome.bind_eq_ok.mp h
  have hflush := flushGarbage_spec (onClientDisconnect_spec n) hs.wellFormed t ht
  exact ⟨t, ht, hflush, handleMessage_spec (hflush.handled.idle hs) (hflush.accepted hc) msg n chance
    s' h⟩

/-- What a step can do. -/
inductive Stepped (s : Server) : Event → Server → Prop
  | accept (hlt : s.nIDCounter < invalidID.toNat) : Stepped s .accept s.accept
  | validated (c : UInt32) (hc : s.Accepted c) :
      Stepped s (.validated c) (s.send c (.ofID .clientAccepted))
  | close (c : UInt32) (hc : s.Accepted c) : Stepped s (.close c) { s with closed := c :: s.closed }
  | shyCheck (n : Nat) {t : Server} (hok : s.shyCheckAllPlayers (onClientDisconnect n) = .ok t) :
      Stepped s (.shyCheck n) t
  | message (n : Nat) (chance : Chance) (c : UInt32) (msg : Message) {t : Server}
      (hc : s.Accepted c) (hok : s.onMessage (onClientDisconnect n) chance c msg = .ok t) :
      Stepped s (.message n chance c msg) t

theorem step_cases {e : Event} (h : step s e = some s') : Stepped s e s' := by
  cases e with
  | accept =>
    obtain ⟨hlt, h⟩ := Option.ite_none_right_eq_some.mp h
    cases h
    exact .accept hlt
  | validated c =>
    obtain ⟨hc, h⟩ := Option.ite_none_right_eq_some.mp h
    cases h
    exact .validated c hc
  | close c =>
    obtain ⟨hc, h⟩ := Option.ite_none_right_eq_some.mp h
    cases h
    exact .close c hc
  | shyCheck n =>
    simp only [step] at h
    split at h
    · rename_i hok
      cases h
      exact .shyCheck n hok
    · exact nomatch h
  | message n chance c msg =>
    obtain ⟨hc, h⟩ := Option.ite_none_right_eq_some.mp h
    split at h
    · rename_i hok
      cases h
      exact .message n chance c msg hc hok
    · exact nomatch h

theorem accept_idle (hs : s.Idle) (h : s.nIDCounter < invalidID.toNat) : s.accept.Idle := by
  have hcounter := hs.wellFormed.counter
  have hlt : s.nIDCounter < UInt32.size := hcounter.2
  have hnew : (UInt32.ofNat s.nIDCounter).toNat = s.nIDCounter := UInt32.toNat_ofNat_of_lt' hlt
  have hids : s.accept.ids = s.ids ++ [UInt32.ofNat s.nIDCounter] :=
    List.reduceOption_append _ _
  have hmono : ∀ c, s.Accepted c → s.accept.Accepted c := fun c hc => ⟨hc.1, hc.2.trans (Nat.lt_succ_self _)⟩
  refine ⟨⟨hs.wellFormed.keysAreIDs, hs.wellFormed.fromTable, hs.wellFormed.maxTurns, ?_, ?_,
    hs.wellFormed.current, ?_, ?_, ?_⟩, ?_, hs.vacant⟩
  · intro c hmem
    rw [hids] at hmem
    rcases List.mem_append.mp hmem with hmem | hmem
    · exact hmono c (hs.wellFormed.accepted c hmem)
    · rw [List.mem_singleton.mp hmem]
      exact ⟨hnew.symm ▸ hcounter.1, hnew.symm ▸ Nat.lt_succ_self _⟩
  · intro id hid
    rw [hids]
    exact List.mem_append_left _ (hs.wellFormed.present id hid)
  · intro c hc
    rw [hids]
    by_cases hold : c.toNat < s.nIDCounter
    · exact (hs.wellFormed.gone c ⟨hc.1, hold⟩).imp_left (List.mem_append_left _)
    · have heq : c.toNat = s.nIDCounter := Nat.le_antisymm (Nat.le_of_lt_succ hc.2) (Nat.not_lt.mp hold)
      refine Or.inl (List.mem_append_right _ (List.mem_singleton.mpr ?_))
      exact UInt32.toNat_inj.mp (heq.trans hnew.symm)
  · rw [hids]
    refine List.nodup_append.mpr ⟨hs.wellFormed.distinct, by simp, fun a ha b hb => ?_⟩
    rw [List.mem_singleton.mp hb]
    rintro rfl
    exact absurd (hs.wellFormed.accepted _ ha).2 (by rw [hnew]; exact Nat.lt_irrefl _)
  · have : invalidID.toNat + 1 = 2 ^ 32 := by decide
    exact ⟨hcounter.1.trans (Nat.le_succ _), by simp only [accept, send]; omega⟩
  · intro hmem
    rcases List.mem_append.mp hmem with hmem | hmem
    · exact hs.noNull hmem
    · exact nomatch List.mem_singleton.mp hmem

theorem step_idle {e : Event} (hs : s.Idle) (h : step s e = some s') : s'.Idle := by
  cases step_cases h with
  | accept hlt =>
    exact accept_idle hs hlt
  | validated c _ =>
    exact ⟨(Continues.send hs.wellFormed c _).wellFormed, hs.noNull, hs.vacant⟩
  | close c _ =>
    exact ⟨hs.wellFormed.congr rfl rfl rfl rfl (List.subset_cons_self _ _), hs.noNull, hs.vacant⟩
  | shyCheck n hok =>
    have hall := messageAllClients_spec (onClientDisconnect_spec n) hs.wellFormed s' hok
    exact hall.handled.idle hs
  | message n chance c msg hc hok =>
    obtain ⟨t, _, ht, hanswered⟩ := onMessage_cases hs hc hok
    exact hanswered.idle (ht.handled.idle hs)

theorem generateEnemy_fromTable {kind x y : Nat} {e : Enemy} (h : generateEnemy kind x y = some e) :
    e.FromTable := by
  obtain ⟨t, ht, rfl⟩ := Option.map_eq_some_iff.mp h
  exact ⟨t, List.mem_of_getElem? ht, rfl, rfl, rfl, rfl⟩

theorem start_idle (mapRand enemyRand : Nat → Nat) (closing : Nat → List UInt32) :
    (start mapRand enemyRand closing).Idle := by
  refine ⟨⟨fun e he => (nomatch he), fun e he => ?_, fun e he => (nomatch he), fun c hc => (nomatch hc),
    fun id hid => (nomatch hid), Or.inl rfl, fun c hc => ?_, .nil, ?_⟩, List.not_mem_nil,
    fun _ id hid => (nomatch hid)⟩
  · obtain ⟨i, _, hi⟩ := List.mem_filterMap.mp he
    exact generateEnemy_fromTable hi
  · exact absurd hc.2 (Nat.not_lt.mpr hc.1)
  · exact ⟨Nat.le_refl _, by simp only [start]; omega⟩

theorem Reachable.idle (h : s.Reachable) : s.Idle := by
  obtain ⟨mapRand, enemyRand, closing, events, hrun⟩ := h
  exact Machine.invariant (fun _ _ _ => step_idle) (start_idle mapRand enemyRand closing) hrun

theorem step_turn {e : Event} (hs : s.Idle) (h : step s e = some s') : TurnMoved s s' ∨
    ∃ n chance c msg t u, e = .message n chance c msg ∧ s.Accepted c ∧ Messaged s t ∧
      Began c msg t u ∧ Handled u s' := by
  cases step_cases h with
  | accept _ =>
    exact Or.inl (.of_eq rfl rfl rfl)
  | validated c _ =>
    exact Or.inl (.of_eq rfl rfl rfl)
  | close c _ =>
    exact Or.inl (.of_eq rfl rfl rfl)
  | shyCheck n hok =>
    exact Or.inl (messageAllClients_spec (onClientDisconnect_spec n) hs.wellFormed s'
      hok).turn
  | message n chance c msg hc hok =>
    obtain ⟨t, _, ht, u, hb, hu, _⟩ := onMessage_cases hs hc hok
    exact Or.inr ⟨n, chance, c, msg, t, u, rfl, hc, ht, hb, hu⟩

end Server

/-- The registration of a client with its own record. -/
def registerRequest (playerDesc : Player) : Message :=
  (Message.ofID .clientRegisterOnServer).push Layout.player playerDesc

/-- An action that a client asks for. -/
def actionRequest (action : PlayerAction) : Message :=
  (Message.ofID .serverGamePlayerActionApprove).push Layout.playerAction action

/-- One value of `rand` all the time, and new players come first. -/
def Chance.always (r : Nat) : Chance := ⟨fun _ => r, .same _⟩

end AsciiTerra
