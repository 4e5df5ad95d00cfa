import AsciiTerra.MirroredTurns

/-!
# The worlds of the clients

A client that has processed what it was sent has the world of the server, in every run in which
no player is found to have left, no enemy is dead as its turn comes, and a turn is given to a
player whose counter is full.
-/

set_option autoImplicit false

namespace AsciiTerra

open Outcome (Below Post)

namespace Server
variable {s t : Server} {m : Option Fault}
variable {order : Arrangement (OrderedMap.Entry UInt32 Player)} {map : Map}

section Spared
variable {n : Nat}

theorem Kept.trans {u : Server} (h : Kept s t) (h' : Kept t u) : Kept s u :=
  ⟨h'.gameWorld.trans h.gameWorld, h'.currentPlayerID.trans h.currentPlayerID,
    h'.garbageIDs.trans h.garbageIDs, h'.wellFormed⟩

section Announce
variable {base : GameWorld} {p : Player} {got got' : Prop} {k k' : Nat} {keys keys' : List UInt32}

theorem entering_told (hk : Kept s t) (hp : p.id ∈ s.gameWorld.playersList) {msg : Message}
    (hshown : Shown order map
      (fun e c => c.Entering base s.gameWorld p got k keys e) t)
    (hstep : ∀ cl cl' : Client, cl.Joins s.gameWorld p got k keys →
      cl.updatePlayer order msg = .ok cl' → cl'.Joins s.gameWorld p got' k' keys') :
    Post (fun u => Kept s u ∧
        Shown order map (fun e c => c.Entering base s.gameWorld p got' k' keys' e) u)
      (messageClient (spared m n) (some p.id) msg t) := by
  have hpt : p.id ∈ t.gameWorld.playersList := hk.gameWorld ▸ hp
  refine (messageClient_shown hk.wellFormed (hk.wellFormed.accepted_of_mem hpt) hshown ?_ ?_).mono
    fun u ⟨hu, hshown'⟩ => ⟨hk.trans hu, hshown'⟩
  · intro cl cl' hcl hok
    exact ⟨fun _ => hstep cl cl' (hcl.self rfl) hok, fun hne => absurd rfl hne⟩
  · intro e cl hne hcl
    have hother : e ≠ p.id := fun he => hne ⟨he, hpt⟩
    exact ⟨fun he => absurd he hother, hcl.other⟩

theorem sendEnemy_entering (hk : Kept s t) (hp : p.id ∈ s.gameWorld.playersList) {i : Nat}
    (hshown : Shown order map (fun e c => c.Entering base s.gameWorld p True i [] e) t) :
    Post (fun u => Kept s u ∧
        Shown order map (fun e c => c.Entering base s.gameWorld p True (i + 1) [] e) u)
      (sendEnemy (spared m n) p.id t i) := by
  unfold sendEnemy
  split
  · exact Post.of_fault
  · rename_i enemy henemy
    rw [hk.gameWorld] at henemy
    refine entering_told hk hp hshown fun cl cl' hcl hok => ?_
    rw [Client.updatePlayer_enemy] at hok
    cases hok
    refine ⟨hcl.playerID, hcl.players, hcl.known, hcl.map, ?_⟩
    change cl.gameWorld.enemyList ++ [enemy] = _
    rw [hcl.enemies, List.take_add_one, henemy]
    rfl

theorem sendOtherPlayer_entering (hk : Kept s t) (hwf : s.WellFormed)
    (hp : p.id ∈ s.gameWorld.playersList) {key : UInt32}
    (hshown : Shown order map (fun e c => c.Entering base s.gameWorld p True k keys e) t) :
    Post (fun u => Kept s u ∧
        Shown order map (fun e c => c.Entering base s.gameWorld p True k (keys ++ [key]) e) u)
      (sendOtherPlayer (spared m n) p.id p t key) := by
  have hskip : key = p.id ∨ s.gameWorld.playersList.lookup key = none →
      Shown order map (fun e c => c.Entering base s.gameWorld p True k (keys ++ [key]) e) t :=
    fun hkey => hshown.mono fun e c hc => ⟨fun he => (hc.self he).skip hkey, hc.other⟩
  unfold sendOtherPlayer
  split
  · rename_i hnone
    rw [hk.gameWorld] at hnone
    exact Post.of_ok ⟨hk, hskip (Or.inr hnone)⟩
  · rename_i player hplayer
    rw [hk.gameWorld] at hplayer
    have hid := hwf.keysAreIDs.id_eq hplayer
    split
    · rename_i hself
      exact Post.of_ok ⟨hk, hskip (Or.inl (hid.symm.trans hself))⟩
    · have hadded : Post (fun u => Kept s u ∧
            Shown order map (fun e c => c.Entering base s.gameWorld p True k (keys ++ [key]) e) u)
          (messageClient (spared m n) (some p.id)
            ((Message.ofID .clientAddPlayer).push Layout.player player) t) := by
        refine entering_told hk hp hshown fun cl cl' hcl hok => ?_
        rw [Client.updatePlayer_add] at hok
        cases hok
        exact hid ▸ hcl.add (hid.symm ▸ hplayer)
      refine Post.bind hadded fun u hu => ?_
      split
      · exact Post.of_ok hu
      · exact Post.of_fault

/-- The new player gets the whole world, the others get the new player. -/
theorem announce_mirrored (hwf : s.WellFormed) (hgarbage : s.garbageIDs = [])
    (hp : p.id ∈ s.gameWorld.playersList)
    (hworld : ∃ o, s.gameWorld =
      { base with playersList := OrderedMap.insertOrAssign o p.id p base.playersList })
    (hnew : p.id ∉ base.playersList)
    (hs : Shown order map (fun e c => c.Follows base e) s) :
    Post (fun t => Kept s t ∧ Mirrored order map t) (s.announce (spared m n) p.id p) := by
  obtain ⟨o, hworld⟩ := hworld
  have hacc := hwf.accepted_of_mem hp
  have hregistered : Post (fun u => Kept s u ∧
        Shown order map (fun e c => c.Entering base s.gameWorld p False 0 [] e) u)
      (messageClient (spared m n) (some p.id)
        ((Message.ofID .clientRegisterFromServer).push Layout.player p) s) := by
    refine messageClient_shown hwf hacc hs ?_ ?_
    · intro cl cl' hcl hok
      rw [Client.updatePlayer_register] at hok
      cases hok
      refine ⟨fun _ => ?_, fun hne => absurd rfl hne⟩
      rw [hworld]
      exact (hcl.waiting hnew).join
    · intro e cl hne hcl
      have hother : e ≠ p.id := fun he => hne ⟨he, hp⟩
      exact ⟨fun he => absurd he hother, fun _ => hcl⟩
  refine Post.bind hregistered fun t1 ⟨hk1, h1⟩ => ?_
  have hmapped : Post (fun u => Kept s u ∧
        Shown order map (fun e c => c.Entering base s.gameWorld p True 0 [] e) u)
      (messageClient (spared m n) (some p.id)
        ((Message.ofID .clientUpdateMap).push Layout.map t1.gameWorld.gameWorldMap) t1) := by
    refine entering_told hk1 hp h1 fun cl cl' hcl hok => ?_
    rw [hk1.gameWorld, Client.updatePlayer_map] at hok
    cases hok
    exact ⟨hcl.playerID, hcl.players, hcl.known, fun _ => rfl, hcl.enemies⟩
  refine Post.bind hmapped fun t2 ⟨hk2, h2⟩ => ?_
  have henemies : Post (fun u => Kept s u ∧ Shown order map (fun e c =>
        c.Entering base s.gameWorld p True t2.gameWorld.enemyList.length [] e) u)
      ((List.range t2.gameWorld.enemyList.length).foldlM (sendEnemy (spared m n) p.id) t2) :=
    Post.foldlM_range (I := fun i u => Kept s u ∧
        Shown order map (fun e c => c.Entering base s.gameWorld p True i [] e) u)
      ⟨hk2, h2⟩ fun i u _ ⟨hu, hshown⟩ => sendEnemy_entering hu hp hshown
  refine Post.bind henemies fun t3 ⟨hk3, h3⟩ => ?_
  have hplayers : s.gameWorld.playersList =
      OrderedMap.insertOrAssign o p.id p base.playersList := congrArg GameWorld.playersList hworld
  have hbroadcast : Post (fun u => Kept t3 u ∧ Shown order map (fun e c =>
        c.Entering s.gameWorld s.gameWorld p True t2.gameWorld.enemyList.length [] e) u)
      (messageAllClients (spared m n) ((Message.ofID .clientAddPlayer).push Layout.player p)
        (some p.id) t3) := by
    refine messageAllClients_shown hk3.wellFormed h3 ?_ ?_
    · intro e cl cl' hne hcl hok
      have hother : e ≠ p.id := fun he => hne (congrArg some he)
      rw [Client.updatePlayer_add] at hok
      cases hok
      refine ⟨fun he => absurd he hother, fun _ => ?_⟩
      rw [hworld]
      exact (hcl.other hother).enter hother
    · intro e cl hout hcl
      refine ⟨hcl.self, fun hother => ?_⟩
      have hleft : e ∉ s.gameWorld.playersList := by
        rcases hout with hout | hout
        · rwa [hk3.gameWorld] at hout
        · exact absurd (Option.some.inj hout) hother
      refine ⟨fun he => absurd he hleft, fun _ => ?_⟩
      have hmono : ∀ id ∈ base.playersList, id ∈ s.gameWorld.playersList := by
        intro id hid
        rw [hplayers]
        exact OrderedMap.mem_insertOrAssign.mpr (Or.inr hid)
      exact ((hcl.other hother).waiting fun he => hleft (hmono e he)).mono hmono
  refine Post.bind hbroadcast fun t4 ⟨hk34, h4⟩ => ?_
  have hk4 := hk3.trans hk34
  have hothers : Post (fun u => Kept s u ∧ Shown order map (fun e c => c.Entering s.gameWorld
        s.gameWorld p True t2.gameWorld.enemyList.length t4.gameWorld.playersList.keys e) u)
      (t4.gameWorld.playersList.keys.foldlM (sendOtherPlayer (spared m n) p.id p) t4) :=
    Post.foldlM_prefix (I := fun keys u => Kept s u ∧ Shown order map (fun e c => c.Entering
        s.gameWorld s.gameWorld p True t2.gameWorld.enemyList.length keys e) u)
      ⟨hk4, h4⟩ fun before key after u _ ⟨hu, hshown⟩ =>
        sendOtherPlayer_entering hu hwf hp hshown
  refine hothers.mono fun t ⟨hk, hshown⟩ => ⟨hk, hk.wellFormed, hk.garbageIDs.trans hgarbage, ?_⟩
  rw [hk2.gameWorld, hk4.gameWorld] at hshown
  rw [hk.gameWorld]
  refine hshown.mono fun e c hc => ?_
  by_cases he : e = p.id
  · subst he
    exact ⟨fun _ => (hc.self rfl).mirrors, fun hout => absurd hp hout⟩
  · exact hc.other he

end Announce

theorem register_mirrored (h : Mirrored order map s) (hidle : s.Idle) {c : UInt32}
    (hc : s.Accepted c) (hnew : c ∉ s.gameWorld.playersList) (chance : Chance) (msg : Message) :
    Post (Mirrored order map) (s.register (spared m n) chance c msg) := by
  intro t ht
  obtain ⟨⟨info, rest⟩, -, ht1⟩ := Outcome.bind_eq_ok.mp ht
  obtain ⟨p, hp, ht2⟩ := Outcome.bind_eq_ok.mp ht1
  have hplayer := clientOnRegister_spec (Outcome.ofExcept_eq_ok.mp hp)
  obtain ⟨u, hu, ht3⟩ := Outcome.bind_eq_ok.mp ht2
  obtain rfl := hplayer.id
  let s0 := s.setPlayersList (OrderedMap.insertOrAssign chance.order p.id p s.gameWorld.playersList)
  have hmem : p.id ∈ s0.gameWorld.playersList := OrderedMap.mem_insertOrAssign.mpr (Or.inl rfl)
  have hids : p.id ∈ s.ids := by
    refine (h.wellFormed.gone p.id hc).resolve_right fun hclosed => ?_
    -- the first message to a closed client would remove it again
    obtain ⟨v, hv, -⟩ := Outcome.bind_eq_ok.mp hu
    have hup : p.id ∈ s0.tick.closed := List.mem_append_right _ hclosed
    rw [messageClient_closed hup] at hv
    obtain ⟨v', hv', -⟩ := Outcome.bind_eq_ok.mp hv
    exact (spared_eq_ok hv').1 hmem
  have hwf : s0.WellFormed := wellFormed_enter h.wellFormed hids hplayer
  have hshown : Shown order map (fun e c => c.Follows s.gameWorld e) s0 := h.shown.congr rfl
  obtain ⟨hk, hmirrored⟩ :=
    announce_mirrored hwf h.garbage hmem ⟨chance.order, rfl⟩ hnew hshown u hu
  split at ht3
  · rename_i h0
    have hvacant := hidle.vacant (hk.currentPlayerID ▸ h0)
    refine chooseNextPlayerForTurn_mirrored hmirrored ?_ t ht3
    intro v hv
    obtain ⟨hcontinues, -, -, hcur⟩ :=
      passTurn_spec (spared_spec m n) (hmirrored.log .choosing).wellFormed none v hv
    unfold passTurn giveToFirst at hv
    simp only at hv
    split at hv
    · cases hv
    · rename_i first rest hentries
      cases hv
      have hfirst : first ∈ u.gameWorld.playersList.entries := by
        change first ∈ (u.log .choosing).gameWorld.playersList.entries
        simp [hentries]
      have honly : ∀ e ∈ u.gameWorld.playersList, e = p.id := by
        intro e he
        rw [hk.gameWorld] at he
        exact (OrderedMap.mem_insertOrAssign.mp he).resolve_right (hvacant e)
      refine ⟨⟨hcontinues.wellFormed, hmirrored.garbage, hmirrored.shown.congr rfl⟩, hcur,
        turnFits_of_entry (s := u) hmirrored.wellFormed.keysAreIDs hfirst (Or.inr ?_)⟩
      intro e he
      rw [honly e he]
      refine (honly _ ?_).symm
      rw [hmirrored.wellFormed.keysAreIDs first hfirst]
      exact OrderedMap.mem_of_mem_entries hfirst
  · cases ht3
    exact hmirrored

/-- If an action ends the turn of its player, the turn ends fairly. -/
def EndsFairly (s : Server) : Event → Prop
  | .message _ _ c msg => ∀ action rest w p,
      ECustomMetaMSG.ofCode msg.header.id = some .serverGamePlayerActionApprove →
      msg.pop Layout.playerAction = .ok (action, rest) → s.approves c action = .ok true →
      s.gameWorld.makeApprovedAction c action = .ok w → w.playersList.lookup c = some p →
      p.getCurrentTurnActions ≤ 0 → PassesFairly w c
  | _ => True

theorem approves_checks {c : UInt32} {action : PlayerAction} (h : s.approves c action = .ok true) :
    action.playerID ∈ s.gameWorld.playersList := by
  unfold approves at h
  split at h
  · split at h
    · cases h
    · split at h
      · obtain ⟨player, hplayer, -⟩ := except_bind_eq_ok.mp h
        exact OrderedMap.mem_iff_lookup.mpr ⟨player, GameWorld.playerAt_eq_ok.mp hplayer⟩
      · cases h
  · cases h

/-- An action of an honest client that is approved names the client. -/
theorem playerID_of_approved (hwf : s.WellFormed) {c : UInt32} {msg rest : Message}
    {action : PlayerAction} (hsends : ClientSends c msg)
    (hid : ECustomMetaMSG.ofCode msg.header.id = some .serverGamePlayerActionApprove)
    (hpop : msg.pop Layout.playerAction = .ok (action, rest))
    (happroved : s.approves c action = .ok true) : action.playerID = c := by
  have hmem := approves_checks happroved
  cases hsends with
  | ping hping =>
    rw [hping, ECustomMetaMSG.ofCode_code] at hid
    cases hid
  | messageAll => simp at hid
  | justCheck => simp at hid
  | register playerDesc => simp [registerRequest] at hid
  | approve _ hnames =>
    unfold actionRequest at hpop
    rw [Message.pop_push] at hpop
    cases hpop
    refine hnames.resolve_right fun hzero => ?_
    exact (hwf.accepted_of_mem hmem).ne_zero hzero

theorem actionApprove_mirrored (h : Mirrored order map s) {c : UInt32} (hc : s.Accepted c)
    (hlength : s.gameWorld.enemyList.length < 2 ^ 32) {msg : Message} (hsends : ClientSends c msg)
    (hid : ECustomMetaMSG.ofCode msg.header.id = some .serverGamePlayerActionApprove)
    {depth : Nat} {chance : Chance} (hfair : s.EndsFairly (.message depth chance c msg)) :
    Post (Mirrored order map) (s.actionApprove (spared m n) c msg) := by
  intro t ht
  obtain ⟨⟨action, rest⟩, hpop, ht1⟩ := Outcome.bind_eq_ok.mp ht
  obtain ⟨approved, happroved, ht2⟩ := Outcome.bind_eq_ok.mp ht1
  replace hpop := Outcome.ofExcept_eq_ok.mp hpop
  replace happroved := Outcome.ofExcept_eq_ok.mp happroved
  cases approved with
  | true =>
    have hmem := (approves_mem happroved).2
    have hnames := playerID_of_approved h.wellFormed hsends hid hpop happroved
    refine applyAction_mirrored h hmem hlength hnames ?_ t ht2
    exact fun w q hw hq hlast => hfair action rest w q hid hpop happroved hw hq hlast
  | false =>
    have hreply : Post (fun u => Kept s u ∧ Mirrored order map u)
        (messageClient (spared m n) (some c)
          ((Message.ofID .gamePlayerActionAborted).push Layout.playerAction action) s) :=
      messageClient_mirrored h hc .gamePlayerActionAborted (by simp) (by decide)
    exact (hreply t ht2).2

theorem handleMessage_mirrored (h : Mirrored order map s) (hidle : s.Idle) {c : UInt32}
    (hc : s.Accepted c) (hlength : s.gameWorld.enemyList.length < 2 ^ 32) {msg : Message}
    (hsends : ClientSends c msg)
    (honce : ECustomMetaMSG.ofCode msg.header.id = some .clientRegisterOnServer →
      c ∉ s.gameWorld.playersList)
    {depth : Nat} {chance : Chance} (hfair : s.EndsFairly (.message depth chance c msg)) :
    Post (Mirrored order map) (s.handleMessage (spared m n) chance c msg) := by
  unfold handleMessage
  split
  · exact register_mirrored h hidle hc (honce ‹_›) chance msg
  · exact actionApprove_mirrored h hc hlength hsends ‹_› hfair
  · rename_i hid
    exact absurd hid hsends.not_update
  · rename_i hid
    refine Post.of_ok ⟨h.wellFormed.congr rfl rfl rfl rfl (List.Subset.refl _), h.garbage, ?_⟩
    exact shown_send h.shown .serverPing hid (by decide)
  · split
    · exact (messageAllClients_mirrored h .serverMessage (by simp) (by decide)).mono
        fun _ ht => ht.2
    · exact Post.of_fault
  · exact Post.of_ok h

end Spared

/-- The client behaves like `CustomClient`, which registers once. -/
def Behaves (s : Server) : Event → Prop
  | .message _ _ c msg => ClientSends c msg ∧
      (ECustomMetaMSG.ofCode msg.header.id = some .clientRegisterOnServer →
        c ∉ s.gameWorld.playersList)
  | _ => True

/-- No player is found to have left, and a turn that ends, ends fairly. -/
structure Calm (s : Server) (event : Event) : Prop where
  stays : Uncut spared s event
  fair : s.EndsFairly event

theorem reachable_step {event : Event} (h : s.Reachable) (hstep : step s event = some t) :
    t.Reachable := by
  obtain ⟨mapRand, enemyRand, closing, events, hrun⟩ := h
  have hlast : Machine.run Server.step s [event] = some t :=
    Machine.run_cons_eq_some.mpr ⟨t, hstep, rfl⟩
  exact ⟨mapRand, enemyRand, closing, events ++ [event],
    Machine.run_append_eq_some.mpr ⟨s, hrun, hlast⟩⟩

theorem start_mirrored (mapRand enemyRand : Nat → Nat) (closing : Nat → List UInt32) :
    Mirrored order map (start mapRand enemyRand closing) := by
  refine ⟨(start_idle mapRand enemyRand closing).wellFormed, rfl, fun e c hc => ?_⟩
  cases hc
  refine ⟨fun he => absurd he (by simp [start]), fun _ => ⟨rfl, fun e he => (nomatch he), ?_⟩⟩
  exact fun id hid => absurd hid (by simp [Client.start])

theorem step_mirrored {event : Event} (hs : s.Reachable) (h : Mirrored order map s)
    (hbehaves : s.Behaves event) (hcalm : s.Calm event) (hstep : step s event = some t) :
    Mirrored order map t := by
  have hidle := hs.idle
  have hidlet := step_idle hidle hstep
  have hreal := hcalm.stays.handler_eq (fun _ => spared_below) none
  have hok : handler (spared none) s event = .ok t := hreal ▸ handler_of_step hstep
  cases step_cases hstep with
  | accept _ =>
    have hsent : Shown order map (fun e c => c.Follows s.gameWorld e)
        (s.send (UInt32.ofNat s.nIDCounter) (.ofID .serverAccept)) :=
      shown_send h.shown .serverAccept (by simp) (by decide)
    exact ⟨hidlet.wellFormed, h.garbage, hsent.congr rfl⟩
  | validated c _ =>
    exact ⟨hidlet.wellFormed, h.garbage,
      shown_send h.shown .clientAccepted (by simp) (by decide)⟩
  | close c _ => exact ⟨hidlet.wellFormed, h.garbage, h.shown.congr rfl⟩
  | shyCheck n _ =>
    have hall : Post (fun u => Kept s u ∧ Mirrored order map u)
        (messageAllClients (spared none n) (.ofID .serverShyConnectionCheck) none s) :=
      messageAllClients_mirrored h .serverShyConnectionCheck (by decide) (by decide)
    exact (hall t hok).2
  | message n chance c msg hc _ =>
    obtain ⟨u, hu, hok⟩ := Outcome.bind_eq_ok.mp hok
    cases (flushGarbage_of_nil _ h.garbage).symm.trans hu
    exact handleMessage_mirrored h hidle hc hs.served.length hbehaves.1 hbehaves.2 hcalm.fair t hok

/-- In a run in which no player is found to have left and turns end fairly, a registered client
that has processed what it was sent has the world of the server. -/
theorem replicas_agree {mapRand enemyRand : Nat → Nat} {closing : Nat → List UInt32}
    {events : List Event}
    (hcalm : Machine.Along step (fun s event => s.Behaves event ∧ s.Calm event)
      (start mapRand enemyRand closing) events)
    (hrun : Machine.run step (start mapRand enemyRand closing) events = some s) {e : UInt32}
    (he : e ∈ s.gameWorld.playersList)
    (order : Arrangement (OrderedMap.Entry UInt32 Player)) (map : Map) :
    Knows order map (fun c => c.playerID = e ∧ s.gameWorld.Agrees c.gameWorld) (s.stream e) := by
  have hall := Machine.invariant_along (I := fun s : Server => s.Reachable ∧ Mirrored order map s)
    (fun s event t ⟨hs, hmirrored⟩ ⟨hbehaves, hcalm⟩ hstep =>
      ⟨reachable_step hs hstep, step_mirrored hs hmirrored hbehaves hcalm hstep⟩)
    ⟨⟨mapRand, enemyRand, closing, [], rfl⟩, start_mirrored mapRand enemyRand closing⟩ hcalm hrun
  refine (hall.2.shown e).mono fun c hc => ?_
  obtain ⟨hid, hagrees⟩ := hc.registered he
  exact ⟨hid, hagrees⟩

/-- The enemies are armed and none of them is found dead in their turn. -/
def enemiesLive (w : GameWorld) : Bool :=
  (w.enemyList.all fun e =>
    (e.inventory.storage[e.equipedItemID.toNat]?).any fun slot => slot.empty = false) &&
  decide (w.enemyList.length < 2 ^ 32) &&
  decide ((aiTurn w >>= fun st => .ok st.enemyListDirt) = .ok false)

theorem noneDeadInTurn_of_enemiesLive {w : GameWorld} (h : enemiesLive w = true) :
    NoneDeadInTurn w w.enemyList.length := by
  obtain ⟨h, hdirt⟩ := Bool.and_eq_true_iff.mp h
  obtain ⟨harmed, hlength⟩ := Bool.and_eq_true_iff.mp h
  obtain ⟨st, hst, hdirt⟩ := Outcome.bind_eq_ok.mp (of_decide_eq_true hdirt)
  cases hclean : st.enemyListDirt with
  | true =>
    rw [hclean] at hdirt
    cases hdirt
  | false =>
    have harmed : w.AllArmed := by
      intro e he
      obtain ⟨slot, hslot, hempty⟩ := (Option.any_eq_true _ _).mp (List.all_eq_true.mp harmed e he)
      exact ⟨slot, hslot, of_decide_eq_true hempty⟩
    have hsummary := enemyTurns_summary harmed (Nat.le_of_lt (of_decide_eq_true hlength)) hst
    by_contra hdead
    rw [hsummary.dirt.mpr hdead] at hclean
    cases hclean

/-- `c` asks for a move, and if that ends its turn, the turn passes fairly. -/
def movesCalmly (s : Server) (c : UInt32) (msg : Message) : Bool :=
  (msg.pop Layout.playerAction).toOption.any fun (action, _) =>
    decide (msg = actionRequest action ∧ action.actionType = EPlayerActionType.move.code ∧
      action.playerID = c) &&
    (s.gameWorld.makeApprovedAction c action).toOption.all fun w =>
      (w.playersList.lookup c).all (fun p => 0 < p.getCurrentTurnActions) ||
      (decide (OrderedMap.after c w.playersList ≠ []) || enemiesLive w) &&
        (nextPlayer c w).all fun p =>
          decide (p.currentTurns = p.maxTurns) || decide (w.playersList.keys ⊆ [p.id])

/-- No player is found to have left, and a client checks the connection, registers for the first
time or moves. -/
def playsCalmly (s : Server) (event : Event) : Bool :=
  (match handler (spared none) s event with
  | .deep => false
  | _ => true) &&
  match event with
  | .message _ _ c msg =>
    decide (msg = .ofID .clientJustCheck) ||
      decide (msg = registerRequest Player.default ∧ c ∉ s.gameWorld.playersList) ||
      s.movesCalmly c msg
  | _ => true

theorem endsFairly_of_movesCalmly {depth : Nat} {chance : Chance} {c : UInt32} {msg : Message}
    (h : s.movesCalmly c msg = true) :
    ClientSends c msg ∧ ECustomMetaMSG.ofCode msg.header.id = some .serverGamePlayerActionApprove ∧
      s.EndsFairly (.message depth chance c msg) := by
  obtain ⟨⟨action, rest⟩, hpop, h⟩ := (Option.any_eq_true _ _).mp h
  obtain ⟨hmoves, hpasses⟩ := Bool.and_eq_true_iff.mp h
  obtain ⟨rfl, hmove, hnames⟩ := of_decide_eq_true hmoves
  refine ⟨.approve hmove (Or.inl hnames), rfl, ?_⟩
  intro action' rest' w p _ hpop' _ hw hp hlast
  rw [hpop'] at hpop
  cases hpop
  rw [hw] at hpasses
  rcases Bool.or_eq_true_iff.mp hpasses with hleft | hpasses
  · rw [hp] at hleft
    exact absurd (of_decide_eq_true hleft) (by simpa using hlast)
  · obtain ⟨henemies, hnext⟩ := Bool.and_eq_true_iff.mp hpasses
    refine ⟨fun hround => ?_, fun q hq => ?_⟩
    · rcases Bool.or_eq_true_iff.mp henemies with hmore | hlive
      · exact absurd hround (of_decide_eq_true hmore)
      · exact noneDeadInTurn_of_enemiesLive hlive
    · rw [hq] at hnext
      rcases Bool.or_eq_true_iff.mp hnext with hfull | honly
      · exact Or.inl (of_decide_eq_true hfull)
      · have hall := of_decide_eq_true honly
        exact Or.inr fun e he => List.mem_singleton.mp (hall (AList.mem_keys.mp he))

theorem calm_of_playsCalmly {event : Event} (h : playsCalmly s event = true) :
    s.Behaves event ∧ s.Calm event := by
  obtain ⟨hdeep, hplays⟩ := Bool.and_eq_true_iff.mp h
  have hstays : Uncut spared s event := by
    refine uncut_of_ne_deep (fun m n client s => spared_below_spared m n client s) fun heq => ?_
    rw [heq] at hdeep
    cases hdeep
  cases event with
  | message depth chance c msg =>
    rcases Bool.or_eq_true_iff.mp hplays with hplays | hmoves
    · rcases Bool.or_eq_true_iff.mp hplays with hcheck | hregisters
      · obtain rfl := of_decide_eq_true hcheck
        exact ⟨⟨.justCheck, by simp⟩, hstays, fun action rest w p hid => by simp at hid⟩
      · obtain ⟨rfl, hnew⟩ := of_decide_eq_true hregisters
        refine ⟨⟨.register _, fun _ => hnew⟩, hstays, fun action rest w p hid => ?_⟩
        simp [registerRequest] at hid
    · obtain ⟨hsends, hid, hfair⟩ := endsFairly_of_movesCalmly hmoves
      refine ⟨⟨hsends, fun hregister => ?_⟩, hstays, hfair⟩
      cases hid.symm.trans hregister
  | accept | validated _ | close _ | shyCheck _ => exact ⟨trivial, hstays, trivial⟩

/-- The first player uses up its turn, four zombies strike the second one, and it takes a step. -/
def secondSteps : List Event :=
  oneAmongZombies ++ [.message 0 (.always 0) 10001 (actionRequest (moveDown 10001))]

theorem replicas_agree_turns : ∃ s : Server,
    Machine.run step (start (fun _ => 0) (zombies 4) fun _ => []) secondSteps = some s ∧
    s.gameWorld.enemyList.length = 4 ∧ s.currentPlayerID = 10001 ∧
    (s.gameWorld.playersList.lookup 10001).map (fun p => (p.hp, p.currentTurns.val)) = some (9, 3) ∧
    ∀ e ∈ [10000, 10001], ∀ order map,
      Knows order map (fun c => c.playerID = e ∧ s.gameWorld.Agrees c.gameWorld) (s.stream e) := by
  have hcalm : Machine.Along step (fun s event => playsCalmly s event = true)
      (start (fun _ => 0) (zombies 4) fun _ => []) secondSteps := by decide +kernel
  have hrun : ((Machine.run step (start (fun _ => 0) (zombies 4) fun _ => []) secondSteps).map
      fun s => (decide ([10000, 10001] ⊆ s.gameWorld.playersList.keys),
        s.gameWorld.enemyList.length, s.currentPlayerID,
        (s.gameWorld.playersList.lookup 10001).map fun p => (p.hp, p.currentTurns.val))) =
      some (true, 4, 10001, some (9, 3)) := by decide +kernel
  obtain ⟨s, hs, h⟩ := Option.map_eq_some_iff.mp hrun
  obtain ⟨hmem, h⟩ := Prod.mk.inj h
  obtain ⟨henemies, h⟩ := Prod.mk.inj h
  obtain ⟨hcur, hsecond⟩ := Prod.mk.inj h
  refine ⟨s, hs, henemies, hcur, hsecond, fun e he order map => ?_⟩
  exact replicas_agree (hcalm.mono fun _ _ h => calm_of_playsCalmly h) hs
    (AList.mem_keys.mpr (of_decide_eq_true hmem he)) order map

/-- The client of the second player counts other actions for the first one than the server. -/
def countsDiffer (s : Server) : Bool :=
  match (Client.start (generateMap fun _ => 0)).updates (Chance.always 10).order
      (s.stream 10001) with
  | .ok c => decide (10001 ∈ s.gameWorld.playersList) &&
      (s.gameWorld.playersList.lookup 10000).map Player.currentTurns !=
        (c.gameWorld.playersList.lookup 10000).map Player.currentTurns
  | .error _ => false

/-- Two players use up their turns: the counter of the first one is full again on the server, and
not on the client of the second one. -/
theorem replicas_differ : ∃ s : Server, s.HonestlyReachable ∧
    10001 ∈ s.gameWorld.playersList ∧ ∃ order map c,
      (Client.start map).updates order (s.stream 10001) = .ok c ∧
        ¬ s.gameWorld.Agrees c.gameWorld := by
  have hrun : (Machine.run step (start (fun _ => 0) (fun _ => 0) fun _ => [])
      secondTurn.dropLast).map countsDiffer = some true := by decide +kernel
  obtain ⟨s, hs, hdiffer⟩ := Option.map_eq_some_iff.mp hrun
  have hhonest : Honest secondTurn.dropLast := fun depth chance e msg hmem =>
    honest_secondTurn depth chance e msg (List.mem_of_mem_dropLast hmem)
  unfold countsDiffer at hdiffer
  split at hdiffer
  · rename_i c hc
    obtain ⟨hmem, hcounts⟩ := Bool.and_eq_true_iff.mp hdiffer
    refine ⟨s, ⟨_, _, _, _, hhonest, hs⟩, of_decide_eq_true hmem, _, _, c, hc, fun hagrees => ?_⟩
    rw [hagrees.players] at hcounts
    simp at hcounts
  · cases hdiffer

end Server

end AsciiTerra
