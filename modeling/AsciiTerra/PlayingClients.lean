import AsciiTerra.TurnMessages

/-!
# Exactly one client plays

Between two handlers the current player is the one client, among those whose sockets are open,
that was told that it has the turn, and nobody is told of the end of a turn that it does not
have.
-/

set_option autoImplicit false

namespace AsciiTerra

namespace Server
variable {s t u : Server} {a c : UInt32} {msg : Message}

open Outcome (Post)

/-- The turn is known, and it is still that of `a` or `a` has left. -/
def Holding (a : UInt32) (s : Server) : Prop :=
  s.TurnKnown ∧ (s.currentPlayerID = a ∨ a ∉ s.table)

theorem TurnKnown.holding (h : s.TurnKnown) : Holding s.currentPlayerID s := ⟨h, .inl rfl⟩

theorem Holding.unmarked (h : Unmarked s t) (hcur : t.currentPlayerID = s.currentPlayerID)
    (htable : t.table = s.table) (hs : Holding a s) : Holding a t :=
  ⟨h.turnKnown hcur (htable ▸ List.Subset.refl _) hs.1, by rw [hcur, htable]; exact hs.2⟩

/-- Nobody has the turn before the first one. -/
theorem TurnKnown.nonePlays (h : s.TurnKnown) (hcur : s.currentPlayerID = 0) : s.NonePlays := by
  intro c hopen hplaying
  obtain ⟨hc, hne⟩ := h.only c hopen hplaying
  exact hne (hc.trans hcur)

section Hook
variable {hook : Option UInt32 → Server → Outcome Fault Server} (hh : TurnHook hook)
include hh

theorem hook_holding (h : s.WellFormed) (hc : s.Accepted c) (hclosed : c ∈ s.closed)
    (hs : Holding a s) : Post (Holding a) (hook (some c) s) := by
  intro t ht
  have hgone := hh.spec.disconnected c s h hc hclosed t ht
  by_cases hcur : c = s.currentPlayerID
  · subst hcur
    have hpassed := hh.passed s h hc.ne_zero hclosed (hs.1.only.nonePlays hclosed) t ht
    refine ⟨hpassed.turnKnown, .inr fun hmem => ?_⟩
    rcases hs.2 with ha | ha
    · exact hgone.left (mem_table.mp (ha ▸ hmem))
    · exact ha (hpassed.fewer.subset hmem)
  · obtain ⟨hunmarked, hfewer⟩ := hh.other c s hcur t ht
    have hsame := (hgone.kept hcur).currentPlayerID
    refine ⟨hunmarked.turnKnown hsame hfewer.subset hs.1, ?_⟩
    rw [hsame]
    exact hs.2.imp_right fun ha hmem => ha (hfewer.subset hmem)

theorem messageAllClients_holding {ignore : Option UInt32} (hmsg : msg.turnMark = none)
    (h : s.WellFormed) (hs : Holding a s) : Post (fun t => Messaged s t ∧ Holding a t)
      (messageAllClients hook msg ignore s) :=
  (messageAllClients_spec hh.spec h).and (messageAllClients_keeps hh
    (fun _ _ hunmarked hcur htable => Holding.unmarked hunmarked hcur htable)
    (fun _ _ hwf hc hclosed => hook_holding hh hwf hc hclosed) hmsg h hs)

theorem messageClient_holding (hmsg : msg.turnMark = none) (h : s.WellFormed) (hc : s.Accepted c)
    (hs : Holding a s) : Post (fun t => Messaged s t ∧ Holding a t)
      (messageClient hook (some c) msg s) := by
  refine (messageClient_spec hh.spec h hc).and ?_
  have htick : Holding a s.tick := hs.unmarked (.tick s) rfl rfl
  by_cases hup : c ∈ s.tick.closed
  · rw [messageClient_closed hup]
    refine Post.bind (hook_holding hh (Continues.tick h).wellFormed hc hup htick) fun t ht =>
      Post.of_ok ?_
    exact Holding.unmarked (s := t) (.of_sent (List.Subset.refl _) rfl) rfl rfl ht
  · rw [messageClient_open hup]
    exact Post.of_ok (htick.unmarked (.send hmsg c) rfl rfl)

theorem flushGarbage_turnKnown (h : s.WellFormed) (hs : s.TurnKnown) :
    Post TurnKnown (s.flushGarbage hook) := by
  refine Post.bind (Post.foldlM (I := fun t => t.WellFormed ∧ Holding s.currentPlayerID t)
    ⟨h, hs.holding⟩ fun t pid _ ⟨hwf, ht⟩ => ?_) fun t ⟨_, ht⟩ => Post.of_ok ?_
  · have hnote : (t.note (.broadcast pid)).WellFormed :=
      hwf.congr rfl rfl rfl rfl (List.Subset.refl _)
    have hnoted : Holding s.currentPlayerID (t.note (.broadcast pid)) :=
      Holding.unmarked (s := t) (.of_sent (List.Subset.refl _) rfl) rfl rfl ht
    refine Post.bind (messageAllClients_holding hh (by simp [Message.turnMark]) hnote hnoted)
      fun u ⟨hm, hu⟩ => ?_
    split
    · exact Post.of_ok ⟨hm.wellFormed, hu⟩
    · exact Post.of_fault
  · exact ht.1.congr (List.Subset.refl _) rfl rfl (List.Subset.refl _)

theorem endTurn_turnKnown (h : s.WellFormed) (hc : s.Accepted c) (hcur : s.currentPlayerID = c)
    (hs : s.TurnKnown) : Post TurnKnown (s.endTurn hook c) := by
  have htick := hs.congr (t := s.tick) (List.subset_append_right _ _) rfl rfl (List.Subset.refl _)
  intro w hok
  obtain ⟨t, ht, hok⟩ := Outcome.bind_eq_ok.mp hok
  obtain ⟨u, hu, hok⟩ := Outcome.bind_eq_ok.mp hok
  have hmessaged := messageClient_spec hh.spec h hc t ht
  have hchosen := (chooseNextPlayerForTurn_handled hh.spec hmessaged.wellFormed _ u hu).1
  suffices hknown : u.TurnKnown from
    (messageAllClients_holding hh (by simp [Message.turnMark]) hchosen.wellFormed
      hknown.holding w hok).2.1
  rcases messageClient_cases hh.spec h hc ht with ⟨hup, rfl⟩ | ⟨hup, v, hv, hgone, rfl⟩
  · have hnone : (s.tick.send c (.ofID .gameEndPlayerTurn)).NonePlays := by
      have hend := htick.only.sendEnd
      rwa [show s.tick.currentPlayerID = c from hcur] at hend
    have hpassed := chooseNextPlayerForTurn_passedOn hh hmessaged.wellFormed
      (hcur.trans_ne hc.ne_zero) hnone u
    rw [show (s.tick.send c (.ofID .gameEndPlayerTurn)).currentPlayerID = c from hcur] at hpassed
    exact (hpassed hu).turnKnown
  · -- the client has left, and `ChooseNextPlayerForTurn` finds nobody or no such player
    have hknown := (hook_holding hh (Continues.tick h).wellFormed hc hup htick.holding v hv).1
    unfold chooseNextPlayerForTurn at hu
    simp only at hu
    split at hu
    · cases hu
      exact hknown.congr (List.Subset.refl _) rfl rfl (List.Subset.refl _)
    · obtain ⟨x, hx, _⟩ := Outcome.bind_eq_ok.mp hu
      unfold passTurn at hx
      simp only at hx
      split at hx
      · rename_i hmem
        exact absurd hmem hgone.left
      · exact nomatch hx

omit hh in
theorem applied_holding {action : PlayerAction} {w : GameWorld} (h : s.WellFormed)
    (hcur : s.currentPlayerID = c) (hs : s.TurnKnown)
    (hw : s.gameWorld.makeApprovedAction c action = .ok w) :
    Holding c ({ s with gameWorld := w }.log (.applied c)) := by
  have htable : ({ s with gameWorld := w }.log (.applied c)).table = s.table :=
    (GameWorld.makeApprovedAction_actedBy h.keysAreIDs hw).players.keys_eq
  exact Holding.unmarked (s := s) (.of_sent (List.Subset.refl _) rfl) rfl htable (hcur ▸ hs.holding)

theorem applyAction_turnKnown {action : PlayerAction} (h : s.WellFormed) (hc : s.Accepted c)
    (hcur : s.currentPlayerID = c) (hs : s.TurnKnown) :
    Post TurnKnown (s.applyAction hook c action) := by
  intro u hok
  obtain ⟨w, hw, hok⟩ := Outcome.bind_eq_ok.mp hok
  have hw := Outcome.ofExcept_eq_ok.mp hw
  obtain ⟨t, ht, hok⟩ := Outcome.bind_eq_ok.mp hok
  obtain ⟨hm, hknown, hholder⟩ := messageAllClients_holding hh (by simp [Message.turnMark])
    (wellFormed_applied h hw) (applied_holding h hcur hs hw) t ht
  split at hok
  · exact nomatch hok
  · rename_i player hplayer
    split at hok
    · have hmem : c ∈ t.table := mem_table.mpr (OrderedMap.mem_iff_lookup.mpr ⟨player, hplayer⟩)
      have hholds : t.currentPlayerID = c := hholder.resolve_right fun hnot => hnot hmem
      exact endTurn_turnKnown hh hm.wellFormed (hm.accepted hc) hholds hknown u hok
    · cases hok
      exact hknown

/-- What the messages to a new player keep. -/
structure Greeting (c : UInt32) (s : Server) : Prop where
  wellFormed : s.WellFormed
  accepted : s.Accepted c
  turnKnown : s.TurnKnown

theorem messageClient_greeting (hmsg : msg.turnMark = none) (hs : Greeting c s) :
    Post (Greeting c) (messageClient hook (some c) msg s) :=
  (messageClient_holding hh hmsg hs.wellFormed hs.accepted hs.turnKnown.holding).mono
    fun _ ⟨hm, ht⟩ => ⟨hm.wellFormed, hm.accepted hs.accepted, ht.1⟩

theorem announce_greeting {playerDesc : Player}
    (hfirst : Post (Greeting c) (messageClient hook (some c)
      ((Message.ofID .clientRegisterFromServer).push Layout.player playerDesc) s)) :
    Post (Greeting c) (s.announce hook c playerDesc) := by
  refine Post.bind hfirst fun t ht => ?_
  refine Post.bind (messageClient_greeting hh (by simp [Message.turnMark]) ht) fun t1 h1 => ?_
  refine Post.bind (Post.foldlM h1 fun t' i _ ht' => ?_) fun t2 h2 => ?_
  · unfold sendEnemy
    split
    · exact Post.of_fault
    · exact messageClient_greeting hh (by simp [Message.turnMark]) ht'
  refine Post.bind ((messageAllClients_holding hh (by simp [Message.turnMark]) h2.wellFormed
    h2.turnKnown.holding).mono fun t3 ⟨hm, h3⟩ =>
      (⟨hm.wellFormed, hm.accepted h2.accepted, h3.1⟩ : Greeting c t3)) fun t3 h3 => ?_
  refine Post.foldlM h3 fun t' key _ ht' => ?_
  unfold sendOtherPlayer
  split
  · exact Post.of_ok ht'
  · split
    · exact Post.of_ok ht'
    · refine Post.bind (messageClient_greeting hh (by simp [Message.turnMark]) ht') fun t4 h4 => ?_
      split
      · exact Post.of_ok h4
      · exact Post.of_fault

end Hook

/-- The record of a new player does not change whose turn it is. -/
theorem enter_turnKnown (h : s.WellFormed) (hc : s.Accepted c) (hs : s.TurnKnown)
    (order : Arrangement (OrderedMap.Entry UInt32 Player)) (p : Player) :
    (s.setPlayersList (OrderedMap.insertOrAssign order c p s.gameWorld.playersList)).TurnKnown := by
  refine ⟨hs.only, fun hmem hopen => hs.holder ?_ hopen⟩
  rcases OrderedMap.mem_insertOrAssign.mp (mem_table.mp hmem) with hcur | hmem
  · exact h.current_mem (by rw [show s.currentPlayerID = c from hcur]; exact hc.ne_zero)
  · exact mem_table.mpr hmem

/-- A client that was removed and registers leaves again with the first message to it. -/
theorem messageClient_back {n : Nat} (h : s.WellFormed) (hc : s.Accepted c) (hids : c ∉ s.ids)
    (hs : s.TurnKnown) {order : Arrangement (OrderedMap.Entry UInt32 Player)} {p : Player} :
    Post TurnKnown (messageClient (onClientDisconnect n) (some c) msg
      (s.setPlayersList (OrderedMap.insertOrAssign order c p s.gameWorld.playersList))) := by
  have hplayer : c ∉ s.gameWorld.playersList := fun hmem => hids (h.present c hmem)
  have hcur : c ≠ s.currentPlayerID := by
    rintro rfl
    exact h.current.elim hc.ne_zero hplayer
  have hclosed : c ∈ s.tick.closed := (Continues.tick h).closed ((h.gone c hc).resolve_left hids)
  rw [messageClient_closed (by exact hclosed)]
  cases n with
  | zero => exact fun _ hok => nomatch hok
  | succ n =>
    have hin : c ∈ (s.setPlayersList (OrderedMap.insertOrAssign order c p
        s.gameWorld.playersList)).tick.gameWorld.playersList :=
      OrderedMap.mem_insertOrAssign.mpr (Or.inl rfl)
    rw [onClientDisconnect_of_ne hin hcur]
    refine Post.of_ok (hs.congr (List.subset_append_right _ _) rfl rfl fun id hid => ?_)
    obtain ⟨hne, hid⟩ := AList.mem_erase.mp (mem_table.mp hid)
    exact mem_table.mpr ((OrderedMap.mem_insertOrAssign.mp hid).resolve_left hne)

theorem register_turnKnown {n : Nat} {chance : Chance} (h : s.WellFormed) (hc : s.Accepted c)
    (hs : s.TurnKnown) : Post TurnKnown (s.register (onClientDisconnect n) chance c msg) := by
  have hh := onClientDisconnect_turnHook n
  intro u hok
  obtain ⟨⟨info, rest⟩, _, hok⟩ := Outcome.bind_eq_ok.mp hok
  obtain ⟨p, hp, hok⟩ := Outcome.bind_eq_ok.mp hok
  have hnew := clientOnRegister_spec (Outcome.ofExcept_eq_ok.mp hp)
  rw [hnew.id] at hok
  obtain ⟨t, hannounce, hok⟩ := Outcome.bind_eq_ok.mp hok
  have hfirst : Post (Greeting c) (messageClient (onClientDisconnect n) (some c)
      ((Message.ofID .clientRegisterFromServer).push Layout.player p)
      (s.setPlayersList (OrderedMap.insertOrAssign chance.order c p s.gameWorld.playersList))) := by
    by_cases hmem : c ∈ s.ids
    · exact messageClient_greeting hh (by simp [Message.turnMark])
        ⟨wellFormed_enter h hmem hnew, hc, enter_turnKnown h hc hs chance.order p⟩
    · exact ((messageClient_removed h hc hmem).and (messageClient_back h hc hmem hs)).mono
        fun v ⟨hm, hv⟩ => ⟨hm.wellFormed, hm.accepted hc, hv⟩
  have ht := announce_greeting hh hfirst t hannounce
  split at hok
  · rename_i hcur
    exact chooseNextPlayerForTurn_first hh ht.wellFormed (ht.turnKnown.nonePlays hcur) u hok
  · cases hok
    exact ht.turnKnown

theorem handleMessage_turnKnown {n : Nat} {chance : Chance} (h : s.WellFormed) (hc : s.Accepted c)
    (hs : s.TurnKnown) : Post TurnKnown (s.handleMessage (onClientDisconnect n) chance c msg) := by
  have hh := onClientDisconnect_turnHook n
  have hall : ∀ m ignore, m.turnMark = none →
      Post TurnKnown (messageAllClients (onClientDisconnect n) m ignore s) := fun m ignore hm =>
    (messageAllClients_holding hh hm h hs.holding).mono fun _ ht => ht.2.1
  unfold handleMessage
  split
  · exact register_turnKnown h hc hs
  · intro t hok
    obtain ⟨⟨action, rest⟩, _, hok⟩ := Outcome.bind_eq_ok.mp hok
    obtain ⟨approved, happroved, hok⟩ := Outcome.bind_eq_ok.mp hok
    cases approved with
    | false =>
      exact (messageClient_holding hh (by simp [Message.turnMark]) h hc hs.holding t hok).2.1
    | true =>
      have hcur := (approves_mem (Outcome.ofExcept_eq_ok.mp happroved)).1
      exact applyAction_turnKnown hh h hc hcur.symm hs t hok
  · rename_i hid
    exact hall _ _ (by simp [Message.turnMark, hid])
  · rename_i hid
    exact Post.of_ok ((Unmarked.send (by simp [Message.turnMark, hid]) c).turnKnown rfl
      (List.Subset.refl _) hs)
  · split
    · exact hall _ _ (by simp [Message.turnMark])
    · exact Post.of_fault
  · exact Post.of_ok hs

theorem step_turnKnown {e : Event} (hs : s.Idle) (h : step s e = some t) (hknown : s.TurnKnown) :
    t.TurnKnown := by
  cases step_cases h with
  | accept _ =>
    have hmark : (Message.ofID .serverAccept).turnMark = none := by simp [Message.turnMark]
    have hsent := (Unmarked.send hmark (UInt32.ofNat s.nIDCounter)).turnKnown rfl (List.Subset.refl _)
      hknown
    exact hsent.congr (List.Subset.refl _) rfl rfl (List.Subset.refl _)
  | validated d _ =>
    exact (Unmarked.send (by simp [Message.turnMark]) d).turnKnown rfl (List.Subset.refl _) hknown
  | close d _ =>
    exact hknown.congr (List.subset_cons_self _ _) rfl rfl (List.Subset.refl _)
  | shyCheck n hok =>
    exact (messageAllClients_holding (onClientDisconnect_turnHook n) (by simp [Message.turnMark])
      hs.wellFormed hknown.holding t hok).2.1
  | message n chance d msg hd hok =>
    obtain ⟨u, hu, hflush, _⟩ := onMessage_cases hs hd hok
    obtain ⟨v, hv, hok⟩ := Outcome.bind_eq_ok.mp hok
    cases hu.symm.trans hv
    have hflushed := flushGarbage_turnKnown (onClientDisconnect_turnHook n) hs.wellFormed hknown u hu
    exact handleMessage_turnKnown hflush.wellFormed (hflush.accepted hd) hflushed t hok

theorem start_turnKnown (mapRand enemyRand : Nat → Nat) (closing : Nat → List UInt32) :
    (start mapRand enemyRand closing).TurnKnown :=
  ⟨fun _ _ hplaying => (nomatch hplaying), fun hmem => (nomatch hmem)⟩

theorem Reachable.turnKnown (hs : s.Reachable) : s.TurnKnown := by
  obtain ⟨mapRand, enemyRand, closing, events, hrun⟩ := hs
  exact (Machine.invariant (I := fun s : Server => s.Idle ∧ s.TurnKnown)
    (fun s e t hs h => ⟨step_idle hs.1 h, step_turnKnown hs.1 h hs.2⟩)
    ⟨start_idle mapRand enemyRand closing, start_turnKnown mapRand enemyRand closing⟩ hrun).2

/-- Of the clients that are still open, the current player is the one that was last told that
its turn has begun, and no other client was. -/
theorem playing_iff_current (hs : s.Reachable) (hc : s.Accepted c) (hopen : c ∉ s.closed) :
    ((s.stream c).filterMap Message.turnMark).getLast? = some .started ↔ c = s.currentPlayerID := by
  have hknown := hs.turnKnown
  constructor
  · exact fun hplaying => (hknown.only c hopen hplaying).1
  · rintro rfl
    exact hknown.holder (hs.idle.wellFormed.current_mem hc.ne_zero) hopen

/-- Two players, and the first one has used up its turn. -/
def turnOver : List Event :=
  [.accept, .accept, .message 0 (.always 20) 10000 (registerRequest Player.default),
    .message 0 (.always 10) 10001 (registerRequest Player.default)] ++
  List.replicate 4 (.message 0 (.always 0) 10000 (actionRequest (moveDown 10000)))

theorem playing_iff_current_two : ∃ s : Server, s.Reachable ∧ s.Accepted 10000 ∧ s.Accepted 10001 ∧
    s.currentPlayerID = 10001 ∧
    (((s.stream 10000).filterMap Message.turnMark).getLast? = some .started ↔
      10000 = s.currentPlayerID) ∧
    (((s.stream 10001).filterMap Message.turnMark).getLast? = some .started ↔
      10001 = s.currentPlayerID) := by
  have hrun : ((Machine.run step (start (fun _ => 0) (fun _ => 0) fun _ => []) turnOver).map
      fun s => (s.nIDCounter, s.closed, s.currentPlayerID)) = some (10002, [], 10001) := by
    decide +kernel
  obtain ⟨s, hs, h⟩ := Option.map_eq_some_iff.mp hrun
  obtain ⟨hcounter, h⟩ := Prod.mk.inj h
  obtain ⟨hclosed, hcur⟩ := Prod.mk.inj h
  have hopen : ∀ c, c ∉ s.closed := by
    intro c
    rw [hclosed]
    exact List.not_mem_nil
  have haccepted : ∀ c : UInt32, 10000 ≤ c.toNat ∧ c.toNat < 10002 → s.Accepted c := by
    intro c hc
    rw [Accepted, hcounter]
    exact hc
  have hreachable : s.Reachable := ⟨_, _, _, _, hs⟩
  have hfirst := haccepted 10000 (by decide)
  have hsecond := haccepted 10001 (by decide)
  exact ⟨s, hreachable, hfirst, hsecond, hcur, playing_iff_current hreachable hfirst (hopen _),
    playing_iff_current hreachable hsecond (hopen _)⟩

def NoEnd (_ : UInt32) (msg : Message) : Prop := msg.turnMark ≠ some .ended

/-- Every end of a turn that a client hears of comes after the start of that turn. -/
def Paired (marks : List TurnMark) : Prop :=
  List.IsChain (fun a b => a = .started ∨ b = .started) (.ended :: marks)

def Chained (s : Server) : Prop := ∀ c, Paired (s.turnMarks c)

theorem noEnd_turnTalk (c : UInt32) (msg : Message) (h : TurnTalk c msg) : NoEnd c msg := by
  cases h with
  | turn => simp [NoEnd, Message.turnMark]
  | enemy action => simp [NoEnd, Message.turnMark, gameAITurnAction]

theorem noEnd_welcome {d : UInt32} {m : Message} (h : Welcome c d m) : NoEnd d m := by
  cases h with
  | turnTalk h => exact noEnd_turnTalk d m h
  | map | enemy | added => simp [NoEnd, Message.turnMark]

theorem Paired.append {marks new : List TurnMark} (h : Paired marks) (hnew : ∀ m ∈ new, m = .started) :
    Paired (marks ++ new) := by
  have hchain : List.IsChain (fun a b => a = TurnMark.started ∨ b = .started) new :=
    (List.pairwise_of_forall_mem_list fun a ha _ _ => .inl (hnew a ha)).isChain
  unfold Paired
  rw [← List.cons_append]
  refine List.isChain_append.mpr ⟨h, hchain, fun _ _ y hy => .inr (hnew y ?_)⟩
  exact List.mem_of_mem_head? hy

theorem Paired.ended {marks : List TurnMark} (h : Paired marks)
    (hlast : marks.getLast? = some .started) : Paired (marks ++ [.ended]) := by
  unfold Paired
  rw [← List.cons_append]
  refine List.isChain_append.mpr ⟨h, List.isChain_singleton _, fun x hx _ _ => .inl ?_⟩
  rw [List.getLast?_cons, hlast] at hx
  exact (Option.some.inj hx).symm

theorem Said.chained (h : Said NoEnd s t) (hs : Chained s) : Chained t := by
  obtain ⟨-, new, hnew, hall⟩ := h
  intro c
  have hmarks : t.turnMarks c = s.turnMarks c ++
      ((new.filter fun m => m.1 = c).map Prod.snd).filterMap Message.turnMark := by
    unfold turnMarks Server.heard stream
    rw [hnew, List.filter_append, List.map_append, List.filterMap_append]
  rw [hmarks]
  refine (hs c).append fun m hm => ?_
  obtain ⟨msg, hmsg, hmark⟩ := List.mem_filterMap.mp hm
  obtain ⟨entry, hentry, rfl⟩ := List.mem_map.mp hmsg
  have hnot : NoEnd entry.1 entry.2 := hall entry (List.mem_filter.mp hentry).1
  cases m with
  | started => rfl
  | ended => exact absurd hmark hnot

section Handlers
variable {n : Nat}

theorem said_noEnd (n : Nat) (client : Option UInt32) (s : Server) :
    Post (Said NoEnd s) (onClientDisconnect n client s) :=
  onClientDisconnect_said noEnd_turnTalk n client s

theorem flushGarbage_noEnd : Post (Said NoEnd s) (s.flushGarbage (onClientDisconnect n)) := by
  refine Post.bind (Post.foldlM (Said.refl s) fun t pid _ ht => ?_) fun t ht =>
    Post.of_ok (ht.silent rfl rfl)
  refine Post.bind (messageAllClients_said (said_noEnd n) (fun _ => by
    simp [NoEnd, Message.turnMark]) none) fun u hu => ?_
  split
  · exact Post.of_ok (ht.trans (hu.before rfl rfl))
  · exact Post.of_fault

theorem endTurn_chained (h : s.WellFormed) (hc : s.Accepted c) (hcur : s.currentPlayerID = c)
    (hs : s.TurnKnown) (hchained : Chained s) :
    Post Chained (s.endTurn (onClientDisconnect n) c) := by
  have hq := said_noEnd n
  intro w hok
  obtain ⟨t, ht, hok⟩ := Outcome.bind_eq_ok.mp hok
  obtain ⟨u, hu, hok⟩ := Outcome.bind_eq_ok.mp hok
  have hafter : Said NoEnd t w :=
    (chooseNextPlayerForTurn_said hq noEnd_turnTalk _ u hu).trans
      (messageAllClients_said hq (fun _ => by simp [NoEnd, Message.turnMark]) none w hok)
  refine hafter.chained ?_
  rcases messageClient_cases (onClientDisconnect_spec n) h hc ht with
    ⟨hup, rfl⟩ | ⟨_, v, hv, _, rfl⟩
  · intro d
    by_cases hd : d = c
    · have hplaying : s.Playing d := by
        have hopen : d ∉ s.closed := fun hmem => hup (hd ▸ List.mem_append_right _ hmem)
        rw [hd, ← hcur] at hopen ⊢
        exact hs.holder (h.current_mem (hcur.trans_ne hc.ne_zero)) hopen
      have hend : Paired (s.turnMarks d ++ [.ended]) := (hchained d).ended hplaying
      subst hd
      have hmarks : (s.tick.send d (.ofID .gameEndPlayerTurn)).turnMarks d =
          s.turnMarks d ++ [.ended] := heard_send_self d _ s.tick
      rwa [hmarks]
    · have hmarks : (s.tick.send c (.ofID .gameEndPlayerTurn)).turnMarks d = s.turnMarks d :=
        heard_send_ne hd _ s.tick
      rw [hmarks]
      exact hchained d
  · exact (((said_connected (some c) s).trans (hq _ _ v hv)).silent rfl rfl).chained hchained

theorem applyAction_chained {action : PlayerAction} (h : s.WellFormed) (hc : s.Accepted c)
    (hcur : s.currentPlayerID = c) (hs : s.TurnKnown) (hchained : Chained s) :
    Post Chained (s.applyAction (onClientDisconnect n) c action) := by
  have hh := onClientDisconnect_turnHook n
  intro u hok
  obtain ⟨w, hw, hok⟩ := Outcome.bind_eq_ok.mp hok
  have hw := Outcome.ofExcept_eq_ok.mp hw
  obtain ⟨t, ht, hok⟩ := Outcome.bind_eq_ok.mp hok
  have hsaid : Said NoEnd s t := (messageAllClients_said (said_noEnd n)
    (fun _ => by simp [NoEnd, Message.turnMark]) none t ht).before rfl rfl
  obtain ⟨hm, hknown, hholder⟩ := messageAllClients_holding hh (by simp [Message.turnMark])
    (wellFormed_applied h hw) (applied_holding h hcur hs hw) t ht
  split at hok
  · exact nomatch hok
  · rename_i player hplayer
    split at hok
    · have hmem : c ∈ t.table := mem_table.mpr (OrderedMap.mem_iff_lookup.mpr ⟨player, hplayer⟩)
      have hholds : t.currentPlayerID = c := hholder.resolve_right fun hnot => hnot hmem
      exact endTurn_chained hm.wellFormed (hm.accepted hc) hholds hknown (hsaid.chained hchained) u hok
    · cases hok
      exact hsaid.chained hchained

theorem handleMessage_chained {chance : Chance} (h : s.WellFormed) (hc : s.Accepted c)
    (hs : s.TurnKnown) (hchained : Chained s) :
    Post Chained (s.handleMessage (onClientDisconnect n) chance c msg) := by
  have hq := said_noEnd n
  unfold handleMessage
  split
  · refine (register_said hq (fun _ _ => noEnd_welcome) (P := Said NoEnd s) fun p _ _ _ _ => ?_).mono
      fun t ⟨_, hu, ht⟩ => (hu.trans ht).chained hchained
    exact (messageClient_said hq (by simp [NoEnd, Message.turnMark])).mono
      fun _ hu => hu.before rfl rfl
  · intro t hok
    obtain ⟨⟨action, rest⟩, _, hok⟩ := Outcome.bind_eq_ok.mp hok
    obtain ⟨approved, happroved, hok⟩ := Outcome.bind_eq_ok.mp hok
    cases approved with
    | false =>
      exact (messageClient_said (Q := NoEnd) hq (by simp [NoEnd, Message.turnMark]) t hok).chained
        hchained
    | true =>
      have hcur := (approves_mem (Outcome.ofExcept_eq_ok.mp happroved)).1
      exact applyAction_chained h hc hcur.symm hs hchained t hok
  · rename_i hid
    exact (messageAllClients_said hq (fun _ => by simp [NoEnd, Message.turnMark, hid]) _).mono
      fun _ ht => ht.chained hchained
  · rename_i hid
    exact Post.of_ok (((Said.refl s).send (show NoEnd c msg by
      simp [NoEnd, Message.turnMark, hid])).chained hchained)
  · split
    · exact (messageAllClients_said hq (fun _ => by simp [NoEnd, Message.turnMark]) _).mono
        fun _ ht => ht.chained hchained
    · exact Post.of_fault
  · exact Post.of_ok hchained

end Handlers

theorem step_chained {e : Event} (hs : s.Idle) (h : step s e = some t) (hknown : s.TurnKnown)
    (hchained : Chained s) : Chained t := by
  have hsend : ∀ (d : UInt32) (kind : ECustomMetaMSG), NoEnd d (.ofID kind) →
      Chained (s.send d (.ofID kind)) :=
    fun d kind hkind => ((Said.refl s).send hkind).chained hchained
  cases step_cases h with
  | accept _ => exact hsend _ _ (by simp [NoEnd, Message.turnMark])
  | validated d _ => exact hsend d _ (by simp [NoEnd, Message.turnMark])
  | close d _ => exact hchained
  | shyCheck n hok =>
    exact (messageAllClients_said (said_noEnd n) (fun _ => by simp [NoEnd, Message.turnMark]) none t
      hok).chained hchained
  | message n chance d msg hd hok =>
    obtain ⟨u, hu, hflush, _⟩ := onMessage_cases hs hd hok
    obtain ⟨v, hv, hok⟩ := Outcome.bind_eq_ok.mp hok
    cases hu.symm.trans hv
    have hflushed := flushGarbage_turnKnown (onClientDisconnect_turnHook n) hs.wellFormed hknown u hu
    exact handleMessage_chained hflush.wellFormed (hflush.accepted hd) hflushed
      ((flushGarbage_noEnd u hu).chained hchained) t hok

/-- Between two ends of turns, and before the first one, a client is told that its turn begins. -/
theorem turnMarks_paired (hs : s.Reachable) (c : UInt32) :
    Paired ((s.stream c).filterMap Message.turnMark) := by
  obtain ⟨mapRand, enemyRand, closing, events, hrun⟩ := hs
  refine (Machine.invariant (I := fun s : Server => (s.Idle ∧ s.TurnKnown) ∧ Chained s)
    (fun s e t hs h => ⟨⟨step_idle hs.1.1 h, step_turnKnown hs.1.1 h hs.1.2⟩,
      step_chained hs.1.1 h hs.1.2 hs.2⟩)
    ⟨⟨start_idle mapRand enemyRand closing, start_turnKnown mapRand enemyRand closing⟩, fun c =>
      List.isChain_singleton _⟩ hrun).2 c

theorem turnMarks_paired_two : ∃ s : Server, s.Reachable ∧
    s.turnMarks 10000 = [.started, .ended] ∧ Paired ((s.stream 10000).filterMap Message.turnMark) := by
  have hrun : ((Machine.run step (start (fun _ => 0) (fun _ => 0) fun _ => []) turnOver).map
      (turnMarks 10000)) = some [.started, .ended] := by decide +kernel
  obtain ⟨s, hs, h⟩ := Option.map_eq_some_iff.mp hrun
  have hreachable : s.Reachable := ⟨_, _, _, _, hs⟩
  exact ⟨s, hreachable, h, turnMarks_paired hreachable 10000⟩

end Server

end AsciiTerra
