import AsciiTerra.MessageBounds
import AsciiTerra.SmallSteps

/-!
# Lookups by key

`PlayersList.at` is called for the sender of `MessageAll`, for the player that an action
names and for the holder of the turn. The last one is always there; the others are there
exactly when the sender has registered and names a player of the game.
-/

set_option autoImplicit false

namespace AsciiTerra

open Outcome (Avoids Post)

theorem Message.pop_error {α : Type} {layout : Codec α} {msg : Message} {e : Fault}
    (h : msg.pop layout = .error e) : e = .shortBody := by
  unfold Message.pop at h
  split at h
  · exact nomatch h
  · exact (Except.error.inj h).symm

theorem checkPlayerAction_error_iff {w : GameWorld} {action : PlayerAction} :
    checkPlayerAction w action = .error .outOfRange ↔ action.playerID ∉ w.playersList := by
  unfold checkPlayerAction GameWorld.playerAt
  cases hplayer : w.playersList.lookup action.playerID with
  | none =>
    have hgone := AList.lookup_eq_none.mp hplayer
    exact iff_of_true rfl hgone
  | some player =>
    have hmem : action.playerID ∈ w.playersList := OrderedMap.mem_iff_lookup.mpr ⟨player, hplayer⟩
    refine iff_of_false ?_ (not_not.mpr hmem)
    intro h
    simp only [except_ok_bind] at h
    split at h
    · exact nomatch h
    · split at h
      · exact nomatch h
      · split at h
        · exact nomatch h
        · obtain htile | ⟨tile, -, h⟩ := except_bind_eq_error.mp h
          · exact nomatch Map.tileAt_error htile
          · exact nomatch h
      · exact nomatch h

namespace GameWorld

theorem attackOf_ne_outOfRange {w : GameWorld} {id : UInt32} (action : PlayerAction)
    (h : id ∈ w.playersList) : w.attackOf id action ≠ .error .outOfRange := by
  obtain ⟨player, hplayer⟩ := OrderedMap.mem_iff_lookup.mp h
  have hat := playerAt_eq_ok.mpr hplayer
  intro herror
  unfold attackOf playerMakeAttack at herror
  simp only [hat, except_ok_bind] at herror
  obtain hattack | ⟨r, -, herror⟩ := except_bind_eq_error.mp herror
  · exact nomatch Inventory.attack_error hattack
  · cases r with
    | none => exact nomatch herror
    | some r => exact nomatch herror

theorem makeApprovedAction_ne_outOfRange {w : GameWorld} (hk : KeysAreIDs w.playersList)
    {id : UInt32} (action : PlayerAction) (h : id ∈ w.playersList) :
    w.makeApprovedAction id action ≠ .error .outOfRange := by
  intro herror
  unfold makeApprovedAction at herror
  have hmoved : id ∈ (w.modifyPlayer id fun p =>
      { p with coords := p.coords + direction action.actionInfo }).playersList :=
    OrderedMap.mem_modify.mpr h
  obtain hact | ⟨w', hw', herror⟩ := except_bind_eq_error.mp herror
  · unfold actOf at hact
    split at hact
    · exact attackOf_ne_outOfRange action hmoved hact
    · exact attackOf_ne_outOfRange action h hact
    · exact nomatch hact
  · have hmem : id ∈ w'.playersList := by
      unfold actOf at hw'
      split at hw'
      · have hkeys : KeysAreIDs (w.modifyPlayer id fun p =>
            { p with coords := p.coords + direction action.actionInfo }).playersList :=
          Agrees.modifyPlayer_keysAreIDs hk fun p => rfl
        exact (attackOf_actedBy hkeys hw').players.mem_iff.mpr hmoved
      · exact (attackOf_actedBy hk hw').players.mem_iff.mpr h
      · cases hw'
        exact h
    obtain ⟨player, hplayer⟩ := OrderedMap.mem_iff_lookup.mp hmem
    rw [playerAt_eq_ok.mpr hplayer, except_ok_bind] at herror
    obtain hset | ⟨player', -, herror⟩ := except_bind_eq_error.mp herror
    · exact nomatch Player.setCurrentTurnActions_error hset
    · exact nomatch herror

end GameWorld

namespace Server
variable {s s' : Server}

/-- The hook throws nothing where it is called. -/
structure NoThrow (hook : Option UInt32 → Server → Outcome Fault Server) : Prop where
  null : ∀ s, Avoids .outOfRange (hook none s)
  client : ∀ c s, s.WellFormed → s.Accepted c → c ∈ s.closed → Avoids .outOfRange (hook (some c) s)

section Hook
variable {hook : Option UInt32 → Server → Outcome Fault Server}
variable (hh : HookSpec hook) (hthrow : NoThrow hook)
include hh hthrow

omit hh in
theorem messageClient_noThrow {c : UInt32} {msg : Message} (h : s.WellFormed) (hc : s.Accepted c) :
    Avoids .outOfRange (messageClient hook (some c) msg s) := by
  by_cases hup : c ∈ s.tick.closed
  · rw [messageClient_closed hup]
    exact .bind (hthrow.client c _ (Continues.tick h).wellFormed hc hup) fun t => .of_ok _
  · rw [messageClient_open hup]
    exact .of_ok _

omit hh in
theorem messageEntry_noThrow {msg : Message} {ignore : Option UInt32} {st : Server × Bool} {i : Nat}
    (h : st.1.WellFormed) : Avoids .outOfRange (messageEntry hook msg ignore st i) := by
  obtain ⟨u, b⟩ := st
  cases hi : u.deqConnection[i]? with
  | none =>
    simp only [messageEntry, hi]
    exact .of_fault (by decide)
  | some client =>
    cases client with
    | none =>
      have hentry : messageEntry hook msg ignore (u, b) i = hook none u >>= fun t =>
          if t.deqConnection.length = u.deqConnection.length then .ok (t.resetAt i, true)
          else .fault .invalidIterator := by
        simp only [messageEntry, hi]
        rfl
      rw [hentry]
      refine .bind (hthrow.null u) fun t => ?_
      split
      · exact .of_ok _
      · exact .of_fault (by decide)
    | some c =>
      by_cases hup : c ∈ u.tick.closed
      · have hc : u.Accepted c := h.accepted c (mem_ids.mpr (List.mem_of_getElem? hi))
        rw [messageEntry_closed hi hup]
        refine .bind (hthrow.client c _ (Continues.tick h).wellFormed hc hup) fun t => ?_
        split
        · exact .of_ok _
        · exact .of_fault (by decide)
      · rw [messageEntry_open hi hup]
        exact .of_ok _

theorem messageAllClients_noThrow {msg : Message} {ignore : Option UInt32} (h : s.WellFormed) :
    Avoids .outOfRange (messageAllClients hook msg ignore s) := by
  have hstart : Looped s (s, false) := ⟨.refl h, .refl _, fun _ => rfl, .refl s⟩
  refine .bind (.foldlM_post hstart ?_) fun st => .of_ok _
  intro st i _ hst
  exact ⟨messageEntry_noThrow hthrow hst.wellFormed, messageEntry_spec hh hst⟩

theorem makeAITurn_noThrow (h : s.WellFormed) : Avoids .outOfRange (s.makeAITurn hook) := by
  have harmed : s.gameWorld.AllArmed := fun e he => (h.fromTable e he).armed
  refine .bind_post (P := fun st => aiTurn s.gameWorld = .ok st)
    (aiTurn_avoids (by decide) (by decide) _) (fun _ hst => hst) ?_
  intro st hst
  have hworld := Continues.aiRelated h (aiTurn_aiRelated harmed hst)
  refine .bind (.foldlM_post (Messaged.refl hworld.wellFormed) ?_) fun t => .of_ok _
  intro t action _ ht
  exact ⟨messageAllClients_noThrow hh hthrow ht.wellFormed,
    (messageAllClients_spec hh ht.wellFormed).mono fun _ => ht.trans⟩

omit hh hthrow in
theorem resetTurn_noThrow (hcur : s.currentPlayerID ∈ s.gameWorld.playersList) :
    Avoids .outOfRange s.resetTurn := by
  obtain ⟨player, hplayer⟩ := OrderedMap.mem_iff_lookup.mp hcur
  rw [resetTurn_eq_ok.mpr ⟨player, hplayer, rfl⟩]
  exact .of_ok _

theorem startTurn_noThrow (h : s.WellFormed) (hcur : s.currentPlayerID ∈ s.gameWorld.playersList) :
    Avoids .outOfRange (s.startTurn hook) := by
  refine .bind_post ?_ (sendTurn_spec hh h hcur) ?_
  · unfold sendTurn
    split
    · rename_i e he
      rw [findConnection_error he]
      exact .of_fault (by decide)
    · exact .of_ok _
    · rename_i c hfind
      have hc := findConnection_eq_some hfind
      exact messageClient_noThrow hthrow h (hc ▸ h.accepted_of_mem hcur)
  · rintro t ⟨ht, -⟩
    apply resetTurn_noThrow
    rcases ht.turn with hkept | hpassed
    · refine ht.wellFormed.current.resolve_left ?_
      rw [hkept.currentPlayerID]
      exact (h.accepted_of_mem hcur).ne_zero
    · exact hpassed.mem

omit hh hthrow in
theorem giveToFirst_noThrow : Avoids .outOfRange s.giveToFirst := by
  unfold giveToFirst
  split
  · exact .of_fault (by decide)
  · exact .of_ok _

theorem passTurn_noThrow (h : s.WellFormed) (client : Option UInt32) :
    Avoids .outOfRange (s.passTurn hook client) := by
  unfold passTurn
  split
  · exact giveToFirst_noThrow
  · split
    · split
      · exact .of_ok _
      · exact .bind (makeAITurn_noThrow hh hthrow h) fun t => giveToFirst_noThrow
    · exact .of_fault (by decide)

theorem chooseNextPlayerForTurn_noThrow (h : s.WellFormed) (client : Option UInt32) :
    Avoids .outOfRange (s.chooseNextPlayerForTurn hook client) := by
  have hlog := (Continues.choosing h).wellFormed
  unfold chooseNextPlayerForTurn
  simp only
  split
  · exact .of_ok _
  · refine .bind_post (passTurn_noThrow hh hthrow hlog client) (passTurn_spec hh hlog client) ?_
    rintro t ⟨ht, -, -, hcur⟩
    exact startTurn_noThrow hh hthrow ht.wellFormed hcur

end Hook

theorem onClientDisconnect_noThrow (n : Nat) : NoThrow (onClientDisconnect n) := by
  induction n with
  | zero => exact ⟨fun _ => .of_deep, fun _ _ _ _ _ => .of_deep⟩
  | succ n ih =>
    refine ⟨fun _ => .of_fault (by decide), fun c s h _ _ => ?_⟩
    unfold onClientDisconnect
    split
    · refine .bind ?_ fun t => .of_ok _
      split
      · exact chooseNextPlayerForTurn_noThrow (onClientDisconnect_spec n) ih h _
      · exact .of_ok _
    · exact .of_ok _

section Hook
variable {hook : Option UInt32 → Server → Outcome Fault Server}
variable (hh : HookSpec hook) (hthrow : NoThrow hook)
include hh hthrow

theorem flushGarbage_noThrow (h : s.WellFormed) : Avoids .outOfRange (s.flushGarbage hook) := by
  refine .bind (.foldlM_post (Messaged.refl h) ?_) fun t => .of_ok _
  intro t pid _ ht
  have hnote : Messaged t (t.note (.broadcast pid)) :=
    ⟨.of_eq ht.wellFormed rfl rfl rfl rfl rfl rfl, .refl _, .of_eq rfl rfl rfl⟩
  constructor
  · refine .bind (messageAllClients_noThrow hh hthrow hnote.wellFormed) fun t' => ?_
    split
    · exact .of_ok _
    · exact .of_fault (by decide)
  · refine Post.bind (messageAllClients_spec hh hnote.wellFormed) fun t' ht' => ?_
    split
    · exact Post.of_ok ((ht.trans hnote).trans ht')
    · exact Post.of_fault

theorem announce_noThrow {Q : Server → Prop} {c : UInt32} {playerDesc : Player}
    (hone : Avoids .outOfRange (messageClient hook (some c)
      ((Message.ofID .clientRegisterFromServer).push Layout.player playerDesc) s))
    (hfirst : Post Q (messageClient hook (some c)
      ((Message.ofID .clientRegisterFromServer).push Layout.player playerDesc) s))
    (hQ : ∀ t, Q t → t.WellFormed ∧ t.Accepted c) :
    Avoids .outOfRange (s.announce hook c playerDesc) := by
  refine .bind_post hone hfirst fun t ht => ?_
  obtain ⟨hwf, hc⟩ := hQ t ht
  have hsend : ∀ {t' : Server} {msg : Message}, Messaged t t' →
      Avoids .outOfRange (messageClient hook (some c) msg t') := fun ht' =>
    messageClient_noThrow hthrow ht'.wellFormed (ht'.accepted hc)
  refine .bind_post (hsend (.refl hwf)) (messageClient_spec hh hwf hc) fun t1 h1 => ?_
  have henemy : ∀ t' (i : Nat), Messaged t t' → Avoids .outOfRange (sendEnemy hook c t' i) ∧
      Post (Messaged t) (sendEnemy hook c t' i) := by
    intro t' i ht'
    unfold sendEnemy
    split
    · exact ⟨.of_fault (by decide), Post.of_fault⟩
    · exact ⟨hsend ht', messageClient_after hh hc ht'⟩
  refine .bind_post (.foldlM_post h1 fun t' i _ ht' => henemy t' i ht')
    (Post.foldlM h1 fun t' i _ ht' => (henemy t' i ht').2) fun t2 h2 => ?_
  refine .bind_post (messageAllClients_noThrow hh hthrow h2.wellFormed)
    (messageAllClients_spec hh h2.wellFormed) fun t3 h3 => ?_
  refine .foldlM_post (h2.trans h3) fun t' key _ ht' => ?_
  unfold sendOtherPlayer
  split
  · exact ⟨.of_ok _, Post.of_ok ht'⟩
  · split
    · exact ⟨.of_ok _, Post.of_ok ht'⟩
    · constructor
      · refine .bind (hsend ht') fun t4 => ?_
        split
        · exact .of_ok _
        · exact .of_fault (by decide)
      · refine Post.bind (messageClient_after hh hc ht') fun t4 h4 => ?_
        split
        · exact Post.of_ok h4
        · exact Post.of_fault

theorem endTurn_noThrow (h : s.WellFormed) {c : UInt32} (hc : s.Accepted c) :
    Avoids .outOfRange (s.endTurn hook c) := by
  refine .bind_post (messageClient_noThrow hthrow h hc) (messageClient_spec hh h hc) fun t ht => ?_
  refine .bind_post (chooseNextPlayerForTurn_noThrow hh hthrow ht.wellFormed _)
    (chooseNextPlayerForTurn_handled hh ht.wellFormed _) fun t' ht' => ?_
  exact messageAllClients_noThrow hh hthrow ht'.1.wellFormed

theorem applyAction_noThrow (h : s.WellFormed) {c : UInt32} (hc : s.Accepted c)
    (hplayer : c ∈ s.gameWorld.playersList) (action : PlayerAction) :
    Avoids .outOfRange (s.applyAction hook c action) := by
  refine .bind_post (P := fun w => s.gameWorld.makeApprovedAction c action = .ok w)
    (.of_except (s.gameWorld.makeApprovedAction_ne_outOfRange h.keysAreIDs action hplayer))
    (fun w hw => Outcome.ofExcept_eq_ok.mp hw) fun w hw => ?_
  have happlied := wellFormed_applied h hw
  refine .bind_post (messageAllClients_noThrow hh hthrow happlied)
    (messageAllClients_spec hh happlied) fun t ht => ?_
  split
  · exact .of_fault (by decide)
  · split
    · exact endTurn_noThrow hh hthrow ht.wellFormed (ht.accepted hc)
    · exact .of_ok _

end Hook

theorem messageClient_removed_noThrow (h : s.WellFormed) {c : UInt32} (hc : s.Accepted c)
    (hids : c ∉ s.ids) {order : Arrangement (OrderedMap.Entry UInt32 Player)} {p : Player}
    {msg : Message} {n : Nat} :
    Avoids .outOfRange (messageClient (onClientDisconnect n) (some c) msg
      (s.setPlayersList (OrderedMap.insertOrAssign order c p s.gameWorld.playersList))) := by
  have hcur : c ≠ s.currentPlayerID := by
    rintro rfl
    exact h.current.elim hc.ne_zero fun hmem => hids (h.present _ hmem)
  have hclosed : c ∈ s.tick.closed := (Continues.tick h).closed ((h.gone c hc).resolve_left hids)
  have hup : c ∈ (s.setPlayersList (OrderedMap.insertOrAssign order c p
      s.gameWorld.playersList)).tick.closed := hclosed
  rw [messageClient_closed hup]
  refine .bind ?_ fun t => .of_ok _
  cases n with
  | zero => exact .of_deep
  | succ n =>
    have hremoved := onClientDisconnect_of_ne (n := n) (s := (s.setPlayersList
      (OrderedMap.insertOrAssign order c p s.gameWorld.playersList)).tick)
      (OrderedMap.mem_insertOrAssign.mpr (Or.inl rfl)) hcur
    rw [hremoved]
    exact .of_ok _

theorem register_noThrow (hs : s.Idle) {c : UInt32} (hc : s.Accepted c) {msg : Message} (n : Nat)
    (chance : Chance) : Avoids .outOfRange (s.register (onClientDisconnect n) chance c msg) := by
  have hh := onClientDisconnect_spec n
  have hthrow := onClientDisconnect_noThrow n
  refine .bind (.of_except fun herror => nomatch Message.pop_error herror) fun r => ?_
  refine .bind_post (P := fun p => NewPlayer c p) (.of_except ?_)
    (fun p hp => clientOnRegister_spec (Outcome.ofExcept_eq_ok.mp hp)) fun p hnew => ?_
  · exact fun herror => nomatch herror
  rw [hnew.id]
  have hfirst : ∃ s1 : Server, s1.Accepted c ∧ Post (Messaged s1)
      (messageClient (onClientDisconnect n) (some c)
        ((Message.ofID .clientRegisterFromServer).push Layout.player p)
        (s.setPlayersList (OrderedMap.insertOrAssign chance.order c p s.gameWorld.playersList))) ∧
      Avoids .outOfRange (messageClient (onClientDisconnect n) (some c)
        ((Message.ofID .clientRegisterFromServer).push Layout.player p)
        (s.setPlayersList (OrderedMap.insertOrAssign chance.order c p s.gameWorld.playersList))) := by
    by_cases hmem : c ∈ s.ids
    · have hwf : (s.setPlayersList (OrderedMap.insertOrAssign chance.order c p
          s.gameWorld.playersList)).WellFormed := wellFormed_enter hs.wellFormed hmem hnew
      refine ⟨s.setPlayersList (OrderedMap.insertOrAssign chance.order c p
        s.gameWorld.playersList), hc, ?_, ?_⟩
      · exact messageClient_spec hh hwf hc
      · exact messageClient_noThrow hthrow hwf hc
    · exact ⟨s, hc, messageClient_removed hs.wellFormed hc hmem,
        messageClient_removed_noThrow hs.wellFormed hc hmem⟩
  obtain ⟨s1, hc1, hpost, hone⟩ := hfirst
  have hQ : ∀ t, Messaged s1 t → t.WellFormed ∧ t.Accepted c := fun t ht =>
    ⟨ht.wellFormed, ht.accepted hc1⟩
  refine .bind_post (announce_noThrow hh hthrow hone hpost hQ) (announce_spec hh hpost hQ) ?_
  rintro t ⟨t', ht', ht⟩
  split
  · exact chooseNextPlayerForTurn_noThrow hh hthrow ht.wellFormed _
  · exact .of_ok _

/-- Client `c` has the turn and actions left. -/
def MayAct (c : UInt32) (s : Server) : Prop :=
  c = s.currentPlayerID ∧
    ∃ player, s.gameWorld.playersList.lookup c = some player ∧ 0 < player.getCurrentTurnActions

/-- The keys that a message makes the server look up are those of players. -/
def Keyed (c : UInt32) (msg : Message) (s : Server) : Prop :=
  match ECustomMetaMSG.ofCode msg.header.id with
  | some .messageAll => c ∈ s.gameWorld.playersList
  | some .serverGamePlayerActionApprove =>
    ∀ action rest, msg.pop Layout.playerAction = .ok (action, rest) → s.MayAct c →
      action.playerID ∈ s.gameWorld.playersList
  | _ => True

theorem approves_error_iff {c : UInt32} {action : PlayerAction} :
    s.approves c action = .error .outOfRange ↔
      s.MayAct c ∧ action.playerID ∉ s.gameWorld.playersList := by
  unfold approves MayAct
  split
  · rename_i hcur
    split
    · rename_i hgone
      simp [hgone]
    · rename_i player hplayer
      rw [hplayer]
      split
      · rename_i hleft
        simp [checkPlayerAction_error_iff, hcur, hleft]
      · rename_i hleft
        refine iff_of_false (fun h => nomatch h) ?_
        rintro ⟨⟨-, player', heq, hleft'⟩, -⟩
        cases heq
        exact hleft hleft'
  · rename_i hcur
    simp [hcur]

theorem actionApprove_noThrow_iff (hs : s.Idle) {c : UInt32} (hc : s.Accepted c) {msg : Message}
    {n : Nat} : Avoids .outOfRange (s.actionApprove (onClientDisconnect n) c msg) ↔
      ∀ action rest, msg.pop Layout.playerAction = .ok (action, rest) → s.MayAct c →
        action.playerID ∈ s.gameWorld.playersList := by
  have hh := onClientDisconnect_spec n
  have hthrow := onClientDisconnect_noThrow n
  constructor
  · intro h action rest hpop hmay
    by_contra hkey
    apply h
    unfold actionApprove
    simp only [hpop, Outcome.ofExcept_ok, Outcome.ok_bind,
      approves_error_iff.mpr ⟨hmay, hkey⟩, Outcome.ofExcept_error, Outcome.fault_bind]
  · intro h
    refine .bind_post (P := fun r => msg.pop Layout.playerAction = .ok r)
      (.of_except fun herror => nomatch Message.pop_error herror)
      (fun r hr => Outcome.ofExcept_eq_ok.mp hr) ?_
    rintro ⟨action, rest⟩ hpop
    refine .bind_post (P := fun b => s.approves c action = .ok b) (.of_except fun herror => ?_)
      (fun b hb => Outcome.ofExcept_eq_ok.mp hb) fun approved happroved => ?_
    · obtain ⟨hmay, hkey⟩ := approves_error_iff.mp herror
      exact hkey (h action rest hpop hmay)
    · cases approved with
      | false => exact messageClient_noThrow hthrow hs.wellFormed hc
      | true => exact applyAction_noThrow hh hthrow hs.wellFormed hc (approves_mem happroved).2 action

theorem handleMessage_noThrow_iff (hs : s.Idle) {c : UInt32} (hc : s.Accepted c) {msg : Message}
    {n : Nat} {chance : Chance} :
    Avoids .outOfRange (s.handleMessage (onClientDisconnect n) chance c msg) ↔ Keyed c msg s := by
  have hh := onClientDisconnect_spec n
  have hthrow := onClientDisconnect_noThrow n
  have hall : ∀ m ignore, Avoids .outOfRange
      (messageAllClients (onClientDisconnect n) m ignore s) := fun m ignore =>
    messageAllClients_noThrow hh hthrow hs.wellFormed
  unfold handleMessage Keyed
  cases hid : ECustomMetaMSG.ofCode msg.header.id with
  | none => exact iff_of_true (.of_ok _) trivial
  | some id =>
    cases id with
    | clientRegisterOnServer => exact iff_of_true (register_noThrow hs hc n chance) trivial
    | serverGamePlayerActionApprove => exact actionApprove_noThrow_iff hs hc
    | gameUpdatePlayer => exact iff_of_true (hall _ _) trivial
    | messageAll =>
      by_cases hmem : c ∈ s.gameWorld.playersList
      · simp only [if_pos hmem]
        exact iff_of_true (hall _ _) hmem
      · simp only [if_neg hmem]
        exact iff_of_false (fun h => h rfl) hmem
    | _ => exact iff_of_true (.of_ok _) trivial

theorem onMessage_noThrow_iff (hs : s.Idle) {c : UInt32} (hc : s.Accepted c) {msg : Message}
    {n : Nat} {chance : Chance} :
    Avoids .outOfRange (s.onMessage (onClientDisconnect n) chance c msg) ↔
      ∀ t, s.flushGarbage (onClientDisconnect n) = .ok t → Keyed c msg t := by
  have hh := onClientDisconnect_spec n
  have hthrow := onClientDisconnect_noThrow n
  have hflush := flushGarbage_spec hh hs.wellFormed
  have hhandle : ∀ t, s.flushGarbage (onClientDisconnect n) = .ok t →
      (Avoids .outOfRange (t.handleMessage (onClientDisconnect n) chance c msg) ↔ Keyed c msg t) := by
    intro t ht
    have hmessaged := hflush t ht
    exact handleMessage_noThrow_iff (hmessaged.handled.idle hs) (hmessaged.accepted hc)
  constructor
  · intro h t ht
    apply (hhandle t ht).mp
    unfold onMessage at h
    rw [ht] at h
    exact h
  · intro h
    refine .bind_post (P := fun t => s.flushGarbage (onClientDisconnect n) = .ok t)
      (flushGarbage_noThrow hh hthrow hs.wellFormed) (fun t ht => ht) fun t ht => ?_
    exact (hhandle t ht).mpr (h t ht)

/-- `std::out_of_range` leaves `OnMessage` exactly when the message, once the removals of
`GarbageIDs` are sent, asks for a record that is not there. -/
theorem onMessage_keyed_iff (hs : s.Reachable) {c : UInt32} (hc : s.Accepted c) (n : Nat)
    (chance : Chance) (msg : Message) :
    s.onMessage (onClientDisconnect n) chance c msg ≠ .fault .outOfRange ↔
      ∀ t, s.flushGarbage (onClientDisconnect n) = .ok t → Keyed c msg t :=
  onMessage_noThrow_iff hs.idle hc

/-- A step that names player `id`. -/
def stepOf (id : UInt32) : PlayerAction := ⟨EPlayerActionType.move.code, id, moveInfo 0 1⟩

theorem keyed_stepOf {c id : UInt32} (hmay : s.MayAct c) :
    Keyed c (actionRequest (stepOf id)) s ↔ id ∈ s.gameWorld.playersList := by
  have hpop := Message.pop_push Layout.playerAction (stepOf id) (.ofID .serverGamePlayerActionApprove)
  constructor
  · exact fun h => h (stepOf id) _ hpop hmay
  · intro hid action rest hpop' _
    cases hpop.symm.trans hpop'
    exact hid

/-- A registered client may send `MessageAll` and its own actions, but not an action of somebody
unknown. -/
theorem onMessage_keyed_registered : ∃ s : Server,
    Machine.run step (start (fun _ => 0) (fun _ => 0) fun _ => [])
      [.accept, .message 0 (.always 5) 10000 (registerRequest Player.default)] = some s ∧
    10000 ∈ s.gameWorld.playersList ∧ 10001 ∉ s.gameWorld.playersList ∧
    s.onMessage (onClientDisconnect 1) Chance.zero 10000 (.ofID .messageAll) ≠ .fault .outOfRange ∧
    s.onMessage (onClientDisconnect 1) Chance.zero 10000 (actionRequest (stepOf 10000)) ≠
      .fault .outOfRange ∧
    s.onMessage (onClientDisconnect 1) Chance.zero 10000 (actionRequest (stepOf 10001)) =
      .fault .outOfRange := by
  have hrun : ((Machine.run step (start (fun _ => 0) (fun _ => 0) fun _ => [])
      [.accept, .message 0 (.always 5) 10000 (registerRequest Player.default)]).map fun s =>
        decide (s.Accepted 10000 ∧ s.garbageIDs = [] ∧ 10000 = s.currentPlayerID ∧
          (s.gameWorld.playersList.lookup 10000).any (fun p => 0 < p.getCurrentTurnActions) ∧
          10000 ∈ s.gameWorld.playersList ∧ 10001 ∉ s.gameWorld.playersList)) = some true := by
    decide +kernel
  obtain ⟨s, hs, hstate⟩ := Option.map_eq_some_iff.mp hrun
  obtain ⟨hc, hgarbage, hcur, hleft, hone, htwo⟩ := of_decide_eq_true hstate
  obtain ⟨player, hplayer, hleft⟩ := (Option.any_eq_true _ _).mp hleft
  have hmay : s.MayAct 10000 := ⟨hcur, player, hplayer, of_decide_eq_true hleft⟩
  have hflush := flushGarbage_of_nil (onClientDisconnect 1) hgarbage
  have hiff := onMessage_keyed_iff ⟨_, _, _, _, hs⟩ hc 1 Chance.zero
  refine ⟨s, hs, hone, htwo, (hiff _).mpr fun t ht => ?_, (hiff _).mpr fun t ht => ?_, ?_⟩
  · cases hflush.symm.trans ht
    exact hone
  · cases hflush.symm.trans ht
    exact (keyed_stepOf hmay).mpr hone
  · by_contra hne
    exact htwo ((keyed_stepOf hmay).mp ((hiff _).mp hne s hflush))

/-- A client that has not registered sends `MessageAll`. -/
theorem onMessage_messageAll_unregistered : oneClient.Reachable ∧ oneClient.Accepted 10000 ∧
    neededBytes (Message.ofID .messageAll).header.id ≤ (Message.ofID .messageAll).body.length ∧
    ∀ n, oneClient.onMessage (onClientDisconnect n) Chance.zero 10000 (.ofID .messageAll) =
      .fault .outOfRange :=
  ⟨oneClient_reachable, by decide, by decide, fun _ => rfl⟩

end Server

end AsciiTerra
