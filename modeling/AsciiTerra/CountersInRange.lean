import AsciiTerra.MatchedCounters
import AsciiTerra.ReferencesKnown
import AsciiTerra.TurnHolder

/-!
# Turn counters in every run

The handlers keep the counters of the server and of the clients' own records matched, so these
calls of `SetCurrentTurnActions` are in range. The copy of another player is not refilled.
-/

set_option autoImplicit false

namespace AsciiTerra

namespace Server
variable {s t : Server} {off off' : UInt32 → Nat}
variable {order : Arrangement (OrderedMap.Entry UInt32 Player)} {map : Map}

open Outcome (Post)

theorem gone_zero (s : Server) : Gone (fun _ => 0) s := fun _ h => absurd rfl h

def gamePlayerActionValidated (action : PlayerAction) : Message :=
  (Message.ofID .gamePlayerActionValidated).push Layout.playerAction action

/-- Player `c` waits for its own action while the first `k` entries have been visited. -/
def unsent (c : UInt32) (k : Nat) (s : Server) (e : UInt32) : Nat :=
  if e = c ∧ some e ∉ s.deqConnection.take k then 1 else 0

theorem unsent_eq {c : UInt32} {k k' : Nat} (h : some c ∈ t.deqConnection.take k' ↔
    some c ∈ s.deqConnection.take k) : unsent c k' t = unsent c k s := by
  funext e
  unfold unsent
  by_cases he : e = c
  · subst he
    simp only [h]
  · simp [he]

theorem Matched.count {c : UInt32} {action : PlayerAction} (h : Matched order map off s)
    (hopen : c ∉ s.closed) (hmem : c ∈ s.gameWorld.playersList) (hone : off c = 1) (hzero : off' c = 0)
    (hoff : ∀ e, e ≠ c → off' e = off e) (hown : action.playerID = c) :
    Matched order map off' (s.send c (gamePlayerActionValidated action)) := by
  obtain ⟨p, hp⟩ := OrderedMap.mem_iff_lookup.mp hmem
  obtain ⟨hmax, hle, hbound⟩ := h.turns c p hp
  have hknown := h.owned c p hopen hp
  have hbound := hbound hopen
  rw [hone] at hknown hbound
  refine ⟨fun id q hq => ?_, fun e => ?_, fun e q he hq => ?_⟩
  · obtain ⟨hmax', hle', hbound'⟩ := h.turns id q hq
    refine ⟨hmax', hle', fun hid => ?_⟩
    by_cases heq : id = c
    · subst heq
      rw [hzero]
      exact hle'
    · rw [hoff id heq]
      exact hbound' hid
  · by_cases he : e = c
    · subst he
      rw [stream_send_self]
      refine (h.sound e).concat (fun q hq => ?_) (hknown.mono fun cl howns => ⟨fun hturn => ?_, fun _ => ?_⟩)
      · simp [gamePlayerActionValidated, Message.record] at hq
      · simp [gamePlayerActionValidated] at hturn
      · obtain ⟨q, hq, hqmax, hqcurrent⟩ := howns.record
        have hfour : q.maxTurns.val = 4 := congrArg Fin.val hqmax
        exact ⟨q, hq, by omega, by omega⟩
    · rw [stream_send_ne he]
      exact h.sound e
  · by_cases heq : e = c
    · subst heq
      cases hp.symm.trans hq
      rw [stream_send_self, hzero]
      exact hknown.concat fun cl cl' howns hok => howns.count hown hok
    · rw [stream_send_ne heq, hoff e heq]
      exact h.owned e q he hq

/-- A player that is connected is in the list. -/
def Stays (c : UInt32) (s : Server) : Prop := c ∉ s.closed → c ∈ s.gameWorld.playersList

theorem not_mem_take {c : UInt32} {k : Nat} (hwf : s.WellFormed)
    (hk : s.deqConnection[k]? = some (some c)) : some c ∉ s.deqConnection.take k := by
  intro hmem
  have hsplit : s.deqConnection = s.deqConnection.take k ++ some c :: s.deqConnection.drop (k + 1) := by
    obtain ⟨hlt, hget⟩ := List.getElem?_eq_some_iff.mp hk
    rw [← hget, List.getElem_cons_drop, List.take_append_drop]
  have hdistinct := hwf.distinct
  unfold ids at hdistinct
  rw [hsplit, List.reduceOption_append, List.reduceOption_cons_of_some] at hdistinct
  exact (List.nodup_append.mp hdistinct).2.2 c (List.reduceOption_mem_iff.mpr hmem) c
    List.mem_cons_self rfl

theorem approves_left {c : UInt32} {action : PlayerAction} (h : s.approves c action = .ok true) :
    ∃ p, s.gameWorld.playersList.lookup c = some p ∧ 1 ≤ p.currentTurns.val := by
  unfold approves at h
  split at h
  · split at h
    · exact nomatch h
    · rename_i player hplayer
      split at h
      · rename_i hpos
        refine ⟨player, hplayer, ?_⟩
        have hpos := UInt32.lt_iff_toNat_lt.mp hpos
        rw [player.getCurrentTurnActions_toNat] at hpos
        exact hpos
      · exact nomatch h
  · exact nomatch h

section Handlers
variable {n : Nat} {c : UInt32}

theorem action_entry {action : PlayerAction} (hown : action.playerID = c) {b : Bool} {k : Nat}
    (hwf : s.WellFormed) (hpend : Pend (unsent c k s) s) (hstays : Stays c s)
    (hs : Matched order map (unsent c k s) s) :
    Post (fun st => Matched order map (unsent c (k + 1) st.1) st.1 ∧
        Pend (unsent c (k + 1) st.1) st.1)
      (messageEntry (onClientDisconnect n) (gamePlayerActionValidated action) none (s, b) k) := by
  have hh := onClientDisconnect_matches order map n
  have hlater : s.closed ⊆ s.tick.closed := List.subset_append_right _ _
  have htick : Matched order map (unsent c k s) s.tick := hs.congr rfl hlater rfl
  have hwft := (Continues.tick hwf).wellFormed
  have hpendt : Pend (unsent c k s) s.tick := hpend.mono hlater rfl
  have htake {client : Option UInt32} (hi : s.deqConnection[k]? = some client) :
      s.deqConnection.take (k + 1) = s.deqConnection.take k ++ [client] := by
    rw [List.take_add_one, hi]
    rfl
  refine messageEntry_post hh.spec.null ?_ ?_ ?_
  · intro d hi hup
    have hd : s.Accepted d := hwf.accepted d (mem_ids.mpr (List.mem_of_getElem? hi))
    refine ((hh.matched _ d s.tick hwft hd hup hpendt htick).and
      (hh.spec.disconnected d s.tick hwft hd hup)).mono ?_
    rintro t ⟨ht, hgone⟩ hlength
    have hdeq : t.deqConnection = s.deqConnection := hgone.deqConnection.eq_of_length hlength
    have hsame : unsent c (k + 1) (t.resetAt k) = unsent c k s := by
      apply unsent_eq
      have hreset : (t.resetAt k).deqConnection.take (k + 1) = s.deqConnection.take k ++ [none] := by
        simp only [resetAt, hdeq]
        rw [List.take_add_one, List.take_set_of_le (le_refl k), List.getElem?_set_self', hi]
        rfl
      rw [hreset]
      simp
    refine ⟨?_, ?_⟩
    · rw [hsame]
      exact ht.congr rfl (List.Subset.refl _) rfl
    · rw [hsame]
      exact (hpendt.disconnected hup hgone).mono (List.Subset.refl _) rfl
  · intro d hi hup _
    by_cases hdc : d = c
    · subst hdc
      have hsent : ∀ e, unsent d (k + 1) (s.tick.send d (gamePlayerActionValidated action)) e = 0 := by
        intro e
        have htake' : (s.tick.send d (gamePlayerActionValidated action)).deqConnection.take (k + 1) =
          s.deqConnection.take k ++ [some d] := htake hi
        unfold unsent
        rw [htake']
        refine if_neg fun hboth => hboth.2 ?_
        rw [hboth.1]
        exact List.mem_append_right _ (List.mem_singleton_self _)
      have hone : unsent d k s d = 1 := if_pos ⟨rfl, not_mem_take hwf hi⟩
      refine ⟨htick.count hup (hstays fun hmem => hup (hlater hmem)) hone (hsent d)
        (fun e he => ?_) hown, fun e he => absurd (hsent e) he⟩
      rw [hsent e]
      exact (if_neg fun hboth => he hboth.1).symm
    · have hsame : unsent c (k + 1) (s.tick.send d (gamePlayerActionValidated action)) = unsent c k s := by
        apply unsent_eq
        have htake' : (s.tick.send d (gamePlayerActionValidated action)).deqConnection.take (k + 1) =
          s.deqConnection.take k ++ [some d] := htake hi
        rw [htake']
        simp [Ne.symm hdc]
      have hquiet : (gamePlayerActionValidated action).Quiet d :=
        quiet_validated (hown ▸ Ne.symm hdc)
      refine ⟨?_, ?_⟩
      · rw [hsame]
        exact htick.quiet hquiet
      · rw [hsame]
        exact hpendt.mono (List.Subset.refl _) rfl
  · intro d _ _ hnone
    cases hnone

theorem Departed.stays (h : Departed (· = c) (fun _ => False) s) : Stays c s :=
  fun hopen => h.present c rfl hopen

theorem broadcastAction_matched {action : PlayerAction} (hown : action.playerID = c)
    (hwf : s.WellFormed) (hpend : Pend (unsent c 0 s) s)
    (hdeparted : Departed (· = c) (fun _ => False) s) (hs : Matched order map (unsent c 0 s) s) :
    Post (Matched order map fun _ => 0)
      (messageAllClients (onClientDisconnect n) (gamePlayerActionValidated action) none s) := by
  have hspec := onClientDisconnect_spec n
  have hloop := Post.foldlM_range (n := s.deqConnection.length) (s := (s, false))
    (f := messageEntry (onClientDisconnect n) (gamePlayerActionValidated action) none)
    (I := fun k (st : Server × Bool) => (Looped s st ∧ Departed (· = c) (fun _ => False) st.1) ∧
      Matched order map (unsent c k st.1) st.1 ∧ Pend (unsent c k st.1) st.1)
    ⟨⟨⟨.refl hwf, .refl _, fun _ => rfl, .refl s⟩, hdeparted⟩, hs, hpend⟩
    fun k st _ ⟨⟨hlooped, hst⟩, hmatched, hpst⟩ => by
      have hsmalls : Post (fun st' : Server × Bool => Smalls none st.1 st'.1)
          (messageEntry (onClientDisconnect n) (gamePlayerActionValidated action) none st k) :=
        messageEntry_smalls (onClientDisconnect_smalls n)
      have hentry : Post (fun st' : Server × Bool => Matched order map (unsent c (k + 1) st'.1) st'.1 ∧
          Pend (unsent c (k + 1) st'.1) st'.1)
          (messageEntry (onClientDisconnect n) (gamePlayerActionValidated action) none st k) :=
        action_entry hown hlooped.wellFormed hpst hst.stays hmatched
      refine ((messageEntry_spec hspec hlooped).and (hsmalls.and hentry)).mono ?_
      exact fun st' ⟨hlooped', hs', hmatched'⟩ => ⟨⟨hlooped', hs'.departed hst⟩, hmatched'⟩
  refine Post.bind hloop fun st ⟨⟨hlooped, _⟩, hmatched, _⟩ => Post.of_ok ?_
  have hdone : Matched order map (fun _ => 0) st.1 := by
    refine hmatched.reoff fun e _ hmem => ?_
    have hlisted := mem_ids.mp (hlooped.wellFormed.present e hmem)
    have hlength : st.1.deqConnection.length = s.deqConnection.length := hlooped.blanked.length_eq.symm
    refine (if_neg fun ⟨_, hnot⟩ => hnot ?_).symm
    rw [List.take_of_length_le hlength.le]
    exact hlisted
  split
  · exact hdone.congr rfl (List.Subset.refl _) rfl
  · exact hdone

theorem toClient_matched (hwf : s.WellFormed) (hc : s.Accepted c)
    (hs : Matched order map (fun _ => 0) s) {msg : Message} (hmsg : msg.Quiet c) :
    Post (Matched order map fun _ => 0) (messageClient (onClientDisconnect n) (some c) msg s) :=
  (messageClient_matched (onClientDisconnect_matches order map n) hwf hc (gone_zero s).pend hs
    hmsg).mono fun _ h => h.1

theorem broadcast_matched (hwf : s.WellFormed) (hs : Matched order map (fun _ => 0) s)
    {msg : Message} {ignore : Option UInt32}
    (hmsg : ∀ e, e ∉ s.closed → some e ≠ ignore → msg.Quiet e) :
    Post (Matched order map fun _ => 0) (messageAllClients (onClientDisconnect n) msg ignore s) :=
  (messageAllClients_matched (onClientDisconnect_matches order map n) hwf (gone_zero s).pend hs
    hmsg).mono fun _ h => h.1

theorem flushGarbage_matched (hwf : s.WellFormed) (hgarbage : ∀ id ∈ s.garbageIDs, id ∈ s.closed)
    (hs : Matched order map (fun _ => 0) s) :
    Post (Matched order map fun _ => 0) (s.flushGarbage (onClientDisconnect n)) := by
  have hspec := onClientDisconnect_spec n
  refine Post.bind (Post.foldlM (I := fun t => Messaged s t ∧ Matched order map (fun _ => 0) t)
    ⟨.refl hwf, hs⟩ fun t pid hpid ⟨hm, ht⟩ => ?_) fun t ⟨_, ht⟩ =>
      Post.of_ok (ht.congr rfl (List.Subset.refl _) rfl)
  have hnote : Messaged t (t.note (.broadcast pid)) :=
    ⟨.of_eq hm.wellFormed rfl rfl rfl rfl rfl rfl, .refl _, .of_eq rfl rfl rfl⟩
  have hnoted : Matched order map (fun _ => 0) (t.note (.broadcast pid)) :=
    ht.congr rfl (List.Subset.refl _) rfl
  refine Post.bind ((messageAllClients_spec hspec hnote.wellFormed).and
    (broadcast_matched hnote.wellFormed hnoted fun e he _ => quiet_removal ?_)) fun u ⟨hm', hu⟩ => ?_
  · rintro rfl
    exact he (hm.closed (hgarbage pid hpid))
  · split
    · exact Post.of_ok ⟨(hm.trans hnote).trans hm', hu⟩
    · exact Post.of_fault

theorem choose_matched (hwf : s.WellFormed) (hs : Matched order map (fun _ => 0) s)
    (client : Option UInt32) :
    Post (Matched order map fun _ => 0) (s.chooseNextPlayerForTurn (onClientDisconnect n) client) :=
  chooseNextPlayerForTurn_matched (onClientDisconnect_matches order map n) hwf (gone_zero s) hs client

theorem endTurn_matched (hwf : s.WellFormed) (hc : s.Accepted c)
    (hs : Matched order map (fun _ => 0) s) :
    Post (Matched order map fun _ => 0) (s.endTurn (onClientDisconnect n) c) := by
  have hspec := onClientDisconnect_spec n
  have hend : (Message.ofID .gameEndPlayerTurn).Quiet c :=
    quiet_of_kind .gameEndPlayerTurn (by simp) (by decide) c
  refine Post.bind ((messageClient_spec hspec hwf hc).and (toClient_matched hwf hc hs hend))
    fun t ⟨hm, ht⟩ => ?_
  refine Post.bind ((chooseNextPlayerForTurn_handled hspec hm.wellFormed (some c)).and
    (choose_matched hm.wellFormed ht (some c))) fun u ⟨⟨hhandled, _⟩, hu⟩ => ?_
  exact broadcast_matched hhandled.wellFormed hu fun e _ _ =>
    quiet_of_kind .gameNextPlayerTurn (by simp) (by decide) e

theorem Matched.applied (hwf : s.WellFormed) (hs : Matched order map (fun _ => 0) s)
    {action : PlayerAction} {w : GameWorld} (hw : s.gameWorld.makeApprovedAction c action = .ok w) :
    Matched order map (unsent c 0 s) ({ s with gameWorld := w }.log (.applied c)) := by
  have hplayers := (GameWorld.makeApprovedAction_actedBy hwf.keysAreIDs hw).players
  have hcounts := (GameWorld.makeApprovedAction_counts hw).2
  have hback : ∀ id p', w.playersList.lookup id = some p' → ∃ p,
      s.gameWorld.playersList.lookup id = some p ∧ p'.maxTurns = p.maxTurns ∧
        p'.currentTurns.val + unsent c 0 s id = p.currentTurns.val := by
    intro id p' hp'
    obtain ⟨p, hp⟩ := OrderedMap.mem_iff_lookup.mp
      (hplayers.mem_iff.mp (OrderedMap.mem_iff_lookup.mpr ⟨p', hp'⟩))
    obtain ⟨p'', hp'', hmax, hcurrent⟩ := hcounts id p hp
    cases hp'.symm.trans hp''
    refine ⟨p, hp, hmax, ?_⟩
    by_cases heq : id = c
    · rw [if_pos heq] at hcurrent
      simpa [unsent, heq] using hcurrent
    · rw [if_neg heq] at hcurrent
      simp [unsent, heq, hcurrent]
  refine ⟨fun id p' hp' => ?_, hs.sound, fun e p' hopen hp' => ?_⟩
  · obtain ⟨p, hp, hmax, hcurrent⟩ := hback id p' hp'
    obtain ⟨hfour, hle, _⟩ := hs.turns id p hp
    exact ⟨hmax.trans hfour, by omega, fun _ => by omega⟩
  · obtain ⟨p, hp, _, hcurrent⟩ := hback e p' hp'
    rw [hcurrent]
    exact hs.owned e p hopen hp

theorem actionApprove_matched {R : UInt32 → Prop} (hb : Briefed order map R s) (hc : s.Accepted c)
    (hs : Matched order map (fun _ => 0) s) (msg : Message) :
    Post (Matched order map fun _ => 0) (s.actionApprove (onClientDisconnect n) c msg) := by
  have hwf := hb.idle.wellFormed
  intro t hok
  obtain ⟨⟨action, rest⟩, _, hok⟩ := Outcome.bind_eq_ok.mp hok
  obtain ⟨approved, happroved, hok⟩ := Outcome.bind_eq_ok.mp hok
  cases approved with
  | false =>
    exact toClient_matched hwf hc hs
      (quiet_of_kind .gamePlayerActionAborted (by simp) (by decide) c) t hok
  | true =>
    obtain ⟨hcur, hmem⟩ := approves_mem (Outcome.ofExcept_eq_ok.mp happroved)
    obtain ⟨w, hw, hok⟩ := Outcome.bind_eq_ok.mp hok
    have hw := Outcome.ofExcept_eq_ok.mp hw
    have hdeparted : Departed (· = c) (fun _ => False) s := by
      refine ⟨hb.departed.keysAreIDs, hb.departed.fromTable, hb.departed.garbage, fun id hid _ => ?_⟩
      exact hid ▸ hmem
    have happlied : Matched order map (unsent c 0 ({ s with gameWorld := w }.log (.applied c)))
        ({ s with gameWorld := w }.log (.applied c)) := hs.applied hwf hw
    have hpend : Pend (unsent c 0 ({ s with gameWorld := w }.log (.applied c)))
        ({ s with gameWorld := w }.log (.applied c)) := by
      intro e he
      by_cases heq : e = c
      · exact Or.inr (heq.trans hcur)
      · exact absurd (if_neg fun h => heq h.1) he
    have hwfw := wellFormed_applied hwf hw
    have hbroadcast : Post (Matched order map fun _ => 0) (messageAllClients (onClientDisconnect n)
        (gamePlayerActionValidated { action with playerID := c }) none
        ({ s with gameWorld := w }.log (.applied c))) :=
      broadcastAction_matched rfl hwfw hpend (hdeparted.apply hw) happlied
    refine Post.bind ((messageAllClients_spec (onClientDisconnect_spec n) hwfw).and hbroadcast)
      (fun u ⟨hm, hu⟩ => ?_) t hok
    split
    · exact Post.of_fault
    · split
      · exact endTurn_matched hm.wellFormed (hm.accepted hc) hu
      · exact Post.of_ok hu

theorem lookup_entered {p : Player} {arrangement : Arrangement (OrderedMap.Entry UInt32 Player)}
    {id : UInt32} {q : Player}
    (hq : (OrderedMap.insertOrAssign arrangement c p s.gameWorld.playersList).lookup id = some q) :
    (id = c ∧ q = p) ∨ (id ≠ c ∧ s.gameWorld.playersList.lookup id = some q) := by
  rw [OrderedMap.lookup_insertOrAssign] at hq
  split at hq
  · rename_i heq
    cases hq
    exact Or.inl ⟨heq, rfl⟩
  · rename_i hne
    exact Or.inr ⟨hne, hq⟩

theorem turns_entered (hs : Matched order map (fun _ => 0) s) {p : Player} (hp : NewPlayer c p)
    {arrangement : Arrangement (OrderedMap.Entry UInt32 Player)} {id : UInt32} {q : Player}
    (hq : (OrderedMap.insertOrAssign arrangement c p s.gameWorld.playersList).lookup id = some q) :
    q.maxTurns = 4 ∧ q.currentTurns.val ≤ 4 ∧
      (id ∉ s.tick.closed → q.currentTurns.val + 0 ≤ 4) := by
  have hfour : p.currentTurns.val = 4 := congrArg Fin.val hp.currentTurns
  have hlater : s.closed ⊆ s.tick.closed := List.subset_append_right _ _
  rcases lookup_entered hq with ⟨rfl, rfl⟩ | ⟨_, hq⟩
  · exact ⟨hp.maxTurns, hfour.le, fun _ => hfour.le⟩
  · obtain ⟨hmax, hle, hbound⟩ := hs.turns id q hq
    exact ⟨hmax, hle, fun hopen => hbound fun hmem => hopen (hlater hmem)⟩

theorem enter_closed_matched {R : UInt32 → Prop} (hb : Briefed order map R s) (hc : s.Accepted c)
    (hs : Matched order map (fun _ => 0) s) {p : Player} (hp : NewPlayer c p)
    {arrangement : Arrangement (OrderedMap.Entry UInt32 Player)} (hup : c ∈ s.tick.closed) :
    Post (Matched order map fun _ => 0) (onClientDisconnect n (some c)
      (s.setPlayersList (OrderedMap.insertOrAssign arrangement c p s.gameWorld.playersList)).tick) := by
  have hh := onClientDisconnect_matches order map n
  have hwf := hb.idle.wellFormed
  let entered := s.setPlayersList (OrderedMap.insertOrAssign arrangement c p s.gameWorld.playersList)
  have hlater : s.closed ⊆ entered.tick.closed := List.subset_append_right _ _
  have htick : Matched order map (fun _ => 0) entered.tick := by
    refine ⟨fun id q hq => turns_entered hs hp hq, hs.sound, fun e q hopen hq => ?_⟩
    rcases lookup_entered hq with ⟨rfl, _⟩ | ⟨_, hq⟩
    · exact absurd hup hopen
    · exact hs.owned e q (fun hmem => hopen (hlater hmem)) hq
  by_cases hids : c ∈ s.ids
  · have henter : entered.WellFormed := wellFormed_enter hwf hids hp
    exact hh.matched _ c entered.tick (Continues.tick henter).wellFormed hc hup (gone_zero _).pend htick
  · -- a client that was removed before is not the holder of the turn
    have hcur : c ≠ s.currentPlayerID := by
      rintro rfl
      exact hwf.current.elim hc.ne_zero fun hmem => hids (hwf.present _ hmem)
    cases n with
    | zero => exact Post.of_deep
    | succ n =>
      rw [onClientDisconnect_of_ne (s := entered.tick)
        (OrderedMap.mem_insertOrAssign.mpr (Or.inl rfl)) hcur]
      exact Post.of_ok (htick.world rfl (List.Subset.refl _) (.erase c _))

theorem enter_matched {R : UInt32 → Prop} (hb : Briefed order map R s) (hc : s.Accepted c)
    (hs : Matched order map (fun _ => 0) s) {p : Player} (hp : NewPlayer c p)
    {arrangement : Arrangement (OrderedMap.Entry UInt32 Player)} :
    Post (Matched order map fun _ => 0) (messageClient (onClientDisconnect n) (some c)
      ((Message.ofID .clientRegisterFromServer).push Layout.player p)
      (s.setPlayersList (OrderedMap.insertOrAssign arrangement c p s.gameWorld.playersList))) := by
  let entered := s.setPlayersList (OrderedMap.insertOrAssign arrangement c p s.gameWorld.playersList)
  have hlater : s.closed ⊆ entered.tick.closed := List.subset_append_right _ _
  by_cases hup : c ∈ entered.tick.closed
  · rw [messageClient_closed hup]
    exact Post.bind (enter_closed_matched hb hc hs hp hup) fun t ht =>
      Post.of_ok (ht.congr rfl (List.Subset.refl _) rfl)
  · rw [messageClient_open hup]
    have hstream : ∀ e, entered.tick.stream e = s.stream e := fun e => rfl
    refine Post.of_ok ⟨fun id q hq => turns_entered hs hp hq, fun e => ?_, fun e q hopen hq => ?_⟩
    · by_cases he : e = c
      · subst he
        rw [stream_send_self, hstream]
        refine (hs.sound e).concat (fun q hq => ?_) fun cl _ => ⟨fun hturn => ?_, fun hact => ?_⟩
        · have hrecord : ((Message.ofID .clientRegisterFromServer).push Layout.player p).record = some p := by
            simp [Message.record, Message.pop_push]
          cases hrecord.symm.trans hq
          have hfull : p.currentTurns = p.maxTurns := hp.currentTurns.trans hp.maxTurns.symm
          exact (congrArg Fin.val hfull).le
        · simp at hturn
        · simp [Message.actor] at hact
      · rw [stream_send_ne he, hstream]
        exact hs.sound e
    · rcases lookup_entered hq with ⟨rfl, rfl⟩ | ⟨hne, hq⟩
      · rw [stream_send_self]
        have hany : Knows order map (fun _ => True) (entered.tick.stream e) := fun _ _ => trivial
        exact hany.concat fun cl cl' _ hok => Client.owns_registered hp.id hp.maxTurns hok
      · rw [stream_send_ne hne, hstream]
        exact hs.owned e q (fun hmem => hopen (hlater hmem)) hq

theorem announce_matched {p : Player} (hp : NewPlayer c p)
    (hfirst : Post (fun t => (t.WellFormed ∧ t.Accepted c) ∧ Matched order map (fun _ => 0) t)
      (messageClient (onClientDisconnect n) (some c)
        ((Message.ofID .clientRegisterFromServer).push Layout.player p) s)) :
    Post (Matched order map fun _ => 0) (s.announce (onClientDisconnect n) c p) := by
  have hspec := onClientDisconnect_spec n
  have hfour : p.currentTurns.val ≤ p.maxTurns.val := by
    rw [hp.currentTurns, hp.maxTurns]
  refine Post.bind hfirst fun t0 ⟨⟨hwf, hc⟩, h0⟩ => ?_
  have hclient : ∀ (t : Server) (msg : Message), msg.Quiet c →
      Messaged t0 t ∧ Matched order map (fun _ => 0) t →
      Post (fun u => Messaged t0 u ∧ Matched order map (fun _ => 0) u)
        (messageClient (onClientDisconnect n) (some c) msg t) := by
    intro t msg hmsg ⟨hm, ht⟩
    have hct := hm.accepted hc
    exact ((messageClient_spec hspec hm.wellFormed hct).and (toClient_matched hm.wellFormed hct ht hmsg)).mono
      fun u ⟨hm', hu⟩ => ⟨hm.trans hm', hu⟩
  refine Post.bind (hclient t0 _ (quiet_of_kind .clientUpdateMap (by simp) (by decide) c)
    ⟨.refl hwf, h0⟩) fun t1 h1 => ?_
  refine Post.bind (Post.foldlM (I := fun t => Messaged t0 t ∧ Matched order map (fun _ => 0) t) h1
    fun t i _ ht => ?_) fun t2 ⟨hm2, h2⟩ => ?_
  · unfold sendEnemy
    split
    · exact Post.of_fault
    · exact hclient t _ (quiet_of_kind .clientInitEnemy (by simp) (by decide) c) ht
  refine Post.bind ((messageAllClients_spec hspec hm2.wellFormed).and
    (broadcast_matched hm2.wellFormed h2 fun e _ hne => quiet_addPlayer hfour ?_)) fun t3 ⟨hm3, h3⟩ => ?_
  · rw [hp.id]
    exact fun heq => hne (congrArg some heq.symm)
  refine (Post.foldlM (I := fun t => Messaged t0 t ∧ Matched order map (fun _ => 0) t)
    ⟨hm2.trans hm3, h3⟩ fun t key _ ht => ?_).mono fun t ht => ht.2
  unfold sendOtherPlayer
  split
  · exact Post.of_ok ht
  · rename_i player hplayer
    split
    · exact Post.of_ok ht
    · rename_i hne
      obtain ⟨hmax, hle, _⟩ := ht.2.turns key player hplayer
      have hquiet : ((Message.ofID .clientAddPlayer).push Layout.player player).Quiet c := by
        refine quiet_addPlayer ?_ (hp.id ▸ hne)
        rw [hmax]
        exact hle
      refine Post.bind (hclient t _ hquiet ht) fun u hu => ?_
      split
      · exact Post.of_ok hu
      · exact Post.of_fault

theorem register_matched {R : UInt32 → Prop} (hb : Briefed order map R s) (hc : s.Accepted c)
    (hs : Matched order map (fun _ => 0) s) (chance : Chance) (msg : Message) :
    Post (Matched order map fun _ => 0) (s.register (onClientDisconnect n) chance c msg) := by
  intro t hok
  obtain ⟨⟨info, rest⟩, _, hok⟩ := Outcome.bind_eq_ok.mp hok
  obtain ⟨p, hp, hok⟩ := Outcome.bind_eq_ok.mp hok
  have hnew := clientOnRegister_spec (Outcome.ofExcept_eq_ok.mp hp)
  rw [hnew.id] at hok
  have hfirst : Post (fun t => (t.WellFormed ∧ t.Accepted c) ∧ Matched order map (fun _ => 0) t)
      (messageClient (onClientDisconnect n) (some c)
        ((Message.ofID .clientRegisterFromServer).push Layout.player p)
        (s.setPlayersList (OrderedMap.insertOrAssign chance.order c p s.gameWorld.playersList))) := by
    refine ((enter_first hb hc hnew).and (enter_matched hb hc hs hnew)).mono ?_
    exact fun t ⟨⟨hwf, hacc, _⟩, ht⟩ => ⟨⟨hwf, hacc c hc⟩, ht⟩
  have hwell : Post (fun t => ∃ u, (u.WellFormed ∧ u.Accepted c) ∧ Messaged u t)
      (announce (onClientDisconnect n) c p
        (s.setPlayersList (OrderedMap.insertOrAssign chance.order c p s.gameWorld.playersList))) :=
    announce_spec (onClientDisconnect_spec n) (hfirst.mono fun t h => h.1) fun t h => h
  refine Post.bind ((announce_matched hnew hfirst).and hwell) (fun u ⟨hu, v, _, hm⟩ => ?_) t hok
  split
  · exact choose_matched hm.wellFormed hu none
  · exact Post.of_ok hu

theorem handleMessage_matched {R : UInt32 → Prop} (hb : Briefed order map R s) (hc : s.Accepted c)
    (hs : Matched order map (fun _ => 0) s) {msg : Message} (hsends : ClientSends c msg)
    (chance : Chance) :
    Post (Matched order map fun _ => 0) (s.handleMessage (onClientDisconnect n) chance c msg) := by
  have hwf := hb.idle.wellFormed
  unfold handleMessage
  split
  · exact register_matched hb hc hs chance msg
  · exact actionApprove_matched hb hc hs msg
  · rename_i hid
    exact absurd hid hsends.not_update
  · rename_i hid
    exact Post.of_ok (hs.quiet (quiet_of_kind .serverPing hid (by decide) c))
  · split
    · exact broadcast_matched hwf hs fun e _ _ => quiet_of_kind .serverMessage (by simp) (by decide) e
    · exact Post.of_fault
  · exact Post.of_ok hs

end Handlers

/-- The clients behave like `CustomClient`. -/
def Honest (events : List Event) : Prop :=
  ∀ depth chance c msg, .message depth chance c msg ∈ events → ClientSends c msg

/-- The states between two handlers when the clients are honest. -/
def HonestlyReachable (s : Server) : Prop :=
  ∃ mapRand enemyRand closing events, Honest events ∧
    Machine.run step (start mapRand enemyRand closing) events = some s

theorem HonestlyReachable.reachable (h : s.HonestlyReachable) : s.Reachable := by
  obtain ⟨mapRand, enemyRand, closing, events, _, hrun⟩ := h
  exact ⟨mapRand, enemyRand, closing, events, hrun⟩

theorem step_matched {e : Event} {R : UInt32 → Prop} (hb : Briefed order map R s)
    (hs : Matched order map (fun _ => 0) s)
    (hsends : ∀ depth chance c msg, e = .message depth chance c msg → ClientSends c msg)
    (h : step s e = some t) : Matched order map (fun _ => 0) t := by
  have hwf := hb.idle.wellFormed
  cases step_cases h with
  | accept _ =>
    have hquiet : (Message.ofID .serverAccept).Quiet (UInt32.ofNat s.nIDCounter) :=
      quiet_of_kind .serverAccept (by simp) (by decide) _
    exact (hs.quiet hquiet).congr rfl (List.Subset.refl _) rfl
  | validated c _ =>
    have hquiet : (Message.ofID .clientAccepted).Quiet c :=
      quiet_of_kind .clientAccepted (by simp) (by decide) c
    exact hs.quiet hquiet
  | close c _ =>
    exact hs.congr rfl (List.subset_cons_self c _) rfl
  | shyCheck n hok =>
    have hall : Post (Matched order map fun _ => 0) (s.shyCheckAllPlayers (onClientDisconnect n)) :=
      broadcast_matched hwf hs fun e _ _ =>
        quiet_of_kind .serverShyConnectionCheck (by decide) (by decide) e
    exact hall t hok
  | message n chance c msg hc hok =>
    obtain ⟨u, hu, hok⟩ := Outcome.bind_eq_ok.mp hok
    have hflushed := flushGarbage_matched hwf (fun id hid => (hb.departed.garbage id hid).1) hs u hu
    have hbriefed := flushGarbage_briefed hb u hu
    have hm := flushGarbage_spec (onClientDisconnect_spec n) hwf u hu
    exact handleMessage_matched hbriefed (hm.accepted hc) hflushed (hsends n chance c msg rfl) chance
      t hok

theorem start_matched (mapRand enemyRand : Nat → Nat) (closing : Nat → List UInt32) :
    Matched order map (fun _ => 0) (start mapRand enemyRand closing) := by
  refine ⟨fun id p hp => (nomatch hp), fun e before msg hinit => ?_, fun e p _ hp => (nomatch hp)⟩
  have hnil := List.prefix_nil.mp hinit
  exact absurd hnil (List.append_ne_nil_of_right_ne_nil _ (List.cons_ne_nil _ _))

theorem HonestlyReachable.matched (h : s.HonestlyReachable)
    (order : Arrangement (OrderedMap.Entry UInt32 Player)) (map : Map) :
    Matched order map (fun _ => 0) s := by
  obtain ⟨mapRand, enemyRand, closing, events, hhonest, hrun⟩ := h
  have hall := Machine.invariant_history (P := Honest)
    (I := fun es u => Machine.run step (start mapRand enemyRand closing) es = some u ∧
      Matched order map (fun _ => 0) u)
    (fun es e hes depth chance c msg hmem => hes depth chance c msg (List.mem_append_left _ hmem))
    (fun es e u v hes ⟨hu, hmatched⟩ hstep => by
      have hreached : u.Reachable := ⟨mapRand, enemyRand, closing, es, hu⟩
      obtain ⟨R, hb⟩ := hreached.briefed order map
      refine ⟨Machine.run_append_eq_some.mpr ⟨u, hu, Machine.run_cons_eq_some.mpr ⟨v, hstep, rfl⟩⟩, ?_⟩
      refine step_matched hb hmatched (fun depth chance c msg he => ?_) hstep
      exact hes depth chance c msg (he ▸ List.mem_append_right _ List.mem_cons_self))
    ⟨rfl, start_matched mapRand enemyRand closing⟩ hhonest hrun
  exact hall.2

/-- The calls of `SetCurrentTurnActions` for approved actions; the other calls of the server pass
`MaxTurns` itself. -/
def CallsInRange (s : Server) : Prop :=
  ∀ depth t, s.flushGarbage (onClientDisconnect depth) = .ok t →
    ∀ c action, t.approves c action = .ok true → t.gameWorld.CountsDown c action

/-- Every call at the server is in range, and so is every call at a client that is sent no more
actions of another player than the last record of that player has left. -/
theorem calls_in_range (hs : s.HonestlyReachable) : s.CallsInRange ∧
    ∀ e, WithinRecords e (s.stream e) → ∀ order map before msg, before ++ [msg] <+: s.stream e →
      Knows order map (Client.CallsInRange msg) before := by
  constructor
  · intro depth t ht c action happroved
    let order := Arrangement.same (OrderedMap.Entry UInt32 Player)
    let map := generateMap fun _ => 0
    obtain ⟨R, hb⟩ := hs.reachable.briefed order map
    have hmatched := flushGarbage_matched hb.idle.wellFormed
      (fun id hid => (hb.departed.garbage id hid).1) (hs.matched order map) t ht
    obtain ⟨p, hp, hpos⟩ := approves_left happroved
    obtain ⟨hmax, hle, _⟩ := hmatched.turns c p hp
    refine GameWorld.countsDown_of_canAct hp ⟨hpos, ?_⟩ action
    rw [hmax]
    exact hle
  · intro e hwithin order map before msg hinit
    exact ((hs.matched order map).sound e).callsInRange hwithin hinit

/-- Two players register, and the first one uses up its turn. -/
def firstTurn : List Event :=
  [.accept, .message 0 (.always 10) 10000 (registerRequest Player.default), .accept,
    .message 0 (.always 10) 10001 (registerRequest Player.default)] ++
  List.replicate 4 (.message 0 (.always 10) 10000 (actionRequest (moveDown 10000)))

/-- So does the second one, and the first one moves once more. -/
def secondTurn : List Event :=
  firstTurn ++ List.replicate 4 (.message 0 (.always 10) 10001 (actionRequest (moveDown 10001))) ++
    [.message 0 (.always 10) 10000 (actionRequest (moveDown 10000))]

theorem honest_firstTurn : Honest firstTurn := by
  intro depth chance c msg hmem
  simp only [firstTurn, List.mem_append, List.mem_cons, List.mem_replicate, List.not_mem_nil,
    Event.message.injEq, reduceCtorEq, false_or, or_false] at hmem
  rcases hmem with (⟨_, _, rfl, rfl⟩ | ⟨_, _, rfl, rfl⟩) | ⟨_, _, _, rfl, rfl⟩
  · exact .register _
  · exact .register _
  · exact .approve rfl (Or.inl rfl)

theorem honest_secondTurn : Honest secondTurn := by
  intro depth chance c msg hmem
  rcases List.mem_append.mp hmem with hmem | hmem
  · rcases List.mem_append.mp hmem with hmem | hmem
    · exact honest_firstTurn depth chance c msg hmem
    · cases (List.mem_replicate.mp hmem).2
      exact .approve rfl (Or.inl rfl)
  · cases List.mem_singleton.mp hmem
    exact .approve rfl (Or.inl rfl)

theorem calls_in_range_firstTurn : ∃ s : Server, s.HonestlyReachable ∧
    (∃ msg ∈ s.stream 10001, msg.actor = some 10000) ∧ WithinRecords 10001 (s.stream 10001) ∧
    ∀ order map before msg, before ++ [msg] <+: s.stream 10001 →
      Knows order map (Client.CallsInRange msg) before := by
  have hrun : ((Machine.run step (start (fun _ => 0) (fun _ => 0) fun _ => []) firstTurn).map
      fun s => (decide (∃ msg ∈ s.stream 10001, msg.actor = some 10000),
        decide (WithinRecords 10001 (s.stream 10001)))) = some (true, true) := by decide +kernel
  obtain ⟨s, hs, h⟩ := Option.map_eq_some_iff.mp hrun
  simp only [Prod.mk.injEq, decide_eq_true_eq] at h
  have hreachable : s.HonestlyReachable := ⟨_, _, _, _, honest_firstTurn, hs⟩
  exact ⟨s, hreachable, h.1, h.2, (calls_in_range hreachable).2 10001 h.2⟩

/-- The second player counts the first one's action down from 0. -/
theorem second_turn_out_of_range : ∃ s : Server, s.HonestlyReachable ∧
    ∃ order map before msg, before ++ [msg] <+: s.stream 10001 ∧
      ¬ Knows order map (Client.CallsInRange msg) before := by
  let order := (Chance.always 10).order
  let map := generateMap fun _ => 0
  have hrun : ((Machine.run step (start (fun _ => 0) (fun _ => 0) fun _ => []) secondTurn).bind
      fun s => (s.stream 10001).getLast?.bind fun msg =>
        (msg.pop Layout.playerAction).toOption.bind fun popped =>
          ((Client.start map).updates order (s.stream 10001).dropLast).toOption.bind fun cl =>
            (cl.gameWorld.actOf popped.1.playerID popped.1).toOption.bind fun v =>
              (v.playersList.lookup popped.1.playerID).map fun p =>
                (ECustomMetaMSG.ofCode msg.header.id,
                  decide (popped.1.playerID ∈ cl.gameWorld.playersList),
                  decide (p.getCurrentTurnActions - 1 ≤ p.getMaxTurnActions))) =
      some (some .gamePlayerActionValidated, true, false) := by decide +kernel
  obtain ⟨s, hs, hrun⟩ := Option.bind_eq_some_iff.mp hrun
  obtain ⟨msg, hlast, hrun⟩ := Option.bind_eq_some_iff.mp hrun
  obtain ⟨⟨action, rest⟩, hpop, hrun⟩ := Option.bind_eq_some_iff.mp hrun
  obtain ⟨cl, hcl, hrun⟩ := Option.bind_eq_some_iff.mp hrun
  obtain ⟨v, hv, hrun⟩ := Option.bind_eq_some_iff.mp hrun
  obtain ⟨p, hp, hrun⟩ := Option.map_eq_some_iff.mp hrun
  simp only [Prod.mk.injEq, decide_eq_true_eq, decide_eq_false_iff_not] at hrun
  obtain ⟨hid, hmem, hout⟩ := hrun
  have hsplit : (s.stream 10001).dropLast ++ [msg] = s.stream 10001 :=
    List.dropLast_append_getLast? msg hlast
  refine ⟨s, ⟨_, _, _, _, honest_secondTurn, hs⟩, order, map, _, msg, ⟨[], by rw [hsplit, List.append_nil]⟩,
    fun hknown => hout ?_⟩
  have hcalls := hknown cl (except_toOption_eq_some.mp hcl)
  exact hcalls action rest hid (except_toOption_eq_some.mp hpop) hmem v p
    (except_toOption_eq_some.mp hv) (GameWorld.playerAt_eq_ok.mpr hp)

end Server

end AsciiTerra
