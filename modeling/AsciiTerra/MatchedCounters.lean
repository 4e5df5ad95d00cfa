import AsciiTerra.OwnCounter
import AsciiTerra.InformedRuns

/-!
# The counters of server and clients

Every connected player has in its own record the turn actions that the server counts for it,
also while a nested disconnect passes the turn on. An action that the server has counted and
not yet sent to its player is in `off`.
-/

set_option autoImplicit false

namespace AsciiTerra

/-- Players leave or stay with their counters. -/
def CountersFrom (ps ps' : PlayersList) : Prop :=
  ∀ id p', ps'.lookup id = some p' → ∃ p, ps.lookup id = some p ∧
    p'.maxTurns = p.maxTurns ∧ p'.currentTurns = p.currentTurns

theorem CountersFrom.refl (ps : PlayersList) : CountersFrom ps ps := fun _ p hp => ⟨p, hp, rfl, rfl⟩

theorem CountersFrom.of_hurt {ps ps' : PlayersList} (h : OrderedMap.Related Player.Hurt ps ps') :
    CountersFrom ps ps' := by
  intro id p' hp'
  obtain ⟨p, hp⟩ := OrderedMap.mem_iff_lookup.mp
    (h.mem_iff.mp (OrderedMap.mem_iff_lookup.mpr ⟨p', hp'⟩))
  obtain ⟨p'', hp'', hhurt⟩ := h.lookup hp
  cases hp'.symm.trans hp''
  rw [hhurt]
  exact ⟨p, hp, rfl, rfl⟩

theorem CountersFrom.erase (id : UInt32) (ps : PlayersList) : CountersFrom ps (ps.erase id) := by
  intro a p hp
  by_cases ha : a = id
  · subst ha
    exact nomatch (AList.lookup_erase ..).symm.trans hp
  · exact ⟨p, (AList.lookup_erase_ne ha).symm.trans hp, rfl, rfl⟩

namespace Server
variable {s t : Server} {off off' : UInt32 → Nat}
variable {order : Arrangement (OrderedMap.Entry UInt32 Player)} {map : Map}

open Outcome (Post)

/-- The server's counters are in range, and so are the calls at the clients; a connected player
has in its own record what the server counts for it and `off`. -/
structure Matched (order : Arrangement (OrderedMap.Entry UInt32 Player)) (map : Map)
    (off : UInt32 → Nat) (s : Server) : Prop where
  turns : ∀ id p, s.gameWorld.playersList.lookup id = some p →
    p.maxTurns = 4 ∧ p.currentTurns.val ≤ 4 ∧ (id ∉ s.closed → p.currentTurns.val + off id ≤ 4)
  sound : ∀ e, Sound order map e (s.stream e)
  owned : ∀ e p, e ∉ s.closed → s.gameWorld.playersList.lookup e = some p →
    Knows order map (Client.Owns e (p.currentTurns.val + off e)) (s.stream e)

theorem Matched.world (h : Matched order map off s) (hsent : t.sent = s.sent)
    (hclosed : s.closed ⊆ t.closed)
    (hplayers : CountersFrom s.gameWorld.playersList t.gameWorld.playersList) :
    Matched order map off t where
  turns id p' hp' := by
    obtain ⟨p, hp, hmax, hcurrent⟩ := hplayers id p' hp'
    obtain ⟨hfour, hle, hoff⟩ := h.turns id p hp
    rw [hmax, hcurrent]
    exact ⟨hfour, hle, fun hopen => hoff fun hmem => hopen (hclosed hmem)⟩
  sound e := by
    rw [stream_congr hsent]
    exact h.sound e
  owned e p' hopen hp' := by
    obtain ⟨p, hp, _, hcurrent⟩ := hplayers e p' hp'
    rw [stream_congr hsent, hcurrent]
    exact h.owned e p (fun hmem => hopen (hclosed hmem)) hp

theorem Matched.congr (h : Matched order map off s) (hsent : t.sent = s.sent)
    (hclosed : s.closed ⊆ t.closed) (hplayers : t.gameWorld.playersList = s.gameWorld.playersList) :
    Matched order map off t :=
  h.world hsent hclosed (hplayers ▸ .refl _)

theorem Matched.reoff (h : Matched order map off s)
    (hoff : ∀ e, e ∉ s.closed → e ∈ s.gameWorld.playersList → off' e = off e) :
    Matched order map off' s where
  turns id p hp := by
    obtain ⟨hfour, hle, hbound⟩ := h.turns id p hp
    refine ⟨hfour, hle, fun hopen => ?_⟩
    rw [hoff id hopen (OrderedMap.mem_iff_lookup.mpr ⟨p, hp⟩)]
    exact hbound hopen
  sound := h.sound
  owned e p hopen hp := by
    rw [hoff e hopen (OrderedMap.mem_iff_lookup.mpr ⟨p, hp⟩)]
    exact h.owned e p hopen hp

theorem Matched.quiet {c : UInt32} {msg : Message} (h : Matched order map off s)
    (hmsg : msg.Quiet c) : Matched order map off (s.send c msg) where
  turns := h.turns
  sound e := by
    by_cases he : e = c
    · subst he
      rw [stream_send_self]
      refine (h.sound e).concat (fun p hp => (hmsg.record p hp).1) fun cl _ => ⟨fun hturn => ?_, fun hact => ?_⟩
      · exact absurd hturn hmsg.turn
      · exact absurd hact hmsg.action
    · rw [stream_send_ne he]
      exact h.sound e
  owned e p hopen hp := by
    have hknown := h.owned e p hopen hp
    by_cases he : e = c
    · subst he
      rw [stream_send_self]
      exact hknown.concat fun _ _ howns hok => howns.quiet hmsg hok
    · rw [stream_send_ne he]
      exact hknown

/-- What is counted and not sent belongs to the holder of the turn, or to somebody who has
left. -/
def Pend (off : UInt32 → Nat) (s : Server) : Prop :=
  ∀ e, off e ≠ 0 → e ∈ s.closed ∨ e = s.currentPlayerID

/-- It belongs to somebody who has left. -/
def Gone (off : UInt32 → Nat) (s : Server) : Prop := ∀ e, off e ≠ 0 → e ∈ s.closed

theorem Gone.pend (h : Gone off s) : Pend off s := fun e he => Or.inl (h e he)

theorem Gone.mono (h : Gone off s) (hclosed : s.closed ⊆ t.closed) : Gone off t :=
  fun e he => hclosed (h e he)

theorem Pend.mono (h : Pend off s) (hclosed : s.closed ⊆ t.closed)
    (hcurrent : t.currentPlayerID = s.currentPlayerID) : Pend off t :=
  fun e he => (h e he).imp (fun hmem => hclosed hmem) fun heq => heq.trans hcurrent.symm

theorem Pend.gone (h : Pend off s) (hcurrent : s.currentPlayerID ∈ s.closed) : Gone off s :=
  fun e he => (h e he).elim id fun heq => heq ▸ hcurrent

theorem Pend.disconnected {c : UInt32} (h : Pend off s) (hc : c ∈ s.closed)
    (ht : Disconnected c s t) : Pend off t := by
  by_cases hcur : c = s.currentPlayerID
  · exact ((h.gone (hcur ▸ hc)).mono ht.closed).pend
  · exact h.mono ht.closed (ht.kept hcur).currentPlayerID

/-- What the callers of the hook rely on here. -/
structure Matches (order : Arrangement (OrderedMap.Entry UInt32 Player)) (map : Map)
    (hook : Option UInt32 → Server → Outcome Fault Server) : Prop where
  spec : HookSpec hook
  matched : ∀ off c s, s.WellFormed → s.Accepted c → c ∈ s.closed → Pend off s →
    Matched order map off s → Post (Matched order map off) (hook (some c) s)

section Hook
variable {hook : Option UInt32 → Server → Outcome Fault Server} (hh : Matches order map hook)
include hh

theorem messageClient_matched {c : UInt32} {msg : Message} (hwf : s.WellFormed) (hc : s.Accepted c)
    (hpend : Pend off s) (hs : Matched order map off s) (hmsg : msg.Quiet c) :
    Post (fun t => Matched order map off t ∧ Pend off t) (messageClient hook (some c) msg s) := by
  have hlater : s.closed ⊆ s.tick.closed := List.subset_append_right _ _
  have htick : Matched order map off s.tick := hs.congr rfl hlater rfl
  have hwft := (Continues.tick hwf).wellFormed
  have hpendt : Pend off s.tick := hpend.mono hlater rfl
  by_cases hup : c ∈ s.tick.closed
  · rw [messageClient_closed hup]
    refine Post.bind ((hh.matched off c s.tick hwft hc hup hpendt htick).and
      (hh.spec.disconnected c s.tick hwft hc hup)) fun t ⟨ht, hd⟩ => Post.of_ok ⟨?_, ?_⟩
    · exact ht.congr rfl (List.Subset.refl _) rfl
    · exact (hpendt.disconnected hup hd).mono (List.Subset.refl _) rfl
  · rw [messageClient_open hup]
    exact Post.of_ok ⟨htick.quiet hmsg, hpendt.mono (List.Subset.refl _) rfl⟩

theorem messageEntry_matched {msg : Message} {ignore : Option UInt32} {b : Bool} {i : Nat}
    (hwf : s.WellFormed) (hpend : Pend off s) (hs : Matched order map off s)
    (hmsg : ∀ e, e ∉ s.closed → some e ≠ ignore → msg.Quiet e) :
    Post (fun st => Matched order map off st.1 ∧ Pend off st.1)
      (messageEntry hook msg ignore (s, b) i) := by
  have hlater : s.closed ⊆ s.tick.closed := List.subset_append_right _ _
  have htick : Matched order map off s.tick := hs.congr rfl hlater rfl
  have hwft := (Continues.tick hwf).wellFormed
  have hpendt : Pend off s.tick := hpend.mono hlater rfl
  refine messageEntry_post hh.spec.null ?_ ?_ ?_
  · intro c hi hup
    have hc : s.Accepted c := hwf.accepted c (mem_ids.mpr (List.mem_of_getElem? hi))
    refine ((hh.matched off c s.tick hwft hc hup hpendt htick).and
      (hh.spec.disconnected c s.tick hwft hc hup)).mono fun t ⟨ht, hd⟩ _ => ?_
    exact ⟨ht.congr rfl (List.Subset.refl _) rfl,
      (hpendt.disconnected hup hd).mono (List.Subset.refl _) rfl⟩
  · intro c hi hup hne
    exact ⟨htick.quiet (hmsg c (fun hmem => hup (hlater hmem)) hne),
      hpendt.mono (List.Subset.refl _) rfl⟩
  · intro c _ _ _
    exact ⟨htick, hpendt⟩

theorem messageAllClients_matched {msg : Message} {ignore : Option UInt32} (hwf : s.WellFormed)
    (hpend : Pend off s) (hs : Matched order map off s)
    (hmsg : ∀ e, e ∉ s.closed → some e ≠ ignore → msg.Quiet e) :
    Post (fun t => Matched order map off t ∧ Pend off t) (messageAllClients hook msg ignore s) := by
  refine messageAllClients_post
    (I := fun st => Looped s st ∧ Matched order map off st.1 ∧ Pend off st.1)
    ⟨⟨.refl hwf, .refl _, fun _ => rfl, .refl s⟩, hs, hpend⟩ ?_ ?_ ?_
  · rintro st i ⟨hlooped, hst, hpst⟩
    have hentry : Post (fun st' : Server × Bool => Matched order map off st'.1 ∧ Pend off st'.1)
        (messageEntry hook msg ignore st i) :=
      messageEntry_matched hh hlooped.wellFormed hpst hst
        fun e he => hmsg e fun hmem => he (hlooped.closed hmem)
    exact (messageEntry_spec hh.spec hlooped).and hentry
  · exact fun st hst => hst.2
  · rintro st ⟨-, hst, hpst⟩
    exact ⟨hst.congr rfl (List.Subset.refl _) rfl, hpst.mono (List.Subset.refl _) rfl⟩

theorem makeAITurn_matched (hwf : s.WellFormed) (hgone : Gone off s)
    (hs : Matched order map off s) : Post (Matched order map off) (s.makeAITurn hook) := by
  intro t hok
  obtain ⟨st, hst, hok⟩ := Outcome.bind_eq_ok.mp hok
  obtain ⟨u, hu, hok⟩ := Outcome.bind_eq_ok.mp hok
  cases hok
  have harmed : s.gameWorld.AllArmed := fun e he => (hwf.fromTable e he).armed
  have hrelated := aiTurn_aiRelated harmed hst
  have hstart : Matched order map off { s with gameWorld := st.world } :=
    hs.world rfl (List.Subset.refl _) (.of_hurt (hrelated.players hwf.keysAreIDs))
  have hloop := Post.foldlM (I := fun u => Messaged { s with gameWorld := st.world } u ∧
      Matched order map off u) (l := st.enemyActions)
    (f := fun s action => messageAllClients hook (gameAITurnAction action) none s)
    ⟨.refl (Continues.aiRelated hwf hrelated).wellFormed, hstart⟩ fun u action _ hpair => by
      obtain ⟨hm, hu⟩ := hpair
      have hquiet : ∀ e, (gameAITurnAction action).Quiet e :=
        quiet_of_kind .gameAITurnAction (by simp [gameAITurnAction]) (by decide)
      have hgoneu : Gone off u := hgone.mono hm.closed
      refine ((messageAllClients_spec hh.spec hm.wellFormed).and (messageAllClients_matched hh
        hm.wellFormed hgoneu.pend hu fun e _ _ => hquiet e)).mono ?_
      rintro v ⟨hm', hv, -⟩
      exact ⟨hm.trans hm', hv⟩
  refine (hloop u hu).2.congr rfl (List.Subset.refl _) ?_
  unfold removeDeadEnemies
  split
  · rfl
  · rfl

omit hh in
theorem resetTurn_full {p : Player} (hs : Matched order map off s)
    (hp : s.gameWorld.playersList.lookup s.currentPlayerID = some p) (hfull : p.currentTurns = 4) :
    Post (Matched order map off) s.resetTurn := by
  rw [resetTurn_eq_ok.mpr ⟨p, hp, rfl⟩]
  refine Post.of_ok (hs.world rfl (List.Subset.refl _) fun id q hq => ?_)
  have hmax := (hs.turns _ p hp).1
  have hlookup : (OrderedMap.modify s.currentPlayerID
      (fun _ => { p with currentTurns := p.maxTurns }) s.gameWorld.playersList).lookup id = some q := hq
  rw [OrderedMap.lookup_modify] at hlookup
  split at hlookup
  · rename_i heq
    subst heq
    rw [hp] at hlookup
    cases hlookup
    exact ⟨p, hp, rfl, hmax.trans hfull.symm⟩
  · exact ⟨q, hlookup, rfl, rfl⟩

omit hh in
/-- The counter of the holder is refilled, after the holder was told so. -/
theorem resetTurn_told (hs : Matched order map off s) (hopen : s.currentPlayerID ∉ s.closed)
    (hgone : Gone off s) :
    Post (Matched order map off) (s.send s.currentPlayerID (.ofID .gamePlayerTurn)).resetTurn := by
  have hzero : off s.currentPlayerID = 0 := by
    by_contra hne
    exact hopen (hgone _ hne)
  intro t hok
  obtain ⟨p, hp, rfl⟩ := resetTurn_eq_ok.mp hok
  have hp : s.gameWorld.playersList.lookup s.currentPlayerID = some p := hp
  obtain ⟨hmax, _, _⟩ := hs.turns _ p hp
  have hknown := hs.owned _ p hopen hp
  have hfour : p.maxTurns.val = 4 := congrArg Fin.val hmax
  have hlookup : ∀ id q, (OrderedMap.modify s.currentPlayerID
      (fun _ => { p with currentTurns := p.maxTurns }) s.gameWorld.playersList).lookup id = some q →
      (id = s.currentPlayerID ∧ q = { p with currentTurns := p.maxTurns }) ∨
      (id ≠ s.currentPlayerID ∧ s.gameWorld.playersList.lookup id = some q) := by
    intro id q hq
    rw [OrderedMap.lookup_modify] at hq
    split at hq
    · rename_i heq
      subst heq
      rw [hp] at hq
      cases hq
      exact Or.inl ⟨rfl, rfl⟩
    · rename_i hne
      exact Or.inr ⟨hne, hq⟩
  refine ⟨fun id q hq => ?_, fun e => ?_, fun e q he hq => ?_⟩
  · rcases hlookup id q hq with ⟨rfl, rfl⟩ | ⟨_, hq⟩
    · exact ⟨hmax, hfour.le, fun _ => by rw [hzero]; exact hfour.le⟩
    · exact hs.turns id q hq
  · have hsent : Sound order map e ((s.send s.currentPlayerID (.ofID .gamePlayerTurn)).stream e) := by
      by_cases he : e = s.currentPlayerID
      · subst he
        rw [stream_send_self]
        refine (hs.sound _).concat (fun q hq => (nomatch hq)) (hknown.mono fun cl howns => ⟨fun _ => ?_, nofun⟩)
        obtain ⟨q, hq, _⟩ := howns.record
        exact ⟨howns.playerID, OrderedMap.mem_iff_lookup.mpr ⟨q, hq⟩⟩
      · rw [stream_send_ne he]
        exact hs.sound e
    exact hsent
  · have howned : Knows order map (Client.Owns e (q.currentTurns.val + off e))
        ((s.send s.currentPlayerID (.ofID .gamePlayerTurn)).stream e) := by
      rcases hlookup e q hq with ⟨rfl, rfl⟩ | ⟨hne, hq⟩
      · rw [stream_send_self, hzero]
        refine hknown.concat fun cl cl' howns hmsg => ?_
        have hfull := howns.refill hmsg
        rwa [← hfour] at hfull
      · rw [stream_send_ne hne]
        exact hs.owned e q he hq
    exact howned

theorem startTurn_matched (hwf : s.WellFormed) (hcur : s.currentPlayerID ∈ s.gameWorld.playersList)
    (hgone : Gone off s) (hs : Matched order map off s) :
    Post (Matched order map off) (s.startTurn hook) := by
  have hlater : s.closed ⊆ s.tick.closed := List.subset_append_right _ _
  have htick : Matched order map off s.tick := hs.congr rfl hlater rfl
  have hwft := (Continues.tick hwf).wellFormed
  unfold startTurn sendTurn
  split
  · exact Post.of_fault
  · rename_i hfind
    exact absurd (mem_ids.mp (hwf.present _ hcur)) (not_mem_of_findConnection hfind)
  · rename_i c hfind
    have hc := findConnection_eq_some hfind
    subst hc
    by_cases hup : s.currentPlayerID ∈ s.tick.closed
    · -- the nested disconnect has passed the turn on and reset the new holder
      have hacc : s.Accepted s.currentPlayerID := hwf.accepted_of_mem hcur
      rw [messageClient_closed hup]
      have hpassed : Post (fun u => Matched order map off u ∧ ∃ p,
          u.gameWorld.playersList.lookup u.currentPlayerID = some p ∧ p.currentTurns = 4)
          (hook (some s.currentPlayerID) s.tick >>= fun t => .ok t.eraseNulls) := by
        refine Post.bind ((hh.matched off _ s.tick hwft hacc hup (hgone.mono hlater).pend htick).and
          (hh.spec.disconnected _ s.tick hwft hacc hup)) fun t ⟨ht, hd⟩ => Post.of_ok ?_
        obtain ⟨p, _, _, _, hp, hfull, _⟩ := (hd.passed rfl).1
        exact ⟨ht.congr rfl (List.Subset.refl _) rfl, p, hp, hfull⟩
      refine Post.bind hpassed fun u ⟨hu, p, hp, hfull⟩ => ?_
      exact resetTurn_full hu hp hfull
    · rw [messageClient_open hup, Outcome.ok_bind]
      exact resetTurn_told htick hup (hgone.mono hlater)

omit hh in
theorem giveToFirst_matched (hs : Matched order map off s) :
    Post (Matched order map off) s.giveToFirst := by
  unfold giveToFirst
  split
  · exact Post.of_fault
  · exact Post.of_ok (hs.congr rfl (List.Subset.refl _) rfl)

theorem passTurn_matched (hwf : s.WellFormed) (hgone : Gone off s) (hs : Matched order map off s)
    (client : Option UInt32) : Post (Matched order map off) (s.passTurn hook client) := by
  unfold passTurn
  cases client with
  | none => exact giveToFirst_matched hs
  | some c =>
    simp only
    split
    · split
      · exact Post.of_ok (hs.congr rfl (List.Subset.refl _) rfl)
      · exact Post.bind (makeAITurn_matched hh hwf hgone hs) fun t ht => giveToFirst_matched ht
    · exact Post.of_fault

theorem chooseNextPlayerForTurn_matched (hwf : s.WellFormed) (hgone : Gone off s)
    (hs : Matched order map off s) (client : Option UInt32) :
    Post (Matched order map off) (s.chooseNextPlayerForTurn hook client) := by
  have hlog : Matched order map off (s.log .choosing) := hs.congr rfl (List.Subset.refl _) rfl
  have hwfl := (Continues.choosing hwf).wellFormed
  have hgonel : Gone off (s.log .choosing) := hgone
  unfold chooseNextPlayerForTurn
  simp only
  split
  · exact Post.of_ok hlog
  · refine Post.bind ((passTurn_matched hh hwfl hgonel hlog client).and
      (passTurn_spec hh.spec hwfl client)) fun t ⟨ht, hcont, _, _, hcur⟩ => ?_
    exact startTurn_matched hh hcont.wellFormed hcur (hgonel.mono hcont.closed) ht

end Hook

theorem onClientDisconnect_matches (order : Arrangement (OrderedMap.Entry UInt32 Player)) (map : Map)
    (n : Nat) : Matches order map (onClientDisconnect n) := by
  induction n with
  | zero => exact ⟨onClientDisconnect_spec 0, fun _ _ _ _ _ _ _ _ => Post.of_deep⟩
  | succ n ih =>
    refine ⟨onClientDisconnect_spec (n + 1), fun off c s hwf _ hclosed hpend hs => ?_⟩
    unfold onClientDisconnect
    split
    · have hturn : Post (Matched order map off) (if c = s.currentPlayerID then
          s.chooseNextPlayerForTurn (onClientDisconnect n) (some c) else .ok s) := by
        split
        · rename_i hcur
          exact chooseNextPlayerForTurn_matched ih hwf (hpend.gone (hcur ▸ hclosed)) hs (some c)
        · exact Post.of_ok hs
      exact Post.bind hturn fun t ht =>
        Post.of_ok (ht.world rfl (List.Subset.refl _) (.erase c _))
    · exact Post.of_ok hs

end Server

end AsciiTerra
