import AsciiTerra.Replies
import AsciiTerra.TurnHolder

/-!
# Announcements

Removals, approved actions and the IDs of the next players go to all clients. Whatever sockets
close meanwhile, the clients that stay open get the same announcements in the same order, from
the moment they were accepted on.
-/

set_option autoImplicit false

namespace AsciiTerra

/-- The messages that all clients get. -/
def Message.announcement (msg : Message) : Option Message :=
  match ECustomMetaMSG.ofCode msg.header.id with
  | some .gameRemovePlayer | some .gamePlayerActionValidated | some .gameNextPlayerTurn => some msg
  | _ => none

/-- Nothing but announcements is left out. -/
def NoAnnouncement (_ : UInt32) (msg : Message) : Prop := msg.announcement = none

theorem noAnnouncement_turnTalk (c : UInt32) (msg : Message) (h : Server.TurnTalk c msg) :
    NoAnnouncement c msg := by
  cases h with
  | turn => simp [NoAnnouncement, Message.announcement]
  | enemy action => simp [NoAnnouncement, Message.announcement, gameAITurnAction]

theorem Welcome.noAnnouncement {c d : UInt32} {m : Message} (h : Welcome c d m) :
    NoAnnouncement d m := by
  cases h with
  | turnTalk h => exact noAnnouncement_turnTalk d m h
  | map m | enemy e | added d p => simp [NoAnnouncement, Message.announcement]

namespace Server
variable {s t u : Server}

open Outcome (Post)

/-- The announcements that client `c` has been sent. -/
def announcements (c : UInt32) (s : Server) : List Message := s.heard Message.announcement c

/-- The clients that are open at the end have got the same announcements. -/
structure Announced (s t : Server) : Prop where
  closed : s.closed ⊆ t.closed
  counter : t.nIDCounter = s.nIDCounter
  new : ∃ new, ∀ c, s.Accepted c → c ∉ t.closed → t.announcements c = s.announcements c ++ new
  others : ∀ c, ¬ s.Accepted c → t.announcements c = s.announcements c

theorem Announced.accepted (h : Announced s t) {c : UInt32} : t.Accepted c ↔ s.Accepted c := by
  unfold Accepted
  rw [h.counter]

theorem Announced.trans (h : Announced s t) (h' : Announced t u) : Announced s u := by
  obtain ⟨new, hnew⟩ := h.new
  obtain ⟨new', hnew'⟩ := h'.new
  refine ⟨List.Subset.trans h.closed h'.closed, h'.counter.trans h.counter, ⟨new ++ new', ?_⟩, ?_⟩
  · intro c hc hopen
    rw [hnew' c (h.accepted.mpr hc) hopen, hnew c hc fun hmem => hopen (h'.closed hmem),
      List.append_assoc]
  · intro c hc
    rw [h'.others c fun hc' => hc (h.accepted.mp hc'), h.others c hc]

theorem Said.announced (h : Said NoAnnouncement s t) (hcounter : t.nIDCounter = s.nIDCounter) :
    Announced s t := by
  have hsame : ∀ c, t.announcements c = s.announcements c := fun c => h.heard fun _ hm => hm
  exact ⟨h.closed, hcounter, ⟨[], fun c _ _ => by rw [hsame, List.append_nil]⟩, fun c _ => hsame c⟩

/-- Changes of the server that neither send nor close a socket nor accept. -/
theorem Announced.before (h : Announced t u) (hclosed : t.closed = s.closed)
    (hcounter : t.nIDCounter = s.nIDCounter) (hsent : t.sent = s.sent) : Announced s u :=
  (((Said.refl s).silent hclosed hsent).announced hcounter).trans h

theorem Reached.announced {msg : Message} (h : Reached Message.announcement msg none s t)
    (hs : s.WellFormed) (ht : Messaged s t) : Announced s t where
  closed := ht.closed
  counter := ht.nIDCounter
  new := ⟨msg.announcement.toList, fun c hc hopen => h.reached c
    ((hs.gone c hc).resolve_right fun hmem => hopen (ht.closed hmem)) hopen nofun⟩
  others c hc := h.others c (.inr fun hmem => hc (hs.accepted c hmem))

section Handlers
variable {n : Nat} {c : UInt32} {msg : Message}

theorem said_noAnnouncement (n : Nat) (client : Option UInt32) (s : Server) :
    Post (Said NoAnnouncement s) (onClientDisconnect n client s) :=
  onClientDisconnect_said noAnnouncement_turnTalk n client s

theorem messageAllClients_announced (hs : s.WellFormed) (msg : Message) :
    Post (Announced s) (messageAllClients (onClientDisconnect n) msg none s) := by
  have hh := onClientDisconnect_spec n
  refine ((messageAllClients_spec hh hs).and
    (messageAllClients_heard hh (said_turnTalk n) noAnnouncement_turnTalk hs)).mono ?_
  exact fun t ht => ht.2.announced hs ht.1

theorem flushGarbage_announced (hs : s.WellFormed) :
    Post (Announced s) (s.flushGarbage (onClientDisconnect n)) := by
  have hstart : s.WellFormed ∧ Announced s s := ⟨hs, (Said.refl s).announced rfl⟩
  refine Post.bind (Post.foldlM (I := fun t => t.WellFormed ∧ Announced s t) hstart
    fun t pid _ ⟨hwf, ht⟩ => ?_) fun t ⟨_, ht⟩ => Post.of_ok ?_
  · have hnote : (t.note (.broadcast pid)).WellFormed := hwf.congr rfl rfl rfl rfl (List.Subset.refl _)
    refine Post.bind ((messageAllClients_spec (onClientDisconnect_spec n) hnote).and
      (messageAllClients_announced hnote _)) fun u ⟨hmessaged, hu⟩ => ?_
    split
    · exact Post.of_ok ⟨hmessaged.wellFormed, ht.trans (hu.before rfl rfl rfl)⟩
    · exact Post.of_fault
  · have hcleared : Said NoAnnouncement t { t with garbageIDs := [] } := (Said.refl t).silent rfl rfl
    exact ht.trans (hcleared.announced rfl)

theorem endTurn_announced (hs : s.WellFormed) (hc : s.Accepted c) :
    Post (Announced s) (s.endTurn (onClientDisconnect n) c) := by
  have hh := onClientDisconnect_spec n
  have hq := said_noAnnouncement n
  refine Post.bind ((messageClient_spec hh hs hc).and (messageClient_said hq
    (by simp [NoAnnouncement, Message.announcement]))) fun t ⟨ht, hsaid⟩ => ?_
  refine Post.bind ((chooseNextPlayerForTurn_handled hh ht.wellFormed _).and
    (chooseNextPlayerForTurn_said hq noAnnouncement_turnTalk _)) fun u ⟨⟨hu, _⟩, hsaid'⟩ => ?_
  have hfirst : Announced s u :=
    (hsaid.announced ht.nIDCounter).trans (hsaid'.announced hu.nIDCounter)
  exact (messageAllClients_announced hu.wellFormed _).mono fun _ => hfirst.trans

theorem applyAction_announced (hs : s.WellFormed) (hc : s.Accepted c) (action : PlayerAction) :
    Post (Announced s) (s.applyAction (onClientDisconnect n) c action) := by
  intro t hok
  obtain ⟨w, hw, hok⟩ := Outcome.bind_eq_ok.mp hok
  have happlied := wellFormed_applied hs (Outcome.ofExcept_eq_ok.mp hw)
  obtain ⟨u, hu, hok⟩ := Outcome.bind_eq_ok.mp hok
  have hmessaged := messageAllClients_spec (onClientDisconnect_spec n) happlied u hu
  have hannounced : Announced s u :=
    (messageAllClients_announced happlied _ u hu).before rfl rfl rfl
  split at hok
  · exact nomatch hok
  · split at hok
    · exact hannounced.trans (endTurn_announced hmessaged.wellFormed (hmessaged.accepted hc) t hok)
    · cases hok
      exact hannounced

theorem handleMessage_announced (hs : s.Idle) (hc : s.Accepted c) (chance : Chance) :
    Post (Announced s) (s.handleMessage (onClientDisconnect n) chance c msg) := by
  intro t hok
  have hcounter : t.nIDCounter = s.nIDCounter := by
    obtain ⟨u, hb, hu, _⟩ := handleMessage_spec hs hc msg n chance t hok
    rw [hu.nIDCounter]
    cases hb <;> rfl
  have hq := said_noAnnouncement n
  unfold handleMessage at hok
  split at hok
  · have hregistered : Post (fun t => ∃ u, Said NoAnnouncement s u ∧ Said NoAnnouncement u t)
        (s.register (onClientDisconnect n) chance c msg) := by
      refine register_said hq (fun _ _ hm => hm.noAnnouncement) fun p _ _ _ _ => ?_
      refine (messageClient_said hq ?_).mono fun _ hu => hu.before rfl rfl
      simp [NoAnnouncement, Message.announcement]
    obtain ⟨u, hu, ht⟩ := hregistered t hok
    exact (hu.trans ht).announced hcounter
  · obtain ⟨⟨action, rest⟩, _, hok⟩ := Outcome.bind_eq_ok.mp hok
    obtain ⟨approved, _, hok⟩ := Outcome.bind_eq_ok.mp hok
    cases approved with
    | false =>
      have hsaid := messageClient_said (Q := NoAnnouncement) hq
        (by simp [NoAnnouncement, Message.announcement]) t hok
      exact hsaid.announced hcounter
    | true => exact applyAction_announced hs.wellFormed hc action t hok
  · rename_i hid
    have hsaid := messageAllClients_said (Q := NoAnnouncement) hq
      (by simp [NoAnnouncement, Message.announcement, hid]) _ t hok
    exact hsaid.announced hcounter
  · rename_i hid
    cases hok
    have hsaid : Said NoAnnouncement s (s.send c msg) :=
      (Said.refl s).send (by simp [NoAnnouncement, Message.announcement, hid])
    exact hsaid.announced rfl
  · split at hok
    · have hsaid := messageAllClients_said (Q := NoAnnouncement) hq
        (by simp [NoAnnouncement, Message.announcement]) _ t hok
      exact hsaid.announced hcounter
    · exact nomatch hok
  · cases hok
    exact (Said.refl s).announced rfl

theorem step_announced (hs : s.Idle) {e : Event} (h : step s e = some t) :
    Announced s t ∨ s.nIDCounter < invalidID.toNat ∧ t = s.accept := by
  have hsend : ∀ (d : UInt32) (kind : ECustomMetaMSG), NoAnnouncement d (.ofID kind) →
      Announced s (s.send d (.ofID kind)) :=
    fun d kind hkind => ((Said.refl s).send hkind).announced rfl
  cases step_cases h with
  | accept hlt => exact .inr ⟨hlt, rfl⟩
  | validated d _ => exact .inl (hsend d _ (by simp [NoAnnouncement, Message.announcement]))
  | close d _ =>
    have hsaid : Said NoAnnouncement s { s with closed := d :: s.closed } :=
      .of_eq (List.subset_cons_self _ _) rfl
    exact .inl (hsaid.announced rfl)
  | shyCheck n hok => exact .inl (messageAllClients_announced hs.wellFormed _ t hok)
  | message n chance d msg hd hok =>
    obtain ⟨u, hu, hflush, _⟩ := onMessage_cases hs hd hok
    obtain ⟨v, hv, hok⟩ := Outcome.bind_eq_ok.mp hok
    cases hu.symm.trans hv
    have hflushed := flushGarbage_announced hs.wellFormed u hu
    exact .inl (hflushed.trans
      (handleMessage_announced (hflush.handled.idle hs) (hflush.accepted hd) chance t hok))

end Handlers

/-- Clients that were accepted later have got the end of what the earlier ones have got. -/
structure Ordered (s : Server) : Prop where
  idle : s.Idle
  fresh : ∀ c, ¬ s.Accepted c → s.announcements c = []
  suffix : ∀ c d, s.Accepted c → s.Accepted d → c ≤ d → c ∉ s.closed → d ∉ s.closed →
    s.announcements d <:+ s.announcements c

theorem Ordered.accept (h : Ordered s) (hlt : s.nIDCounter < invalidID.toNat) : Ordered s.accept := by
  have hsaid : Said NoAnnouncement s s.accept :=
    ((Said.refl s).send (show NoAnnouncement (UInt32.ofNat s.nIDCounter) (.ofID .serverAccept) by
      simp [NoAnnouncement, Message.announcement])).silent rfl rfl
  have hsame : ∀ c, s.accept.announcements c = s.announcements c := fun c => hsaid.heard fun _ hm => hm
  have hmono : ∀ c, s.Accepted c → s.accept.Accepted c :=
    fun c hc => ⟨hc.1, hc.2.trans (Nat.lt_succ_self _)⟩
  refine ⟨accept_idle h.idle hlt, fun c hc => ?_, fun c d hc hd hcd hopen hopen' => ?_⟩
  · rw [hsame]
    exact h.fresh c fun hc' => hc (hmono c hc')
  · rw [hsame, hsame]
    by_cases hd' : s.Accepted d
    · have hc' : s.Accepted c := ⟨hc.1, lt_of_le_of_lt (UInt32.le_iff_toNat_le.mp hcd) hd'.2⟩
      exact h.suffix c d hc' hd' hcd hopen hopen'
    · rw [h.fresh d hd']
      exact List.nil_suffix

theorem Ordered.announced (h : Ordered s) (ht : t.Idle) (hst : Announced s t) : Ordered t := by
  obtain ⟨new, hnew⟩ := hst.new
  refine ⟨ht, fun c hc => ?_, fun c d hc hd hcd hopen hopen' => ?_⟩
  · have hc' : ¬ s.Accepted c := fun hc' => hc (hst.accepted.mpr hc')
    rw [hst.others c hc', h.fresh c hc']
  · have hc' := hst.accepted.mp hc
    have hd' := hst.accepted.mp hd
    rw [hnew c hc' hopen, hnew d hd' hopen']
    obtain ⟨earlier, hearlier⟩ := h.suffix c d hc' hd' hcd (fun hmem => hopen (hst.closed hmem))
      fun hmem => hopen' (hst.closed hmem)
    exact ⟨earlier, by rw [← hearlier, List.append_assoc]⟩

theorem Reachable.ordered (hs : s.Reachable) : Ordered s := by
  obtain ⟨mapRand, enemyRand, closing, events, hrun⟩ := hs
  refine Machine.invariant (fun s e t hs hstep => ?_) ⟨start_idle mapRand enemyRand closing,
    fun c _ => rfl, fun c d hc => absurd hc.2 (Nat.not_lt.mpr hc.1)⟩ hrun
  rcases step_announced hs.idle hstep with hst | ⟨hlt, rfl⟩
  · exact hs.announced (step_idle hs.idle hstep) hst
  · exact hs.accept hlt

/-- Of two open clients the one that was accepted later has got the same announcements in the
same order as the other one, apart from those before it came. -/
theorem announcements_suffix (hs : s.Reachable) {c d : UInt32} (hc : s.Accepted c) (hd : s.Accepted d)
    (hcd : c ≤ d) (hopen : c ∉ s.closed) (hopen' : d ∉ s.closed) :
    (s.stream d).filterMap Message.announcement <:+ (s.stream c).filterMap Message.announcement :=
  hs.ordered.suffix c d hc hd hcd hopen hopen'

/-- The first client moves, and then a second one comes and sees it move. -/
def latecomer : List Event :=
  [.accept, .message 0 (.always 20) 10000 (registerRequest Player.default),
    .message 0 (.always 0) 10000 (actionRequest (moveDown 10000)), .accept,
    .message 0 (.always 0) 10000 (actionRequest (moveDown 10000))]

theorem announcements_suffix_late : ∃ s : Server, s.Reachable ∧ 10000 ∉ s.closed ∧
    10001 ∉ s.closed ∧
    (s.stream 10001).filterMap Message.announcement <:+
      (s.stream 10000).filterMap Message.announcement := by
  have hrun : ((Machine.run step (start (fun _ => 0) (fun _ => 0) fun _ => []) latecomer).map
      fun s => (s.nIDCounter, s.closed)) = some (10002, []) := by decide +kernel
  obtain ⟨s, hs, h⟩ := Option.map_eq_some_iff.mp hrun
  obtain ⟨hcounter, hclosed⟩ := Prod.mk.inj h
  have hopen : ∀ c, c ∉ s.closed := by
    intro c
    rw [hclosed]
    exact List.not_mem_nil
  have haccepted : ∀ c : UInt32, 10000 ≤ c.toNat ∧ c.toNat < 10002 → s.Accepted c := by
    intro c hc
    rw [Accepted, hcounter]
    exact hc
  have hreachable : s.Reachable := ⟨_, _, _, _, hs⟩
  exact ⟨s, hreachable, hopen _, hopen _, announcements_suffix hreachable
    (haccepted 10000 (by decide)) (haccepted 10001 (by decide)) (by decide) (hopen _) (hopen _)⟩

end Server

end AsciiTerra
