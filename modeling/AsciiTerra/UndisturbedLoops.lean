import AsciiTerra.Reentrancy

/-!
# Handlers that do not re-enter

As long as `careful` is not cut off, no handler uses a null entry of `m_deqConnection`, and no
entry is erased while a loop over the list runs.
-/

set_option autoImplicit false

namespace AsciiTerra

open Outcome (Avoids Below Post)

namespace Server
variable {s t : Server} {m : Option Fault}

theorem Dangling.ne_error {α : Type} {x : Except Fault α} {e : Fault} (he : Dangling m e)
    (hx : ∀ e', x = .error e' → e' = .outOfRange ∨ e' = .assertion) : x ≠ .error e := by
  intro h
  rcases hx e h with heq | heq
  · exact he.ne (by decide) (by decide) heq.symm
  · exact he.ne (by decide) (by decide) heq.symm

theorem pop_safe {e : Fault} (he : Dangling m e) {α : Type} (layout : Codec α) (msg : Message) :
    msg.pop layout ≠ .error e :=
  fun h => he.ne (by decide) (by decide) (Message.pop_error h).symm

theorem careful_spec (m : Option Fault) (n : Nat) : HookSpec (careful m n) :=
  hookSpec_of_below (careful_below n)

theorem Messaged.noNull (h : Messaged s t) (hnull : none ∉ s.deqConnection) :
    none ∉ t.deqConnection := fun hmem => hnull (h.deqConnection.subset hmem)

section Hook
variable {hook : Option UInt32 → Server → Outcome Fault Server}
variable (hh : HookSpec hook) (hk : KeepsList m hook) {e : Fault} (he : Dangling m e)
include hh hk he

theorem flushGarbage_safe (h : s.WellFormed) (hnull : none ∉ s.deqConnection) :
    Avoids e (s.flushGarbage hook) := by
  refine .bind (.foldlM_post (Messaged.refl h) ?_) fun t => .of_ok _
  intro t pid _ ht
  have hnote : Messaged s (t.note (.broadcast pid)) :=
    ht.trans ⟨.of_eq ht.wellFormed rfl rfl rfl rfl rfl rfl, .refl _, .of_eq rfl rfl rfl⟩
  constructor
  · refine .bind (messageAllClients_safe hk he (hnote.noNull hnull) _ none) fun t' => ?_
    split
    · exact .of_ok _
    · exact .of_fault (he.ne (by decide) (by decide))
  · refine Post.bind (messageAllClients_spec hh hnote.wellFormed) fun t' ht' => ?_
    split
    · exact Post.of_ok (hnote.trans ht')
    · exact Post.of_fault

theorem announce_safe {Q : Server → Prop} {c : UInt32} {playerDesc : Player}
    (hfirst : Post Q (messageClient hook (some c)
      ((Message.ofID .clientRegisterFromServer).push Layout.player playerDesc) s))
    (hQ : ∀ t, Q t → t.WellFormed ∧ t.Accepted c ∧ none ∉ t.deqConnection) :
    Avoids e (s.announce hook c playerDesc) := by
  refine .bind_post (messageClient_safe hk he c _) hfirst fun t ht => ?_
  obtain ⟨hwf, hc, hnull⟩ := hQ t ht
  refine .bind_post (messageClient_safe hk he c _) (messageClient_spec hh hwf hc) fun t1 h1 => ?_
  have henemy : ∀ t' (i : Nat), Messaged t t' → Avoids e (sendEnemy hook c t' i) ∧
      Post (Messaged t) (sendEnemy hook c t' i) := by
    intro t' i ht'
    unfold sendEnemy
    split
    · exact ⟨.of_fault (he.ne (by decide) (by decide)), Post.of_fault⟩
    · exact ⟨messageClient_safe hk he c _, messageClient_after hh hc ht'⟩
  refine .bind_post (.foldlM_post h1 fun t' i _ ht' => henemy t' i ht')
    (Post.foldlM h1 fun t' i _ ht' => (henemy t' i ht').2) fun t2 h2 => ?_
  refine .bind (messageAllClients_safe hk he (h2.noNull hnull) _ _) fun t3 => ?_
  refine .foldlM (fun u key => ?_) _ _
  unfold sendOtherPlayer
  split
  · exact .of_ok _
  · split
    · exact .of_ok _
    · refine .bind (messageClient_safe hk he c _) fun t4 => ?_
      split
      · exact .of_ok _
      · exact .of_fault (he.ne (by decide) (by decide))

theorem makeAITurn_safe (h : s.WellFormed) (hnull : none ∉ s.deqConnection) :
    Avoids e (s.makeAITurn hook) := by
  have harmed : s.gameWorld.AllArmed := fun enemy hmem => (h.fromTable enemy hmem).armed
  refine .bind_post (P := fun st => aiTurn s.gameWorld = .ok st) (aiTurn_safe he _)
    (fun _ hst => hst) ?_
  intro st hst
  have hworld := Continues.aiRelated h (aiTurn_aiRelated harmed hst)
  refine .bind (.foldlM_post (Messaged.refl hworld.wellFormed) ?_) fun t => .of_ok _
  intro t action _ ht
  exact ⟨messageAllClients_safe hk he (ht.noNull hnull) _ none,
    (messageAllClients_spec hh ht.wellFormed).mono fun _ => ht.trans⟩

theorem chooseNextPlayerForTurn_safe (h : s.WellFormed) (hnull : none ∉ s.deqConnection)
    (client : Option UInt32) : Avoids e (s.chooseNextPlayerForTurn hook client) := by
  have hlog := (Continues.choosing h).wellFormed
  have hpass : Avoids e ((s.log .choosing).passTurn hook client) := by
    unfold passTurn
    split
    · exact giveToFirst_safe he
    · split
      · split
        · exact .of_ok _
        · exact .bind (makeAITurn_safe hh hk he hlog hnull) fun t => giveToFirst_safe he
      · exact .of_fault (he.ne (by decide) (by decide))
  unfold chooseNextPlayerForTurn
  simp only
  split
  · exact .of_ok _
  · refine .bind_post hpass (passTurn_spec hh hlog client) ?_
    rintro t ⟨-, hdeq, -, -⟩
    exact (startTurn_list hk (usesNull_of_noNull fun hmem => hnull (hdeq.subset hmem))).2 e he

theorem endTurn_safe (h : s.WellFormed) (hnull : none ∉ s.deqConnection) {c : UInt32}
    (hc : s.Accepted c) : Avoids e (s.endTurn hook c) := by
  refine .bind_post (messageClient_safe hk he c _) (messageClient_spec hh h hc) fun t ht => ?_
  have hchoose := chooseNextPlayerForTurn_safe hh hk he ht.wellFormed (ht.noNull hnull) (some c)
  refine .bind_post hchoose (chooseNextPlayerForTurn_handled hh ht.wellFormed _) fun t' ht' => ?_
  have hnull' : none ∉ t'.deqConnection :=
    fun hmem => ht.noNull hnull (ht'.1.deqConnection.subset hmem)
  exact messageAllClients_safe hk he hnull' _ none

theorem actionApprove_safe (h : s.WellFormed) (hnull : none ∉ s.deqConnection) {c : UInt32}
    (hc : s.Accepted c) (msg : Message) : Avoids e (s.actionApprove hook c msg) := by
  refine .bind (.of_except (pop_safe he _ msg)) fun r => ?_
  refine .bind (.of_except (he.ne_error fun _ => approves_error)) fun approved => ?_
  split
  · refine .bind_post (P := fun w => s.gameWorld.makeApprovedAction c r.1 = .ok w)
      (.of_except (he.ne_error fun _ => GameWorld.makeApprovedAction_error)) (fun w hw => Outcome.ofExcept_eq_ok.mp hw)
      fun w hw => ?_
    have happlied := wellFormed_applied h hw
    refine .bind_post (messageAllClients_safe hk he (by exact hnull) _ none)
      (messageAllClients_spec hh happlied) fun t ht => ?_
    split
    · exact .of_fault (he.ne (by decide) (by decide))
    · split
      · exact endTurn_safe hh hk he ht.wellFormed (ht.noNull hnull) (ht.accepted hc)
      · exact .of_ok _
  · exact messageClient_safe hk he c _

end Hook

theorem register_safe {e : Fault} (he : Dangling m e) (hs : s.Idle) {c : UInt32} (hc : s.Accepted c)
    (msg : Message) (n : Nat) (chance : Chance) :
    Avoids e (s.register (careful m n) chance c msg) := by
  have hh := careful_spec m n
  have hk := careful_keepsList m n
  refine .bind (.of_except (pop_safe he _ msg)) fun r => ?_
  refine .bind_post (P := fun p => NewPlayer c p) (.of_except ?_)
    (fun p hp => clientOnRegister_spec (Outcome.ofExcept_eq_ok.mp hp)) fun p hnew => ?_
  · exact fun herror => nomatch herror
  rw [hnew.id]
  have hfirst : ∃ s1 : Server, s1.Accepted c ∧ none ∉ s1.deqConnection ∧
      Post (Messaged s1) (messageClient (careful m n) (some c)
        ((Message.ofID .clientRegisterFromServer).push Layout.player p)
        (s.setPlayersList
          (OrderedMap.insertOrAssign chance.order c p s.gameWorld.playersList))) := by
    by_cases hmem : c ∈ s.ids
    · have hwf : (s.setPlayersList (OrderedMap.insertOrAssign chance.order c p
          s.gameWorld.playersList)).WellFormed := wellFormed_enter hs.wellFormed hmem hnew
      exact ⟨s.setPlayersList (OrderedMap.insertOrAssign chance.order c p s.gameWorld.playersList),
        hc, hs.noNull, messageClient_spec hh hwf hc⟩
    · exact ⟨s, hc, hs.noNull, (messageClient_below (careful_below n) _ _ _).post
        (messageClient_removed hs.wellFormed hc hmem)⟩
  obtain ⟨s1, hc1, hnull, hpost⟩ := hfirst
  refine .bind_post (announce_safe hh hk he hpost fun t ht =>
      ⟨ht.wellFormed, ht.accepted hc1, ht.noNull hnull⟩)
    (announce_spec hh hpost fun t ht => ⟨ht.wellFormed, ht.accepted hc1⟩) ?_
  rintro t ⟨t', ht', ht⟩
  split
  · exact chooseNextPlayerForTurn_safe hh hk he ht.wellFormed (ht.noNull (ht'.noNull hnull)) none
  · exact .of_ok _

theorem onMessage_safe {e : Fault} (he : Dangling m e) (hs : s.Idle) {c : UInt32}
    (hc : s.Accepted c) (msg : Message) (n : Nat) (chance : Chance) :
    Avoids e (s.onMessage (careful m n) chance c msg) := by
  have hh := careful_spec m n
  have hk := careful_keepsList m n
  refine .bind_post (flushGarbage_safe hh hk he hs.wellFormed hs.noNull)
    (flushGarbage_spec hh hs.wellFormed) fun t ht => ?_
  have hidle := ht.handled.idle hs
  have hall : ∀ reply ignore, Avoids e (messageAllClients (careful m n) reply ignore t) :=
    messageAllClients_safe hk he hidle.noNull
  unfold handleMessage
  split
  · exact register_safe he hidle (ht.accepted hc) msg n chance
  · exact actionApprove_safe hh hk he hidle.wellFormed hidle.noNull (ht.accepted hc) msg
  · exact hall _ _
  · exact .of_ok _
  · split
    · exact hall _ _
    · exact .of_fault (he.ne (by decide) (by decide))
  · exact .of_ok _

/-- Messages come from clients that were accepted. -/
def Receives (s : Server) : Event → Prop
  | .message _ _ c _ => s.Accepted c
  | _ => True

theorem handler_careful_safe {e : Fault} (he : Dangling m e) (hs : s.Idle) {event : Event}
    (hevent : s.Receives event) : Avoids e (handler (careful m) s event) := by
  cases event with
  | shyCheck depth => exact messageAllClients_safe (careful_keepsList m depth) he hs.noNull _ none
  | message depth chance c msg => exact onMessage_safe he hs hevent msg depth chance
  | accept | validated _ | close _ => exact .of_ok _

/-- No call of `OnClientDisconnect` in the handler re-enters. -/
def NeverReenters (s : Server) (event : Event) : Prop := Uncut careful s event

/-- When no call re-enters, the handler uses no null entry of `m_deqConnection`, no call of
`OnClientDisconnect` in it changes the list, and `ChooseNextPlayerForTurn` erases nothing from
the list in its loop. -/
theorem loops_undisturbed (hs : s.Reachable) {event : Event} (hevent : s.Receives event)
    (hnever : s.NeverReenters event) :
    (handler onClientDisconnect s event ≠ .fault .nullConnection ∧
      handler onClientDisconnect s event ≠ .fault .invalidIterator) ∧
    handler watched s event = handler onClientDisconnect s event ∧
    ∀ (n : Nat) (u : Server), u.usesNull = false →
      Post (fun v => v.deqConnection = u.deqConnection) (u.sendTurn (careful none n)) := by
  have hreal : handler onClientDisconnect s event = handler (careful none) s event :=
    hnever.handler_eq (fun _ => careful_below) none
  have hwatched : handler watched s event = handler (careful none) s event :=
    hnever.handler_eq (fun _ => careful_watched) none
  refine ⟨⟨?_, ?_⟩, hwatched.trans hreal.symm, ?_⟩
  · rw [hreal]
    exact handler_careful_safe (m := none) ⟨Or.inl rfl, fun h => nomatch h⟩ hs.idle hevent
  · rw [hreal]
    exact handler_careful_safe (m := none) ⟨Or.inr rfl, fun h => nomatch h⟩ hs.idle hevent
  · exact fun n u hnull => (sendTurn_list (careful_keepsList none n) hnull).1

/-- Three clients, of which the last two are players; the first of these plays and leaves. -/
def holderLeaves : List Event :=
  [.accept, .accept, .accept, .message 0 (.always 10) 10001 (registerRequest Player.default),
    .message 0 (.always 10) 10002 (registerRequest Player.default), .close 10001]

def checkEnds (hook : Nat → Option UInt32 → Server → Outcome Fault Server) (s : Server) : Bool :=
  match handler hook s (.shyCheck 2) with
  | .ok _ => true
  | _ => false

/-- The connection check finds it with no null entry before it. -/
theorem holderLeaves_undisturbed : ∃ s : Server, s.Reachable ∧
    (handler onClientDisconnect s (.shyCheck 2) ≠ .fault .nullConnection ∧
      handler onClientDisconnect s (.shyCheck 2) ≠ .fault .invalidIterator) ∧
    handler watched s (.shyCheck 2) = handler onClientDisconnect s (.shyCheck 2) := by
  have hrun : (Machine.run step (start (fun _ => 0) (fun _ => 0) fun _ => []) holderLeaves).map
      (checkEnds (careful none)) = some true := by decide +kernel
  obtain ⟨s, hs, hends⟩ := Option.map_eq_some_iff.mp hrun
  have hreachable : s.Reachable := ⟨_, _, _, _, hs⟩
  have hnever : s.NeverReenters (.shyCheck 2) := by
    apply uncut_of_ne_deep fun m n client s => careful_below_careful m n client s
    intro hdeep
    rw [checkEnds, hdeep] at hends
    cases hends
  have hreceives : s.Receives (.shyCheck 2) := trivial
  obtain ⟨hfaults, hwatched, -⟩ := loops_undisturbed hreachable hreceives hnever
  exact ⟨s, hreachable, hfaults, hwatched⟩

def checkFault (s : Server) : Option Fault :=
  match handler onClientDisconnect s (.shyCheck 2) with
  | .fault e => some e
  | _ => none

/-- Before it another client has left: `ChooseNextPlayerForTurn` comes to the null entry. -/
theorem nullEntry_used : ∃ s : Server, s.Reachable ∧
    handler onClientDisconnect s (.shyCheck 2) = .fault .nullConnection := by
  have hrun : (Machine.run step (start (fun _ => 0) (fun _ => 0) fun _ => [])
      (holderLeaves ++ [.close 10000])).map checkFault = some (some .nullConnection) := by
    decide +kernel
  obtain ⟨s, hs, hfault⟩ := Option.map_eq_some_iff.mp hrun
  refine ⟨s, ⟨_, _, _, _, hs⟩, ?_⟩
  unfold checkFault at hfault
  split at hfault
  · rename_i e he
    rw [he, Option.some.inj hfault]
  · cases hfault

end Server

end AsciiTerra
