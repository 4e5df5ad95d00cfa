import AsciiTerra.SmallSteps

/-!
# Who holds the turn

`ChooseNextPlayerForTurn` takes whoever comes next, dead or alive, and nothing ends the turn
of a dead player. This is the only way in which a dead player gets the turn: the holder
is neither struck by its own actions nor by the enemies, who act between two turns.
-/

set_option autoImplicit false

namespace AsciiTerra

namespace Server
variable {s s' : Server}

/-- One change of the server, inside a handler or between two. -/
inductive Moving : Server → Server → Prop
  | small {sender : Option UInt32} {s t : Server} : Small sender s t → Moving s t
  | handling {c : UInt32} {s t : Server} : Handling c s t → Moving s t
  | accept (s : Server) : Moving s s.accept
  | close (s : Server) (c : UInt32) : Moving s { s with closed := c :: s.closed }

/-- The holder of the turn is alive, if it is a player. -/
def HolderAlive (s : Server) : Prop :=
  ∀ player, s.gameWorld.playersList.lookup s.currentPlayerID = some player → 0 < player.hp

/-- On the way from `s` to `s'` the turn is given in state `u`, to the player that has it there:
`ChooseNextPlayerForTurn` comes to its last statement. -/
def GivenIn (s s' u : Server) : Prop :=
  Relation.ReflTransGen Moving s u ∧ ∃ v, u.resetTurn = .ok v ∧ Relation.ReflTransGen Moving v s'

/-- The turn is only given in states in which the player that gets it is alive. -/
def GivenToLiving (s s' : Server) : Prop := ∀ u, GivenIn s s' u → u.HolderAlive

def LogsLiving (s : Server) : Prop := ∀ player : Player, .turnGiven player ∈ s.trace → 0 < player.hp

def ToLiving : TurnEvent → Prop
  | .turnGiven player => 0 < player.hp
  | _ => True

instance : DecidablePred ToLiving
  | .turnGiven player => inferInstanceAs (Decidable (0 < player.hp))
  | .choosing => .isTrue trivial
  | .applied _ => .isTrue trivial

instance (s : Server) : Decidable s.LogsLiving :=
  decidable_of_iff (∀ e ∈ s.trace, ToLiving e)
    ⟨fun h _ hmem => h _ hmem, fun h e he => by
      cases e with
      | turnGiven player => exact h player he
      | choosing => trivial
      | applied id => trivial⟩

theorem LogsLiving.of_subset (h : s'.LogsLiving) (htrace : s.trace ⊆ s'.trace) : s.LogsLiving :=
  fun player hmem => h player (htrace hmem)

theorem logsLiving_of_log {e : TurnEvent} (he : ∀ player, e ≠ .turnGiven player)
    (htrace : s'.trace = e :: s.trace) : s'.LogsLiving ↔ s.LogsLiving := by
  constructor
  · intro h
    exact h.of_subset (by rw [htrace]; exact List.subset_cons_self _ _)
  · intro h player hmem
    rw [htrace] at hmem
    rcases List.mem_cons.mp hmem with heq | hmem
    · exact absurd heq.symm (he player)
    · exact h player hmem

theorem resetTurn_logsLiving (h : s.resetTurn = .ok s') :
    s'.LogsLiving ↔ s.LogsLiving ∧ s.HolderAlive := by
  obtain ⟨p, hp, rfl⟩ := resetTurn_eq_ok.mp h
  constructor
  · intro hlogs
    refine ⟨hlogs.of_subset (List.subset_cons_self _ _), fun player hplayer => ?_⟩
    cases hp.symm.trans hplayer
    exact hlogs { p with currentTurns := p.maxTurns } List.mem_cons_self
  · rintro ⟨hlogs, halive⟩ player hmem
    rcases List.mem_cons.mp hmem with heq | hmem
    · cases heq
      exact halive p hp
    · exact hlogs player hmem

theorem Small.logsLiving {sender : Option UInt32} (h : Small sender s s') :
    (s'.LogsLiving ↔ s.LogsLiving) ∨ s.resetTurn = .ok s' := by
  cases h with
  | resetTurn h => exact Or.inr h
  | choosing => exact Or.inl (logsLiving_of_log (fun _ => TurnEvent.noConfusion) rfl)
  | tick | send _ _ _ | eraseNulls | resetAt | enemies _ | removeDead | giveTo _ | removePlayer _ =>
    exact Or.inl Iff.rfl

/-- Only where the turn is given it matters whether somebody is alive. -/
theorem Moving.logsLiving (h : Moving s s') :
    (s'.LogsLiving ↔ s.LogsLiving) ∨ s.resetTurn = .ok s' := by
  cases h with
  | small h => exact h.logsLiving
  | handling h =>
    cases h with
    | change h =>
      cases h with
      | small h => exact h.logsLiving
      | apply _ _ => exact Or.inl (logsLiving_of_log (fun _ => TurnEvent.noConfusion) rfl)
      | reply | enter _ _ => exact Or.inl Iff.rfl
    | note | clear => exact Or.inl Iff.rfl
  | accept | close => exact Or.inl Iff.rfl

theorem LogsLiving.earlier (h : Relation.ReflTransGen Moving s s') (hlogs : s'.LogsLiving) :
    s.LogsLiving := by
  induction h with
  | refl => exact hlogs
  | tail _ hmove ih =>
    rcases hmove.logsLiving with hsame | hgiven
    · exact ih (hsame.mp hlogs)
    · exact ih ((resetTurn_logsLiving hgiven).mp hlogs).1

/-- The log has the records of the players in exactly the states in which they get the turn, by
whatever changes the server comes from `s` to `s'`. -/
theorem givenToLiving_iff (h : Relation.ReflTransGen Moving s s') (hs : s.LogsLiving) :
    GivenToLiving s s' ↔ s'.LogsLiving := by
  constructor
  · intro hliving
    have hall : ∀ u, Relation.ReflTransGen Moving s u → Relation.ReflTransGen Moving u s' →
        u.LogsLiving := by
      intro u hu
      induction hu with
      | refl => exact fun _ => hs
      | @tail t u ht hmove ih =>
        intro hu
        have hlogs := ih (hu.head hmove)
        rcases hmove.logsLiving with hsame | hgiven
        · exact hsame.mpr hlogs
        · exact (resetTurn_logsLiving hgiven).mpr ⟨hlogs, hliving t ⟨ht, u, hgiven, hu⟩⟩
    exact hall s' h .refl
  · rintro hlogs u ⟨-, v, hv, hrest⟩
    exact ((resetTurn_logsLiving hv).mp (hlogs.earlier hrest)).2

theorem step_moving {e : Event} (h : step s e = some s') : Relation.ReflTransGen Moving s s' := by
  cases step_cases h with
  | accept _ => exact .single (.accept s)
  | validated c _ => exact .single (.handling (.change (.reply (c := c) s _)))
  | close c _ => exact .single (.close s c)
  | shyCheck n hok =>
    have hh : SmallHook none (onClientDisconnect n) := onClientDisconnect_smalls n
    exact (messageAllClients_smalls hh s' hok).lift id fun _ _ => .small
  | message n chance c msg _ hok => exact (onMessage_handling s' hok).lift id fun _ _ => .handling

theorem run_moving {events : List Event} (h : Machine.run step s events = some s') :
    Relation.ReflTransGen Moving s s' :=
  Machine.invariant (I := Relation.ReflTransGen Moving s) (fun _ _ _ hs h => hs.trans (step_moving h))
    .refl h

theorem NoAction.trace_subset (h : NoAction s s') : s.trace ⊆ s'.trace := by
  rcases h with h | ⟨es, h, _⟩
  · rw [h]
    exact List.Subset.refl _
  · rw [h]
    exact fun e he => List.mem_append_right _ (List.mem_cons_of_mem _ he)

theorem Began.trace_subset {c : UInt32} {msg : Message} (h : Began c msg s s') :
    s.trace ⊆ s'.trace := by
  cases h with
  | nothing => exact List.Subset.refl _
  | entered => exact List.Subset.refl _
  | applied => exact List.subset_cons_self _ _

theorem TurnMoved.holderAlive (h : TurnMoved s s') (hgiven : s'.LogsLiving)
    (halive : s.HolderAlive) : s'.HolderAlive := by
  rcases h with hkept | ⟨player, es, htrace, _, hrecord, _⟩
  · intro player hplayer
    rw [hkept.currentPlayerID, hkept.record] at hplayer
    exact halive player hplayer
  · intro player' hplayer'
    cases hrecord.symm.trans hplayer'
    exact hgiven player (by rw [htrace]; exact List.mem_cons_self)

theorem Handled.holderAlive (h : Handled s s') (hgiven : s'.LogsLiving)
    (halive : s.HolderAlive) : s'.HolderAlive := by
  rcases h.turn with hmoved | ⟨_, hvacant⟩
  · exact hmoved.holderAlive hgiven halive
  · exact fun player hplayer =>
      absurd (OrderedMap.mem_iff_lookup.mpr ⟨player, hplayer⟩) (hvacant _)

theorem Began.holderAlive {c : UInt32} {msg : Message} (hs : s.WellFormed) (h : Began c msg s s')
    (halive : s.HolderAlive) : s'.HolderAlive := by
  cases h with
  | nothing => exact halive
  | @entered order p _ _ hp =>
    intro player hplayer
    simp only [setPlayersList, OrderedMap.lookup_insertOrAssign] at hplayer
    split at hplayer
    · cases hplayer
      rw [hp.hp]
      decide
    · exact halive player hplayer
  | @applied action w happroved hw =>
    intro player' hplayer'
    obtain ⟨hcur, hmem⟩ := approves_mem happroved
    obtain ⟨player, hplayer⟩ := OrderedMap.mem_iff_lookup.mp hmem
    obtain ⟨q, hq, hacted⟩ :=
      (GameWorld.makeApprovedAction_actedBy hs.keysAreIDs hw).record player hplayer
    have hplayer' : w.playersList.lookup c = some player' := by rwa [hcur]
    cases hq.symm.trans hplayer'
    rw [hacted.hp]
    exact halive player (hcur ▸ hplayer)

theorem step_holderAlive {e : Event} (hs : s.Idle) (h : step s e = some s')
    (halive : s.LogsLiving → s.HolderAlive) (hgiven : s'.LogsLiving) : s'.HolderAlive := by
  rcases step_turn hs h with hmoved | ⟨n, chance, c, msg, t, u, _, _, ht, hb, hu⟩
  · exact hmoved.holderAlive hgiven (halive (hgiven.of_subset hmoved.noAction.trace_subset))
  · have hgivenu := hgiven.of_subset hu.noAction.trace_subset
    have hgivent := hgivenu.of_subset hb.trace_subset
    have hgivens := hgivent.of_subset ht.turn.noAction.trace_subset
    have halivet := ht.turn.holderAlive hgivent (halive hgivens)
    exact hu.holderAlive hgiven (hb.holderAlive ht.wellFormed halivet)

/-- In a run in which the turn is only given to living players, a living player has the turn
as soon as there is one. -/
theorem holder_alive {mapRand enemyRand : Nat → Nat} {closing : Nat → List UInt32}
    {events : List Event}
    (hrun : Machine.run step (start mapRand enemyRand closing) events = some s)
    (hgiven : GivenToLiving (start mapRand enemyRand closing) s)
    (hliving : ∃ id player, s.gameWorld.playersList.lookup id = some player ∧ 0 < player.hp) :
    ∃ player, s.gameWorld.playersList.lookup s.currentPlayerID = some player ∧ 0 < player.hp := by
  have hlogs := (givenToLiving_iff (run_moving hrun) fun _ h => nomatch h).mp hgiven
  have hall := Machine.invariant (I := fun s : Server => s.Idle ∧ (s.LogsLiving → s.HolderAlive))
    (fun s e s' hs h => ⟨step_idle hs.1 h, step_holderAlive hs.1 h hs.2⟩)
    ⟨start_idle mapRand enemyRand closing, fun _ _ h => nomatch h⟩ hrun
  obtain ⟨id, player, hplayer, _⟩ := hliving
  have hplayers := OrderedMap.mem_iff_lookup.mpr ⟨player, hplayer⟩
  have hcur : s.currentPlayerID ∈ s.gameWorld.playersList := by
    rcases hall.1.wellFormed.current with h0 | hcur
    · exact absurd hplayers (hall.1.vacant h0 id)
    · exact hcur
  obtain ⟨holder, hholder⟩ := OrderedMap.mem_iff_lookup.mp hcur
  exact ⟨holder, hholder, hall.2 hlogs holder hholder⟩

def moveDown (id : UInt32) : PlayerAction := ⟨EPlayerActionType.move.code, id, #v[0, 0, 1, 0]⟩

def zombies (k i : Nat) : Nat := if i = 0 then k else 8

/-- The first player uses up its turn while a second one stands among the zombies. -/
def oneAmongZombies : List Event :=
  [.accept, .accept, .message 0 (.always 20) 10000 (registerRequest Player.default),
    .message 0 (.always 10) 10001 (registerRequest Player.default)] ++
  List.replicate 4 (.message 0 (.always 0) 10000 (actionRequest (moveDown 10000)))

/-- Four zombies leave the second player alive, so it gets the turn as one that can play. -/
theorem holder_alive_struck : ∃ s : Server,
    Machine.run step (start (fun _ => 0) (zombies 4) fun _ => []) oneAmongZombies = some s ∧
    GivenToLiving (start (fun _ => 0) (zombies 4) fun _ => []) s ∧ s.currentPlayerID = 10001 ∧
    (∃ player, s.gameWorld.playersList.lookup 10000 = some player ∧ player.hp = 45) ∧
    (∃ player, s.gameWorld.playersList.lookup 10001 = some player ∧ player.hp = 9) ∧
    ∃ player, s.gameWorld.playersList.lookup s.currentPlayerID = some player ∧ 0 < player.hp := by
  have hrun : ((Machine.run step (start (fun _ => 0) (zombies 4) fun _ => []) oneAmongZombies).map
      fun s => (decide (s.LogsLiving ∧ s.currentPlayerID = 10001),
        (s.gameWorld.playersList.lookup 10000).map Player.hp,
        (s.gameWorld.playersList.lookup 10001).map Player.hp)) =
      some (true, some 45, some 9) := by decide +kernel
  obtain ⟨s, hs, h⟩ := Option.map_eq_some_iff.mp hrun
  obtain ⟨hstate, hplayers⟩ := Prod.mk.inj h
  obtain ⟨hlogs, hcur⟩ := of_decide_eq_true hstate
  obtain ⟨hfirst, hsecond⟩ := Prod.mk.inj hplayers
  obtain ⟨first, hfirst, hhp⟩ := Option.map_eq_some_iff.mp hfirst
  have hgiven := (givenToLiving_iff (run_moving hs) fun _ h => nomatch h).mpr hlogs
  exact ⟨s, hs, hgiven, hcur, ⟨first, hfirst, hhp⟩, Option.map_eq_some_iff.mp hsecond,
    holder_alive hs hgiven ⟨10000, first, hfirst, by rw [hhp]; decide⟩⟩

/-- Five zombies kill the second player, which then gets the turn, and the first one lives. -/
theorem turn_to_dead : ∃ s : Server, s.Reachable ∧
    (∃ id player, s.gameWorld.playersList.lookup id = some player ∧ 0 < player.hp) ∧
    ¬ ∃ player, s.gameWorld.playersList.lookup s.currentPlayerID = some player ∧ 0 < player.hp := by
  have hrun : ((Machine.run step (start (fun _ => 0) (zombies 5) fun _ => []) oneAmongZombies).map
      fun s => ((s.gameWorld.playersList.lookup 10000).map Player.hp,
        (s.gameWorld.playersList.lookup s.currentPlayerID).map Player.hp)) =
      some (some 45, some 0) := by decide +kernel
  obtain ⟨s, hs, h⟩ := Option.map_eq_some_iff.mp hrun
  obtain ⟨hfirst, hholder⟩ := Prod.mk.inj h
  obtain ⟨player, hplayer, hhp⟩ := Option.map_eq_some_iff.mp hfirst
  refine ⟨s, ⟨_, _, _, _, hs⟩, ⟨10000, player, hplayer, by rw [hhp]; decide⟩, ?_⟩
  rintro ⟨holder, hplayer', halive⟩
  rw [hplayer'] at hholder
  rw [Option.some.inj hholder] at halive
  exact absurd halive (by decide)

end Server

end AsciiTerra
