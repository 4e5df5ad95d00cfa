import AsciiTerra.Handlers

/-!
# The actions of one turn

The counter that limits the actions of a turn is a field of the player's record, and a
registration writes a new record. Without such a registration in the middle of a turn the
actions applied so far and those left make up the budget.
-/

set_option autoImplicit false

namespace AsciiTerra

namespace Server
variable {s s' : Server}

/-- What belongs to the turn of `player`: nobody is chosen, nobody else gets the turn. -/
def WithinTurn (player : Player) (seg : List TurnEvent) : Prop :=
  .choosing ∉ seg ∧ ∀ next : Player, .turnGiven next ∈ seg → next.id = player.id

def isAction : TurnEvent → Bool
  | .applied _ => true
  | _ => false

/-- From the moment a player gets the turn, it takes as many actions as it has turns at
most, and nobody else takes any. -/
def Budgeted (trace : List TurnEvent) : Prop :=
  ∀ later seg player earlier, trace = later ++ seg ++ .turnGiven player :: earlier →
    WithinTurn player seg →
    (∀ id, .applied id ∈ seg → id = player.id) ∧ seg.countP isAction ≤ player.maxTurns.val

/-- The present turn: `k` actions since `player` got it. -/
def Present (player : Player) (k : Nat) (trace : List TurnEvent) : Prop :=
  ∃ earlier, trace = List.replicate k (.applied player.id) ++ .turnGiven player :: earlier

/-- A log in which each action has its place in a turn, and each turn is chosen. -/
def Orderly : List TurnEvent → Prop
  | [] => True
  | .choosing :: trace => Orderly trace
  | .turnGiven player :: trace =>
    Orderly trace ∧ player.maxTurns = 4 ∧ ∀ id, trace.head? ≠ some (.applied id)
  | .applied id :: trace =>
    Orderly trace ∧ ∃ player k, Present player k trace ∧ player.id = id ∧ k < 4

theorem Orderly.tail {e : TurnEvent} {trace : List TurnEvent} (h : Orderly (e :: trace)) :
    Orderly trace := by
  cases e with
  | choosing => exact h
  | turnGiven player => exact h.1
  | applied id => exact h.1

theorem Orderly.suffix {later trace : List TurnEvent} (h : Orderly (later ++ trace)) :
    Orderly trace := by
  induction later with
  | nil => exact h
  | cons e later ih => exact ih h.tail

theorem replicate_turnGiven_inj {a b : UInt32} {p q : Player} {k l : Nat}
    {trace trace' : List TurnEvent}
    (h : List.replicate k (.applied a) ++ .turnGiven p :: trace =
      List.replicate l (.applied b) ++ .turnGiven q :: trace') : k = l ∧ p = q := by
  induction k generalizing l with
  | zero =>
    cases l with
    | zero => exact ⟨rfl, TurnEvent.turnGiven.inj (List.cons.inj h).1⟩
    | succ l => exact nomatch (List.cons.inj h).1
  | succ k ih =>
    cases l with
    | zero => exact nomatch (List.cons.inj h).1
    | succ l =>
      obtain ⟨hk, hp⟩ := ih (List.cons.inj h).2
      exact ⟨congrArg Nat.succ hk, hp⟩

theorem Orderly.within {player : Player} {seg earlier : List TurnEvent}
    (h : Orderly (seg ++ .turnGiven player :: earlier)) (hseg : WithinTurn player seg) :
    ∃ k given, seg = List.replicate k (.applied player.id) ++ given ∧ k ≤ 4 ∧
      ∀ e ∈ given, ∃ p : Player, e = .turnGiven p ∧ p.id = player.id := by
  induction seg with
  | nil => exact ⟨0, [], rfl, by omega, by simp⟩
  | cons e seg ih =>
    have hwithin : WithinTurn player seg :=
      ⟨fun hmem => hseg.1 (List.mem_cons_of_mem e hmem),
        fun p hp => hseg.2 p (List.mem_cons_of_mem e hp)⟩
    obtain ⟨k, given, rfl, hk, hgiven⟩ := ih h.tail hwithin
    cases e with
    | choosing => exact absurd List.mem_cons_self hseg.1
    | turnGiven p =>
      -- no action comes right before a turn is given
      cases k with
      | succ k => exact absurd rfl (h.2.2 player.id)
      | zero =>
        refine ⟨0, .turnGiven p :: given, rfl, hk, fun e he => ?_⟩
        rcases List.mem_cons.mp he with rfl | he
        · exact ⟨p, rfl, hseg.2 p List.mem_cons_self⟩
        · exact hgiven e he
    | applied id =>
      rw [List.cons_append] at h
      obtain ⟨-, q, l, ⟨earlier', hpresent⟩, hid, hl⟩ := h
      have hlast : ∃ (p : Player) (rest : List TurnEvent),
          given ++ .turnGiven player :: earlier = .turnGiven p :: rest ∧ p.id = player.id := by
        cases given with
        | nil => exact ⟨player, earlier, rfl, rfl⟩
        | cons e given =>
          obtain ⟨p, rfl, hp⟩ := hgiven e List.mem_cons_self
          exact ⟨p, _, rfl, hp⟩
      obtain ⟨p, rest, hrest, hp⟩ := hlast
      rw [List.append_assoc, hrest] at hpresent
      obtain ⟨rfl, rfl⟩ := replicate_turnGiven_inj hpresent
      refine ⟨k + 1, given, ?_, by omega, hgiven⟩
      rw [← hid, hp]
      rfl

theorem Orderly.budgeted {trace : List TurnEvent} (h : Orderly trace) : Budgeted trace := by
  rintro later seg player earlier rfl hseg
  rw [List.append_assoc] at h
  obtain ⟨k, given, rfl, hk, hgiven⟩ := h.suffix.within hseg
  have hmax : player.maxTurns = 4 := (h.suffix.suffix).2.1
  have hnone : ∀ e ∈ given, isAction e = false := by
    intro e he
    obtain ⟨p, rfl, _⟩ := hgiven e he
    rfl
  constructor
  · intro id hid
    rcases List.mem_append.mp hid with hid | hid
    · exact TurnEvent.applied.inj (List.eq_of_mem_replicate hid)
    · exact nomatch hnone _ hid
  · rw [List.countP_append, List.countP_replicate, List.countP_eq_zero.mpr (by simpa using hnone), hmax]
    simpa [isAction] using hk

theorem Orderly.passing {es trace : List TurnEvent} (h : Orderly trace)
    (hes : ∀ e ∈ es, Passing e) : Orderly (es ++ .choosing :: trace) := by
  induction es with
  | nil => exact h
  | cons e es ih =>
    have hrest := ih fun e' he' => hes e' (List.mem_cons_of_mem e he')
    rcases hes e List.mem_cons_self with rfl | ⟨player, rfl, hmax⟩
    · exact hrest
    · refine ⟨hrest, hmax, fun id hid => ?_⟩
      cases es with
      | nil => exact nomatch hid
      | cons e' es =>
        rcases hes e' (by simp) with rfl | ⟨p, rfl, _⟩
        · exact nomatch hid
        · exact nomatch hid

theorem NoAction.orderly (h : NoAction s s') (ho : Orderly s.trace) : Orderly s'.trace := by
  rcases h with h | ⟨es, h, hes⟩
  · rwa [h]
  · rw [h]
    exact ho.passing hes

/-- The actions since the holder got the turn and those it has left make up its budget. -/
def InSync (s : Server) : Prop :=
  ∀ player, s.gameWorld.playersList.lookup s.currentPlayerID = some player →
    ∃ given k, Present given k s.trace ∧ given.id = s.currentPlayerID ∧
      k + player.currentTurns.val = 4

theorem TurnPassed.inSync (hs : s'.WellFormed) (h : TurnPassed s s') : s'.InSync := by
  obtain ⟨player, es, htrace, _, hrecord, hturns, _⟩ := h
  intro player' hplayer'
  cases hrecord.symm.trans hplayer'
  exact ⟨player, 0, ⟨_, htrace⟩, hs.keysAreIDs.id_eq hrecord, by rw [hturns]; rfl⟩

theorem TurnMoved.inSync (hs : s'.WellFormed) (h : TurnMoved s s') (hsync : s.InSync) :
    s'.InSync := by
  rcases h with hkept | hpassed
  · intro player hplayer
    rw [hkept.currentPlayerID, hkept.record] at hplayer
    unfold Present
    rw [hkept.trace, hkept.currentPlayerID]
    exact hsync player hplayer
  · exact hpassed.inSync hs

theorem Handled.inSync (h : Handled s s') (hsync : s.InSync) : s'.InSync := by
  rcases h.turn with hmoved | ⟨_, hvacant⟩
  · exact hmoved.inSync h.wellFormed hsync
  · exact fun player hplayer =>
      absurd (OrderedMap.mem_iff_lookup.mpr ⟨player, hplayer⟩) (hvacant _)

/-- A registration of the holder of the turn that has already used some of it. -/
def RegistersInTurn (s : Server) : Event → Prop
  | .message _ _ c msg => ECustomMetaMSG.ofCode msg.header.id = some .clientRegisterOnServer ∧
      c = s.currentPlayerID ∧
      ∃ player ∈ s.gameWorld.playersList.lookup c, player.currentTurns ≠ player.maxTurns
  | _ => False

instance (s : Server) : (e : Event) → Decidable (s.RegistersInTurn e)
  | .message _ _ _ _ => inferInstanceAs (Decidable (_ ∧ _ ∧ _))
  | .accept => .isFalse id
  | .validated _ => .isFalse id
  | .close _ => .isFalse id
  | .shyCheck _ => .isFalse id

theorem Began.inSync {c : UInt32} {msg : Message} (hs : s.WellFormed) (h : Began c msg s s')
    (hfull : ECustomMetaMSG.ofCode msg.header.id = some .clientRegisterOnServer →
      c = s.currentPlayerID → ∀ player, s.gameWorld.playersList.lookup c = some player →
        player.currentTurns = player.maxTurns)
    (ho : Orderly s.trace) (hsync : s.InSync) : Orderly s'.trace ∧ s'.InSync := by
  cases h with
  | nothing => exact ⟨ho, hsync⟩
  | @entered order p hid hc hp =>
    refine ⟨ho, fun player hplayer => ?_⟩
    simp only [setPlayersList, OrderedMap.lookup_insertOrAssign] at hplayer
    split at hplayer
    · rename_i hcur
      cases hplayer
      -- the holder has taken no action yet
      rcases hs.current with h0 | hmem
      · exact absurd (hcur.symm.trans h0) (hs.accepted c hc).ne_zero
      · obtain ⟨q, hq⟩ := OrderedMap.mem_iff_lookup.mp hmem
        obtain ⟨given, k, hpresent, hgiven, hsum⟩ := hsync q hq
        have hturns := hfull hid hcur.symm q (hcur ▸ hq)
        have hmax : q.maxTurns = 4 := hs.maxTurns _ (OrderedMap.mem_entries_of_lookup hq)
        refine ⟨given, k, hpresent, hgiven, ?_⟩
        rw [hp.currentTurns, ← hmax, ← hturns]
        exact hsum
    · exact hsync player hplayer
  | @applied action w happroved hw =>
    obtain ⟨hcur, hmem⟩ := approves_mem happroved
    obtain ⟨player, hplayer⟩ := OrderedMap.mem_iff_lookup.mp hmem
    obtain ⟨q, hq, hacted⟩ :=
      (GameWorld.makeApprovedAction_actedBy hs.keysAreIDs hw).record player hplayer
    obtain ⟨given, k, ⟨earlier, hpresent⟩, hgiven, hsum⟩ := hsync player (hcur ▸ hplayer)
    have hturns := hacted.currentTurns
    refine ⟨⟨ho, given, k, ⟨earlier, hpresent⟩, hgiven.trans hcur.symm, by omega⟩, ?_⟩
    intro player' hplayer'
    have hplayer' : w.playersList.lookup c = some player' := by rwa [hcur]
    cases hq.symm.trans hplayer'
    refine ⟨given, k + 1, ⟨earlier, ?_⟩, hgiven, by omega⟩
    simp only [log, hpresent, hgiven, ← hcur, List.replicate_succ, List.cons_append]

theorem step_inSync {e : Event} (hs : s.Idle) (ho : Orderly s.trace) (hsync : s.InSync)
    (hfull : ¬ RegistersInTurn s e) (h : step s e = some s') : Orderly s'.trace ∧ s'.InSync := by
  have hidle := step_idle hs h
  rcases step_turn hs h with hmoved | ⟨n, chance, c, msg, t, u, rfl, _, ht, hb, hu⟩
  · exact ⟨hmoved.noAction.orderly ho, hmoved.inSync hidle.wellFormed hsync⟩
  · have hot := ht.turn.noAction.orderly ho
    have hsynct := ht.turn.inSync ht.wellFormed hsync
    have hu' := hb.inSync ht.wellFormed (fun hid hcur player hplayer => ?_) hot hsynct
    · exact ⟨hu.noAction.orderly hu'.1, hu.inSync hu'.2⟩
    · rcases ht.turn with hkept | ⟨q, _, _, _, hrecord, hturns, hmax⟩
      · by_contra hne
        refine hfull ⟨hid, hcur.trans hkept.currentPlayerID, player, ?_, hne⟩
        have hrecord := hkept.record
        rw [← hkept.currentPlayerID, ← hcur] at hrecord
        rw [← hrecord]
        exact hplayer
      · rw [← hcur] at hrecord
        cases hrecord.symm.trans hplayer
        rw [hturns, hmax]

/-- In a run without a registration of the holder in the middle of its turn, every turn
stays within its budget. -/
theorem turns_budgeted {mapRand enemyRand : Nat → Nat} {closing : Nat → List UInt32}
    {events : List Event}
    (hfull : Machine.Along step (fun s e => ¬ RegistersInTurn s e) (start mapRand enemyRand closing)
      events)
    (hrun : Machine.run step (start mapRand enemyRand closing) events = some s) :
    Budgeted s.trace := by
  have hall := Machine.invariant_along
    (I := fun s : Server => s.Idle ∧ Orderly s.trace ∧ s.InSync)
    (fun s e s' hs hfull h => ⟨step_idle hs.1 h, step_inSync hs.1 hs.2.1 hs.2.2 hfull h⟩)
    ⟨start_idle mapRand enemyRand closing, trivial, fun _ h => nomatch h⟩ hfull hrun
  exact hall.2.1.budgeted

def moveRight (id : UInt32) : PlayerAction := ⟨EPlayerActionType.move.code, id, moveInfo 1 0⟩

/-- A player that registers once and acts. -/
theorem turns_budgeted_once : ∃ s : Server, Machine.run step (start (fun _ => 0) (fun _ => 0) fun _ => [])
    [.accept, .message 0 (.always 10) 10000 (registerRequest Player.default),
      .message 0 (.always 10) 10000 (actionRequest (moveRight 10000))] = some s ∧
    Budgeted s.trace := by
  have hfull : Machine.Along step (fun s e => ¬ RegistersInTurn s e)
      (start (fun _ => 0) (fun _ => 0) fun _ => [])
      [.accept, .message 0 (.always 10) 10000 (registerRequest Player.default),
        .message 0 (.always 10) 10000 (actionRequest (moveRight 10000))] := by decide +kernel
  have hrun : (Machine.run step (start (fun _ => 0) (fun _ => 0) fun _ => [])
      [.accept, .message 0 (.always 10) 10000 (registerRequest Player.default),
        .message 0 (.always 10) 10000 (actionRequest (moveRight 10000))]).isSome = true := by
    decide +kernel
  obtain ⟨s, hs⟩ := Option.isSome_iff_exists.mp hrun
  exact ⟨s, hs, turns_budgeted hfull hs⟩

/-- The only player acts and registers once more before its turn is over. -/
def registersInTurn : List Event :=
  [.accept, .message 0 (.always 10) 10000 (registerRequest Player.default)] ++
  List.replicate 3 (.message 0 (.always 10) 10000 (actionRequest (moveRight 10000))) ++
  [.message 0 (.always 10) 10000 (registerRequest Player.default)] ++
  List.replicate 2 (.message 0 (.always 10) 10000 (actionRequest (moveRight 10000)))

/-- The five actions after the only turn that was given, and whose turn that was. -/
def fiveInTurn : List TurnEvent → List TurnEvent × UInt32 × Fin 16
  | [a, b, c, d, e, .turnGiven player, .choosing] => ([a, b, c, d, e], player.id, player.maxTurns)
  | _ => ([], 0, 0)

/-- Five actions in a turn of four. -/
theorem budget_exceeded : ∃ s : Server, s.Reachable ∧ ¬ Budgeted s.trace := by
  have hrun : ((Machine.run step (start (fun _ => 0) (fun _ => 0) fun _ => []) registersInTurn).map
      fun s => fiveInTurn s.trace) =
      some (List.replicate 5 (.applied 10000), 10000, 4) := by decide +kernel
  obtain ⟨s, hs, h⟩ := Option.map_eq_some_iff.mp hrun
  refine ⟨s, ⟨_, _, _, _, hs⟩, fun hbudget => ?_⟩
  unfold fiveInTurn at h
  split at h
  · rename_i a b c d e player htrace
    obtain ⟨hseg, hrest⟩ := Prod.mk.inj h
    obtain ⟨_, hmax⟩ := Prod.mk.inj hrest
    have hbound := (hbudget [] [a, b, c, d, e] player [.choosing] htrace (by simp [hseg, WithinTurn])).2
    rw [hseg, hmax] at hbound
    exact absurd hbound (by decide)
  · cases (Prod.mk.inj h).1

end Server

end AsciiTerra
