import AsciiTerra.RegisteredRecord
import AsciiTerra.SteadyServer

/-!
# Rounds

A round goes from one turn of the enemies to the next. The player after the present one is
whoever comes next in the hash map at that moment, so each player has one turn in a round
if no registration moves a player from behind the present one to before it or back.
-/

set_option autoImplicit false

namespace AsciiTerra

namespace Server
variable {s t u : Server}

open Outcome (Post)

/-- `OnMessage` for an action up to the call of `ChooseNextPlayerForTurn`: the state of the call
on the right, the result without a call on the left. -/
def turnEnd (n : Nat) (c : UInt32) (msg : Message) (s : Server) :
    Outcome Fault (Server ⊕ Server) := do
  let s ← s.flushGarbage (onClientDisconnect n)
  let (action, _) ← Outcome.ofExcept (msg.pop Layout.playerAction)
  let approved ← Outcome.ofExcept (s.approves c action)
  if approved then do
    let w ← Outcome.ofExcept (s.gameWorld.makeApprovedAction c action)
    let s ← messageAllClients (onClientDisconnect n)
      ((Message.ofID .gamePlayerActionValidated).push Layout.playerAction
        { action with playerID := c }) none ({ s with gameWorld := w }.log (.applied c))
    match s.gameWorld.playersList.lookup c with
    | none => .fault .erasedEntry
    | some player =>
      if player.getCurrentTurnActions ≤ 0 then do
        let s ← messageClient (onClientDisconnect n) (some c) (.ofID .gameEndPlayerTurn) s
        .ok (.inr s)
      else .ok (.inl s)
  else do
    let s ← messageClient (onClientDisconnect n) (some c)
      ((Message.ofID .gamePlayerActionAborted).push Layout.playerAction action) s
    .ok (.inl s)

/-- What `OnMessage` does after `turnEnd`. -/
def afterTurnEnd (n : Nat) (c : UInt32) : Server ⊕ Server → Outcome Fault Server
  | .inl s => .ok s
  | .inr s => do
    let s ← s.chooseNextPlayerForTurn (onClientDisconnect n) (some c)
    messageAllClients (onClientDisconnect n)
      ((Message.ofID .gameNextPlayerTurn).push Codec.u32 s.currentPlayerID) none s

theorem onMessage_turnEnd {n : Nat} {chance : Chance} {c : UInt32} {msg : Message}
    (hid : ECustomMetaMSG.ofCode msg.header.id = some .serverGamePlayerActionApprove)
    (s : Server) : s.onMessage (onClientDisconnect n) chance c msg =
      s.turnEnd n c msg >>= afterTurnEnd n c := by
  unfold onMessage turnEnd
  rw [bind_assoc]
  refine bind_congr fun s => ?_
  unfold handleMessage actionApprove
  simp only [hid]
  rw [bind_assoc]
  refine bind_congr fun r => ?_
  rw [bind_assoc]
  refine bind_congr fun approved => ?_
  cases approved with
  | false =>
    simp only [Bool.false_eq_true, if_false, bind_assoc, Outcome.ok_bind, afterTurnEnd,
      Outcome.bind_ok]
  | true =>
    simp only [if_true, applyAction, bind_assoc]
    refine bind_congr fun w => ?_
    refine bind_congr fun s => ?_
    cases s.gameWorld.playersList.lookup c with
    | none => rfl
    | some player =>
      by_cases hleft : player.getCurrentTurnActions ≤ 0
      · simp only [if_pos hleft, endTurn, bind_assoc, Outcome.ok_bind, afterTurnEnd]
      · simp only [if_neg hleft, Outcome.ok_bind, afterTurnEnd]

/-- The turn of `c` has ended and the map has no entry after that of `c`. -/
def EndsRound (c : UInt32) : Outcome Fault (Server ⊕ Server) → Prop
  | .ok (.inr u) => c ∈ u.gameWorld.playersList ∧ OrderedMap.after c u.gameWorld.playersList = []
  | _ => False

instance (c : UInt32) : DecidablePred (EndsRound c)
  | .ok (.inr _) => inferInstanceAs (Decidable (_ ∧ _))
  | .ok (.inl _) => .isFalse id
  | .fault _ => .isFalse id
  | .deep => .isFalse id

/-- In handling the event `ChooseNextPlayerForTurn` calls `MakeAITurn`, while no connection is
closed. -/
def MakesAITurn (s : Server) : Event → Prop
  | .message n _ c msg =>
    ECustomMetaMSG.ofCode msg.header.id = some .serverGamePlayerActionApprove ∧
      EndsRound c (s.turnEnd n c msg)
  | _ => False

instance decidableMakesAITurn (s : Server) : (e : Event) → Decidable (s.MakesAITurn e)
  | .message _ _ _ _ => inferInstanceAs (Decidable (_ ∧ _))
  | .accept => .isFalse id
  | .validated _ => .isFalse id
  | .close _ => .isFalse id
  | .shyCheck _ => .isFalse id

theorem EndsRound.call {c : UInt32} {r : Outcome Fault (Server ⊕ Server)} (h : EndsRound c r) :
    ∃ u, r = .ok (.inr u) ∧ c ∈ u.gameWorld.playersList ∧
      OrderedMap.after c u.gameWorld.playersList = [] := by
  unfold EndsRound at h
  split at h
  · exact ⟨_, rfl, h⟩
  · exact h.elim

theorem turnEnd_stays (hs : s.Steady) {n : Nat} {c : UInt32} {msg : Message} :
    Post (fun
      | .inl t => StaysPut s t
      | .inr t => StaysPut s t ∧ c = s.currentPlayerID ∧ c ∈ s.gameWorld.playersList)
      (s.turnEnd n c msg) := by
  intro r hok
  obtain ⟨s1, h1, hok⟩ := Outcome.bind_eq_ok.mp hok
  have h1 := (flushGarbage_sends hs s1 h1).stays hs
  obtain ⟨⟨action, rest⟩, -, hok⟩ := Outcome.bind_eq_ok.mp hok
  obtain ⟨approved, happroved, hok⟩ := Outcome.bind_eq_ok.mp hok
  cases approved with
  | false =>
    simp only [Bool.false_eq_true, if_false, messageClient_sends h1.steady, Outcome.ok_bind] at hok
    cases hok
    exact h1.trans ((h1.steady.sends_client _ _).stays h1.steady)
  | true =>
    obtain ⟨hcur, hmem⟩ := approves_mem (Outcome.ofExcept_eq_ok.mp happroved)
    have hholder : c = s.currentPlayerID ∧ c ∈ s.gameWorld.playersList :=
      ⟨hcur.trans h1.currentPlayerID, h1.mem_iff.mp hmem⟩
    simp only [if_true] at hok
    obtain ⟨w, hw, hok⟩ := Outcome.bind_eq_ok.mp hok
    have hw := Outcome.ofExcept_eq_ok.mp hw
    have hacted := GameWorld.makeApprovedAction_actedBy h1.steady.wellFormed.keysAreIDs hw
    have happlied : StaysPut s1 ({ s1 with gameWorld := w }.log (.applied c)) :=
      ⟨⟨wellFormed_applied h1.steady.wellFormed hw, h1.steady.noNull, h1.steady.closed,
        h1.steady.closing⟩, hacted.players.keys_eq, rfl, fun id => rfl⟩
    obtain ⟨s2, h2, hok⟩ := Outcome.bind_eq_ok.mp hok
    have h2 := (messageAllClients_sends happlied.steady _ _ s2 h2).stays happlied.steady
    have hkept := (h1.trans happlied).trans h2
    split at hok
    · exact nomatch hok
    · split at hok
      · simp only [messageClient_sends h2.steady, Outcome.ok_bind] at hok
        cases hok
        exact ⟨hkept.trans ((h2.steady.sends_client _ _).stays h2.steady), hholder⟩
      · cases hok
        exact hkept

/-- A registration leaves each player that was listed on its side of the present one. -/
def KeepsPlaces (s : Server) : Event → Prop
  | .message _ chance c msg => ∀ p, Registers msg p → ∀ id ∈ s.gameWorld.playersList,
    (id ∈ (OrderedMap.after s.currentPlayerID (OrderedMap.insertOrAssign chance.order c
      (p.registered chance.rand c) s.gameWorld.playersList)).keys ↔
    id ∈ (OrderedMap.after s.currentPlayerID s.gameWorld.playersList).keys)
  | _ => True

/-- What the handling of an event does to the turn. -/
inductive TurnStep (s : Server) (e : Event) (t : Server) : Prop
  | stays : ¬ s.MakesAITurn e → StaysPut s t → TurnStep s e t
  | enters {n : Nat} {chance : Chance} {c : UInt32} {msg : Message} {p : Player} :
      e = .message n chance c msg → Registers msg p → ¬ s.MakesAITurn e →
      (∀ id, t.turnsOf id = s.turnsOf id) → t.Steady → t.currentPlayerID = s.currentPlayerID →
      t.gameWorld.playersList.keys = (OrderedMap.insertOrAssign chance.order c
        (p.registered chance.rand c) s.gameWorld.playersList).keys → TurnStep s e t
  | passes {id : UInt32} : Follows s.currentPlayerID id s → PassedTo id s t →
      (s.MakesAITurn e ↔ OrderedMap.after s.currentPlayerID s.gameWorld.playersList = []) →
      TurnStep s e t

theorem actionApprove_turnStep (hs : s.Steady) {n : Nat} {chance : Chance} {c : UInt32}
    {msg : Message}
    (hid : ECustomMetaMSG.ofCode msg.header.id = some .serverGamePlayerActionApprove)
    (h : s.onMessage (onClientDisconnect n) chance c msg = .ok t) :
    TurnStep s (.message n chance c msg) t := by
  rw [onMessage_turnEnd hid] at h
  obtain ⟨r, hr, h⟩ := Outcome.bind_eq_ok.mp h
  have hstays := turnEnd_stays hs r hr
  cases r with
  | inl u =>
    cases h
    refine .stays ?_ hstays
    rintro ⟨-, hround⟩
    rw [hr] at hround
    exact hround
  | inr u =>
    obtain ⟨hu, rfl, hmem⟩ := hstays
    obtain ⟨v, hv, h⟩ := Outcome.bind_eq_ok.mp h
    obtain ⟨id, hfollows, hpassed⟩ := chooseNextPlayerForTurn_passed (onClientDisconnect_spec n)
      hu.steady (hu.mem_iff.mpr hmem) v hv
    have hsent := (messageAllClients_sends hpassed.steady _ _ t h).stays hpassed.steady
    refine .passes ?_ (hu.passedTo (hpassed.stays hsent)) ?_
    · unfold Follows at hfollows ⊢
      rw [OrderedMap.keys_after, hu.keys, ← OrderedMap.keys_after] at hfollows
      exact hfollows
    · have hafter : OrderedMap.after s.currentPlayerID u.gameWorld.playersList = [] ↔
          OrderedMap.after s.currentPlayerID s.gameWorld.playersList = [] :=
        ⟨OrderedMap.after_eq_nil_of_keys hu.keys.symm, OrderedMap.after_eq_nil_of_keys hu.keys⟩
      rw [← hafter]
      constructor
      · rintro ⟨-, hround⟩
        rw [hr] at hround
        exact hround.2
      · intro hnil
        refine ⟨hid, ?_⟩
        rw [hr]
        exact ⟨hu.mem_iff.mpr hmem, hnil⟩

theorem register_turnStep (hs : s.Steady) (hcur : s.currentPlayerID ≠ 0) {n : Nat}
    {chance : Chance} {c : UInt32} {msg : Message} {p : Player} (hc : s.Accepted c)
    (hp : Registers msg p) (h : s.onMessage (onClientDisconnect n) chance c msg = .ok t) :
    TurnStep s (.message n chance c msg) t := by
  rw [onMessage_registers hp] at h
  obtain ⟨u, hu, h⟩ := Outcome.bind_eq_ok.mp h
  have hu := flushGarbage_sends hs u hu
  have husteady := hu.steady hs
  have hids : c ∈ u.ids := by
    refine (husteady.wellFormed.gone c ?_).resolve_right ?_
    · unfold Accepted
      rw [hu.nIDCounter]
      exact hc
    · rw [husteady.closed]
      exact List.not_mem_nil
  have hnew := clientOnRegister_spec (clientOnRegister_eq chance.rand c p)
  have hentered : Steady (u.setPlayersList (OrderedMap.insertOrAssign chance.order c
      (p.registered chance.rand c) u.gameWorld.playersList)) :=
    ⟨wellFormed_enter husteady.wellFormed hids hnew, husteady.noNull, husteady.closed,
      husteady.closing⟩
  obtain ⟨v, hv, h⟩ := Outcome.bind_eq_ok.mp h
  have hv := announce_sends hentered c _ v hv
  have hkept : v.currentPlayerID = s.currentPlayerID := hv.currentPlayerID.trans hu.currentPlayerID
  rw [if_neg (hkept ▸ hcur)] at h
  cases h
  refine .enters rfl hp ?_ (fun id => ?_) (hv.steady hentered) hkept ?_
  · rintro ⟨hid, -⟩
    exact nomatch hp.id.symm.trans hid
  · have htrace : t.trace = s.trace := hv.trace.trans hu.trace
    simp only [turnsOf, htrace]
  · rw [hv.gameWorld]
    simp only [setPlayersList, hu.gameWorld]

theorem handleMessage_turnStep (hs : s.Steady) (hcur : s.currentPlayerID ≠ 0) {n : Nat}
    {chance : Chance} {c : UInt32} {msg : Message} (hc : s.Accepted c)
    (h : s.onMessage (onClientDisconnect n) chance c msg = .ok t) :
    TurnStep s (.message n chance c msg) t := by
  obtain ⟨u, hu, hok⟩ := Outcome.bind_eq_ok.mp h
  have hu := (flushGarbage_sends hs u hu).stays hs
  have hall : ∀ m ignore, Post (StaysPut s) (messageAllClients (onClientDisconnect n) m ignore u) :=
    fun m ignore => (messageAllClients_sends hu.steady m ignore).mono fun v hv =>
      hu.trans (hv.stays hu.steady)
  unfold handleMessage at hok
  split at hok
  · rename_i hid
    obtain ⟨⟨p, rest⟩, hpop, -⟩ := Outcome.bind_eq_ok.mp hok
    exact register_turnStep hs hcur hc ⟨hid, rest, Outcome.ofExcept_eq_ok.mp hpop⟩ h
  · rename_i hid
    exact actionApprove_turnStep hs hid h
  · rename_i hid
    refine .stays ?_ (hall _ _ t hok)
    exact fun hround => nomatch hid.symm.trans hround.1
  · rename_i hid
    cases hok
    refine .stays (fun hround => nomatch hid.symm.trans hround.1) ?_
    exact hu.trans (Sends.stays ⟨rfl, rfl, rfl, rfl, rfl, rfl, rfl⟩ hu.steady)
  · rename_i hid
    refine .stays (fun hround => nomatch hid.symm.trans hround.1) ?_
    split at hok
    · exact hall _ _ t hok
    · exact nomatch hok
  · rename_i hne _ _ _ _
    cases hok
    exact .stays (fun hround => absurd hround.1 (by assumption)) hu

theorem step_turnStep {e : Event} (hs : s.Steady) (hcur : s.currentPlayerID ∈ s.gameWorld.playersList)
    (hopen : ∀ c, e ≠ .close c) (h : step s e = some t) : TurnStep s e t := by
  have hne : s.currentPlayerID ≠ 0 := (hs.wellFormed.accepted_of_mem hcur).ne_zero
  cases step_cases h with
  | accept _ =>
    have hidle : s.Idle := ⟨hs.wellFormed, hs.noNull, fun h0 => absurd h0 hne⟩
    have hnext := step_idle hidle h
    exact .stays id ⟨⟨hnext.wellFormed, hnext.noNull, hs.closed, hs.closing⟩, rfl, rfl,
      fun id => rfl⟩
  | validated c _ =>
    exact .stays id (Sends.stays ⟨rfl, rfl, rfl, rfl, rfl, rfl, rfl⟩ hs)
  | close c _ => exact absurd rfl (hopen c)
  | shyCheck n hok => exact .stays id ((messageAllClients_sends hs _ _ t hok).stays hs)
  | message n chance c msg hc hok =>
    exact handleMessage_turnStep hs hne hc hok

/-- The players that iteration comes to after the present one. -/
def toCome (s : Server) : List UInt32 :=
  (OrderedMap.after s.currentPlayerID s.gameWorld.playersList).keys

theorem toCome_eq (s : Server) : s.toCome =
    (s.gameWorld.playersList.keys.dropWhile (fun a => a ≠ s.currentPlayerID)).tail :=
  OrderedMap.keys_after _ _

theorem toCome_congr (hkeys : t.gameWorld.playersList.keys = s.gameWorld.playersList.keys)
    (hcur : t.currentPlayerID = s.currentPlayerID) : t.toCome = s.toCome := by
  rw [toCome_eq, toCome_eq, hkeys, hcur]

theorem toCome_nodup (s : Server) : s.toCome.Nodup := by
  rw [toCome_eq]
  exact ((List.tail_sublist _).trans (List.dropWhile_sublist _)).nodup s.gameWorld.playersList.nodupKeys

theorem toCome_eq_nil_iff : s.toCome = [] ↔
    OrderedMap.after s.currentPlayerID s.gameWorld.playersList = [] :=
  List.map_eq_nil_iff

/-- Player `id` comes after the present one or has had its turn since `s₀`. -/
structure InRound (s₀ : Server) (id : UInt32) (s : Server) : Prop where
  steady : s.Steady
  current : s.currentPlayerID ∈ s.gameWorld.playersList
  listed : id ∈ s.gameWorld.playersList
  turns : s.turnsOf id = s₀.turnsOf id + if id ∈ s.toCome then 0 else 1

theorem inRound_of_makesAITurn {s₀ : Server} {e : Event} (hs : s₀.Steady)
    (hround : s₀.MakesAITurn e) (h : step s₀ e = some s) {id : UInt32}
    (hid : id ∈ s.gameWorld.playersList) : InRound s₀ id s := by
  cases e with
  | message n chance c msg =>
    obtain ⟨u, hu, -, hnil⟩ := hround.2.call
    obtain ⟨hstays, hc, hmem⟩ := turnEnd_stays hs _ hu
    have hcur : s₀.currentPlayerID ∈ s₀.gameWorld.playersList := hc ▸ hmem
    cases step_turnStep hs hcur (fun _ => Event.noConfusion) h with
    | stays hno => exact absurd hround hno
    | enters _ _ hno => exact absurd hround hno
    | @passes first hfollows hpassed hiff =>
      have hempty := toCome_eq_nil_iff.mpr (hiff.mp hround)
      have hfirst : s₀.gameWorld.playersList.keys.head? = some first := by
        unfold Follows at hfollows
        unfold toCome at hempty
        rw [hempty] at hfollows
        exact hfollows
      obtain ⟨rest, hkeys⟩ := List.head?_eq_some_iff.mp hfirst
      rw [← hpassed.keys] at hkeys
      have hcome : s.toCome = rest := by
        rw [toCome_eq, hkeys, hpassed.currentPlayerID]
        simp
      have hnodup : (first :: rest).Nodup := hkeys ▸ s.gameWorld.playersList.nodupKeys
      refine ⟨hpassed.steady, ?_, hid, ?_⟩
      · rw [hpassed.currentPlayerID, AList.mem_keys, hkeys]
        exact List.mem_cons_self
      · rw [hpassed.turns, hcome]
        rw [AList.mem_keys, hkeys] at hid
        rcases List.mem_cons.mp hid with rfl | hrest
        · rw [if_pos rfl, if_neg (List.nodup_cons.mp hnodup).1]
        · rw [if_pos hrest, if_neg]
          rintro rfl
          exact (List.nodup_cons.mp hnodup).1 hrest
  | accept | validated _ | close _ | shyCheck _ => exact hround.elim

theorem InRound.step {s₀ : Server} {id : UInt32} {e : Event} (hr : InRound s₀ id s)
    (hround : ¬ s.MakesAITurn e) (hplaces : s.KeepsPlaces e) (hopen : ∀ c, e ≠ .close c)
    (h : Server.step s e = some t) : InRound s₀ id t := by
  cases step_turnStep hr.steady hr.current hopen h with
  | stays _ hstays =>
    have hcome := toCome_congr hstays.keys hstays.currentPlayerID
    refine ⟨hstays.steady, ?_, hstays.mem_iff.mpr hr.listed, ?_⟩
    · rw [hstays.currentPlayerID]
      exact hstays.mem_iff.mpr hr.current
    · rw [hstays.turns, hcome]
      exact hr.turns
  | @enters n chance c msg p heq hp _ hturns hsteady hcur hkeys =>
    subst heq
    have hmem : ∀ a ∈ s.gameWorld.playersList, a ∈ t.gameWorld.playersList := by
      intro a ha
      rw [AList.mem_keys, hkeys, ← AList.mem_keys]
      exact OrderedMap.mem_insertOrAssign.mpr (Or.inr ha)
    have hcome : id ∈ t.toCome ↔ id ∈ s.toCome := by
      rw [toCome_eq, hkeys, hcur, ← OrderedMap.keys_after]
      exact hplaces p hp id hr.listed
    refine ⟨hsteady, ?_, hmem id hr.listed, ?_⟩
    · rw [hcur]
      exact hmem _ hr.current
    · rw [hturns, hr.turns]
      simp only [hcome]
  | @passes next hfollows hpassed hiff =>
    -- the next player is the first of those to come
    cases hafter : OrderedMap.after s.currentPlayerID s.gameWorld.playersList with
    | nil => exact absurd (hiff.mpr hafter) hround
    | cons e rest =>
      have hcome : s.toCome = e.1 :: rest.keys := by
        unfold toCome
        rw [hafter]
        rfl
      have hnext : e.1 = next := by
        unfold Follows at hfollows
        rw [hafter] at hfollows
        exact hfollows
      have hcome' : t.toCome = rest.keys := by
        rw [toCome_eq, hpassed.keys, hpassed.currentPlayerID, ← hnext, ← OrderedMap.keys_after,
          OrderedMap.after_after hr.current hafter]
      have hnodup := s.toCome_nodup
      rw [hcome] at hnodup
      have hmem : ∀ a, a ∈ t.gameWorld.playersList ↔ a ∈ s.gameWorld.playersList := fun a => by
        rw [AList.mem_keys, hpassed.keys, AList.mem_keys]
      refine ⟨hpassed.steady, ?_, (hmem id).mpr hr.listed, ?_⟩
      · rw [hpassed.currentPlayerID, ← hnext, hmem]
        refine OrderedMap.mem_of_mem_entries (OrderedMap.mem_of_mem_after (k := s.currentPlayerID) ?_)
        rw [hafter]
        exact List.mem_cons_self
      · rw [hpassed.turns, hr.turns, hcome, hcome', ← hnext]
        by_cases heq : id = e.1
        · subst heq
          rw [if_pos List.mem_cons_self, if_pos rfl, if_neg (List.nodup_cons.mp hnodup).1]
        · rw [if_neg heq]
          simp only [List.mem_cons, heq, false_or, Nat.add_zero]

/-- In a round, from one turn of the enemies to the next, every player has the turn once. -/
theorem round_robin {s₀ s₁ s₂ : Server} {e₁ e₂ : Event} {mid : List Event} (hs : s₀.Reachable)
    (hclosed : s₀.closed = []) (hclosing : s₀.closing = fun _ => [])
    (hopen : ∀ e ∈ mid, ∀ c, e ≠ .close c) (h₁ : step s₀ e₁ = some s₁)
    (hfirst : s₀.MakesAITurn e₁) (hmid : Machine.run step s₁ mid = some s₂)
    (hwithin : Machine.Along step (fun s e => ¬ s.MakesAITurn e) s₁ mid)
    (hlast : s₂.MakesAITurn e₂) (hplaces : Machine.Along step KeepsPlaces s₁ mid) {id : UInt32}
    (hid : id ∈ s₁.gameWorld.playersList) : s₂.turnsOf id = s₀.turnsOf id + 1 := by
  have hsteady : s₀.Steady := ⟨hs.idle.wellFormed, hs.idle.noNull, hclosed, hclosing⟩
  have hrun : ∀ (mid : List Event) (s : Server), InRound s₀ id s →
      (∀ e ∈ mid, ∀ c, e ≠ .close c) → Machine.run step s mid = some s₂ →
      Machine.Along step (fun s e => ¬ s.MakesAITurn e) s mid →
      Machine.Along step KeepsPlaces s mid → InRound s₀ id s₂ := by
    intro mid
    induction mid with
    | nil =>
      intro s hr _ hmid _ _
      cases hmid
      exact hr
    | cons e mid ih =>
      intro s hr hopen hmid hwithin hplaces
      obtain ⟨s', hs', hmid⟩ := Machine.run_cons_eq_some.mp hmid
      have hr' := hr.step hwithin.1 hplaces.1 (hopen e List.mem_cons_self) hs'
      exact ih s' hr' (fun e' he' => hopen e' (List.mem_cons_of_mem e he')) hmid
        (hwithin.2 s' hs') (hplaces.2 s' hs')
  have hend := hrun mid s₁ (inRound_of_makesAITurn hsteady hfirst h₁ hid) hopen hmid hwithin hplaces
  cases e₂ with
  | message n chance c msg =>
    obtain ⟨u, hu, -, hnil⟩ := hlast.2.call
    obtain ⟨hstays, rfl, -⟩ := turnEnd_stays hend.steady _ hu
    have hempty : s₂.toCome = [] :=
      toCome_eq_nil_iff.mpr (OrderedMap.after_eq_nil_of_keys hstays.keys.symm hnil)
    have hturns := hend.turns
    rw [hempty, if_neg List.not_mem_nil] at hturns
    exact hturns
  | accept | validated _ | close _ | shyCheck _ => exact hlast.elim

theorem step_open {e : Event} (hs : s.Idle) (hclosing : s.closing = fun _ => [])
    (hopen : ∀ c, e ≠ .close c) (h : step s e = some t) :
    t.closing = s.closing ∧ t.closed = s.closed := by
  have hcontinues : ∀ {u v : Server}, Continues u v → u.closing = s.closing → u.closed = s.closed →
      v.closing = s.closing ∧ v.closed = s.closed := fun hc hclosing' hclosed =>
    ⟨hc.closing.trans hclosing', (hc.still (hclosing'.trans hclosing)).trans hclosed⟩
  cases step_cases h with
  | accept _ =>
    exact ⟨rfl, rfl⟩
  | validated c _ =>
    exact ⟨rfl, rfl⟩
  | close c _ => exact absurd rfl (hopen c)
  | shyCheck n hok =>
    have hall := messageAllClients_spec (onClientDisconnect_spec n) hs.wellFormed t hok
    exact hcontinues hall.toContinues rfl rfl
  | message n chance c msg hc hok =>
    obtain ⟨u, -, hu, v, hbegan, hv, -⟩ := onMessage_cases hs hc hok
    obtain ⟨hclosingu, hclosedu⟩ := hcontinues hu.toContinues rfl rfl
    have hbegun : v.closing = u.closing ∧ v.closed = u.closed := by
      cases hbegan <;> exact ⟨rfl, rfl⟩
    exact hcontinues hv.toContinues (hbegun.1.trans hclosingu) (hbegun.2.trans hclosedu)

theorem run_open {mapRand enemyRand : Nat → Nat} {es : List Event}
    (h : Machine.run step (start mapRand enemyRand fun _ => []) es = some s)
    (hopen : ∀ e ∈ es, ∀ c, e ≠ .close c) : s.closed = [] ∧ s.closing = fun _ => [] := by
  suffices hinv : s.Idle ∧ s.closed = [] ∧ s.closing = fun _ => [] from hinv.2
  apply Machine.invariant_history
    (I := fun _ (s : Server) => s.Idle ∧ s.closed = [] ∧ s.closing = fun _ => [])
    (P := fun es => ∀ e ∈ es, ∀ c, e ≠ .close c) _ _
    ⟨start_idle mapRand enemyRand _, rfl, rfl⟩ hopen h
  · intro es e h e' he'
    exact h e' (List.mem_append_left _ he')
  · rintro es e s t hopen ⟨hidle, hclosed, hclosing⟩ hst
    obtain ⟨h1, h2⟩ := step_open hidle hclosing (hopen e (by simp)) hst
    exact ⟨step_idle hidle hst, h2.trans hclosed, h1.trans hclosing⟩

/-- Player `id` takes a step to the right. -/
def stepRight (id : UInt32) : Event :=
  .message 0 (.always 0) id (actionRequest ⟨EPlayerActionType.move.code, id, moveInfo 1 0⟩)

/-- What a round comes to for the players `ids`: whether both ends are turns of the enemies and
none is between them, whether they are listed, and their turns before and afterwards. -/
def roundOf (ids : List UInt32) (before : List Event) (e₁ : Event) (mid : List Event) (e₂ : Event) :
    Option (Bool × List Nat × List Nat) :=
  (Machine.run step (start (fun _ => 0) (fun _ => 0) fun _ => []) before).bind fun s₀ =>
    (step s₀ e₁).bind fun s₁ => (Machine.run step s₁ mid).map fun s₂ =>
      (decide (s₀.MakesAITurn e₁ ∧ Machine.Along step (fun s e => ¬ s.MakesAITurn e) s₁ mid ∧
        s₂.MakesAITurn e₂ ∧ ids ⊆ s₁.gameWorld.playersList.keys),
        ids.map s₀.turnsOf, ids.map s₂.turnsOf)

theorem roundOf_eq_some {ids : List UInt32} {before mid : List Event} {e₁ e₂ : Event} {k l : List Nat}
    (hopen : ∀ e ∈ before, ∀ c, e ≠ .close c) (h : roundOf ids before e₁ mid e₂ = some (true, k, l)) :
    ∃ s₀ s₁ s₂ : Server, s₀.Reachable ∧ s₀.closed = [] ∧ s₀.closing = (fun _ => []) ∧
      step s₀ e₁ = some s₁ ∧ s₀.MakesAITurn e₁ ∧ Machine.run step s₁ mid = some s₂ ∧
      Machine.Along step (fun s e => ¬ s.MakesAITurn e) s₁ mid ∧ s₂.MakesAITurn e₂ ∧
      ids ⊆ s₁.gameWorld.playersList.keys ∧ ids.map s₀.turnsOf = k ∧ ids.map s₂.turnsOf = l := by
  obtain ⟨s₀, h₀, h⟩ := Option.bind_eq_some_iff.mp h
  obtain ⟨s₁, h₁, h⟩ := Option.bind_eq_some_iff.mp h
  obtain ⟨s₂, h₂, h⟩ := Option.map_eq_some_iff.mp h
  obtain ⟨hall, h⟩ := Prod.mk.inj h
  obtain ⟨hfirst, hwithin, hlast, hid⟩ := of_decide_eq_true hall
  obtain ⟨hclosed, hclosing⟩ := run_open h₀ hopen
  obtain ⟨hk, hl⟩ := Prod.mk.inj h
  exact ⟨s₀, s₁, s₂, ⟨_, _, _, _, h₀⟩, hclosed, hclosing, h₁, hfirst, h₂, hwithin, hlast, hid, hk, hl⟩

theorem keepsPlaces_stepRight (s : Server) (id : UInt32) : s.KeepsPlaces (stepRight id) := by
  intro p hp
  have hid : ECustomMetaMSG.ofCode (actionRequest ⟨EPlayerActionType.move.code, id,
      moveInfo 1 0⟩).header.id = some .serverGamePlayerActionApprove := rfl
  exact nomatch hid.symm.trans hp.id

theorem along_keepsPlaces {es : List Event} (h : ∀ e ∈ es, ∃ id, e = stepRight id)
    (s : Server) : Machine.Along step KeepsPlaces s es := by
  induction es generalizing s with
  | nil => trivial
  | cons e es ih =>
    obtain ⟨id, rfl⟩ := h e List.mem_cons_self
    exact ⟨keepsPlaces_stepRight s id, fun s' _ =>
      ih (fun e' he' => h e' (List.mem_cons_of_mem _ he')) s'⟩

/-- A new entry at the front is not behind the present player. -/
theorem keepsPlaces_same (hcur : s.currentPlayerID ∈ s.gameWorld.playersList) (n r : Nat)
    (c : UInt32) (msg : Message) : s.KeepsPlaces (.message n (.always r) c msg) := by
  intro p _ id _
  by_cases hc : c ∈ s.gameWorld.playersList
  · have hkeys : (OrderedMap.insertOrAssign (Chance.always r).order c
        (p.registered (Chance.always r).rand c) s.gameWorld.playersList).keys =
        s.gameWorld.playersList.keys := by
      rw [OrderedMap.insertOrAssign, dif_pos hc, OrderedMap.keys_modify]
    rw [OrderedMap.keys_after, hkeys, ← OrderedMap.keys_after]
  · have hne : c ≠ s.currentPlayerID := by
      rintro rfl
      exact hc hcur
    rw [OrderedMap.insertOrAssign, dif_neg hc, OrderedMap.after, OrderedMap.after]
    simp only [Chance.always, Arrangement.same, id_eq, List.dropWhile_cons, hne, ne_eq,
      not_false_eq_true, decide_true, if_true]

def secondToCome : List Event :=
  [.accept, .accept, .accept, .message 0 (.always 5) 10000 (registerRequest Player.default),
    .message 0 (.always 10) 10001 (registerRequest Player.default), stepRight 10000,
    stepRight 10000, stepRight 10000]

theorem secondToCome_open : ∀ e ∈ secondToCome, ∀ c, e ≠ .close c := by
  simp [secondToCome, stepRight]

/-- A third player registers and comes first in the map; then the second and the first one have
their turns. -/
def thirdFirst : List Event :=
  .message 0 (.always 15) 10002 (registerRequest Player.default) ::
    (List.replicate 4 (stepRight 10001) ++ List.replicate 3 (stepRight 10000))

theorem round_robin_third : ∃ s₀ s₁ s₂ : Server, s₀.Reachable ∧
    step s₀ (stepRight 10000) = some s₁ ∧ s₀.MakesAITurn (stepRight 10000) ∧
    Machine.run step s₁ thirdFirst = some s₂ ∧ s₂.MakesAITurn (stepRight 10000) ∧
    s₂.turnsOf 10000 = s₀.turnsOf 10000 + 1 ∧ s₂.turnsOf 10001 = s₀.turnsOf 10001 + 1 := by
  have hround : roundOf [10000, 10001] secondToCome (stepRight 10000) thirdFirst
      (stepRight 10000) = some (true, [1, 0], [2, 1]) := by decide +kernel
  obtain ⟨s₀, s₁, s₂, hs, hclosed, hclosing, h₁, hfirst, h₂, hwithin, hlast, hids, -, -⟩ :=
    roundOf_eq_some secondToCome_open hround
  have hsteady : s₀.Steady := ⟨hs.idle.wellFormed, hs.idle.noNull, hclosed, hclosing⟩
  have hone : 10000 ∈ s₁.gameWorld.playersList := hids List.mem_cons_self
  have htwo : 10001 ∈ s₁.gameWorld.playersList :=
    hids (List.mem_cons_of_mem _ List.mem_cons_self)
  have hcur : s₁.currentPlayerID ∈ s₁.gameWorld.playersList :=
    (inRound_of_makesAITurn hsteady hfirst h₁ hone).current
  have hplaces : Machine.Along step KeepsPlaces s₁ thirdFirst := by
    refine ⟨keepsPlaces_same hcur 0 15 10002 _, fun s' _ => along_keepsPlaces (fun e he => ?_) s'⟩
    rcases List.mem_append.mp he with he | he
    · exact ⟨10001, List.eq_of_mem_replicate he⟩
    · exact ⟨10000, List.eq_of_mem_replicate he⟩
  have hopen : ∀ e ∈ thirdFirst, ∀ c, e ≠ .close c := by simp [thirdFirst, stepRight]
  exact ⟨s₀, s₁, s₂, hs, h₁, hfirst, h₂, hlast,
    round_robin hs hclosed hclosing hopen h₁ hfirst h₂ hwithin hlast hplaces hone,
    round_robin hs hclosed hclosing hopen h₁ hfirst h₂ hwithin hlast hplaces htwo⟩

/-- A third player registers and turns the order of the map around; then the second and the
third one have their turns. -/
def thirdEnters : List Event :=
  .message 0 ⟨fun _ => 15, ⟨List.reverse, List.reverse_perm⟩⟩ 10002
      (registerRequest Player.default) ::
    (List.replicate 4 (stepRight 10001) ++ List.replicate 3 (stepRight 10002))

/-- The first player has no turn in the round. -/
theorem round_skips : ∃ s₀ s₁ s₂ : Server, s₀.Reachable ∧ s₀.closed = [] ∧
    s₀.closing = (fun _ => []) ∧ (∀ e ∈ thirdEnters, ∀ c, e ≠ .close c) ∧
    step s₀ (stepRight 10000) = some s₁ ∧ s₀.MakesAITurn (stepRight 10000) ∧
    Machine.run step s₁ thirdEnters = some s₂ ∧
    Machine.Along step (fun s e => ¬ s.MakesAITurn e) s₁ thirdEnters ∧
    s₂.MakesAITurn (stepRight 10002) ∧ 10000 ∈ s₁.gameWorld.playersList ∧
    s₂.turnsOf 10000 ≠ s₀.turnsOf 10000 + 1 := by
  have hround : roundOf [10000] secondToCome (stepRight 10000) thirdEnters (stepRight 10002) =
      some (true, [1], [1]) := by decide +kernel
  obtain ⟨s₀, s₁, s₂, hs, hclosed, hclosing, h₁, hfirst, h₂, hwithin, hlast, hids, hk, hl⟩ :=
    roundOf_eq_some secondToCome_open hround
  refine ⟨s₀, s₁, s₂, hs, hclosed, hclosing, by simp [thirdEnters, stepRight], h₁, hfirst, h₂,
    hwithin, hlast, hids List.mem_cons_self, ?_⟩
  have hbefore : s₀.turnsOf 10000 = 1 := (List.cons.inj hk).1
  have hafter : s₂.turnsOf 10000 = 1 := (List.cons.inj hl).1
  rw [hbefore, hafter]
  decide

end Server

end AsciiTerra
