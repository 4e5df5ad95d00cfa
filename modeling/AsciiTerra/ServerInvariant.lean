import AsciiTerra.AITurnTermination
import AsciiTerra.ApprovedAction
import AsciiTerra.Server

/-!
# Invariants of the server

`WellFormed` holds whenever a handler may call `OnClientDisconnect`, so also in the middle
of a handler. What a disconnect does is stated once, for any hook that meets
`HookSpec`; the functions that call each other through the hook then have one lemma each.
-/

set_option autoImplicit false

namespace AsciiTerra

/-- Some entries became null. -/
def Blanked (l l' : List (Option UInt32)) : Prop := List.Forall₂ (fun a b => b = a ∨ b = none) l l'

theorem Blanked.refl (l : List (Option UInt32)) : Blanked l l :=
  List.forall₂_same.mpr fun _ _ => Or.inl rfl

theorem Blanked.set {l l' : List (Option UInt32)} (h : Blanked l l') (i : Nat) :
    Blanked l (l'.set i none) := by
  induction h generalizing i with
  | nil => exact .nil
  | cons hab htail ih =>
    cases i with
    | zero => exact .cons (Or.inr rfl) htail
    | succ i => exact .cons hab (ih i)

theorem Blanked.filter_sublist {l l' : List (Option UInt32)} (h : Blanked l l') :
    (l'.filter Option.isSome).Sublist l := by
  induction h with
  | nil => exact .slnil
  | @cons a b _ _ hab _ ih =>
    cases b with
    | none => exact ih.cons a
    | some c =>
      obtain rfl | hb := hab
      · exact ih.cons_cons (some c)
      · exact nomatch hb

theorem reduceOption_set_none (l : List (Option UInt32)) (i : Nat) :
    (l.set i none).reduceOption.Sublist l.reduceOption := by
  induction l generalizing i with
  | nil => exact .slnil
  | cons a l ih =>
    cases i with
    | zero => cases a <;> simp [List.reduceOption_cons_of_some, List.reduceOption_cons_of_none]
    | succ i =>
      cases a <;> simpa [List.reduceOption_cons_of_some, List.reduceOption_cons_of_none] using ih i

theorem reduceOption_filter_isSome (l : List (Option UInt32)) :
    (l.filter Option.isSome).reduceOption = l.reduceOption := by
  induction l with
  | nil => rfl
  | cons a l ih =>
    cases a <;> simp [List.reduceOption_cons_of_some, List.reduceOption_cons_of_none, ih]

theorem mem_set_none {l : List (Option UInt32)} {i : Nat} {c id : UInt32}
    (hi : l[i]? = some (some c)) (hne : id ≠ c) (h : some id ∈ l) : some id ∈ l.set i none := by
  obtain ⟨j, hj⟩ := List.mem_iff_getElem?.mp h
  refine List.mem_iff_getElem?.mpr ⟨j, ?_⟩
  rw [List.getElem?_set_ne, hj]
  rintro rfl
  rw [hi] at hj
  exact hne (Option.some.inj (Option.some.inj hj)).symm

namespace Server

/-- The IDs in `m_deqConnection`. -/
def ids (s : Server) : List UInt32 := s.deqConnection.reduceOption

theorem mem_ids {s : Server} {c : UInt32} : c ∈ s.ids ↔ some c ∈ s.deqConnection :=
  List.reduceOption_mem_iff

structure WellFormed (s : Server) : Prop where
  keysAreIDs : KeysAreIDs s.gameWorld.playersList
  fromTable : ∀ e ∈ s.gameWorld.enemyList, e.FromTable
  maxTurns : ∀ e ∈ s.gameWorld.playersList.entries, e.2.maxTurns = 4
  accepted : ∀ c ∈ s.ids, s.Accepted c
  present : ∀ id ∈ s.gameWorld.playersList, id ∈ s.ids
  current : s.currentPlayerID = 0 ∨ s.currentPlayerID ∈ s.gameWorld.playersList
  gone : ∀ c, s.Accepted c → c ∈ s.ids ∨ c ∈ s.closed
  distinct : s.ids.Nodup
  counter : 10000 ≤ s.nIDCounter ∧ s.nIDCounter < 2 ^ 32

namespace WellFormed
variable {s s' : Server}

theorem accepted_of_mem (h : s.WellFormed) {id : UInt32} (hid : id ∈ s.gameWorld.playersList) :
    s.Accepted id :=
  h.accepted id (h.present id hid)

theorem congr (h : s.WellFormed) (hids : s'.ids = s.ids) (hcounter : s'.nIDCounter = s.nIDCounter)
    (hworld : s'.gameWorld = s.gameWorld) (hcurrent : s'.currentPlayerID = s.currentPlayerID)
    (hclosed : s.closed ⊆ s'.closed) : s'.WellFormed where
  keysAreIDs := hworld ▸ h.keysAreIDs
  fromTable := hworld ▸ h.fromTable
  maxTurns := hworld ▸ h.maxTurns
  accepted c hc := by
    have := h.accepted c (hids ▸ hc)
    unfold Accepted at this ⊢
    rwa [hcounter]
  present := hworld ▸ hids ▸ h.present
  current := hworld ▸ hcurrent ▸ h.current
  gone c hc := by
    unfold Accepted at hc
    rw [hcounter] at hc
    rw [hids]
    exact (h.gone c hc).imp_right fun hmem => hclosed hmem
  distinct := hids ▸ h.distinct
  counter := hcounter ▸ h.counter

end WellFormed

theorem Accepted.ne_zero {s : Server} {c : UInt32} (h : s.Accepted c) : c ≠ 0 := by
  rintro rfl
  exact absurd h.1 (by decide)

/-- The turn is where it was. -/
structure TurnKept (s s' : Server) : Prop where
  currentPlayerID : s'.currentPlayerID = s.currentPlayerID
  record : s'.gameWorld.playersList.lookup s.currentPlayerID =
    s.gameWorld.playersList.lookup s.currentPlayerID
  trace : s'.trace = s.trace

/-- What `ChooseNextPlayerForTurn` logs. -/
def Passing (e : TurnEvent) : Prop :=
  e = .choosing ∨ ∃ player : Player, e = .turnGiven player ∧ player.maxTurns = 4

/-- If anything was logged, then first of all that the next player is chosen. -/
def NoAction (s s' : Server) : Prop :=
  s'.trace = s.trace ∨ ∃ es, s'.trace = es ++ .choosing :: s.trace ∧ ∀ e ∈ es, Passing e

/-- The holder of the turn was reset just now. -/
def TurnReset (s s' : Server) : Prop :=
  ∃ player : Player, s'.trace = .turnGiven player :: s.trace ∧
    s'.gameWorld.playersList.lookup s'.currentPlayerID = some player ∧
    player.currentTurns = 4 ∧ player.maxTurns = 4

/-- The turn was passed on, last of all to the present holder. -/
def TurnPassed (s s' : Server) : Prop :=
  ∃ (player : Player) (es : List TurnEvent),
    s'.trace = .turnGiven player :: (es ++ .choosing :: s.trace) ∧ (∀ e ∈ es, Passing e) ∧
    s'.gameWorld.playersList.lookup s'.currentPlayerID = some player ∧
    player.currentTurns = 4 ∧ player.maxTurns = 4

variable {s s' s'' : Server}

theorem TurnKept.refl (s : Server) : TurnKept s s := ⟨rfl, rfl, rfl⟩

theorem TurnKept.trans (h : TurnKept s s') (h' : TurnKept s' s'') : TurnKept s s'' where
  currentPlayerID := h'.currentPlayerID.trans h.currentPlayerID
  record := by
    have := h'.record
    rw [h.currentPlayerID] at this
    exact this.trans h.record
  trace := h'.trace.trans h.trace

theorem NoAction.refl (s : Server) : NoAction s s := Or.inl rfl

theorem NoAction.trans (h : NoAction s s') (h' : NoAction s' s'') : NoAction s s'' := by
  rcases h with h | ⟨es, h, hes⟩
  · unfold NoAction at h' ⊢
    rwa [h] at h'
  · rcases h' with h' | ⟨fs, h', hfs⟩
    · exact Or.inr ⟨es, h'.trans h, hes⟩
    · refine Or.inr ⟨fs ++ .choosing :: es, by rw [h', h]; simp, fun e he => ?_⟩
      rcases List.mem_append.mp he with he | he
      · exact hfs e he
      · rcases List.mem_cons.mp he with rfl | he
        · exact Or.inl rfl
        · exact hes e he

theorem TurnPassed.noAction (h : TurnPassed s s') : NoAction s s' := by
  obtain ⟨player, es, htrace, hes, _, _, hmax⟩ := h
  refine Or.inr ⟨.turnGiven player :: es, htrace, fun e he => ?_⟩
  rcases List.mem_cons.mp he with rfl | he
  · exact Or.inr ⟨player, rfl, hmax⟩
  · exact hes e he

theorem TurnPassed.of_reset (hlog : s'.trace = .choosing :: s.trace) {t : Server}
    (h : NoAction s' t) (h' : TurnReset t s'') : TurnPassed s s'' := by
  obtain ⟨player, htrace, hrest⟩ := h'
  rcases h with h | ⟨es, h, hes⟩
  · exact ⟨player, [], by rw [htrace, h, hlog]; rfl, by simp, hrest⟩
  · refine ⟨player, es ++ [.choosing], by rw [htrace, h, hlog]; simp, fun e he => ?_, hrest⟩
    rcases List.mem_append.mp he with he | he
    · exact hes e he
    · exact Or.inl (List.mem_singleton.mp he)

theorem TurnPassed.after (h : NoAction s s') (h' : TurnPassed s' s'') : TurnPassed s s'' := by
  rcases h with h | ⟨es, h, hes⟩
  · unfold TurnPassed at h' ⊢
    rwa [h] at h'
  · obtain ⟨player, fs, htrace, hfs, hrest⟩ := h'
    refine ⟨player, fs ++ .choosing :: es, by rw [htrace, h]; simp, fun e he => ?_, hrest⟩
    rcases List.mem_append.mp he with he | he
    · exact hfs e he
    · rcases List.mem_cons.mp he with rfl | he
      · exact Or.inl rfl
      · exact hes e he

theorem TurnPassed.kept (h : TurnPassed s s') (h' : TurnKept s' s'') : TurnPassed s s'' := by
  obtain ⟨player, es, htrace, hes, hrecord, hturns⟩ := h
  exact ⟨player, es, h'.trace.trans htrace, hes,
    by rw [h'.currentPlayerID, h'.record, hrecord], hturns⟩

theorem TurnPassed.mem (h : TurnPassed s s') : s'.currentPlayerID ∈ s'.gameWorld.playersList := by
  obtain ⟨player, _, _, _, hrecord, _⟩ := h
  exact OrderedMap.mem_iff_lookup.mpr ⟨player, hrecord⟩

/-- What a message may do to the turn. -/
def TurnMoved (s s' : Server) : Prop := TurnKept s s' ∨ TurnPassed s s'

theorem TurnMoved.refl (s : Server) : TurnMoved s s := Or.inl (.refl s)

theorem TurnMoved.noAction (h : TurnMoved s s') : NoAction s s' :=
  h.elim (fun h => Or.inl h.trace) TurnPassed.noAction

theorem TurnMoved.trans (h : TurnMoved s s') (h' : TurnMoved s' s'') : TurnMoved s s'' := by
  rcases h' with hkept | hpassed
  · rcases h with h | h
    · exact Or.inl (h.trans hkept)
    · exact Or.inr (h.kept hkept)
  · exact Or.inr (hpassed.after h.noAction)

/-- What every step inside a handler does, up to an action: players and connections only
leave. -/
structure Continues (s s' : Server) : Prop where
  wellFormed : s'.WellFormed
  nIDCounter : s'.nIDCounter = s.nIDCounter
  closing : s'.closing = s.closing
  map : s'.gameWorld.gameWorldMap = s.gameWorld.gameWorldMap
  closed : s.closed ⊆ s'.closed
  players : ∀ id ∈ s'.gameWorld.playersList, id ∈ s.gameWorld.playersList
  ids : s'.ids.Sublist s.ids
  still : s.closing = (fun _ => []) → s'.closed = s.closed

namespace Continues

theorem refl (h : s.WellFormed) : Continues s s where
  wellFormed := h
  nIDCounter := rfl
  closing := rfl
  map := rfl
  closed := List.Subset.refl _
  players _ hid := hid
  ids := List.Sublist.refl _
  still _ := rfl

theorem trans (h : Continues s s') (h' : Continues s' s'') : Continues s s'' where
  wellFormed := h'.wellFormed
  nIDCounter := h'.nIDCounter.trans h.nIDCounter
  closing := h'.closing.trans h.closing
  map := h'.map.trans h.map
  closed := List.Subset.trans h.closed h'.closed
  players id hid := h.players id (h'.players id hid)
  ids := h'.ids.trans h.ids
  still hstill := (h'.still (h.closing.trans hstill)).trans (h.still hstill)

theorem accepted (h : Continues s s') {c : UInt32} (hc : s.Accepted c) : s'.Accepted c := by
  unfold Accepted
  rw [h.nIDCounter]
  exact hc

theorem of_eq (h : s.WellFormed) (hids : s'.ids = s.ids) (hcounter : s'.nIDCounter = s.nIDCounter)
    (hclosing : s'.closing = s.closing) (hworld : s'.gameWorld = s.gameWorld)
    (hcurrent : s'.currentPlayerID = s.currentPlayerID) (hclosed : s'.closed = s.closed) :
    Continues s s' where
  wellFormed := h.congr hids hcounter hworld hcurrent (hclosed ▸ List.Subset.refl _)
  nIDCounter := hcounter
  closing := hclosing
  map := by rw [hworld]
  closed := hclosed ▸ List.Subset.refl _
  players _ hid := hworld ▸ hid
  ids := by rw [hids]
  still _ := hclosed

theorem tick (h : s.WellFormed) : Continues s s.tick :=
  ⟨h.congr rfl rfl rfl rfl (List.subset_append_right _ _), rfl, rfl, rfl,
    List.subset_append_right _ _, fun _ hid => hid, List.Sublist.refl _,
    fun hstill => by simp only [Server.tick, hstill, List.nil_append]⟩

theorem send (h : s.WellFormed) (c : UInt32) (msg : Message) : Continues s (s.send c msg) :=
  .of_eq h rfl rfl rfl rfl rfl rfl

theorem eraseNulls (h : s.WellFormed) : Continues s s.eraseNulls :=
  .of_eq h (reduceOption_filter_isSome _) rfl rfl rfl rfl rfl

theorem choosing (h : s.WellFormed) : Continues s (s.log .choosing) :=
  .of_eq h rfl rfl rfl rfl rfl rfl

theorem resetAt (h : s.WellFormed) {i : Nat} {c : UInt32} (hi : s.deqConnection[i]? = some (some c))
    (hclosed : c ∈ s.closed) (hplayer : c ∉ s.gameWorld.playersList) : Continues s (s.resetAt i) where
  wellFormed :=
    { keysAreIDs := h.keysAreIDs
      fromTable := h.fromTable
      maxTurns := h.maxTurns
      accepted := fun a ha => h.accepted a ((reduceOption_set_none _ i).subset ha)
      present := fun id hid => by
        have hne : id ≠ c := fun heq => hplayer (heq ▸ hid)
        exact mem_ids.mpr (mem_set_none hi hne (mem_ids.mp (h.present id hid)))
      current := h.current
      gone := fun a ha => by
        by_cases hac : a = c
        · exact Or.inr (hac ▸ hclosed)
        · exact (h.gone a ha).imp_left fun hmem =>
            mem_ids.mpr (mem_set_none hi hac (mem_ids.mp hmem))
      distinct := h.distinct.sublist (reduceOption_set_none _ i)
      counter := h.counter }
  nIDCounter := rfl
  closing := rfl
  map := rfl
  closed := List.Subset.refl _
  players _ hid := hid
  ids := reduceOption_set_none _ i
  still _ := rfl

theorem world (h : s.WellFormed) {w : GameWorld}
    (hplayers : OrderedMap.Related Player.SameOwner s.gameWorld.playersList w.playersList)
    (henemies : ∀ e ∈ w.enemyList, e.FromTable) (hmap : w.gameWorldMap = s.gameWorld.gameWorldMap) :
    Continues s { s with gameWorld := w } := by
  refine ⟨⟨?_, henemies, ?_, h.accepted, fun id hid => ?_, ?_, h.gone, h.distinct, h.counter⟩,
    rfl, rfl, hmap, List.Subset.refl _, fun id hid => hplayers.mem_iff.mp hid, List.Sublist.refl _, fun _ => rfl⟩
  · exact hplayers.forall_entries (P := fun k p => p.id = k)
      (fun k p p' hp hk => hp.id.trans hk) h.keysAreIDs
  · exact hplayers.forall_entries (P := fun _ p => p.maxTurns = 4)
      (fun k p p' hp hk => hp.maxTurns.trans hk) h.maxTurns
  · exact h.present id (hplayers.mem_iff.mp hid)
  · exact h.current.imp_right hplayers.mem_iff.mpr

theorem aiRelated (h : s.WellFormed) {w : GameWorld} (hw : s.gameWorld.AIRelated w) :
    Continues s { s with gameWorld := w } := by
  refine .world h ((hw.players h.keysAreIDs).imp fun _ _ hp => .of_hurt hp) ?_ hw.map
  exact hw.forall_enemies (fun _ _ => Enemy.Turned.fromTable) h.fromTable

theorem removeDeadEnemies (h : s.WellFormed) (dirt : Bool) :
    Continues s { s with gameWorld := AsciiTerra.removeDeadEnemies dirt s.gameWorld } := by
  unfold AsciiTerra.removeDeadEnemies
  split
  · refine ⟨⟨h.keysAreIDs, fun e he => h.fromTable e (List.mem_of_mem_filter he), h.maxTurns,
      h.accepted, h.present, h.current, h.gone, h.distinct, h.counter⟩, rfl, rfl, rfl,
      List.Subset.refl _, fun _ hid => hid, List.Sublist.refl _, fun _ => rfl⟩
  · exact .refl h

theorem giveTo (h : s.WellFormed) {id : UInt32} (hid : id ∈ s.gameWorld.playersList) :
    Continues s { s with currentPlayerID := id } :=
  ⟨⟨h.keysAreIDs, h.fromTable, h.maxTurns, h.accepted, h.present, Or.inr hid, h.gone, h.distinct,
    h.counter⟩, rfl, rfl, rfl, List.Subset.refl _, fun _ hid => hid, List.Sublist.refl _, fun _ => rfl⟩

theorem removePlayer (h : s.WellFormed) {c : UInt32} (hc : c ≠ s.currentPlayerID) :
    Continues s (s.removePlayer c) := by
  have hmem : ∀ id, id ∈ (s.gameWorld.playersList.erase c) → id ∈ s.gameWorld.playersList :=
    fun id hid => (AList.mem_erase.mp hid).2
  have hentries : ∀ e ∈ (s.gameWorld.playersList.erase c).entries,
      e ∈ s.gameWorld.playersList.entries := fun e he => (List.kerase_sublist _ _).subset he
  refine ⟨⟨fun e he => h.keysAreIDs e (hentries e he), h.fromTable,
    fun e he => h.maxTurns e (hentries e he), h.accepted, fun id hid => h.present id (hmem id hid),
    h.current.imp_right fun hcur => ?_, h.gone, h.distinct, h.counter⟩,
    rfl, rfl, rfl, List.Subset.refl _, hmem, List.Sublist.refl _, fun _ => rfl⟩
  exact AList.mem_erase.mpr ⟨hc.symm, hcur⟩

end Continues

theorem TurnKept.of_eq (hcurrent : s'.currentPlayerID = s.currentPlayerID)
    (hworld : s'.gameWorld = s.gameWorld) (htrace : s'.trace = s.trace) : TurnKept s s' :=
  ⟨hcurrent, by rw [hworld], htrace⟩

theorem TurnMoved.of_eq (hcurrent : s'.currentPlayerID = s.currentPlayerID)
    (hworld : s'.gameWorld = s.gameWorld) (htrace : s'.trace = s.trace) : TurnMoved s s' :=
  Or.inl (.of_eq hcurrent hworld htrace)

theorem TurnMoved.tick (s : Server) : TurnMoved s s.tick := .of_eq rfl rfl rfl

/-- What a message does when a hook handles the clients it cannot reach. -/
structure Messaged (s s' : Server) : Prop extends Continues s s' where
  deqConnection : s'.deqConnection.Sublist s.deqConnection
  turn : TurnMoved s s'

/-- What `OnClientDisconnect` does for client `c`. -/
structure Disconnected (c : UInt32) (s s' : Server) : Prop extends Continues s s' where
  deqConnection : s'.deqConnection.Sublist s.deqConnection
  left : c ∉ s'.gameWorld.playersList
  kept : c ≠ s.currentPlayerID → TurnKept s s'
  passed : c = s.currentPlayerID → TurnPassed s s' ∧ s'.currentPlayerID ∉ s.closed

theorem Disconnected.turn {c : UInt32} (h : Disconnected c s s') : TurnMoved s s' := by
  by_cases hc : c = s.currentPlayerID
  · exact Or.inr (h.passed hc).1
  · exact Or.inl (h.kept hc)

theorem Messaged.refl (h : s.WellFormed) : Messaged s s := ⟨.refl h, .refl _, .refl s⟩

theorem Messaged.trans (h : Messaged s s') (h' : Messaged s' s'') : Messaged s s'' :=
  ⟨h.toContinues.trans h'.toContinues, h'.deqConnection.trans h.deqConnection, h.turn.trans h'.turn⟩

open Outcome (Post)

/-- What the callers of `OnClientDisconnect` rely on. -/
structure HookSpec (hook : Option UInt32 → Server → Outcome Fault Server) : Prop where
  null : ∀ s s', hook none s ≠ .ok s'
  disconnected : ∀ c s, s.WellFormed → s.Accepted c → c ∈ s.closed →
    Post (Disconnected c s) (hook (some c) s)

theorem tick_of_connected {c : UInt32} : connected (some c) s = (!s.tick.closed.contains c, s.tick) :=
  rfl

section Hook
variable {hook : Option UInt32 → Server → Outcome Fault Server} (hh : HookSpec hook)
include hh

theorem messageClient_cases {c : UInt32} {msg : Message} (h : s.WellFormed) (hc : s.Accepted c)
    (hok : messageClient hook (some c) msg s = .ok s') :
    (c ∉ s.tick.closed ∧ s' = s.tick.send c msg) ∨
    (c ∈ s.tick.closed ∧ ∃ t, hook (some c) s.tick = .ok t ∧ Disconnected c s.tick t ∧
      s' = t.eraseNulls) := by
  unfold messageClient at hok
  rw [tick_of_connected] at hok
  by_cases hup : c ∈ s.tick.closed
  · simp only [List.contains_iff_mem.mpr hup, Bool.not_true] at hok
    obtain ⟨t, ht, hs'⟩ := Outcome.bind_eq_ok.mp hok
    cases hs'
    exact Or.inr ⟨hup, t, ht, hh.disconnected c _ (Continues.tick h).wellFormed hc hup t ht, rfl⟩
  · have hcontains : s.tick.closed.contains c = false := by simpa using hup
    simp only [hcontains, Bool.not_false] at hok
    cases hok
    exact Or.inl ⟨hup, rfl⟩

theorem messageClient_spec {c : UInt32} {msg : Message} (h : s.WellFormed) (hc : s.Accepted c) :
    Post (Messaged s) (messageClient hook (some c) msg s) := by
  intro s' hok
  have htick := Continues.tick h
  rcases messageClient_cases hh h hc hok with ⟨_, rfl⟩ | ⟨_, t, _, ht, rfl⟩
  · exact ⟨htick.trans (.send htick.wellFormed c msg), .refl _, .of_eq rfl rfl rfl⟩
  · refine ⟨(htick.trans ht.toContinues).trans (.eraseNulls ht.wellFormed),
      List.filter_sublist.trans ht.deqConnection, ?_⟩
    exact (TurnMoved.tick s).trans (ht.turn.trans (.of_eq rfl rfl rfl))

/-- The loop of `MessageAllClients`: entries become null, and the flag says so. -/
structure Looped (s : Server) (st : Server × Bool) : Prop extends Continues s st.1 where
  blanked : Blanked s.deqConnection st.1.deqConnection
  flag : st.2 = false → st.1.deqConnection = s.deqConnection
  turn : TurnMoved s st.1

theorem messageEntry_spec {msg : Message} {ignore : Option UInt32} {st : Server × Bool} {i : Nat}
    (h : Looped s st) : Post (Looped s) (messageEntry hook msg ignore st i) := by
  have htick := Continues.tick h.wellFormed
  unfold messageEntry
  split
  · exact Post.of_fault
  · rename_i client hclient
    cases client with
    | none =>
      rintro st' hok
      obtain ⟨t, ht, _⟩ := Outcome.bind_eq_ok.mp hok
      exact absurd ht (hh.null _ t)
    | some c =>
      rw [tick_of_connected]
      by_cases hup : c ∈ st.1.tick.closed
      · simp only [List.contains_iff_mem.mpr hup, Bool.not_true]
        have hc : st.1.Accepted c :=
          h.wellFormed.accepted c (mem_ids.mpr (List.mem_of_getElem? hclient))
        refine Post.bind (hh.disconnected c _ htick.wellFormed hc hup) fun t ht => ?_
        split
        · rename_i hlength
          have hdeq : t.deqConnection = st.1.deqConnection := ht.deqConnection.eq_of_length hlength
          have hreset := Continues.resetAt ht.wellFormed (i := i) (c := c)
            (by rw [hdeq]; exact hclient) (ht.closed hup) ht.left
          have hturn := h.turn.trans ((TurnMoved.tick st.1).trans ht.turn)
          refine Post.of_ok ⟨((h.toContinues.trans htick).trans ht.toContinues).trans hreset, ?_,
            (fun hflag => nomatch hflag), hturn.trans (.of_eq rfl rfl rfl)⟩
          have hblanked := h.blanked.set i
          rwa [← hdeq] at hblanked
        · exact Post.of_fault
      · have hcontains : st.1.tick.closed.contains c = false := by simpa using hup
        simp only [hcontains, Bool.not_false]
        refine Post.of_ok ?_
        split
        · exact ⟨(h.toContinues.trans htick).trans (.send htick.wellFormed c msg), h.blanked, h.flag,
            h.turn.trans (.of_eq rfl rfl rfl)⟩
        · exact ⟨h.toContinues.trans htick, h.blanked, h.flag, h.turn.trans (.of_eq rfl rfl rfl)⟩

theorem messageAllClients_spec {msg : Message} {ignore : Option UInt32} (h : s.WellFormed) :
    Post (Messaged s) (messageAllClients hook msg ignore s) := by
  have hstart : Looped s (s, false) := ⟨.refl h, .refl _, fun _ => rfl, .refl s⟩
  refine Post.bind (Post.foldlM hstart fun st i _ => messageEntry_spec hh) fun st hst => ?_
  refine Post.of_ok ?_
  split
  · exact ⟨hst.toContinues.trans (.eraseNulls hst.wellFormed), hst.blanked.filter_sublist,
      hst.turn.trans (.of_eq rfl rfl rfl)⟩
  · rename_i hflag
    exact ⟨hst.toContinues, by rw [hst.flag (by simpa using hflag)], hst.turn⟩

end Hook

theorem findConnection_eq_some {deq : List (Option UInt32)} {id c : UInt32}
    (h : findConnection deq id = .ok (some c)) : c = id := by
  induction deq with
  | nil => exact nomatch h
  | cons a deq ih =>
    cases a with
    | none => exact nomatch h
    | some a =>
      unfold findConnection at h
      split at h
      · rename_i ha
        cases h
        exact ha
      · exact ih h

theorem not_mem_of_findConnection {deq : List (Option UInt32)} {id : UInt32}
    (h : findConnection deq id = .ok none) : some id ∉ deq := by
  induction deq with
  | nil => exact List.not_mem_nil
  | cons a deq ih =>
    cases a with
    | none => exact nomatch h
    | some a =>
      unfold findConnection at h
      split at h
      · exact nomatch h
      · rename_i ha
        intro hmem
        rcases List.mem_cons.mp hmem with heq | hmem
        · exact ha (Option.some.inj heq).symm
        · exact ih h hmem

theorem setCurrentTurnActions_max (p : Player) :
    p.setCurrentTurnActions p.getMaxTurnActions = .ok { p with currentTurns := p.maxTurns } := by
  have hlt := p.maxTurns.isLt
  have hnat := p.getMaxTurnActions_toNat
  have hle : p.getMaxTurnActions ≤ 16 := UInt32.le_iff_toNat_le.mpr (hnat ▸ hlt.le)
  unfold Player.setCurrentTurnActions
  rw [if_pos hle, hnat]
  simp

theorem resetTurn_eq_ok : s.resetTurn = .ok s' ↔
    ∃ p, s.gameWorld.playersList.lookup s.currentPlayerID = some p ∧
      s' = ({ s with
        gameWorld := s.gameWorld.modifyPlayer s.currentPlayerID
          fun _ => { p with currentTurns := p.maxTurns } }).log
        (.turnGiven { p with currentTurns := p.maxTurns }) := by
  unfold resetTurn
  cases hp : s.gameWorld.playersList.lookup s.currentPlayerID with
  | none => simp
  | some p =>
    simp only [setCurrentTurnActions_max, Outcome.ofExcept_ok, Outcome.ok_bind, Option.some.injEq,
      exists_eq_left', Outcome.ok.injEq]
    exact eq_comm

theorem resetTurn_sameOwner {id : UInt32} {p : Player} {w : GameWorld}
    (hp : w.playersList.lookup id = some p) : OrderedMap.Related Player.SameOwner w.playersList
      (w.modifyPlayer id fun _ => { p with currentTurns := p.maxTurns }).playersList := by
  refine .modify Player.SameOwner.refl fun q hq => ?_
  cases hp.symm.trans hq
  exact ⟨rfl, rfl⟩

theorem resetTurn_spec (h : s.WellFormed) : Post (fun s' => Continues s s' ∧
    s'.deqConnection = s.deqConnection ∧ s'.currentPlayerID = s.currentPlayerID ∧ TurnReset s s')
    s.resetTurn := by
  intro s' hok
  obtain ⟨player, hplayer, rfl⟩ := resetTurn_eq_ok.mp hok
  have hworld := Continues.world h (resetTurn_sameOwner hplayer) h.fromTable rfl
  have hmax : player.maxTurns = 4 := h.maxTurns _ (OrderedMap.mem_entries_of_lookup hplayer)
  refine ⟨hworld.trans (.of_eq hworld.wellFormed rfl rfl rfl rfl rfl rfl), rfl, rfl, _, rfl, ?_, hmax,
    hmax⟩
  simp [log, hplayer]

section Hook
variable {hook : Option UInt32 → Server → Outcome Fault Server} (hh : HookSpec hook)
include hh

theorem makeAITurn_spec (h : s.WellFormed) :
    Post (fun s' => Continues s s' ∧ s'.deqConnection.Sublist s.deqConnection ∧ NoAction s s')
      (s.makeAITurn hook) := by
  intro s' hok
  obtain ⟨st, hst, hok⟩ := Outcome.bind_eq_ok.mp hok
  obtain ⟨t, ht, hok⟩ := Outcome.bind_eq_ok.mp hok
  cases hok
  have harmed : s.gameWorld.AllArmed := fun e he => (h.fromTable e he).armed
  have hworld := Continues.aiRelated h (aiTurn_aiRelated harmed hst)
  have hloop : Messaged { s with gameWorld := st.world } t :=
    Post.foldlM (Messaged.refl hworld.wellFormed)
      (fun t' action _ ht' => (messageAllClients_spec hh ht'.wellFormed).mono fun _ => ht'.trans) t ht
  exact ⟨(hworld.trans hloop.toContinues).trans (.removeDeadEnemies hloop.wellFormed _),
    hloop.deqConnection, hloop.turn.noAction⟩

theorem sendTurn_spec (h : s.WellFormed) (hcur : s.currentPlayerID ∈ s.gameWorld.playersList) :
    Post (fun s' => Messaged s s' ∧ s'.currentPlayerID ∉ s.closed) (s.sendTurn hook) := by
  unfold sendTurn
  split
  · exact Post.of_fault
  · rename_i hfind
    exact absurd (mem_ids.mp (h.present _ hcur)) (not_mem_of_findConnection hfind)
  · rename_i c hfind
    have hc := findConnection_eq_some hfind
    intro s' hok
    have hacc : s.Accepted c := hc ▸ h.accepted_of_mem hcur
    refine ⟨messageClient_spec hh h hacc s' hok, fun hclosed => ?_⟩
    have htick := (Continues.tick h).closed
    rcases messageClient_cases hh h hacc hok with ⟨hup, rfl⟩ | ⟨_, t, _, ht, rfl⟩
    · exact hup (htick (hc ▸ hclosed))
    · exact (ht.passed hc).2 (htick hclosed)

theorem startTurn_spec (h : s.WellFormed) (hcur : s.currentPlayerID ∈ s.gameWorld.playersList) :
    Post (fun s' => Continues s s' ∧ s'.deqConnection.Sublist s.deqConnection ∧
      (∃ t, NoAction s t ∧ TurnReset t s') ∧ s'.currentPlayerID ∉ s.closed)
      (s.startTurn hook) := by
  refine Post.bind (sendTurn_spec hh h hcur) fun t ⟨ht, hclosed⟩ => ?_
  refine (resetTurn_spec ht.wellFormed).mono fun s' ⟨hs', hdeq, hsame, hreset⟩ => ?_
  exact ⟨ht.toContinues.trans hs', hdeq ▸ ht.deqConnection, ⟨t, ht.turn.noAction, hreset⟩,
    hsame ▸ hclosed⟩

omit hh in
theorem giveToFirst_spec (h : s.WellFormed) : Post (fun s' => Continues s s' ∧
    s'.deqConnection = s.deqConnection ∧ s'.trace = s.trace ∧
    s'.currentPlayerID ∈ s'.gameWorld.playersList) s.giveToFirst := by
  unfold giveToFirst
  split
  · exact Post.of_fault
  · rename_i first rest hentries
    have hfirst : first ∈ s.gameWorld.playersList.entries := by simp [hentries]
    have hmem : first.2.id ∈ s.gameWorld.playersList := by
      rw [h.keysAreIDs first hfirst]
      exact OrderedMap.mem_of_mem_entries hfirst
    exact Post.of_ok ⟨.giveTo h hmem, rfl, rfl, hmem⟩

theorem passTurn_spec (h : s.WellFormed) (client : Option UInt32) : Post (fun s' => Continues s s' ∧
    s'.deqConnection.Sublist s.deqConnection ∧ NoAction s s' ∧
    s'.currentPlayerID ∈ s'.gameWorld.playersList) (s.passTurn hook client) := by
  unfold passTurn
  split
  · refine (giveToFirst_spec h).mono fun s' ⟨hs', hdeq, htrace, hcur⟩ => ?_
    exact ⟨hs', by rw [hdeq], Or.inl htrace, hcur⟩
  · rename_i c
    split
    · split
      · rename_i next rest hafter
        have hnext : next ∈ s.gameWorld.playersList.entries :=
          OrderedMap.mem_of_mem_after (k := c) (by simp [hafter])
        have hmem : next.2.id ∈ s.gameWorld.playersList := by
          rw [h.keysAreIDs next hnext]
          exact OrderedMap.mem_of_mem_entries hnext
        exact Post.of_ok ⟨.giveTo h hmem, .refl _, .refl _, hmem⟩
      · refine Post.bind (makeAITurn_spec hh h) fun t ⟨ht, hdeq, hno⟩ => ?_
        refine (giveToFirst_spec ht.wellFormed).mono fun s' ⟨hs', hdeq', htrace, hcur⟩ => ?_
        exact ⟨ht.trans hs', hdeq' ▸ hdeq, hno.trans (Or.inl htrace), hcur⟩
    · exact Post.of_fault

theorem chooseNextPlayerForTurn_spec (h : s.WellFormed) (client : Option UInt32) :
    Post (fun s' => Continues s s' ∧ s'.deqConnection.Sublist s.deqConnection ∧
      (s.gameWorld.playersList.entries ≠ [] → TurnPassed s s' ∧ s'.currentPlayerID ∉ s.closed) ∧
      (s.gameWorld.playersList.entries = [] → s' = s.log .choosing))
      (s.chooseNextPlayerForTurn hook client) := by
  have hlog := Continues.choosing h
  unfold chooseNextPlayerForTurn
  simp only
  split
  · rename_i hempty
    have hnil : s.gameWorld.playersList.entries = [] := List.isEmpty_iff.mp hempty
    exact Post.of_ok ⟨hlog, .refl _, fun hne => absurd hnil hne, fun _ => rfl⟩
  · rename_i hempty
    have hne : s.gameWorld.playersList.entries ≠ [] := fun hnil =>
      hempty (List.isEmpty_iff.mpr hnil)
    refine Post.bind (passTurn_spec hh hlog.wellFormed client) fun t ⟨ht, hdeq, hno, hcur⟩ => ?_
    refine (startTurn_spec hh ht.wellFormed hcur).mono fun s' ⟨hs', hdeq', hreset, hclosed⟩ => ?_
    obtain ⟨t', hno', hreset⟩ := hreset
    have hbefore := hlog.trans ht
    refine ⟨hbefore.trans hs', hdeq'.trans hdeq, fun _ => ⟨.of_reset rfl (hno.trans hno') hreset, ?_⟩,
      fun hnil => absurd hnil hne⟩
    exact fun hmem => hclosed (hbefore.closed hmem)

end Hook

theorem onClientDisconnect_of_not_mem {n : Nat} {c : UInt32} (h : c ∉ s.gameWorld.playersList) :
    onClientDisconnect (n + 1) (some c) s = .ok s := by
  unfold onClientDisconnect
  rw [if_neg h]

theorem onClientDisconnect_of_ne {n : Nat} {c : UInt32} (h : c ∈ s.gameWorld.playersList)
    (hne : c ≠ s.currentPlayerID) : onClientDisconnect (n + 1) (some c) s = .ok (s.removePlayer c) := by
  unfold onClientDisconnect
  rw [if_pos h, if_neg hne, Outcome.ok_bind]

theorem onClientDisconnect_spec (n : Nat) : HookSpec (onClientDisconnect n) := by
  induction n with
  | zero => exact ⟨fun _ _ h => (nomatch h), fun _ _ _ _ _ => Post.of_deep⟩
  | succ n ih =>
    refine ⟨fun _ _ h => (nomatch h), fun c s h hc hclosed => ?_⟩
    unfold onClientDisconnect
    split
    · rename_i hplayer
      have hne : s.gameWorld.playersList.entries ≠ [] := by
        obtain ⟨v, hv⟩ := OrderedMap.mem_iff_lookup.mp hplayer
        exact List.ne_nil_of_mem (OrderedMap.mem_entries_of_lookup hv)
      split
      · rename_i hcur
        refine Post.bind (chooseNextPlayerForTurn_spec ih h (some c)) fun t ⟨ht, hdeq, hnext, _⟩ => ?_
        obtain ⟨hpassed, hconn⟩ := hnext hne
        have hother : c ≠ t.currentPlayerID := fun heq => hconn (heq ▸ hclosed)
        refine Post.of_ok ⟨ht.trans (.removePlayer ht.wellFormed hother), hdeq, ?_,
          fun hc' => absurd hcur hc', fun _ => ⟨hpassed.kept ⟨rfl, ?_, rfl⟩, hconn⟩⟩
        · exact fun hmem => (AList.mem_erase.mp hmem).1 rfl
        · exact AList.lookup_erase_ne hother.symm
      · rename_i hcur
        refine Post.of_ok ⟨.removePlayer h hcur, .refl _, fun hmem => (AList.mem_erase.mp hmem).1 rfl,
          fun _ => ⟨rfl, AList.lookup_erase_ne (Ne.symm hcur), rfl⟩, fun hc' => absurd hc' hcur⟩
    · rename_i hplayer
      refine Post.of_ok ⟨.refl h, .refl _, hplayer, fun _ => .refl s, fun hcur => ?_⟩
      rcases h.current with h0 | hmem
      · exact absurd (hcur.trans h0) hc.ne_zero
      · exact absurd (hcur ▸ hmem) hplayer

end Server

end AsciiTerra
