import AsciiTerra.StillSockets

/-!
# When disconnect handling ends

A player that is removed passes the turn on before it is erased, and the next player may be
gone too. When the whole chain of players is gone the last one comes back to itself, either
by the first player or by the broadcast of the enemies' actions, and only the enemies have
moved in between. The sockets are fixed while a handler runs.
-/

set_option autoImplicit false

namespace AsciiTerra

theorem GameWorld.after_without {gone : List UInt32} {id : UInt32} {w : GameWorld}
    (hgone : id ∉ gone) (hmem : id ∈ w.playersList)
    (hlast : OrderedMap.after id w.playersList = []) :
    OrderedMap.after id (w.without gone).playersList = [] := by
  unfold without
  generalize w.playersList = players at hmem hlast
  induction gone generalizing players with
  | nil => exact hlast
  | cons c gone ih =>
    obtain ⟨hne, hgone⟩ := not_or.mp fun hor => hgone (List.mem_cons.mpr hor)
    apply ih hgone
    · exact AList.mem_erase.mpr ⟨hne, hmem⟩
    · exact OrderedMap.after_erase_eq_nil hmem hne hlast

@[simp] theorem removeDeadEnemies_playersList (dirt : Bool) (w : GameWorld) :
    (removeDeadEnemies dirt w).playersList = w.playersList := by
  unfold removeDeadEnemies
  split
  · rfl
  · rfl

/-- The world after a turn of enemies that made no action. -/
def AITurn.quietWorld (st : AITurn) : GameWorld := removeDeadEnemies st.enemyListDirt st.world

namespace Server
variable {s t : Server}

open Outcome (Post)

/-- A player holds the turn while nothing but the recursion goes on. -/
structure Fixed (s : Server) : Prop where
  wellFormed : s.WellFormed
  still : s.Still
  noNull : none ∉ s.deqConnection
  current : s.currentPlayerID ∈ s.gameWorld.playersList

/-- The server that tells the next player about its turn. -/
def turnTo (id : UInt32) (s : Server) : Server :=
  ({ s.log .choosing with currentPlayerID := id }).tick

theorem turnTo_fixed {id : UInt32} (h : s.Fixed) (hid : id ∈ s.gameWorld.playersList) :
    (s.turnTo id).Fixed := by
  have hlog := (Continues.choosing h.wellFormed).wellFormed
  have hgiven := (Continues.giveTo hlog hid).wellFormed
  exact ⟨(Continues.tick hgiven).wellFormed, h.still, h.noNull, hid⟩

theorem turnTo_closed {id : UInt32} (h : s.Still) : (s.turnTo id).closed = s.closed := by
  unfold Still at h
  simp only [turnTo, Server.tick, log, h, List.nil_append]

theorem startTurn_turnTo {n : Nat} {id : UInt32} (h : s.Fixed)
    (hid : id ∈ s.gameWorld.playersList) :
    ({ s.log .choosing with currentPlayerID := id }).startTurn (onClientDisconnect n) = .deep ↔
      id ∈ s.closed ∧ (s.turnTo id).Deep n := by
  have hlog := (Continues.choosing h.wellFormed).wellFormed
  exact startTurn_deep_iff h.still (Continues.giveTo hlog hid).wellFormed h.noNull hid

theorem Fixed.id_eq (h : s.Fixed) {e : OrderedMap.Entry UInt32 Player}
    (he : e ∈ s.gameWorld.playersList.entries) : e.2.id = e.1 ∧ e.1 ∈ s.gameWorld.playersList :=
  ⟨h.wellFormed.keysAreIDs e he, OrderedMap.mem_of_mem_entries he⟩

theorem deep_next {n : Nat} {next : OrderedMap.Entry UInt32 Player}
    {rest : List (OrderedMap.Entry UInt32 Player)} (h : s.Fixed)
    (hafter : OrderedMap.after s.currentPlayerID s.gameWorld.playersList = next :: rest) :
    next.1 ∈ s.gameWorld.playersList ∧
    (s.Deep (n + 1) ↔ next.1 ∈ s.closed ∧ (s.turnTo next.1).Deep n) := by
  have hnext : next ∈ s.gameWorld.playersList.entries := by
    apply OrderedMap.mem_of_mem_after (k := s.currentPlayerID)
    rw [hafter]
    exact List.mem_cons_self
  obtain ⟨hid, hmem⟩ := h.id_eq hnext
  refine ⟨hmem, ?_⟩
  rw [deep_iff h.current]
  have hpass : (s.log .choosing).passTurn (onClientDisconnect n) (some s.currentPlayerID) =
      .ok { s.log .choosing with currentPlayerID := next.1 } := by
    unfold passTurn
    simp only [log, if_pos h.current, hafter, hid]
  rw [hpass, Outcome.ok_bind]
  exact startTurn_turnTo h hmem

theorem aiTurn_related (h : s.WellFormed) {st : AITurn} (hst : aiTurn s.gameWorld = .ok st) :
    s.gameWorld.AIRelated st.world ∧ st.world.playersList.keys = s.gameWorld.playersList.keys := by
  have harmed : s.gameWorld.AllArmed := fun e he => (h.fromTable e he).armed
  have hrelated := aiTurn_aiRelated harmed hst
  exact ⟨hrelated, (hrelated.players h.keysAreIDs).keys_eq⟩

theorem Fixed.setWorld (h : s.Fixed) {w : GameWorld} (hw : Continues s { s with gameWorld := w })
    (hkeys : w.playersList.keys = s.gameWorld.playersList.keys) :
    Fixed { s with gameWorld := w } := by
  refine ⟨hw.wellFormed, h.still, h.noNull, ?_⟩
  have hcur := h.current
  rw [AList.mem_keys] at hcur ⊢
  rwa [hkeys]

theorem Fixed.quiet (h : s.Fixed) {st : AITurn} (hst : aiTurn s.gameWorld = .ok st) :
    Fixed { s with gameWorld := st.quietWorld } ∧
      st.quietWorld.playersList.keys = s.gameWorld.playersList.keys := by
  obtain ⟨hrelated, hkeys⟩ := aiTurn_related h.wellFormed hst
  have hsame : st.quietWorld.playersList.keys = s.gameWorld.playersList.keys := by
    rw [AITurn.quietWorld, removeDeadEnemies_playersList, hkeys]
  have hworld := Continues.aiRelated h.wellFormed hrelated
  exact ⟨h.setWorld (hworld.trans (.removeDeadEnemies hworld.wellFormed _)) hsame, hsame⟩

theorem deep_quiet {n : Nat} {st : AITurn} (h : s.Fixed)
    (hafter : OrderedMap.after s.currentPlayerID s.gameWorld.playersList = [])
    (hst : aiTurn s.gameWorld = .ok st) (hquiet : st.enemyActions = [])
    {first : OrderedMap.Entry UInt32 Player} {rest : List (OrderedMap.Entry UInt32 Player)}
    (hfirst : st.quietWorld.playersList.entries = first :: rest) :
    first.1 ∈ st.quietWorld.playersList ∧ (s.Deep (n + 1) ↔
      first.1 ∈ s.closed ∧ (turnTo first.1 { s with gameWorld := st.quietWorld }).Deep n) := by
  obtain ⟨hfixed, _⟩ := h.quiet hst
  have hmem : first ∈ st.quietWorld.playersList.entries := by
    rw [hfirst]
    exact List.mem_cons_self
  obtain ⟨hid, hplayer⟩ := hfixed.id_eq hmem
  refine ⟨hplayer, ?_⟩
  rw [deep_last h.current hafter]
  have hgive : ((s.log .choosing).makeAITurn (onClientDisconnect n) >>= fun s => s.giveToFirst) =
      .ok { ({ s with gameWorld := st.quietWorld } : Server).log .choosing with
        currentPlayerID := first.1 } := by
    unfold makeAITurn
    have hworld : (s.log .choosing).gameWorld = s.gameWorld := rfl
    rw [hworld, hst, Outcome.ok_bind, hquiet, List.foldlM_nil, Outcome.pure_eq_ok,
      Outcome.ok_bind, Outcome.ok_bind]
    unfold giveToFirst
    have hentries : (removeDeadEnemies st.enemyListDirt st.world).playersList.entries =
        first :: rest := hfirst
    simp only [hentries, hid]
    rfl
  rw [hgive, Outcome.ok_bind]
  exact startTurn_turnTo hfixed hplayer

/-- The server before the first action of the enemies is broadcast. -/
def acting (st : AITurn) (s : Server) : Server :=
  { s.log .choosing with gameWorld := st.world }

theorem Fixed.acting (h : s.Fixed) {st : AITurn} (hst : aiTurn s.gameWorld = .ok st) :
    (s.acting st).Fixed := by
  obtain ⟨hrelated, hkeys⟩ := aiTurn_related h.wellFormed hst
  have hfixed := h.setWorld (Continues.aiRelated h.wellFormed hrelated) hkeys
  exact ⟨(Continues.choosing hfixed.wellFormed).wellFormed, h.still, h.noNull, hfixed.current⟩

/-- With actions the recursion goes through the broadcast of the first one. -/
theorem deep_acting {st : AITurn} {action : EnemyAction} {actions : List EnemyAction} (h : s.Fixed)
    (hafter : OrderedMap.after s.currentPlayerID s.gameWorld.playersList = [])
    (hst : aiTurn s.gameWorld = .ok st) (hcons : st.enemyActions = action :: actions) (n : Nat) :
    (messageAllClients (onClientDisconnect n) (gameAITurnAction action) none (s.acting st) = .deep →
      s.Deep (n + 1)) ∧
    (messageAllClients (onClientDisconnect (n + 1)) (gameAITurnAction action) none (s.acting st) ≠
      .deep → ¬ s.Deep (n + 2)) := by
  have hfixed := h.acting hst
  have hturn : ∀ n, s.Deep (n + 1) ↔ ((((messageAllClients (onClientDisconnect n)
      (gameAITurnAction action) none (s.acting st) >>= fun s => actions.foldlM (fun s action =>
        messageAllClients (onClientDisconnect n) (gameAITurnAction action) none s) s) >>= fun s =>
          .ok { s with gameWorld := removeDeadEnemies st.enemyListDirt s.gameWorld }) >>=
            fun s => s.giveToFirst) >>= fun s => s.startTurn (onClientDisconnect n)) = .deep := by
    intro n
    rw [deep_last h.current hafter]
    unfold makeAITurn
    have hworld : (s.log .choosing).gameWorld = s.gameWorld := rfl
    rw [hworld, hst, Outcome.ok_bind, hcons, List.foldlM_cons]
    rfl
  constructor
  · intro hdeep
    rw [hturn, hdeep]
    rfl
  · intro hne
    rw [hturn]
    intro hbad
    have hall := messageAllClients_allOpen (onClientDisconnect_spec (n + 1))
      (gameAITurnAction action) none hfixed.wellFormed hfixed.still
    cases hmsg : messageAllClients (onClientDisconnect (n + 1)) (gameAITurnAction action) none
        (s.acting st) with
    | deep => exact hne hmsg
    | fault e =>
      rw [hmsg] at hbad
      exact nomatch hbad
    | ok u =>
      obtain ⟨hu, hustill, huopen⟩ := hall u hmsg
      rw [hmsg, Outcome.ok_bind] at hbad
      exact afterBroadcast_ne_deep n hu hustill huopen hbad

/-- Enemies with actions: their broadcast comes to the closed connection of the last player. -/
theorem deep_broadcast {st : AITurn} (h : s.Fixed)
    (hafter : OrderedMap.after s.currentPlayerID s.gameWorld.playersList = [])
    (hst : aiTurn s.gameWorld = .ok st) (hacts : st.enemyActions ≠ [])
    (hclosed : s.currentPlayerID ∈ s.closed) :
    ∃ u, HolderReached (s.acting st) u ∧ ∀ n, (s.Deep (n + 1) ↔ u.Deep n) := by
  obtain ⟨action, actions, hcons⟩ := List.exists_cons_of_ne_nil hacts
  have hfixed := h.acting hst
  obtain ⟨u, hu, hdeep⟩ := messageAllClients_holder hfixed.wellFormed hfixed.still hfixed.noNull
    hfixed.current hclosed (gameAITurnAction action) none
  refine ⟨u, hu, fun n => ⟨fun hs => ?_, fun hn => ?_⟩⟩
  · cases n with
    | zero => rfl
    | succ n =>
      rw [← hdeep]
      by_contra hne
      exact (deep_acting h hafter hst hcons n).2 hne hs
  · exact (deep_acting h hafter hst hcons n).1 ((hdeep n).mpr hn)

theorem not_deep_of_open {st : AITurn} (h : s.Fixed)
    (hafter : OrderedMap.after s.currentPlayerID s.gameWorld.playersList = [])
    (hst : aiTurn s.gameWorld = .ok st) (hacts : st.enemyActions ≠ [])
    (hopen : s.currentPlayerID ∉ s.closed) (n : Nat) : ¬ s.Deep (n + 2) := by
  obtain ⟨action, actions, hcons⟩ := List.exists_cons_of_ne_nil hacts
  have hfixed := h.acting hst
  apply (deep_acting h hafter hst hcons n).2
  exact messageAllClients_harmless n ⟨hfixed.wellFormed, hfixed.still, fun _ => hopen⟩

/-- The world itself, when a turn of its enemies hangs. -/
def hung (w : GameWorld) : Option GameWorld :=
  match aiTurn w with
  | .deep => some w
  | _ => none

theorem hung_eq_some {w w' : GameWorld} (h : hung w = some w') : aiTurn w = .deep ∧ w' = w := by
  unfold hung at h
  split at h
  · rename_i hdeep
    exact ⟨hdeep, (Option.some.inj h).symm⟩
  · exact nomatch h

theorem hung_of_deep {w : GameWorld} (h : aiTurn w = .deep) : hung w = some w := by
  unfold hung
  rw [h]

/-- The world in which the recursion comes to the enemies again. When they do not act, no player
may be connected. When they do, the last player may not be, and has to come first among the
closed connections: after another one only a turn that hangs goes on. -/
def nextRound (s : Server) (w : GameWorld) : Option GameWorld :=
  match aiTurn w with
  | .deep => some w
  | .fault _ => none
  | .ok st =>
    if st.enemyActions = [] then
      if ∀ id ∈ w.playersList.keys, id ∈ s.closed then some st.quietWorld else none
    else
      match w.playersList.keys.getLast? with
      | none => none
      | some last =>
        if last ∉ s.closed then none
        else if s.goneBefore last = [] then some st.world
        else hung (st.world.without (s.goneBefore last))

def rounds (s : Server) : Nat → GameWorld → Option GameWorld
  | 0, w => some w
  | k + 1, w => (s.nextRound w).bind (rounds s k)

/-- Everyone after the holder of the turn is gone, and one turn of the enemies leads to the
next for ever. -/
structure Endless (s : Server) : Prop where
  later : ∀ id ∈ (OrderedMap.after s.currentPlayerID s.gameWorld.playersList).keys, id ∈ s.closed
  rounds : ∀ k, (s.rounds k s.gameWorld).isSome

/-- What `nextRound` says. -/
inductive Round (s : Server) (w : GameWorld) : GameWorld → Prop
  | hangs : aiTurn w = .deep → Round s w w
  | quiet (st : AITurn) : aiTurn w = .ok st → st.enemyActions = [] →
      (∀ id ∈ w.playersList.keys, id ∈ s.closed) → Round s w st.quietWorld
  | again (st : AITurn) (last : UInt32) : aiTurn w = .ok st → st.enemyActions ≠ [] →
      w.playersList.keys.getLast? = some last → last ∈ s.closed → s.goneBefore last = [] →
      Round s w st.world
  | others (st : AITurn) (last : UInt32) : aiTurn w = .ok st → st.enemyActions ≠ [] →
      w.playersList.keys.getLast? = some last → last ∈ s.closed → s.goneBefore last ≠ [] →
      aiTurn (st.world.without (s.goneBefore last)) = .deep →
      Round s w (st.world.without (s.goneBefore last))

theorem nextRound_eq_some {w w' : GameWorld} (h : s.nextRound w = some w') : s.Round w w' := by
  unfold nextRound at h
  split at h
  · rename_i hdeep
    cases h
    exact .hangs hdeep
  · exact nomatch h
  · rename_i st hst
    split at h
    · rename_i hquiet
      split at h
      · rename_i hall
        cases h
        exact .quiet st hst hquiet hall
      · exact nomatch h
    · rename_i hacts
      split at h
      · exact nomatch h
      · rename_i last hlast
        split at h
        · exact nomatch h
        · rename_i hclosed
          split at h
          · rename_i hgone
            cases h
            exact .again st last hst hacts hlast (not_not.mp hclosed) hgone
          · rename_i hgone
            obtain ⟨hdeep, rfl⟩ := hung_eq_some h
            exact .others st last hst hacts hlast (not_not.mp hclosed) hgone hdeep

theorem Round.nextRound {w w' : GameWorld} (h : s.Round w w') : s.nextRound w = some w' := by
  unfold Server.nextRound
  cases h with
  | hangs hdeep => rw [hdeep]
  | quiet st hst hquiet hall =>
    rw [hst]
    simp only [if_pos hquiet, if_pos hall]
  | again st last hst hacts hlast hclosed hgone =>
    rw [hst]
    simp only [if_neg hacts, hlast, if_neg (not_not.mpr hclosed), if_pos hgone]
  | others st last hst hacts hlast hclosed hgone hdeep =>
    rw [hst]
    simp only [if_neg hacts, hlast, if_neg (not_not.mpr hclosed), if_neg hgone, hung_of_deep hdeep]

theorem Round.congr {w w' : GameWorld} (hids : t.ids = s.ids) (hclosed : t.closed = s.closed)
    (h : t.Round w w') : s.Round w w' := by
  have hbefore : ∀ c, t.goneBefore c = s.goneBefore c := by
    intro c
    rw [goneBefore, goneBefore, hids, hclosed]
  cases h with
  | hangs hdeep => exact .hangs hdeep
  | quiet st hst hquiet hall => exact .quiet st hst hquiet (hclosed ▸ hall)
  | again st last hst hacts hlast hin hgone =>
    exact .again st last hst hacts hlast (hclosed ▸ hin) (hbefore last ▸ hgone)
  | others st last hst hacts hlast hin hgone hdeep =>
    rw [hbefore] at hgone hdeep ⊢
    exact .others st last hst hacts hlast (hclosed ▸ hin) hgone hdeep

theorem rounds_succ {w w' : GameWorld} (h : s.Round w w') (k : Nat) :
    s.rounds (k + 1) w = s.rounds k w' := by
  rw [rounds, h.nextRound, Option.bind_some]

theorem rounds_congr (hids : t.ids = s.ids) (hclosed : t.closed = s.closed) (k : Nat)
    (w : GameWorld) (h : (t.rounds k w).isSome) : (s.rounds k w).isSome := by
  induction k generalizing w with
  | zero => rfl
  | succ k ih =>
    obtain ⟨v, hv⟩ := Option.isSome_iff_exists.mp h
    obtain ⟨w', hnext, _⟩ := Option.bind_eq_some_iff.mp hv
    have hround := nextRound_eq_some hnext
    rw [rounds_succ hround] at h
    rw [rounds_succ (hround.congr hids hclosed)]
    exact ih w' h

theorem rounds_hang {w : GameWorld} (h : aiTurn w = .deep) (k : Nat) : (s.rounds k w).isSome := by
  induction k with
  | zero => rfl
  | succ k ih =>
    rw [rounds_succ (.hangs h)]
    exact ih

theorem rounds_of_no_enemies {w : GameWorld} (henemies : w.enemyList = [])
    (hall : ∀ id ∈ w.playersList.keys, id ∈ s.closed) (k : Nat) : (s.rounds k w).isSome := by
  have hturn : aiTurn w = .ok (AITurn.start w) := by
    unfold aiTurn enemiesAct enemyTurns
    rw [henemies]
    rfl
  have hround : s.Round w w := Round.quiet (AITurn.start w) hturn rfl hall
  induction k with
  | zero => rfl
  | succ k ih =>
    rw [rounds_succ hround]
    exact ih

theorem Endless.round (he : s.Endless) :
    ∃ w, s.Round s.gameWorld w ∧ ∀ k, (s.rounds k w).isSome := by
  obtain ⟨v, hv⟩ := Option.isSome_iff_exists.mp (he.rounds 1)
  obtain ⟨w, hnext, _⟩ := Option.bind_eq_some_iff.mp hv
  have hround := nextRound_eq_some hnext
  exact ⟨w, hround, fun k => rounds_succ hround k ▸ he.rounds (k + 1)⟩

theorem entries_of_mem {ps : PlayersList} {id : UInt32} (h : id ∈ ps) :
    ∃ first rest, ps.entries = first :: rest := by
  obtain ⟨v, hv⟩ := OrderedMap.mem_iff_lookup.mp h
  exact List.exists_cons_of_ne_nil (List.ne_nil_of_mem (OrderedMap.mem_entries_of_lookup hv))

theorem mem_keys_of_entries {ps : PlayersList} {first : OrderedMap.Entry UInt32 Player}
    {rest : List (OrderedMap.Entry UInt32 Player)} (h : ps.entries = first :: rest) (id : UInt32) :
    id ∈ ps.keys ↔ id = first.1 ∨ id ∈ (OrderedMap.after first.1 ps).keys := by
  have hentries : ps.entries = [] ++ first :: rest := h
  rw [OrderedMap.after_of_entries hentries]
  unfold AList.keys
  rw [h, List.keys_cons, List.mem_cons]

theorem HolderReached.fixed {u : Server} (hs : s.Fixed) (h : HolderReached s u)
    (hgone : s.gone = []) : u.Fixed ∧ u.gameWorld = s.gameWorld ∧ u.ids = s.ids := by
  have hdeq := h.undisturbed hgone
  refine ⟨⟨h.wellFormed, h.still, hdeq ▸ hs.noNull, h.mem hs.current⟩, ?_, ?_⟩
  · rw [h.gameWorld, hgone, GameWorld.without_nil]
  · unfold ids
    rw [hdeq]

/-- After other connections have left, the nested calls go on only in a turn that hangs. -/
theorem HolderReached.deep_iff {u : Server} (hs : s.Fixed) (h : HolderReached s u)
    (hgone : s.gone ≠ []) (n : Nat) : u.Deep (n + 2) ↔
      OrderedMap.after s.currentPlayerID (s.gameWorld.without s.gone).playersList = [] ∧
      aiTurn (s.gameWorld.without s.gone) = .deep := by
  rw [nulled_deep_iff n h.still (h.nulled hgone) (h.mem hs.current), h.currentPlayerID, h.gameWorld]

theorem gone_not_mem (s : Server) : s.currentPlayerID ∉ s.gone := by
  intro hin
  have hne := List.mem_takeWhile_imp (List.mem_of_mem_filter hin)
  simp at hne

theorem deep_of_endless (h : s.Fixed) (he : s.Endless) (n : Nat) : s.Deep n := by
  induction n generalizing s with
  | zero => rfl
  | succ n ih =>
    cases hafter : OrderedMap.after s.currentPlayerID s.gameWorld.playersList with
    | cons next rest =>
      have hclosed : ∀ e ∈ next :: rest, e.1 ∈ s.closed := fun e hmem =>
        he.later e.1 (hafter ▸ List.mem_keys_of_mem hmem)
      obtain ⟨hmem, hdeep⟩ := deep_next (n := n) h hafter
      refine hdeep.mpr ⟨hclosed next List.mem_cons_self, ih (turnTo_fixed h hmem) ⟨?_, ?_⟩⟩
      · intro id hid
        rw [turnTo_closed h.still]
        have hrest : OrderedMap.after next.1 s.gameWorld.playersList = rest :=
          OrderedMap.after_after h.current hafter
        have hkeys : id ∈ (OrderedMap.after next.1 s.gameWorld.playersList).keys := hid
        rw [hrest] at hkeys
        obtain ⟨e, he, rfl⟩ := List.mem_map.mp hkeys
        exact hclosed e (List.mem_cons_of_mem _ he)
      · intro k
        exact rounds_congr (s := s.turnTo next.1) (t := s) rfl (turnTo_closed h.still).symm k _
           (he.rounds k)
    | nil =>
      obtain ⟨w, hround, hrounds⟩ := he.round
      cases hround with
      | hangs hdeep => exact deep_of_hang h.current hafter hdeep (n + 1)
      | quiet st hst hquiet hall =>
        obtain ⟨hfixed, hkeys⟩ := h.quiet hst
        obtain ⟨first, rest, hentries⟩ := entries_of_mem hfixed.current
        obtain ⟨hfirst, hdeep⟩ := deep_quiet (n := n) h hafter hst hquiet hentries
        have hclosed : ∀ id ∈ st.quietWorld.playersList.keys, id ∈ s.closed := hkeys ▸ hall
        refine hdeep.mpr ⟨hclosed _ (AList.mem_keys.mp hfirst),
          ih (turnTo_fixed hfixed hfirst) ⟨?_, ?_⟩⟩
        · intro id hid
          rw [turnTo_closed hfixed.still]
          exact hclosed id ((mem_keys_of_entries hentries id).mpr (Or.inr hid))
        · intro k
          exact rounds_congr (s := turnTo first.1 { s with gameWorld := st.quietWorld }) (t := s) rfl
            (turnTo_closed hfixed.still).symm k _ (hrounds k)
      | again st last hst hacts hlast hclosed hgone =>
        rw [OrderedMap.getLast?_keys_of_after h.current hafter] at hlast
        cases hlast
        obtain ⟨u, hu, hdeep⟩ := deep_broadcast h hafter hst hacts hclosed
        obtain ⟨hfixed, hworld, hids⟩ := hu.fixed (h.acting hst) hgone
        refine (hdeep n).mpr (ih hfixed ⟨?_, ?_⟩)
        · intro id hid
          have hkeys := (aiTurn_related h.wellFormed hst).2
          have hcur : u.currentPlayerID = s.currentPlayerID := hu.currentPlayerID
          have hplayers : u.gameWorld.playersList.keys = s.gameWorld.playersList.keys := by
            rw [hworld]
            exact hkeys
          rw [hcur, OrderedMap.after_eq_nil_of_keys hplayers hafter] at hid
          exact absurd hid List.not_mem_nil
        · intro k
          rw [hworld]
          exact rounds_congr (t := s) hids.symm hu.closed.symm k _ (hrounds k)
      | others st last hst hacts hlast hclosed hgone hhang =>
        rw [OrderedMap.getLast?_keys_of_after h.current hafter] at hlast
        cases hlast
        obtain ⟨u, hu, hdeep⟩ := deep_broadcast h hafter hst hacts hclosed
        have hfixed := h.acting hst
        have hkeys := (aiTurn_related h.wellFormed hst).2
        have hlastActing := OrderedMap.after_eq_nil_of_keys hkeys hafter
        have hlastWithout := GameWorld.after_without (gone_not_mem (s.acting st)) hfixed.current
          hlastActing
        refine (hdeep n).mpr (deep_of_hang (hu.mem hfixed.current) ?_ ?_ n)
        · rw [hu.currentPlayerID, hu.gameWorld]
          exact hlastWithout
        · rw [hu.gameWorld]
          exact hhang

/-- Every number of nested calls is too small. -/
def Diverges (s : Server) : Prop := ∀ n, s.Deep n

theorem diverges_last (h : s.Fixed) (hd : s.Diverges) :
    (∀ id ∈ (OrderedMap.after s.currentPlayerID s.gameWorld.playersList).keys, id ∈ s.closed) ∧
    ∃ t : Server, t.Fixed ∧ t.Diverges ∧ t.gameWorld = s.gameWorld ∧ t.ids = s.ids ∧
      t.closed = s.closed ∧ OrderedMap.after t.currentPlayerID t.gameWorld.playersList = [] := by
  induction hcase : OrderedMap.after s.currentPlayerID s.gameWorld.playersList generalizing s with
  | nil => exact ⟨fun id hid => absurd hid List.not_mem_nil, s, h, hd, rfl, rfl, rfl, hcase⟩
  | cons next rest ih =>
    have hmem := (deep_next (n := 0) h hcase).1
    have hdeep : ∀ n, next.1 ∈ s.closed ∧ (s.turnTo next.1).Deep n := fun n =>
      (deep_next h hcase).2.mp (hd (n + 1))
    have hrest : OrderedMap.after (s.turnTo next.1).currentPlayerID
        (s.turnTo next.1).gameWorld.playersList = rest := OrderedMap.after_after h.current hcase
    obtain ⟨hall, t, ht, hdt, hworld, hids, htc, hlast⟩ :=
      ih (turnTo_fixed h hmem) (fun n => (hdeep n).2) hrest
    rw [turnTo_closed h.still] at hall htc
    refine ⟨fun id hid => ?_, t, ht, hdt, hworld, hids, htc, hlast⟩
    rcases List.mem_cons.mp hid with rfl | hid
    · exact (hdeep 0).1
    · exact hall id hid

theorem diverges_quiet {st : AITurn} (h : s.Fixed) (hd : s.Diverges)
    (hlast : OrderedMap.after s.currentPlayerID s.gameWorld.playersList = [])
    (hst : aiTurn s.gameWorld = .ok st) (hquiet : st.enemyActions = []) :
    s.Round s.gameWorld st.quietWorld ∧ ∃ t : Server, t.Fixed ∧ t.Diverges ∧
      t.gameWorld = st.quietWorld ∧ t.ids = s.ids ∧ t.closed = s.closed := by
  obtain ⟨hfixed, hkeys⟩ := h.quiet hst
  obtain ⟨first, rest, hentries⟩ := entries_of_mem hfixed.current
  have hmem := (deep_quiet (n := 0) h hlast hst hquiet hentries).1
  have hdeep : ∀ n, first.1 ∈ s.closed ∧
      (turnTo first.1 { s with gameWorld := st.quietWorld }).Deep n := fun n =>
    (deep_quiet h hlast hst hquiet hentries).2.mp (hd (n + 1))
  have hturn := turnTo_fixed hfixed hmem
  have hclosed : (turnTo first.1 { s with gameWorld := st.quietWorld }).closed = s.closed :=
    turnTo_closed hfixed.still
  obtain ⟨hall, _⟩ := diverges_last hturn fun n => (hdeep n).2
  rw [hclosed] at hall
  refine ⟨.quiet st hst hquiet fun id hid => ?_, _, hturn, fun n => (hdeep n).2, rfl, rfl, hclosed⟩
  rw [← hkeys] at hid
  rcases (mem_keys_of_entries hentries id).mp hid with rfl | hid
  · exact (hdeep 0).1
  · exact hall id hid

/-- With actions the last player is gone, and the first to be found so unless a turn hangs. -/
theorem diverges_acting {st : AITurn} (h : s.Fixed) (hd : s.Diverges)
    (hlast : OrderedMap.after s.currentPlayerID s.gameWorld.playersList = [])
    (hst : aiTurn s.gameWorld = .ok st) (hacts : st.enemyActions ≠ []) :
    ∃ w, s.Round s.gameWorld w ∧ (aiTurn w = .deep ∨ ∃ t : Server, t.Fixed ∧ t.Diverges ∧
      t.gameWorld = w ∧ t.ids = s.ids ∧ t.closed = s.closed) := by
  have hclosed : s.currentPlayerID ∈ s.closed := by
    by_contra hopen
    exact not_deep_of_open h hlast hst hacts hopen 0 (hd 2)
  have hkey := OrderedMap.getLast?_keys_of_after h.current hlast
  obtain ⟨u, hu, hdeep⟩ := deep_broadcast h hlast hst hacts hclosed
  have hfixed := h.acting hst
  have hdu : u.Diverges := fun n => (hdeep n).mp (hd (n + 1))
  by_cases hgone : s.gone = []
  · obtain ⟨hfixedu, hworld, hids⟩ := hu.fixed hfixed hgone
    exact ⟨st.world, .again st _ hst hacts hkey hclosed hgone,
      Or.inr ⟨u, hfixedu, hdu, hworld, hids, hu.closed⟩⟩
  · have hhang := ((hu.deep_iff hfixed hgone 0).mp (hdu 2)).2
    exact ⟨_, .others st _ hst hacts hkey hclosed hgone hhang, Or.inl hhang⟩

/-- From the last player the recursion goes through the turn of the enemies. -/
theorem diverges_round (h : s.Fixed) (hd : s.Diverges)
    (hlast : OrderedMap.after s.currentPlayerID s.gameWorld.playersList = []) :
    ∃ w, s.Round s.gameWorld w ∧ (aiTurn w = .deep ∨ ∃ t : Server, t.Fixed ∧ t.Diverges ∧
      t.gameWorld = w ∧ t.ids = s.ids ∧ t.closed = s.closed) := by
  cases hst : aiTurn s.gameWorld with
  | deep => exact ⟨s.gameWorld, .hangs hst, Or.inl hst⟩
  | fault e =>
    have hone := (deep_last h.current hlast).mp (hd 1)
    unfold makeAITurn at hone
    have hworld : (s.log .choosing).gameWorld = s.gameWorld := rfl
    rw [hworld, hst] at hone
    exact nomatch hone
  | ok st =>
    by_cases hacts : st.enemyActions = []
    · obtain ⟨hround, hnext⟩ := diverges_quiet h hd hlast hst hacts
      exact ⟨_, hround, Or.inr hnext⟩
    · exact diverges_acting h hd hlast hst hacts

theorem rounds_of_diverges (h : s.Fixed) (hd : s.Diverges) (k : Nat) :
    (s.rounds k s.gameWorld).isSome := by
  induction k generalizing s with
  | zero => rfl
  | succ k ih =>
    obtain ⟨_, t, ht, hdt, hworld, hids, hclosed, hlast⟩ := diverges_last h hd
    obtain ⟨w, hround, hnext⟩ := diverges_round ht hdt hlast
    rw [hworld] at hround
    rw [rounds_succ (hround.congr hids hclosed)]
    rcases hnext with hhang | ⟨u, hu, hdu, hworldu, hidsu, hclosedu⟩
    · exact rounds_hang hhang k
    · rw [← hworldu]
      exact rounds_congr (hidsu.trans hids) (hclosedu.trans hclosed) k _ (ih hu hdu)

theorem diverges_iff_endless (h : s.Fixed) : s.Diverges ↔ s.Endless := by
  constructor
  · intro hd
    exact ⟨(diverges_last h hd).1, rounds_of_diverges h hd⟩
  · exact deep_of_endless h

/-- The call returns or stops with a fault after finitely many nested calls. -/
def Ends (call : Nat → Outcome Fault Server) : Prop := ∃ n, call n ≠ .deep

theorem ends_iff {call : Nat → Outcome Fault Server} : Ends call ↔ ¬ ∀ n, call n = .deep :=
  not_forall.symm

/-- A broadcast that comes to the closed connection of the holder of the turn does not end. -/
structure EndlessBroadcast (s : Server) : Prop where
  holder : s.currentPlayerID ∈ s.gameWorld.playersList
  closed : s.currentPlayerID ∈ s.closed
  first : s.gone = [] → s.Endless
  others : s.gone ≠ [] →
    OrderedMap.after s.currentPlayerID (s.gameWorld.without s.gone).playersList = [] ∧
      aiTurn (s.gameWorld.without s.gone) = .deep

theorem endless_congr (hids : t.ids = s.ids) (hclosed : t.closed = s.closed)
    (hcur : t.currentPlayerID = s.currentPlayerID) (hworld : t.gameWorld = s.gameWorld)
    (he : t.Endless) : s.Endless := by
  refine ⟨?_, fun k => ?_⟩
  · have hlater := he.later
    rwa [hcur, hworld, hclosed] at hlater
  · have hrounds := he.rounds k
    rw [hworld] at hrounds
    exact rounds_congr hids hclosed k _ hrounds

theorem messageAllClients_diverges_iff (h : s.Fixed) (hclosed : s.currentPlayerID ∈ s.closed)
    (msg : Message) (ignore : Option UInt32) :
    (∀ n, messageAllClients (onClientDisconnect n) msg ignore s = .deep) ↔ s.EndlessBroadcast := by
  obtain ⟨u, hu, hdeep⟩ := messageAllClients_holder h.wellFormed h.still h.noNull h.current hclosed
    msg ignore
  have hdiverges : (∀ n, messageAllClients (onClientDisconnect n) msg ignore s = .deep) ↔
      u.Diverges := forall_congr' hdeep
  rw [hdiverges]
  by_cases hgone : s.gone = []
  · obtain ⟨hfixed, hworld, hids⟩ := hu.fixed h hgone
    rw [diverges_iff_endless hfixed]
    constructor
    · intro he
      exact ⟨h.current, hclosed, fun _ => endless_congr hids hu.closed hu.currentPlayerID hworld he,
        fun hne => absurd hgone hne⟩
    · intro he
      exact endless_congr hids.symm hu.closed.symm hu.currentPlayerID.symm hworld.symm (he.first hgone)
  · constructor
    · intro hd
      exact ⟨h.current, hclosed, fun hnil => absurd hnil hgone,
        fun _ => (hu.deep_iff h hgone 0).mp (hd 2)⟩
    · intro he
      obtain ⟨hlast, hhang⟩ := he.others hgone
      apply deep_of_hang (hu.mem h.current)
      · rw [hu.currentPlayerID, hu.gameWorld]
        exact hlast
      · rw [hu.gameWorld]
        exact hhang

theorem Fixed.tick (h : s.Fixed) : s.tick.Fixed :=
  ⟨(Continues.tick h.wellFormed).wellFormed, h.still, h.noNull, h.current⟩

theorem messageClient_diverges_iff (h : s.Fixed) (hclosed : s.currentPlayerID ∈ s.closed)
    (msg : Message) :
    (∀ n, messageClient (onClientDisconnect n) (some s.currentPlayerID) msg s = .deep) ↔
      s.Endless := by
  have hsame := h.still.tick_closed
  have hclosedt : s.currentPlayerID ∈ s.tick.closed := hsame ▸ hclosed
  have hdiverges : (∀ n, messageClient (onClientDisconnect n) (some s.currentPlayerID) msg s =
      .deep) ↔ s.tick.Diverges := by
    refine forall_congr' fun n => ?_
    rw [messageClient_closed hclosedt]
    constructor
    · intro hdeep
      rcases Outcome.bind_eq_deep.mp hdeep with hdeep | ⟨t, _, hbad⟩
      · exact hdeep
      · exact nomatch hbad
    · intro hdeep
      have hhook : onClientDisconnect n (some s.currentPlayerID) s.tick = .deep := hdeep
      rw [hhook]
      rfl
  rw [hdiverges, diverges_iff_endless h.tick]
  constructor
  · exact endless_congr rfl hsame rfl rfl
  · exact endless_congr rfl hsame.symm rfl rfl

/-- Outside the loop of a broadcast, whether between two handlers or in one. -/
structure Settled (s : Server) : Prop where
  wellFormed : s.WellFormed
  noNull : none ∉ s.deqConnection

theorem Reachable.settled (h : s.Reachable) : s.Settled := ⟨h.idle.wellFormed, h.idle.noNull⟩

theorem Settled.still (h : s.Settled) : s.still.WellFormed :=
  h.wellFormed.congr rfl rfl rfl rfl (List.Subset.refl _)

theorem Settled.fixed (h : s.Settled) (hcur : s.currentPlayerID ∈ s.gameWorld.playersList) :
    s.still.Fixed :=
  ⟨h.still, rfl, h.noNull, hcur⟩

theorem messageClient_of_ne {client : Option UInt32} {msg : Message} (h : s.Still)
    (hclient : client = some s.currentPlayerID → s.currentPlayerID ∈ s.gameWorld.playersList →
      s.currentPlayerID ∉ s.closed) :
    messageClient (onClientDisconnect 1) client msg s ≠ .deep := by
  cases client with
  | none => exact fun h => nomatch h
  | some c =>
    by_cases hc : c ∈ s.tick.closed
    · rw [messageClient_closed hc]
      refine Outcome.bind_ne_deep ?_ fun _ _ h => nomatch h
      by_cases hmem : c ∈ s.tick.gameWorld.playersList
      · have hne : c ≠ s.tick.currentPlayerID := by
          intro heq
          rw [h.tick_closed] at hc
          exact hclient (congrArg some heq) (heq ▸ hmem) (heq ▸ hc)
        rw [onClientDisconnect_of_ne hmem hne]
        exact fun h => nomatch h
      · rw [onClientDisconnect_of_not_mem hmem]
        exact fun h => nomatch h
    · rw [messageClient_open hc]
      exact fun h => nomatch h

theorem Settled.harmless (h : s.Settled)
    (hopen : s.currentPlayerID ∈ s.gameWorld.playersList → s.currentPlayerID ∉ s.closed) :
    s.still.Harmless := by
  refine ⟨h.still, rfl, fun hmem => ?_⟩
  rcases h.wellFormed.current with hzero | hcur
  · have hids : s.currentPlayerID ∈ s.ids := hmem
    exact absurd hzero (h.wellFormed.accepted _ hids).ne_zero
  · exact hopen hcur

/-- A message or a broadcast ends, unless it comes to the closed connection of the holder of
the turn and the recursion goes on from there for ever. -/
theorem messages_end_iff (h : s.Settled) (client ignore : Option UInt32) (msg : Message) :
    (Ends (fun n => messageClient (onClientDisconnect n) client msg s.still) ↔
      ¬ (client = some s.currentPlayerID ∧ s.currentPlayerID ∈ s.gameWorld.playersList ∧
        s.currentPlayerID ∈ s.closed ∧ s.still.Endless)) ∧
    (Ends (fun n => messageAllClients (onClientDisconnect n) msg ignore s.still) ↔
      ¬ s.still.EndlessBroadcast) := by
  by_cases hdropped : s.currentPlayerID ∈ s.gameWorld.playersList ∧ s.currentPlayerID ∈ s.closed
  · obtain ⟨hcur, hclosed⟩ := hdropped
    have hfixed := h.fixed hcur
    constructor
    · by_cases hclient : client = some s.currentPlayerID
      · rw [ends_iff, not_iff_not, hclient]
        have hdiverges := messageClient_diverges_iff hfixed hclosed msg
        exact hdiverges.trans ⟨fun he => ⟨rfl, hcur, hclosed, he⟩, fun he => he.2.2.2⟩
      · refine iff_of_true ⟨1, ?_⟩ fun hbad => hclient hbad.1
        exact messageClient_of_ne rfl fun heq => absurd heq hclient
    · rw [ends_iff, not_iff_not]
      exact messageAllClients_diverges_iff hfixed hclosed msg ignore
  · have hopen : s.currentPlayerID ∈ s.gameWorld.playersList → s.currentPlayerID ∉ s.closed :=
      fun hcur hclosed => hdropped ⟨hcur, hclosed⟩
    constructor
    · refine iff_of_true ⟨1, messageClient_of_ne rfl fun _ => hopen⟩ ?_
      exact fun hbad => hdropped ⟨hbad.2.1, hbad.2.2.1⟩
    · refine iff_of_true ⟨1, messageAllClients_harmless 0 (h.harmless hopen)⟩ ?_
      exact fun he => hdropped ⟨he.holder, he.closed⟩

/-- The second player waits for its turn and leaves. -/
def waitingLeaves : List Event :=
  [.accept, .accept, .message 0 (.always 10) 10000 (registerRequest Player.default),
    .message 0 (.always 10) 10001 (registerRequest Player.default), .close 10001]

/-- The connection check removes it. -/
theorem waiting_removed : ∃ s : Server, s.Reachable ∧ 10001 ∈ s.gameWorld.playersList ∧
    10001 ∈ s.closed ∧ Ends fun n =>
      messageAllClients (onClientDisconnect n) (.ofID .serverShyConnectionCheck) none s.still := by
  have hrun : ((Machine.run step (start (fun _ => 0) (fun _ => 0) fun _ => []) waitingLeaves).map
      fun s => (s.currentPlayerID, s.closed, decide ((10001 : UInt32) ∈ s.gameWorld.playersList))) =
      some (10000, [10001], true) := by decide +kernel
  obtain ⟨s, hs, h⟩ := Option.map_eq_some_iff.mp hrun
  simp only [Prod.mk.injEq, decide_eq_true_eq] at h
  obtain ⟨hcur, hclosed, hmem⟩ := h
  have hreachable : s.Reachable := ⟨_, _, _, _, hs⟩
  refine ⟨s, hreachable, hmem, by simp [hclosed], ?_⟩
  refine (messages_end_iff hreachable.settled none none _).2.mpr fun he => ?_
  have hgone : s.currentPlayerID ∈ s.closed := he.closed
  rw [hcur, hclosed] at hgone
  exact absurd hgone (by decide)

def onlyLeaves : List Event :=
  [.accept, .message 0 (.always 10) 10000 (registerRequest Player.default), .close 10000]

/-- The connection check never comes to an end. -/
theorem only_endless : ∃ s : Server, s.Reachable ∧ ¬ Ends fun n =>
    messageAllClients (onClientDisconnect n) (.ofID .serverShyConnectionCheck) none s.still := by
  have hrun : ((Machine.run step (start (fun _ => 0) (fun _ => 0) fun _ => []) onlyLeaves).map
      fun s => (s.currentPlayerID, s.closed, s.gameWorld.playersList.keys, s.ids,
        s.gameWorld.enemyList.isEmpty)) = some (10000, [10000], [10000], [10000], true) := by
    decide +kernel
  obtain ⟨s, hs, h⟩ := Option.map_eq_some_iff.mp hrun
  simp only [Prod.mk.injEq, List.isEmpty_iff] at h
  obtain ⟨hcur, hclosed, hkeys, hids, henemies⟩ := h
  have hreachable : s.Reachable := ⟨_, _, _, _, hs⟩
  have hall : ∀ id ∈ s.gameWorld.playersList.keys, id ∈ s.still.closed := by
    intro id hid
    have hsame : s.still.closed = s.closed := rfl
    rw [hsame, hclosed, ← hkeys]
    exact hid
  have hmem : s.currentPlayerID ∈ s.gameWorld.playersList := by
    rw [AList.mem_keys, hkeys, hcur]
    exact List.mem_cons_self
  have hendless : s.still.Endless := by
    refine ⟨fun id hid => ?_, rounds_of_no_enemies henemies hall⟩
    apply hall
    have hlater : id ∈ (OrderedMap.after s.currentPlayerID s.gameWorld.playersList).keys := hid
    rw [OrderedMap.keys_after] at hlater
    exact (List.dropWhile_sublist _).subset (List.mem_of_mem_tail hlater)
  have hgone : s.still.gone = [] := by
    have hsame : s.still.gone = (s.ids.takeWhile (· ≠ s.currentPlayerID)).filter (· ∈ s.closed) := rfl
    rw [hsame, hids, hcur]
    rfl
  refine ⟨s, hreachable, fun hends => ends_iff.mp hends ?_⟩
  apply (messageAllClients_diverges_iff (hreachable.settled.fixed hmem) (hall _ ?_) _ _).mpr
  · exact ⟨hmem, hall _ (AList.mem_keys.mp hmem), fun _ => hendless, fun hne => absurd hgone hne⟩
  · exact AList.mem_keys.mp hmem

end Server

end AsciiTerra
