import AsciiTerra.HookOrder
import AsciiTerra.KeyedLookups

/-!
# Calls inside the loops over `m_deqConnection`

`OnClientDisconnect` runs inside the loops of `MessageAllClients` and
`ChooseNextPlayerForTurn`, and for the holder of the turn it starts such loops itself.
`careful` is cut off where the inner loop would come to a null entry, or to the closed
connection of the holder once more. What is not cut off never uses a null entry, and no loop
loses an entry while it runs.
-/

set_option autoImplicit false

namespace AsciiTerra

open Outcome (Avoids Below Post)

namespace Server
variable {s t : Server} {m : Option Fault}

/-- The enemies make an action in their next turn. -/
def aiTurnActs (w : GameWorld) : Bool :=
  match aiTurn w with
  | .ok st => !st.enemyActions.isEmpty
  | _ => false

/-- The loop of `ChooseNextPlayerForTurn` uses a null entry, or erases null entries when it finds
the connection closed. -/
def usesNull (s : Server) : Bool :=
  match findConnection s.deqConnection s.currentPlayerID with
  | .error _ => true
  | .ok none => false
  | .ok (some c) => s.deqConnection.contains none && decide (c ∈ s.tick.closed)

/-- `OnClientDisconnect` for a client, with the choice that it makes for the holder. -/
def disconnect (choose : Server → Outcome Fault Server) (c : UInt32) (s : Server) :
    Outcome Fault Server :=
  if c ∈ s.gameWorld.playersList then do
    let s ← (if c = s.currentPlayerID then choose s else .ok s)
    .ok (s.removePlayer c)
  else .ok s

theorem onClientDisconnect_some (n : Nat) (c : UInt32) (s : Server) :
    onClientDisconnect (n + 1) (some c) s =
      disconnect (chooseNextPlayerForTurn (onClientDisconnect n) (some c)) c s := rfl

/-- `ChooseNextPlayerForTurn` after a holder that has left, cut off before a broadcast of
`MakeAITurn`, which comes to the connection of the holder again, and before null entries. -/
def carefulChoose (m : Option Fault) (hook : Option UInt32 → Server → Outcome Fault Server)
    (c : UInt32) (s : Server) : Outcome Fault Server :=
  let s := s.log .choosing
  if s.gameWorld.playersList.entries.isEmpty then .ok s
  else if OrderedMap.after c s.gameWorld.playersList = [] ∧ aiTurnActs s.gameWorld = true then
    .stop m
  else do
    let s ← s.passTurn hook (some c)
    if s.usesNull then .stop m else s.startTurn hook

/-- `OnClientDisconnect`, cut off where it re-enters the loops. -/
def careful (m : Option Fault) : Nat → Option UInt32 → Server → Outcome Fault Server
  | 0, _, _ => .deep
  | _ + 1, none, _ => .fault .nullConnection
  | n + 1, some c, s => disconnect (carefulChoose m (careful m n) c) c s

/-- `OnClientDisconnect`, which fails when a call changes `m_deqConnection`. -/
def watched : Nat → Option UInt32 → Server → Outcome Fault Server
  | 0, _, _ => .deep
  | _ + 1, none, _ => .fault .nullConnection
  | n + 1, some c, s => do
    let t ← disconnect (chooseNextPlayerForTurn (watched n) (some c)) c s
    if t.deqConnection = s.deqConnection then .ok t else .fault .invalidIterator

section Hook
variable {hook hook' : Option UInt32 → Server → Outcome Fault Server}
variable (hle : ∀ client s, Below m (hook client s) (hook' client s))
include hle

theorem carefulChoose_below (c : UInt32) (s : Server) :
    Below m (carefulChoose m hook c s) (s.chooseNextPlayerForTurn hook' (some c)) := by
  unfold carefulChoose chooseNextPlayerForTurn
  simp only
  split
  · exact .refl _
  · split
    · exact .of_stop _
    · refine .bind (passTurn_below hle _ _) fun t => ?_
      split
      · exact .of_stop _
      · exact startTurn_below hle t

theorem carefulChoose_below_careful (m' : Option Fault) (c : UInt32) (s : Server) :
    Below m (carefulChoose m hook c s) (carefulChoose m' hook' c s) := by
  unfold carefulChoose
  simp only
  split
  · exact .refl _
  · split
    · exact .of_stop _
    · refine .bind (passTurn_below hle _ _) fun t => ?_
      split
      · exact .of_stop _
      · exact startTurn_below hle t

end Hook

theorem disconnect_below {choose choose' : Server → Outcome Fault Server} {c : UInt32}
    (h : Below m (choose s) (choose' s)) :
    Below m (disconnect choose c s) (disconnect choose' c s) := by
  unfold disconnect
  split
  · refine .bind ?_ fun t => .refl _
    split
    · exact h
    · exact .refl _
  · exact .refl _

/-- The induction over the nested calls. -/
theorem careful_below_of {H : Nat → Option UInt32 → Server → Outcome Fault Server}
    (hzero : ∀ client s, H 0 client s = .deep)
    (hnull : ∀ n s, H (n + 1) none s = .fault .nullConnection)
    (hclient : ∀ n c s, (∀ client s, Below m (careful m n client s) (H n client s)) →
      Below m (careful m (n + 1) (some c) s) (H (n + 1) (some c) s))
    (n : Nat) (client : Option UInt32) (s : Server) :
    Below m (careful m n client s) (H n client s) := by
  induction n generalizing client s with
  | zero =>
    rw [hzero]
    exact .refl _
  | succ n ih =>
    cases client with
    | none =>
      rw [hnull]
      exact .refl _
    | some c => exact hclient n c s ih

theorem careful_below (n : Nat) (client : Option UInt32) (s : Server) :
    Below m (careful m n client s) (onClientDisconnect n client s) := by
  refine careful_below_of (fun _ _ => rfl) (fun _ _ => rfl) (fun n c s ih => ?_) n client s
  rw [onClientDisconnect_some]
  exact disconnect_below (carefulChoose_below ih c s)

theorem careful_below_careful (m' : Option Fault) (n : Nat) (client : Option UInt32) (s : Server) :
    Below m (careful m n client s) (careful m' n client s) := by
  refine careful_below_of (fun _ _ => rfl) (fun _ _ => rfl) (fun n c s ih => ?_) n client s
  exact disconnect_below (carefulChoose_below_careful ih m' c s)

/-- A null entry is used, or the list is erased from inside a loop over it. -/
def Dangling (m : Option Fault) (e : Fault) : Prop :=
  (e = .nullConnection ∨ e = .invalidIterator) ∧ m ≠ some e

theorem Dangling.ne {e e' : Fault} (h : Dangling m e) (hnull : e' ≠ .nullConnection)
    (herased : e' ≠ .invalidIterator) : e' ≠ e := by
  rcases h.1 with rfl | rfl
  · exact hnull
  · exact herased

/-- What the callers of the hook rely on here. -/
structure KeepsList (m : Option Fault) (hook : Option UInt32 → Server → Outcome Fault Server) :
    Prop where
  list : ∀ c s, Post (fun t => t.deqConnection = s.deqConnection) (hook (some c) s)
  safe : ∀ {e} c s, Dangling m e → Avoids e (hook (some c) s)

theorem findConnection_ne_error {deq : List (Option UInt32)} {id : UInt32} {e : Fault}
    (hnull : none ∉ deq) : findConnection deq id ≠ .error e := by
  induction deq with
  | nil =>
    intro h
    cases h
  | cons a deq ih =>
    cases a with
    | none => exact absurd List.mem_cons_self hnull
    | some a =>
      unfold findConnection
      split
      · intro h
        cases h
      · exact ih fun hmem => hnull (List.mem_cons_of_mem _ hmem)

theorem findConnection_of_usesNull (h : s.usesNull = false) :
    findConnection s.deqConnection s.currentPlayerID = .ok none ∨
      ∃ c, findConnection s.deqConnection s.currentPlayerID = .ok (some c) ∧
        (c ∈ s.tick.closed → none ∉ s.deqConnection) := by
  unfold usesNull at h
  split at h
  · cases h
  · exact Or.inl ‹_›
  · rename_i c hfound
    refine Or.inr ⟨c, hfound, fun hclosed hnull => ?_⟩
    rw [List.contains_iff_mem.mpr hnull, decide_eq_true hclosed] at h
    cases h

theorem usesNull_of_noNull (hnull : none ∉ s.deqConnection) : s.usesNull = false := by
  unfold usesNull
  split
  · rename_i herror
    exact absurd herror (findConnection_ne_error hnull)
  · rfl
  · have hfree : s.deqConnection.contains none = false :=
      Bool.eq_false_iff.mpr fun h => hnull (List.contains_iff_mem.mp h)
    rw [hfree, Bool.false_and]

theorem eraseNulls_deqConnection (hnull : none ∉ s.deqConnection) :
    s.eraseNulls.deqConnection = s.deqConnection := by
  apply List.filter_eq_self.mpr
  intro client hclient
  cases client with
  | none => exact absurd hclient hnull
  | some c => rfl

theorem resetTurn_deqConnection :
    Post (fun t => t.deqConnection = s.deqConnection) s.resetTurn := by
  intro t ht
  obtain ⟨player, -, rfl⟩ := resetTurn_eq_ok.mp ht
  rfl

theorem resetTurn_safe {e : Fault} (he : Dangling m e) : Avoids e s.resetTurn := by
  unfold resetTurn
  split
  · exact .of_fault (he.ne (by decide) (by decide))
  · refine .bind (.of_except ?_) fun player => .of_ok _
    intro herror
    exact he.ne (by decide) (by decide) (Player.setCurrentTurnActions_error herror).symm

theorem giveToFirst_safe {e : Fault} (he : Dangling m e) : Avoids e s.giveToFirst := by
  unfold giveToFirst
  split
  · exact .of_fault (he.ne (by decide) (by decide))
  · exact .of_ok _

theorem giveToFirst_deqConnection :
    Post (fun t => t.deqConnection = s.deqConnection) s.giveToFirst := by
  unfold giveToFirst
  split
  · exact Post.of_fault
  · exact Post.of_ok rfl

theorem aiTurn_safe {e : Fault} (he : Dangling m e) (w : GameWorld) : Avoids e (aiTurn w) :=
  aiTurn_avoids (he.ne (by decide) (by decide)).symm (he.ne (by decide) (by decide)).symm w

section Hook
variable {hook : Option UInt32 → Server → Outcome Fault Server} (hk : KeepsList m hook)
include hk

theorem messageClient_safe {e : Fault} (he : Dangling m e) (c : UInt32) (msg : Message) :
    Avoids e (messageClient hook (some c) msg s) := by
  by_cases hup : c ∈ s.tick.closed
  · rw [messageClient_closed hup]
    exact .bind (hk.safe c _ he) fun t => .of_ok _
  · rw [messageClient_open hup]
    exact .of_ok _

theorem messageClient_list {c : UInt32} (hnull : c ∈ s.tick.closed → none ∉ s.deqConnection)
    (msg : Message) :
    Post (fun t => t.deqConnection = s.deqConnection) (messageClient hook (some c) msg s) := by
  by_cases hup : c ∈ s.tick.closed
  · rw [messageClient_closed hup]
    refine Post.bind (hk.list c s.tick) fun t ht => Post.of_ok ?_
    have hsame : t.deqConnection = s.deqConnection := ht
    rw [eraseNulls_deqConnection (hsame ▸ hnull hup), hsame]
  · rw [messageClient_open hup]
    exact Post.of_ok rfl

/-- The loop of `ChooseNextPlayerForTurn` loses no entry. -/
theorem sendTurn_list (h : s.usesNull = false) :
    Post (fun t => t.deqConnection = s.deqConnection) (s.sendTurn hook) ∧
      ∀ e, Dangling m e → Avoids e (s.sendTurn hook) := by
  unfold sendTurn
  obtain hfound | ⟨c, hfound, hnull⟩ := findConnection_of_usesNull h
  · rw [hfound]
    exact ⟨Post.of_ok rfl, fun _ _ => .of_ok _⟩
  · rw [hfound]
    exact ⟨messageClient_list hk hnull _, fun e he => messageClient_safe hk he c _⟩

theorem startTurn_list (h : s.usesNull = false) :
    Post (fun t => t.deqConnection = s.deqConnection) (s.startTurn hook) ∧
      ∀ e, Dangling m e → Avoids e (s.startTurn hook) := by
  obtain ⟨hlist, hsafe⟩ := sendTurn_list hk h
  constructor
  · exact Post.bind hlist fun _ ht => resetTurn_deqConnection.mono fun _ hu => hu.trans ht
  · exact fun e he => .bind (hsafe e he) fun _ => resetTurn_safe he

omit hk in
/-- A turn of enemies without an action is no broadcast. -/
theorem makeAITurn_quiet (hquiet : aiTurnActs s.gameWorld = false) :
    Post (fun t => t.deqConnection = s.deqConnection) (s.makeAITurn hook) ∧
      ∀ e, Dangling m e → Avoids e (s.makeAITurn hook) := by
  unfold aiTurnActs at hquiet
  unfold makeAITurn
  cases hst : aiTurn s.gameWorld with
  | deep => exact ⟨Post.of_deep, fun _ _ => .of_deep⟩
  | fault e' =>
    refine ⟨Post.of_fault, fun e he => .of_fault ?_⟩
    rintro rfl
    exact aiTurn_safe he s.gameWorld hst
  | ok st =>
    rw [hst] at hquiet
    have hnil : st.enemyActions = [] := by simpa using hquiet
    simp only [Outcome.ok_bind, hnil, List.foldlM_nil, Outcome.pure_eq_ok]
    exact ⟨Post.of_ok rfl, fun _ _ => .of_ok _⟩

omit hk in
theorem passTurn_list {client : Option UInt32}
    (hquiet : ∀ c, client = some c → OrderedMap.after c s.gameWorld.playersList = [] →
      aiTurnActs s.gameWorld = false) :
    Post (fun t => t.deqConnection = s.deqConnection) (s.passTurn hook client) ∧
      ∀ e, Dangling m e → Avoids e (s.passTurn hook client) := by
  unfold passTurn
  split
  · exact ⟨giveToFirst_deqConnection, fun _ he => giveToFirst_safe he⟩
  · split
    · split
      · exact ⟨Post.of_ok rfl, fun _ _ => .of_ok _⟩
      · rename_i hlast
        obtain ⟨hlist, hsafe⟩ := makeAITurn_quiet (hquiet _ rfl hlast)
        constructor
        · exact Post.bind hlist fun t ht =>
            giveToFirst_deqConnection.mono fun _ hu => hu.trans ht
        · exact fun e he => .bind (hsafe e he) fun t => giveToFirst_safe he
    · exact ⟨Post.of_fault, fun _ he => .of_fault (he.ne (by decide) (by decide))⟩

end Hook

theorem stop_safe {α : Type} {e : Fault} (he : Dangling m e) :
    Avoids e (.stop m : Outcome Fault α) := by
  cases m with
  | none => exact .of_deep
  | some e' => exact .of_fault fun heq => he.2 (congrArg some heq)

theorem carefulChoose_list {hook : Option UInt32 → Server → Outcome Fault Server}
    (hk : KeepsList m hook) (c : UInt32) (s : Server) :
    Post (fun t => t.deqConnection = s.deqConnection) (carefulChoose m hook c s) ∧
      ∀ e, Dangling m e → Avoids e (carefulChoose m hook c s) := by
  unfold carefulChoose
  simp only
  split
  · exact ⟨Post.of_ok rfl, fun _ _ => .of_ok _⟩
  split
  · exact ⟨Post.of_stop m, fun _ he => stop_safe he⟩
  rename_i hacts
  have hquiet : ∀ c', some c = some c' →
      OrderedMap.after c' (s.log .choosing).gameWorld.playersList = [] →
      aiTurnActs (s.log .choosing).gameWorld = false := by
    intro c' heq hlast
    cases heq
    apply Bool.eq_false_iff.mpr
    exact fun hact => hacts ⟨hlast, hact⟩
  obtain ⟨hlist, hsafe⟩ := passTurn_list hquiet
  constructor
  · refine Post.bind hlist fun t ht => ?_
    split
    · exact Post.of_stop m
    · rename_i hnull
      exact (startTurn_list hk (Bool.eq_false_iff.mpr hnull)).1.mono fun _ hu => hu.trans ht
  · refine fun e he => .bind (hsafe e he) fun t => ?_
    split
    · exact stop_safe he
    · rename_i hnull
      exact (startTurn_list hk (Bool.eq_false_iff.mpr hnull)).2 e he

theorem disconnect_list {choose : Server → Outcome Fault Server} {c : UInt32}
    (h : Post (fun t => t.deqConnection = s.deqConnection) (choose s) ∧
      ∀ e, Dangling m e → Avoids e (choose s)) :
    Post (fun t => t.deqConnection = s.deqConnection) (disconnect choose c s) ∧
      ∀ e, Dangling m e → Avoids e (disconnect choose c s) := by
  obtain ⟨hlist, hsafe⟩ := h
  unfold disconnect
  split
  · split
    · constructor
      · exact Post.bind hlist fun t ht => Post.of_ok ht
      · exact fun e he => .bind (hsafe e he) fun t => .of_ok _
    · exact ⟨Post.of_ok rfl, fun _ _ => .of_ok _⟩
  · exact ⟨Post.of_ok rfl, fun _ _ => .of_ok _⟩

theorem careful_keepsList (m : Option Fault) (n : Nat) : KeepsList m (careful m n) := by
  induction n with
  | zero => exact ⟨fun _ _ => Post.of_deep, fun _ _ _ => .of_deep⟩
  | succ n ih =>
    have hlist := fun c s => disconnect_list (c := c) (carefulChoose_list ih c s)
    exact ⟨fun c s => (hlist c s).1, fun c s he => (hlist c s).2 _ he⟩

theorem careful_watched (n : Nat) (client : Option UInt32) (s : Server) :
    Below m (careful m n client s) (watched n client s) := by
  refine careful_below_of (fun _ _ => rfl) (fun _ _ => rfl) (fun n c s ih => ?_) n client s
  have hlist := (careful_keepsList m (n + 1)).list c s
  have hboth : Below m (careful m (n + 1) (some c) s >>= .ok) (watched (n + 1) (some c) s) := by
    refine .bind_post (disconnect_below (carefulChoose_below ih c s)) hlist fun t ht => ?_
    rw [if_pos ht]
    exact .refl _
  rwa [Outcome.bind_ok] at hboth

theorem messageEntry_ahead {hook : Option UInt32 → Server → Outcome Fault Server}
    (hk : KeepsList m hook) (hnull : none ∉ s.deqConnection) {msg : Message}
    {ignore : Option UInt32} {st : Server × Bool} {i : Nat} (hi : i < s.deqConnection.length)
    (hst : Ahead s i st) :
    Post (Ahead s (i + 1)) (messageEntry hook msg ignore st i) ∧
      ∀ e, Dangling m e → Avoids e (messageEntry hook msg ignore st i) := by
  obtain ⟨u, b⟩ := st
  obtain ⟨hlength, hsame⟩ := hst
  have hentry : u.deqConnection[i]? = some s.deqConnection[i] := by
    rw [hsame i (Nat.le_refl i)]
    exact List.getElem?_eq_getElem hi
  cases hclient : s.deqConnection[i] with
  | none => exact absurd (hclient ▸ List.getElem_mem hi) hnull
  | some c =>
    rw [hclient] at hentry
    by_cases hup : c ∈ u.tick.closed
    · rw [messageEntry_closed hentry hup]
      have hlist := hk.list c u.tick
      constructor
      · refine Post.bind hlist fun t ht => ?_
        have hkept : t.deqConnection = u.deqConnection := ht
        rw [if_pos (congrArg List.length hkept)]
        refine Post.of_ok ⟨?_, fun j hj => ?_⟩
        · simp only [resetAt, List.length_set, hkept, hlength]
        · have hne : i ≠ j := by omega
          simp only [resetAt, hkept]
          rw [List.getElem?_set_ne hne, hsame j (by omega)]
      · intro e he
        refine .bind_post (hk.safe c _ he) hlist fun t ht => ?_
        have hkept : t.deqConnection = u.deqConnection := ht
        rw [if_pos (congrArg List.length hkept)]
        exact .of_ok _
    · rw [messageEntry_open hentry hup]
      refine ⟨Post.of_ok ?_, fun _ _ => .of_ok _⟩
      split
      · exact ⟨hlength, fun j hj => hsame j (by omega)⟩
      · exact ⟨hlength, fun j hj => hsame j (by omega)⟩

theorem messageAllClients_safe {hook : Option UInt32 → Server → Outcome Fault Server}
    (hk : KeepsList m hook) {e : Fault} (he : Dangling m e) (hnull : none ∉ s.deqConnection)
    (msg : Message) (ignore : Option UInt32) : Avoids e (messageAllClients hook msg ignore s) := by
  refine .bind (.foldlM_range (I := Ahead s) ⟨rfl, fun _ _ => rfl⟩ ?_) fun st => .of_ok _
  intro i st hi hst
  obtain ⟨hahead, hsafe⟩ := messageEntry_ahead hk hnull hi hst
  exact ⟨hsafe e he, hahead⟩

end Server

end AsciiTerra
