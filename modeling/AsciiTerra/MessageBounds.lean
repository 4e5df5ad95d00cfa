import AsciiTerra.Server

/-!
# Bodies that are too short

The record a handler pops is chosen by the id of the message, its length by the peer, and
nothing compares the two. No other operation of the server has this fault, so the bodies
that `OnMessage` survives are exactly the long enough ones.
-/

set_option autoImplicit false

namespace AsciiTerra

/-- A computation that does not pop a record. -/
def PopFree {α : Type} (x : Except Fault α) : Prop := x ≠ .error .shortBody

theorem PopFree.bind {α β : Type} {x : Except Fault α} {f : α → Except Fault β} (hx : PopFree x)
    (hf : ∀ a, PopFree (f a)) : PopFree (x >>= f) := by
  cases x with
  | ok a => exact hf a
  | error e =>
    rw [except_error_bind]
    exact fun h => hx (by rw [Except.error.inj h])

theorem PopFree.of_ok {α : Type} (a : α) : PopFree (.ok a) := fun h => nomatch h

theorem except_bind_eq_error {ε α β : Type} {x : Except ε α} {f : α → Except ε β} {e : ε} :
    (x >>= f) = .error e ↔ x = .error e ∨ ∃ a, x = .ok a ∧ f a = .error e := by
  cases x <;> simp

theorem GameWorld.playerAt_error {w : GameWorld} {id : UInt32} {e : Fault}
    (h : w.playerAt id = .error e) : e = .outOfRange := by
  unfold GameWorld.playerAt at h
  split at h
  · cases h
  · exact (Except.error.inj h).symm

theorem Player.setCurrentTurnActions_error {p : Player} {turnActions : UInt32} {e : Fault}
    (h : p.setCurrentTurnActions turnActions = .error e) : e = .assertion := by
  unfold Player.setCurrentTurnActions at h
  split at h
  · cases h
  · exact (Except.error.inj h).symm

theorem Map.tileAt_error {m : Map} {x y : Int16} {e : Fault} (h : m.tileAt x y = .error e) :
    e = .assertion := by
  unfold Map.tileAt at h
  split at h
  · exact (Except.error.inj h).symm
  · cases h

theorem Inventory.attack_error {inv : Inventory} {id : UInt32} {e : Fault}
    (h : inv.attack id = .error e) : e = .assertion := by
  unfold Inventory.attack at h
  split at h
  · exact (Except.error.inj h).symm
  · split at h
    · exact nomatch h
    · split at h
      · exact nomatch h
      · split at h
        · split at h
          · exact nomatch h
          · split at h
            · exact (Except.error.inj h).symm
            · exact nomatch h
        · exact nomatch h

namespace GameWorld

theorem attackOf_error {w : GameWorld} {id : UInt32} {action : PlayerAction} {e : Fault}
    (h : w.attackOf id action = .error e) : e = .outOfRange ∨ e = .assertion := by
  obtain h | ⟨player, -, h⟩ := except_bind_eq_error.mp h
  · exact Or.inl (playerAt_error h)
  obtain h | ⟨player', -, h⟩ := except_bind_eq_error.mp h
  · exact Or.inl (playerAt_error h)
  obtain h | ⟨r, -, h⟩ := except_bind_eq_error.mp h
  · exact Or.inr (Inventory.attack_error h)
  cases r with
  | none => cases h
  | some r => cases h

theorem makeApprovedAction_error {w : GameWorld} {id : UInt32} {action : PlayerAction} {e : Fault}
    (h : w.makeApprovedAction id action = .error e) : e = .outOfRange ∨ e = .assertion := by
  obtain hact | ⟨w', -, h⟩ := except_bind_eq_error.mp h
  · unfold actOf at hact
    split at hact
    · exact attackOf_error hact
    · exact attackOf_error hact
    · cases hact
  obtain h | ⟨player, -, h⟩ := except_bind_eq_error.mp h
  · exact Or.inl (playerAt_error h)
  obtain h | ⟨player', -, h⟩ := except_bind_eq_error.mp h
  · exact Or.inr (Player.setCurrentTurnActions_error h)
  cases h

theorem makeEnemyAction_error {w : GameWorld} {i : Nat} {action : EnemyAction} {e : Fault}
    (h : w.makeEnemyAction i action = .error e) : e = .assertion ∨ e = .badIndex := by
  unfold makeEnemyAction at h
  split at h
  · exact Or.inr (Except.error.inj h).symm
  · rename_i enemy henemy
    split at h
    · cases h
    · simp only [enemyMakeAttack, henemy] at h
      cases hattack : enemy.inventory.attack enemy.equipedItemID with
      | error e' =>
        rw [hattack] at h
        cases h
        exact Or.inl (Inventory.attack_error hattack)
      | ok r =>
        rw [hattack] at h
        cases r with
        | none => cases h
        | some r => cases h
    · cases h

end GameWorld

theorem checkPlayerAction_error {w : GameWorld} {action : PlayerAction} {e : Fault}
    (h : checkPlayerAction w action = .error e) : e = .outOfRange ∨ e = .assertion := by
  obtain h | ⟨player, -, h⟩ := except_bind_eq_error.mp h
  · exact Or.inl (GameWorld.playerAt_error h)
  split at h
  · cases h
  · split at h
    · cases h
    · simp only at h
      split at h
      · cases h
      · obtain h | ⟨tile, -, h⟩ := except_bind_eq_error.mp h
        · exact Or.inr (Map.tileAt_error h)
        · cases h
    · cases h

theorem Server.approves_error {s : Server} {c : UInt32} {action : PlayerAction} {e : Fault}
    (h : s.approves c action = .error e) : e = .outOfRange ∨ e = .assertion := by
  unfold approves at h
  split at h
  · split at h
    · cases h
    · split at h
      · exact checkPlayerAction_error h
      · cases h
  · cases h

open Outcome (Avoids)

theorem aiWhile_avoids {e : Fault} (ha : e ≠ .assertion) (hb : e ≠ .badIndex) (i : Nat)
    (id : UInt32) (n : Nat) (st : AILoop) : Avoids e (aiWhile i id n st) := by
  induction n generalizing st with
  | zero => exact .of_deep
  | succ n ih =>
    unfold aiWhile
    split
    · exact .of_ok _
    · refine .bind (.of_except ?_) fun st' => ih st'
      intro h
      unfold aiIteration at h
      split at h
      · exact hb (Except.error.inj h).symm
      · split at h
        · exact nomatch h
        · rename_i action targetCoords hdecide
          cases hact : st.world.makeEnemyAction i action with
          | error e' =>
            rw [hact] at h
            cases h
            exact (GameWorld.makeEnemyAction_error hact).elim ha hb
          | ok w =>
            rw [hact] at h
            exact nomatch h

theorem enemyTurn_avoids {e : Fault} (ha : e ≠ .assertion) (hb : e ≠ .badIndex) (n : Nat)
    (st : AITurn) (i : Nat) : Avoids e (enemyTurn n st i) := by
  unfold enemyTurn
  split
  · exact .of_fault hb.symm
  · split
    · exact .of_ok _
    · refine .bind (.of_except ?_) fun enemy => ?_
      · unfold reequip
        simp only
        split
        · exact fun h => nomatch h
        · split
          · exact fun h => ha (Except.error.inj h).symm
          · exact fun h => nomatch h
      · simp only
        split
        · exact .of_ok _
        · exact .bind (aiWhile_avoids ha hb _ _ _ _) fun loop => .of_ok _

theorem aiTurn_avoids {e : Fault} (ha : e ≠ .assertion) (hb : e ≠ .badIndex) (w : GameWorld) :
    Avoids e (aiTurn w) :=
  Avoids.foldlM (fun st i => enemyTurn_avoids ha hb _ st i) _ _

namespace Server

section Hook
variable {hook : Option UInt32 → Server → Outcome Fault Server}
variable (hh : ∀ client s, Avoids .shortBody (hook client s))
include hh

theorem messageClient_avoids (client : Option UInt32) (msg : Message) (s : Server) :
    Avoids .shortBody (messageClient hook client msg s) := by
  unfold messageClient
  simp only
  split
  · exact .of_ok _
  · exact .bind (hh _ _) fun s' => .of_ok _

theorem messageAllClients_avoids (msg : Message) (ignore : Option UInt32) (s : Server) :
    Avoids .shortBody (messageAllClients hook msg ignore s) := by
  refine .bind (.foldlM (fun st i => ?_) _ _) fun st => .of_ok _
  unfold messageEntry
  split
  · exact .of_fault (by decide)
  · simp only
    split
    · exact .of_ok _
    · refine .bind (hh _ _) fun s' => ?_
      split
      · exact .of_ok _
      · exact .of_fault (by decide)

theorem makeAITurn_avoids (s : Server) : Avoids .shortBody (s.makeAITurn hook) := by
  refine .bind (aiTurn_avoids (by decide) (by decide) _) fun st => ?_
  refine .bind (.foldlM (fun s' action => ?_) _ _) fun s' => .of_ok _
  exact messageAllClients_avoids hh _ _ _

omit hh in
theorem resetTurn_avoids (s : Server) : Avoids .shortBody s.resetTurn := by
  unfold resetTurn
  split
  · exact .of_fault (by decide)
  · refine .bind (.of_except ?_) fun player => .of_ok _
    unfold Player.setCurrentTurnActions
    split
    · exact fun h => nomatch h
    · exact fun h => nomatch h

omit hh in
theorem findConnection_error {deq : List (Option UInt32)} {id : UInt32} {e : Fault}
    (h : findConnection deq id = .error e) : e = .nullConnection := by
  induction deq with
  | nil => exact nomatch h
  | cons client deq ih =>
    cases client with
    | none => exact (Except.error.inj h).symm
    | some c =>
      unfold findConnection at h
      split at h
      · exact nomatch h
      · exact ih h

omit hh in
theorem giveToFirst_avoids (s : Server) : Avoids .shortBody s.giveToFirst := by
  unfold giveToFirst
  split
  · exact .of_fault (by decide)
  · exact .of_ok _

theorem chooseNextPlayerForTurn_avoids (client : Option UInt32) (s : Server) :
    Avoids .shortBody (s.chooseNextPlayerForTurn hook client) := by
  unfold chooseNextPlayerForTurn
  simp only
  split
  · exact .of_ok _
  · refine .bind ?_ fun s' => ?_
    · unfold passTurn
      split
      · exact giveToFirst_avoids _
      · split
        · split
          · exact .of_ok _
          · exact .bind (makeAITurn_avoids hh _) fun s' => giveToFirst_avoids _
        · exact .of_fault (by decide)
    · refine .bind ?_ fun s'' => resetTurn_avoids s''
      unfold sendTurn
      split
      · rename_i e heq
        rw [findConnection_error heq]
        exact .of_fault (by decide)
      · exact .of_ok _
      · exact messageClient_avoids hh _ _ _

end Hook

theorem onClientDisconnect_avoids (n : Nat) (client : Option UInt32) (s : Server) :
    Avoids .shortBody (onClientDisconnect n client s) := by
  induction n generalizing client s with
  | zero => exact .of_deep
  | succ n ih =>
    cases client with
    | none => exact .of_fault (by decide)
    | some c =>
      unfold onClientDisconnect
      split
      · refine .bind ?_ fun s' => .of_ok _
        split
        · exact chooseNextPlayerForTurn_avoids ih _ _
        · exact .of_ok _
      · exact .of_ok _

/-- `sizeof` of the record that `OnMessage` pops for a message id. -/
def neededBytes (id : UInt32) : Nat :=
  match ECustomMetaMSG.ofCode id with
  | some .clientRegisterOnServer => Layout.player.size
  | some .serverGamePlayerActionApprove => Layout.playerAction.size
  | _ => 0

section Hook
variable {hook : Option UInt32 → Server → Outcome Fault Server}
variable (hh : ∀ client s, Avoids .shortBody (hook client s))
include hh

theorem register_avoids (chance : Chance) (c : UInt32) {msg : Message} (s : Server)
    (h : Layout.player.size ≤ msg.body.length) :
    Avoids .shortBody (s.register hook chance c msg) := by
  obtain ⟨r, hr⟩ := Message.pop_eq_ok_iff.mpr h
  unfold register
  simp only [hr, Outcome.ofExcept_ok, Outcome.ok_bind]
  refine .bind (.of_except ?_) fun p => ?_
  · exact PopFree.bind (.of_ok _) fun p' => PopFree.bind (.of_ok _) fun p'' => .of_ok _
  · refine .bind ?_ fun s' => ?_
    · refine .bind (messageClient_avoids hh _ _ _) fun s' => ?_
      refine .bind (messageClient_avoids hh _ _ _) fun s' => ?_
      refine .bind (.foldlM (fun s'' i => ?_) _ _) fun s' => ?_
      · unfold sendEnemy
        split
        · exact .of_fault (by decide)
        · exact messageClient_avoids hh _ _ _
      refine .bind (messageAllClients_avoids hh _ _ _) fun s' => ?_
      refine .foldlM (fun s'' key => ?_) _ _
      unfold sendOtherPlayer
      split
      · exact .of_ok _
      · split
        · exact .of_ok _
        · refine .bind (messageClient_avoids hh _ _ _) fun s3 => ?_
          split
          · exact .of_ok _
          · exact .of_fault (by decide)
    · split
      · exact chooseNextPlayerForTurn_avoids hh _ _
      · exact .of_ok _

theorem actionApprove_avoids (c : UInt32) {msg : Message} (s : Server)
    (h : Layout.playerAction.size ≤ msg.body.length) :
    Avoids .shortBody (s.actionApprove hook c msg) := by
  obtain ⟨r, hr⟩ := Message.pop_eq_ok_iff.mpr h
  have happroves : s.approves c r.1 ≠ .error .shortBody := by
    intro herror
    rcases approves_error herror with h | h
    · cases h
    · cases h
  have hacts : s.gameWorld.makeApprovedAction c r.1 ≠ .error .shortBody := by
    intro herror
    rcases GameWorld.makeApprovedAction_error herror with h | h
    · cases h
    · cases h
  unfold actionApprove
  simp only [hr, Outcome.ofExcept_ok, Outcome.ok_bind]
  refine .bind (.of_except happroves) fun approved => ?_
  split
  · refine .bind (.of_except hacts) fun w => ?_
    refine .bind (messageAllClients_avoids hh _ _ _) fun s' => ?_
    split
    · exact .of_fault (by decide)
    · split
      · refine .bind (messageClient_avoids hh _ _ _) fun s' => ?_
        refine .bind (chooseNextPlayerForTurn_avoids hh _ _) fun s' => ?_
        exact messageAllClients_avoids hh _ _ _
      · exact .of_ok _
  · exact messageClient_avoids hh _ _ _

theorem flushGarbage_avoids (s : Server) : Avoids .shortBody (s.flushGarbage hook) := by
  refine .bind (.foldlM (fun s' pid => ?_) _ _) fun s' => .of_ok _
  refine .bind (messageAllClients_avoids hh _ _ _) fun s'' => ?_
  split
  · exact .of_ok _
  · exact .of_fault (by decide)

theorem handleMessage_avoids (chance : Chance) (c : UInt32) {msg : Message} (s : Server)
    (h : neededBytes msg.header.id ≤ msg.body.length) :
    Avoids .shortBody (s.handleMessage hook chance c msg) := by
  unfold neededBytes at h
  unfold handleMessage
  split
  · rename_i heq
    rw [heq] at h
    exact register_avoids hh chance c s h
  · rename_i heq
    rw [heq] at h
    exact actionApprove_avoids hh c s h
  · exact messageAllClients_avoids hh _ _ _
  · exact .of_ok _
  · split
    · exact messageAllClients_avoids hh _ _ _
    · exact .of_fault (by decide)
  · exact .of_ok _

omit hh in
/-- The pop comes first and nothing guards it. -/
theorem handleMessage_of_short (chance : Chance) (c : UInt32) {msg : Message} (s : Server)
    (h : msg.body.length < neededBytes msg.header.id) :
    s.handleMessage hook chance c msg = .fault .shortBody := by
  have hpop : ∀ {α : Type} (layout : Codec α), msg.body.length < layout.size →
      msg.pop layout = .error .shortBody :=
    fun layout hlt => if_neg (Nat.not_le.mpr hlt)
  unfold neededBytes at h
  unfold handleMessage
  split at h
  · rename_i heq
    simp only [heq, register, hpop Layout.player h, Outcome.ofExcept_error, Outcome.fault_bind]
  · rename_i heq
    simp only [heq, actionApprove, hpop Layout.playerAction h, Outcome.ofExcept_error,
      Outcome.fault_bind]
  · exact absurd h (Nat.not_lt_zero _)

end Hook

/-- `OnMessage` is safe and rejects what is too short if and only if nothing is too short. -/
theorem onMessage_safe_iff (s : Server) (n : Nat) (chance : Chance) (c : UInt32)
    (msg : Message) :
    (s.onMessage (onClientDisconnect n) chance c msg ≠ .fault .shortBody ∧
      (msg.body.length < neededBytes msg.header.id →
        ∃ s', s.onMessage (onClientDisconnect n) chance c msg = .ok s' ∧
          s'.gameWorld.playersList = s.gameWorld.playersList ∧
          s'.gameWorld.enemyList = s.gameWorld.enemyList ∧
          s'.currentPlayerID = s.currentPlayerID)) ↔
      neededBytes msg.header.id ≤ msg.body.length := by
  have hh := onClientDisconnect_avoids n
  constructor
  · rintro ⟨-, hreject⟩
    by_contra hshort
    have hlt := Nat.not_le.mp hshort
    obtain ⟨s', hs', -⟩ := hreject hlt
    obtain ⟨s1, -, h1⟩ := Outcome.bind_eq_ok.mp hs'
    rw [handleMessage_of_short chance c s1 hlt] at h1
    exact nomatch h1
  · intro hlong
    refine ⟨?_, fun hlt => absurd hlong (Nat.not_le.mpr hlt)⟩
    exact Avoids.bind (flushGarbage_avoids hh s) fun s' =>
      handleMessage_avoids hh chance c s' hlong

/-- `rand` always gives zero, and a new player is the first entry. -/
def Chance.zero : Chance := ⟨fun _ => 0, .same _⟩

def oneClient : Server := (start (fun _ => 0) (fun _ => 0) fun _ => []).accept

theorem oneClient_reachable : oneClient.Reachable :=
  ⟨_, _, _, [.accept], rfl⟩

/-- A registration without a record. -/
theorem onMessage_empty_registration : oneClient.Reachable ∧ oneClient.Accepted 10000 ∧
    ∀ n, oneClient.onMessage (onClientDisconnect n) Chance.zero 10000
      (.ofID .clientRegisterOnServer) = .fault .shortBody :=
  ⟨oneClient_reachable, by decide, fun _ => rfl⟩

end Server

end AsciiTerra
