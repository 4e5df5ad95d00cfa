import AsciiTerra.AITurn

/-!
# What one action, one enemy and the whole turn can change

Each function of the turn of the enemies has one lemma here that says what it does to
the world; the invariants are read off these.
-/

set_option autoImplicit false

namespace AsciiTerra

/-- What an enemy stays through its own actions and those of others. -/
def Enemy.Turned (e e' : Enemy) : Prop := e.Kept e' ∧ e'.coords.z = e.coords.z

namespace Enemy

theorem Turned.refl (e : Enemy) : e.Turned e := ⟨.refl e, rfl⟩

theorem Turned.trans (a b c : Enemy) (h : a.Turned b) (h' : b.Turned c) : a.Turned c :=
  ⟨Kept.trans a b c h.1 h'.1, h'.2.trans h.2⟩

theorem KeptInPlace.turned {e e' : Enemy} (h : e.KeptInPlace e') : e.Turned e' :=
  ⟨h.1, by rw [h.2]⟩

end Enemy

namespace GameWorld

def AllArmed (w : GameWorld) : Prop := ∀ e ∈ w.enemyList, e.Armed

def PlayersOnGround (w : GameWorld) : Prop := ∀ e ∈ w.playersList.entries, e.2.coords.z = 0

def EnemiesOnGround (w : GameWorld) : Prop := ∀ e ∈ w.enemyList, e.coords.z = 0

/-- The effect that actions of enemies can have on the world. -/
structure AIRelated (w w' : GameWorld) : Prop where
  enemies : List.Forall₂ Enemy.Turned w.enemyList w'.enemyList
  players : KeysAreIDs w.playersList →
    OrderedMap.Related Player.Hurt w.playersList w'.playersList
  ground : w.PlayersOnGround → w'.PlayersOnGround
  map : w'.gameWorldMap = w.gameWorldMap

end GameWorld

theorem KeysAreIDs.hurt {ps ps' : PlayersList} (h : KeysAreIDs ps)
    (hr : OrderedMap.Related Player.Hurt ps ps') : KeysAreIDs ps' :=
  hr.forall_entries (P := fun k p => p.id = k)
    (fun k p p' hp hk => by rw [hp]; exact hk) h

namespace GameWorld.AIRelated
variable {w w' w'' : GameWorld}

theorem refl (w : GameWorld) : AIRelated w w where
  enemies := List.forall₂_same.mpr fun e _ => .refl e
  players _ := .refl Player.Hurt.refl w.playersList
  ground hg := hg
  map := rfl

theorem trans (h : AIRelated w w') (h' : AIRelated w' w'') : AIRelated w w'' where
  enemies := List.Forall₂.trans_of Enemy.Turned.trans h.enemies h'.enemies
  players hk := (h.players hk).trans Player.Hurt.trans (h'.players (hk.hurt (h.players hk)))
  ground hg := h'.ground (h.ground hg)
  map := h'.map.trans h.map

theorem length_eq (h : AIRelated w w') : w'.enemyList.length = w.enemyList.length :=
  h.enemies.length_eq.symm

theorem keysAreIDs (h : AIRelated w w') (hk : KeysAreIDs w.playersList) :
    KeysAreIDs w'.playersList :=
  hk.hurt (h.players hk)

theorem forall_enemies (h : AIRelated w w') {P : Enemy → Prop}
    (hP : ∀ e e', e.Turned e' → P e → P e') (hw : ∀ e ∈ w.enemyList, P e) :
    ∀ e ∈ w'.enemyList, P e :=
  h.enemies.forall_mem hP hw

theorem allArmed (h : AIRelated w w') (ha : w.AllArmed) : w'.AllArmed :=
  h.forall_enemies (fun _ _ ht he => ht.1.armed he) ha

theorem enemiesOnGround (h : AIRelated w w') (hg : w.EnemiesOnGround) : w'.EnemiesOnGround :=
  h.forall_enemies (fun _ _ ht he => ht.2.trans he) hg

end GameWorld.AIRelated

namespace GameWorld

theorem strike_playersOnGround {damage : UInt32} {t : AttackTarget} {w : GameWorld}
    (h : w.PlayersOnGround) : (w.strike damage t).PlayersOnGround := by
  have go : ∀ (ids : List UInt32) (ps : PlayersList), (∀ e ∈ ps.entries, e.2.coords.z = 0) →
      ∀ e ∈ (ids.foldl (fun ps id => OrderedMap.modifyOrInsert Player.default id
        (Player.takeDamage damage) ps) ps).entries, e.2.coords.z = 0 := by
    intro ids
    induction ids with
    | nil => exact fun _ hps => hps
    | cons id ids ih =>
      intro ps hps
      exact ih _ (OrderedMap.forall_modifyOrInsert (P := fun p : Player => p.coords.z = 0)
        rfl (fun p hp => hp) hps)
  exact go t.playerIDs w.playersList h

theorem attack_related {w w' : GameWorld} {i : Nat} {enemy : Enemy} {action : EnemyAction}
    (he : w.enemyList[i]? = some enemy) (harmed : enemy.Armed)
    (ha : EEnemyActionType.ofCode action.actionType = some .enemyBaseAttack)
    (h : w.makeEnemyAction i action = .ok w') :
    AIRelated w w' ∧ List.Forall₂ Enemy.KeptInPlace w.enemyList w'.enemyList := by
  obtain ⟨damage, inventory, hact, hkept⟩ := makeEnemyAction_attack he harmed ha
  cases hact.symm.trans h
  have hplace : List.Forall₂ Enemy.KeptInPlace w.enemyList
      ((w.modifyEnemy i fun e => { e with inventory := inventory }).strike damage
        (w.enemyFindAttackTarget enemy action)).enemyList := by
    refine List.Forall₂.trans_of Enemy.KeptInPlace.trans
      (List.forall₂_modify Enemy.KeptInPlace.refl fun e hi => ?_)
      (strike_enemies damage (w.enemyFindAttackTarget enemy action)
        (w.modifyEnemy i fun e => { e with inventory := inventory }))
    cases he.symm.trans hi
    exact ⟨⟨rfl, rfl, rfl, rfl, hkept, fun h => h⟩, rfl⟩
  refine ⟨⟨hplace.imp fun _ _ hp => hp.turned, fun hk => ?_, fun hg => ?_, rfl⟩, hplace⟩
  · exact strike_players (enemyFindAttackTarget_subset hk enemy action)
  · exact strike_playersOnGround hg

end GameWorld

/-- What the loop body decides: an action of the enemy in the plane. -/
theorem decideAction_cases {id : UInt32} {t c t' : CoordVec} {action : EnemyAction}
    (h : decideAction id t c = some (action, t')) :
    (∃ x y, action = enemyAction .enemyMove id x y) ∨
    (∃ x y, action = enemyAction .enemyBaseAttack id x y ∧ t' = t) := by
  unfold decideAction at h
  simp only at h
  split at h
  · split at h
    · cases h
      exact Or.inl ⟨_, _, rfl⟩
    · split at h
      · cases h
        exact Or.inl ⟨_, _, rfl⟩
      · cases h
  · cases h
    exact Or.inr ⟨_, _, rfl, rfl⟩

@[simp] theorem ofCode_enemyAction (type : EEnemyActionType) (id : UInt32) (x y : Int16) :
    EEnemyActionType.ofCode (enemyAction type id x y).actionType = some type := by
  cases type <;> rfl

@[simp] theorem direction_enemyAction (type : EEnemyActionType) (id : UInt32) (x y : Int16) :
    direction (enemyAction type id x y).actionInfo = ⟨x, y, 0⟩ := rfl

/-- The step lemma of the `while` loop: an armed enemy either does nothing for ever or
takes one action, which succeeds. -/
theorem aiIteration_cases {i : Nat} (id : UInt32) {st : AILoop} {enemy : Enemy}
    (he : st.world.enemyList[i]? = some enemy) (harmed : enemy.Armed) :
    (decideAction id st.targetCoords enemy.coords = none ∧ aiIteration i id st = .ok st) ∨
    (∃ action t w, decideAction id st.targetCoords enemy.coords = some (action, t) ∧
      st.world.makeEnemyAction i action = .ok w ∧ st.world.AIRelated w ∧
      aiIteration i id st = .ok ⟨w, t, st.leftedAction - 1, st.enemyActions ++ [action]⟩) := by
  cases hd : decideAction id st.targetCoords enemy.coords with
  | none => exact Or.inl ⟨rfl, by simp only [aiIteration, he, hd]⟩
  | some r =>
    obtain ⟨action, t⟩ := r
    have hact : ∃ w, st.world.makeEnemyAction i action = .ok w ∧ st.world.AIRelated w := by
      rcases decideAction_cases hd with ⟨x, y, rfl⟩ | ⟨x, y, rfl, -⟩
      · refine ⟨_, GameWorld.makeEnemyAction_move he (ofCode_enemyAction ..), ?_⟩
        refine ⟨List.forall₂_modify Enemy.Turned.refl fun e _ => ?_, fun _ => ?_,
          fun hg => hg, rfl⟩
        · exact ⟨⟨rfl, rfl, rfl, rfl, rfl, fun h => h⟩, by simp⟩
        · exact .refl Player.Hurt.refl _
      · obtain ⟨damage, inventory, hw, _⟩ :=
          GameWorld.makeEnemyAction_attack he harmed (ofCode_enemyAction .enemyBaseAttack id x y)
        exact ⟨_, hw, (GameWorld.attack_related he harmed (ofCode_enemyAction ..) hw).1⟩
    obtain ⟨w, hw, hrel⟩ := hact
    exact Or.inr ⟨action, t, w, rfl, hw, hrel, by simp only [aiIteration, he, hd, hw, except_ok_bind]⟩

theorem aiWhile_zero_left {i : Nat} {id : UInt32} {n : Nat} {st : AILoop}
    (h : st.leftedAction = 0) : aiWhile i id (n + 1) st = .ok st := by
  simp [aiWhile, h]

theorem aiWhile_step {i : Nat} {id : UInt32} {st st' : AILoop} (h : st.leftedAction ≠ 0)
    (hst : aiIteration i id st = .ok st') (n : Nat) :
    aiWhile i id (n + 1) st = aiWhile i id n st' := by
  simp [aiWhile, h, hst]

theorem aiWhile_mono {i : Nat} {id : UInt32} {n m : Nat} {st st' : AILoop} (hnm : n ≤ m)
    (h : aiWhile i id n st = .ok st') : aiWhile i id m st = .ok st' := by
  induction n generalizing m st with
  | zero => simp [aiWhile] at h
  | succ n ih =>
    obtain ⟨m, rfl⟩ := Nat.exists_eq_add_of_le' (Nat.le_trans (Nat.succ_pos n) hnm)
    unfold aiWhile at h ⊢
    split
    · rename_i hz
      simpa [hz] using h
    · rename_i hz
      rw [if_neg hz] at h
      obtain ⟨st1, hst1, h1⟩ := Outcome.bind_eq_ok.mp h
      rw [hst1, Outcome.ok_bind]
      exact ih (Nat.le_of_succ_le_succ hnm) h1

theorem aiWhile_related {i : Nat} {id : UInt32} {n : Nat} {st st' : AILoop}
    (harmed : st.world.AllArmed) (h : aiWhile i id n st = .ok st') :
    st.world.AIRelated st'.world := by
  induction n generalizing st with
  | zero => simp [aiWhile] at h
  | succ n ih =>
    by_cases hz : st.leftedAction = 0
    · cases (aiWhile_zero_left hz).symm.trans h
      exact .refl _
    · cases he : st.world.enemyList[i]? with
      | none => simp [aiWhile, hz, aiIteration, he] at h
      | some enemy =>
        rcases aiIteration_cases id he (harmed enemy (List.mem_of_getElem? he)) with
          ⟨_, hit⟩ | ⟨action, t, w, _, _, hrel, hit⟩
        · rw [aiWhile_step hz hit] at h
          exact ih harmed h
        · rw [aiWhile_step hz hit] at h
          exact hrel.trans (ih (hrel.allArmed harmed) h)

theorem reequip_armed {e : Enemy} (h : e.Armed) : reequip e = .ok e := by
  obtain ⟨slot, hslot, hempty⟩ := h
  have hne : e.equipedItemID ≠ invalidID := by
    intro heq
    rw [heq, Vector.getElem?_eq_none (by decide)] at hslot
    exact nomatch hslot
  simp [reequip, hne, hslot, hempty]

theorem modify_eq_self {l : List Enemy} {i : Nat} {e : Enemy} (h : l[i]? = some e) :
    (l.modify i fun _ => e) = l := by
  apply List.ext_getElem?
  intro j
  rw [List.getElem?_modify]
  by_cases hij : i = j
  · subst i
    simp [h]
  · simp [hij]

/-- The step lemma of the loop over `EnemyList`: an armed enemy is dead, has nothing to
attack, or runs the `while` loop. -/
theorem enemyTurn_cases {st : AITurn} {i : Nat} {enemy : Enemy}
    (he : st.world.enemyList[i]? = some enemy) (harmed : enemy.Armed) :
    (enemy.hp = 0 ∧ ∀ n, enemyTurn n st i = .ok { st with enemyListDirt := true }) ∨
    (enemy.hp ≠ 0 ∧ (chooseTarget st.world enemy).bestAttackCandidate = invalidID ∧
      ∀ n, enemyTurn n st i = .ok { st with activeEnemyID := st.activeEnemyID + 1 }) ∨
    (enemy.hp ≠ 0 ∧ (chooseTarget st.world enemy).bestAttackCandidate ≠ invalidID ∧
      ∀ n, enemyTurn n st i = (do
        let loop ← aiWhile i st.activeEnemyID n ⟨st.world,
          (chooseTarget st.world enemy).targetCoords, enemy.maxActions, st.enemyActions⟩
        .ok ⟨loop.world, st.activeEnemyID + 1, st.enemyListDirt, loop.enemyActions⟩)) := by
  have hworld : (st.world.modifyEnemy i fun _ => enemy) = st.world := by
    simp [GameWorld.modifyEnemy, modify_eq_self he]
  by_cases hhp : enemy.hp = 0
  · exact Or.inl ⟨hhp, fun n => by simp only [enemyTurn, he, hhp, if_true]⟩
  by_cases hcand : (chooseTarget st.world enemy).bestAttackCandidate = invalidID
  · refine Or.inr (Or.inl ⟨hhp, hcand, fun n => ?_⟩)
    simp [enemyTurn, he, hhp, reequip_armed harmed, hworld, hcand]
  · refine Or.inr (Or.inr ⟨hhp, hcand, fun n => ?_⟩)
    simp [enemyTurn, he, hhp, reequip_armed harmed, hworld, hcand]

theorem enemyTurn_related {n : Nat} {st st' : AITurn} {i : Nat} (harmed : st.world.AllArmed)
    (h : enemyTurn n st i = .ok st') : st.world.AIRelated st'.world := by
  cases he : st.world.enemyList[i]? with
  | none => simp [enemyTurn, he] at h
  | some enemy =>
    rcases enemyTurn_cases he (harmed enemy (List.mem_of_getElem? he)) with
      ⟨_, ht⟩ | ⟨_, _, ht⟩ | ⟨_, _, ht⟩
    · cases (ht n).symm.trans h
      exact .refl _
    · cases (ht n).symm.trans h
      exact .refl _
    · rw [ht n] at h
      obtain ⟨loop, hloop, h⟩ := Outcome.bind_eq_ok.mp h
      cases h
      exact @aiWhile_related _ _ _ ⟨_, _, _, _⟩ _ harmed hloop

theorem enemyTurn_mono {n m : Nat} {st st' : AITurn} {i : Nat} (hnm : n ≤ m)
    (h : enemyTurn n st i = .ok st') : enemyTurn m st i = .ok st' := by
  unfold enemyTurn at h ⊢
  cases he : st.world.enemyList[i]? with
  | none => simp [he] at h
  | some enemy =>
    simp only [he] at h ⊢
    split
    · rename_i hz
      simpa [hz] using h
    · rename_i hz
      rw [if_neg hz] at h
      obtain ⟨enemy', hre, h⟩ := Outcome.bind_eq_ok.mp h
      rw [hre, Outcome.ok_bind]
      split
      · rename_i hc
        simpa [hc] using h
      · rename_i hc
        rw [if_neg hc] at h
        obtain ⟨loop, hloop, h⟩ := Outcome.bind_eq_ok.mp h
        rw [aiWhile_mono hnm hloop, Outcome.ok_bind]
        exact h

theorem enemyTurns_succ (n : Nat) (w : GameWorld) (k : Nat) :
    enemyTurns n w (k + 1) = (enemyTurns n w k >>= fun st => enemyTurn n st k) := by
  simp only [enemyTurns, List.range_succ, List.foldlM_append, List.foldlM_cons, List.foldlM_nil,
    bind_pure]

theorem enemyTurns_mono {n m : Nat} {w : GameWorld} {k : Nat} {st : AITurn} (hnm : n ≤ m)
    (h : enemyTurns n w k = .ok st) : enemyTurns m w k = .ok st := by
  induction k generalizing st with
  | zero => exact h
  | succ k ih =>
    rw [enemyTurns_succ] at h ⊢
    obtain ⟨st1, h1, h2⟩ := Outcome.bind_eq_ok.mp h
    rw [ih h1, Outcome.ok_bind]
    exact enemyTurn_mono hnm h2

theorem enemyTurns_related {n : Nat} {w : GameWorld} {k : Nat} {st : AITurn}
    (harmed : w.AllArmed) (h : enemyTurns n w k = .ok st) : w.AIRelated st.world := by
  induction k generalizing st with
  | zero =>
    cases h
    exact .refl w
  | succ k ih =>
    rw [enemyTurns_succ] at h
    obtain ⟨st1, h1, h2⟩ := Outcome.bind_eq_ok.mp h
    exact (ih h1).trans (enemyTurn_related ((ih h1).allArmed harmed) h2)

end AsciiTerra
