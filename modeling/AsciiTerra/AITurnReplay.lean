import AsciiTerra.AITurnTermination
import AsciiTerra.Agreement

/-!
# Replaying the turn of the enemies

A client handles every broadcast action on the enemy its `EnemyID` names. The server
counts `ActiveEnemyID` over the enemies that are not dead, so the index is that of the
acting enemy only while none before it is.
-/

set_option autoImplicit false

namespace AsciiTerra

/-- A client's `MakeEnemyAction(EnemyList.at(action.EnemyID), action)` for each action. -/
def replay (w : GameWorld) (actions : List EnemyAction) : Except Fault GameWorld :=
  actions.foldlM (fun w action => w.makeEnemyAction action.enemyID.toNat action) w

@[simp] theorem replay_nil (w : GameWorld) : replay w [] = .ok w := rfl

theorem replay_cons (w : GameWorld) (a : EnemyAction) (as : List EnemyAction) :
    replay w (a :: as) = w.makeEnemyAction a.enemyID.toNat a >>= fun w => replay w as := rfl

theorem replay_append_eq_ok {w v : GameWorld} {as bs : List EnemyAction} :
    replay w (as ++ bs) = .ok v ↔ ∃ u, replay w as = .ok u ∧ replay u bs = .ok v := by
  rw [replay, List.foldlM_append]
  exact except_bind_eq_ok

namespace GameWorld

theorem strike_length (damage : UInt32) (t : AttackTarget) (w : GameWorld) :
    (w.strike damage t).enemyList.length = w.enemyList.length :=
  (strike_enemies damage t w).length_eq.symm

theorem makeEnemyAction_cases {w v : GameWorld} {i : Nat} {action : EnemyAction}
    (h : w.makeEnemyAction i action = .ok v) :
    v = w ∨ (∃ f, v = w.modifyEnemy i f) ∨
    (∃ f damage e, v = (w.modifyEnemy i f).strike damage (w.enemyFindAttackTarget e action)) := by
  unfold makeEnemyAction at h
  cases he : w.enemyList[i]? with
  | none => simp [he] at h
  | some enemy =>
    simp only [he] at h
    cases ha : EEnemyActionType.ofCode action.actionType with
    | none =>
      simp only [ha] at h
      cases h
      exact Or.inl rfl
    | some type =>
      cases type with
      | enemyMove =>
        simp only [ha] at h
        cases h
        exact Or.inr (Or.inl ⟨_, rfl⟩)
      | enemyBaseAttack =>
        simp only [ha, enemyMakeAttack, he] at h
        obtain ⟨result, -, h⟩ := except_bind_eq_ok.mp h
        cases result with
        | none =>
          cases h
          exact Or.inl rfl
        | some r =>
          cases h
          exact Or.inr (Or.inr ⟨_, _, _, rfl⟩)

theorem makeEnemyAction_length {w v : GameWorld} {i : Nat} {action : EnemyAction}
    (h : w.makeEnemyAction i action = .ok v) : v.enemyList.length = w.enemyList.length := by
  rcases makeEnemyAction_cases h with rfl | ⟨f, rfl⟩ | ⟨f, damage, e, rfl⟩
  · rfl
  · exact List.length_modify ..
  · rw [strike_length]
    exact List.length_modify ..

theorem makeEnemyAction_hurts {w v : GameWorld} {i : Nat} {action : EnemyAction}
    (hk : KeysAreIDs w.playersList) (h : w.makeEnemyAction i action = .ok v) :
    OrderedMap.Related Player.Hurt w.playersList v.playersList := by
  rcases makeEnemyAction_cases h with rfl | ⟨f, rfl⟩ | ⟨f, damage, e, rfl⟩
  · exact .refl Player.Hurt.refl _
  · exact .refl Player.Hurt.refl _
  · exact strike_players (enemyFindAttackTarget_subset hk e action)

theorem makeEnemyAction_keysAreIDs {w v : GameWorld} {i : Nat} {action : EnemyAction}
    (hk : KeysAreIDs w.playersList) (h : w.makeEnemyAction i action = .ok v) :
    KeysAreIDs v.playersList :=
  hk.hurt (makeEnemyAction_hurts hk h)

end GameWorld

theorem replay_length {w v : GameWorld} {as : List EnemyAction} (h : replay w as = .ok v) :
    v.enemyList.length = w.enemyList.length := by
  induction as generalizing w with
  | nil =>
    cases h
    rfl
  | cons a as ih =>
    obtain ⟨u, hu, h⟩ := except_bind_eq_ok.mp (replay_cons w a as ▸ h)
    exact (ih h).trans (GameWorld.makeEnemyAction_length hu)

theorem replay_agrees {w w' v : GameWorld} (h : w.Agrees w') (hk : KeysAreIDs w.playersList)
    {as : List EnemyAction} (hv : replay w as = .ok v) :
    ∃ v', replay w' as = .ok v' ∧ v.Agrees v' := by
  induction as generalizing w w' with
  | nil =>
    cases hv
    exact ⟨w', rfl, h⟩
  | cons a as ih =>
    obtain ⟨u, hu, hv⟩ := except_bind_eq_ok.mp (replay_cons w a as ▸ hv)
    obtain ⟨u', hu', hagree⟩ := h.makeEnemyAction hk hu
    obtain ⟨v', hv', hvv⟩ := ih hagree (GameWorld.makeEnemyAction_keysAreIDs hk hu) hv
    exact ⟨v', by rw [replay_cons, hu', except_ok_bind, hv'], hvv⟩

theorem enemyID_decideAction {id : UInt32} {t c t' : CoordVec} {action : EnemyAction}
    (h : decideAction id t c = some (action, t')) : action.enemyID = id := by
  rcases decideAction_cases h with ⟨x, y, rfl⟩ | ⟨x, y, rfl, -⟩
  · rfl
  · rfl

/-- The run lemma of the `while` loop for a client, when the index is right. -/
theorem aiWhile_replay {i : Nat} {id : UInt32} (hid : id.toNat = i) {n : Nat} {st st' : AILoop}
    (harmed : st.world.AllArmed) (h : aiWhile i id n st = .ok st') :
    ∃ new, st'.enemyActions = st.enemyActions ++ new ∧ replay st.world new = .ok st'.world := by
  induction n generalizing st with
  | zero => exact nomatch h
  | succ n ih =>
    by_cases hz : st.leftedAction = 0
    · cases (aiWhile_zero_left hz).symm.trans h
      exact ⟨[], by simp, rfl⟩
    · cases he : st.world.enemyList[i]? with
      | none => simp [aiWhile, hz, aiIteration, he] at h
      | some enemy =>
        rcases aiIteration_cases id he (harmed enemy (List.mem_of_getElem? he)) with
          ⟨_, hit⟩ | ⟨action, t, w, hd, hw, hrel, hit⟩
        · rw [aiWhile_step hz hit] at h
          exact ih harmed h
        · rw [aiWhile_step hz hit] at h
          obtain ⟨new, hnew, hreplay⟩ := ih (hrel.allArmed harmed) h
          refine ⟨action :: new, by rw [hnew, List.append_assoc]; rfl, ?_⟩
          rw [replay_cons, enemyID_decideAction hd, hid, hw, except_ok_bind, hreplay]

theorem enemyTurns_unique {n m : Nat} {w : GameWorld} {k : Nat} {st st' : AITurn}
    (h : enemyTurns n w k = .ok st) (h' : enemyTurns m w k = .ok st') : st' = st := by
  have heq := (enemyTurns_mono (Nat.le_max_left n m) h).symm.trans
    (enemyTurns_mono (Nat.le_max_right n m) h')
  cases heq
  rfl

/-- None of the first `k` enemies is dead when its turn comes. -/
def NoneDeadInTurn (w : GameWorld) (k : Nat) : Prop :=
  ∀ j < k, ∀ n st, enemyTurns n w j = .ok st → ∀ e, st.world.enemyList[j]? = some e → e.hp ≠ 0

theorem noneDeadInTurn_succ {w : GameWorld} {k n : Nat} {st : AITurn} {e : Enemy}
    (h : enemyTurns n w k = .ok st) (he : st.world.enemyList[k]? = some e) :
    NoneDeadInTurn w (k + 1) ↔ NoneDeadInTurn w k ∧ e.hp ≠ 0 := by
  constructor
  · exact fun hnone => ⟨fun j hj => hnone j (Nat.lt_succ_of_lt hj),
      hnone k (Nat.lt_succ_self k) n st h e he⟩
  · rintro ⟨hnone, hhp⟩ j hj m st' hst' e' he'
    rcases Nat.lt_succ_iff_lt_or_eq.mp hj with hj | rfl
    · exact hnone j hj m st' hst' e' he'
    · rw [enemyTurns_unique h hst', he] at he'
      cases he'
      exact hhp

/-- What the server and the index of the next enemy are after `k` enemies. -/
structure TurnSummary (w : GameWorld) (k : Nat) (st : AITurn) : Prop where
  dirt : st.enemyListDirt = true ↔ ¬ NoneDeadInTurn w k
  dead : st.enemyListDirt = true → ∃ e ∈ st.world.enemyList, e.hp = 0
  activeEnemyID : NoneDeadInTurn w k → st.activeEnemyID = UInt32.ofNat k
  replayed : NoneDeadInTurn w k → replay w st.enemyActions = .ok st.world

theorem GameWorld.AIRelated.exists_dead {w w' : GameWorld} (h : w.AIRelated w')
    (hd : ∃ e ∈ w.enemyList, e.hp = 0) : ∃ e ∈ w'.enemyList, e.hp = 0 := by
  obtain ⟨e, he, hhp⟩ := hd
  obtain ⟨i, hi, rfl⟩ := List.getElem_of_mem he
  obtain ⟨e', he', ht⟩ := List.Forall₂.getElem?_eq_some h.enemies (List.getElem?_eq_getElem hi)
  exact ⟨e', List.mem_of_getElem? he', ht.1.dead hhp⟩

theorem TurnSummary.step {w : GameWorld} {n k : Nat} {st st' : AITurn} (harmed : w.AllArmed)
    (hk : k < 2 ^ 32) (hst : enemyTurns n w k = .ok st) (h : TurnSummary w k st)
    (hst' : enemyTurn n st k = .ok st') : TurnSummary w (k + 1) st' := by
  have harmed' := (enemyTurns_related harmed hst).allArmed harmed
  cases he : st.world.enemyList[k]? with
  | none => simp [enemyTurn, he] at hst'
  | some e =>
    have hsucc := noneDeadInTurn_succ hst he
    have hmem := List.mem_of_getElem? he
    have hid : UInt32.ofNat k + 1 = UInt32.ofNat (k + 1) := (UInt32.ofNat_add k 1).symm
    rcases enemyTurn_cases he (harmed' e hmem) with ⟨hhp, ht⟩ | ⟨hhp, _, ht⟩ | ⟨hhp, _, ht⟩
    · cases (ht n).symm.trans hst'
      have hnot : ¬ NoneDeadInTurn w (k + 1) := fun hnone => (hsucc.mp hnone).2 hhp
      exact ⟨iff_of_true rfl hnot, fun _ => ⟨e, hmem, hhp⟩, fun h => absurd h hnot,
        fun h => absurd h hnot⟩
    · cases (ht n).symm.trans hst'
      have heq : NoneDeadInTurn w (k + 1) ↔ NoneDeadInTurn w k :=
        hsucc.trans (and_iff_left hhp)
      exact ⟨h.dirt.trans (not_congr heq.symm), h.dead,
        fun hnone => by rw [← hid, h.activeEnemyID (heq.mp hnone)],
        fun hnone => h.replayed (heq.mp hnone)⟩
    · rw [ht n] at hst'
      obtain ⟨loop, hloop, hst'⟩ := Outcome.bind_eq_ok.mp hst'
      cases hst'
      have heq : NoneDeadInTurn w (k + 1) ↔ NoneDeadInTurn w k :=
        hsucc.trans (and_iff_left hhp)
      refine ⟨h.dirt.trans (not_congr heq.symm), fun hd => ?_, fun hnone => ?_, fun hnone => ?_⟩
      · exact (@aiWhile_related _ _ _ ⟨_, _, _, _⟩ _ harmed' hloop).exists_dead (h.dead hd)
      · rw [← hid, ← h.activeEnemyID (heq.mp hnone)]
      · have hindex : st.activeEnemyID.toNat = k := by
          rw [h.activeEnemyID (heq.mp hnone), UInt32.toNat_ofNat_of_lt' hk]
        obtain ⟨new, hnew, hreplay⟩ := @aiWhile_replay _ _ hindex _ ⟨_, _, _, _⟩ _ harmed' hloop
        simp only at hnew hreplay ⊢
        rw [hnew]
        exact replay_append_eq_ok.mpr ⟨_, h.replayed (heq.mp hnone), hreplay⟩

theorem enemyTurns_summary {w : GameWorld} {n k : Nat} {st : AITurn} (harmed : w.AllArmed)
    (hk : k ≤ 2 ^ 32) (h : enemyTurns n w k = .ok st) : TurnSummary w k st := by
  induction k generalizing st with
  | zero =>
    cases h
    have hnone : NoneDeadInTurn w 0 := fun j hj => absurd hj (Nat.not_lt_zero j)
    have hclean : (AITurn.start w).enemyListDirt ≠ true := Bool.false_ne_true
    exact {
      dirt := iff_of_false hclean (not_not.mpr hnone)
      dead := fun hd => absurd hd hclean
      activeEnemyID := fun _ => rfl
      replayed := fun _ => rfl }
  | succ k ih =>
    rw [enemyTurns_succ] at h
    obtain ⟨st1, h1, h2⟩ := Outcome.bind_eq_ok.mp h
    exact (ih (Nat.le_of_succ_le hk) h1).step harmed hk h1 h2

theorem removeDeadEnemies_length_lt {w : GameWorld} (h : ∃ e ∈ w.enemyList, e.hp = 0) :
    (removeDeadEnemies true w).enemyList.length < w.enemyList.length := by
  obtain ⟨e, he, hhp⟩ := h
  refine List.length_filter_lt_length_iff_exists.mpr ⟨e, he, ?_⟩
  rw [hhp]
  decide

/-- With no enemy dead in its turn, the broadcast actions rebuild the world of the server. -/
theorem replay_of_noneDead {w wc : GameWorld} {n : Nat} {st : AITurn} (harmed : w.AllArmed)
    (hk : KeysAreIDs w.playersList) (hlen : w.enemyList.length < 2 ^ 32) (hagree : w.Agrees wc)
    (h : enemiesAct n w = .ok st) (hnone : NoneDeadInTurn w w.enemyList.length) :
    ∃ wc', replay wc st.enemyActions = .ok wc' ∧
      (removeDeadEnemies st.enemyListDirt st.world).Agrees wc' := by
  have hsummary := enemyTurns_summary harmed (Nat.le_of_lt hlen) h
  have hclean : st.enemyListDirt = false :=
    Bool.eq_false_iff.mpr fun hd => hsummary.dirt.mp hd hnone
  obtain ⟨wc', hwc', hagree'⟩ := replay_agrees hagree hk (hsummary.replayed hnone)
  exact ⟨wc', hwc', by rw [hclean]; exact hagree'⟩

/-- With an enemy dead in its turn, the client keeps an enemy that the server removes. -/
theorem replay_of_dead {w wc wc' : GameWorld} {n : Nat} {st : AITurn} (harmed : w.AllArmed)
    (hlen : w.enemyList.length < 2 ^ 32) (hagree : w.Agrees wc) (h : enemiesAct n w = .ok st)
    (hdead : ¬ NoneDeadInTurn w w.enemyList.length)
    (hreplay : replay wc st.enemyActions = .ok wc') :
    wc'.enemyList ≠ (removeDeadEnemies st.enemyListDirt st.world).enemyList := by
  have hsummary := enemyTurns_summary harmed (Nat.le_of_lt hlen) h
  have hdirt := hsummary.dirt.mpr hdead
  have hlt := removeDeadEnemies_length_lt (hsummary.dead hdirt)
  intro heq
  have hclient := replay_length hreplay
  rw [heq, hdirt, hagree.enemies] at hclient
  rw [hclient, (enemyTurns_related harmed h).length_eq] at hlt
  exact absurd hlt (Nat.lt_irrefl _)

/-- What holds of the world of the server. -/
structure GameWorld.Served (w : GameWorld) : Prop where
  fromTable : ∀ e ∈ w.enemyList, e.FromTable
  keysAreIDs : KeysAreIDs w.playersList
  length : w.enemyList.length < 2 ^ 32

/-- A client sees the enemies and the hit points that the server has. -/
structure GameWorld.SeenBy (w wc : GameWorld) : Prop where
  enemies : wc.enemyList = w.enemyList
  hp : ∀ id, (wc.playersList.lookup id).map Player.hp = (w.playersList.lookup id).map Player.hp

/-- A client that handles the actions of the enemies one by one ends with the enemies of the
server and the hit points of the players exactly when no enemy is dead as its turn comes. -/
theorem replay_iff {w wc : GameWorld} {st : AITurn} (hw : w.Served) (hagree : w.Agrees wc)
    (hst : aiTurn w = .ok st) :
    (∃ wc', replay wc st.enemyActions = .ok wc' ∧
      (removeDeadEnemies st.enemyListDirt st.world).SeenBy wc') ↔
    NoneDeadInTurn w w.enemyList.length := by
  have harmed : w.AllArmed := fun e he => (hw.fromTable e he).armed
  constructor
  · rintro ⟨wc', hreplay, hseen⟩
    by_contra hdead
    exact replay_of_dead harmed hw.length hagree hst hdead hreplay hseen.enemies
  · intro hnone
    obtain ⟨wc', hreplay, hagree'⟩ :=
      replay_of_noneDead harmed hw.keysAreIDs hw.length hagree hst hnone
    exact ⟨wc', hreplay, hagree'.enemies, fun id => by rw [hagree'.players]⟩

/-- The zombie's turn is seen by the client. -/
theorem zombie_seen : ∃ st wc', aiTurn (zombieAndPlayer ⟨4, 0, 0⟩) = .ok st ∧
    replay (zombieAndPlayer ⟨4, 0, 0⟩) st.enemyActions = .ok wc' ∧
    (removeDeadEnemies st.enemyListDirt st.world).SeenBy wc' := by
  have hw : (zombieAndPlayer ⟨4, 0, 0⟩).Served := by
    refine ⟨(zombieAndPlayer_onGround rfl).fromTable, fun e he => ?_, by decide⟩
    cases List.mem_singleton.mp he
    rfl
  obtain ⟨n, st, hst⟩ := makeAITurn_straight
  have hturn := (aiTurn_eq_ok_iff (zombieAndPlayer_onGround rfl).allArmed).mpr ⟨n, hst⟩
  have hnone : NoneDeadInTurn (zombieAndPlayer ⟨4, 0, 0⟩) 1 := by
    intro j hj m st' hst' e he
    obtain rfl : j = 0 := Nat.lt_one_iff.mp hj
    cases hst'
    cases he
    decide
  obtain ⟨wc', hreplay, hseen⟩ := (replay_iff hw (.refl _) hturn).mpr hnone
  exact ⟨st, wc', hturn, hreplay, hseen⟩

/-- A dead zombie stands before a living one. -/
def deadAndLiving : GameWorld :=
  { zombieAndPlayer ⟨4, 0, 0⟩ with
    enemyList := (enemiesTable.take 1).map (fun e => { e with hp := 0 }) ++ enemiesTable.take 1 }

/-- The client moves the dead zombie, and keeps it. -/
theorem dead_moved : deadAndLiving.Served ∧ ∃ st wc', aiTurn deadAndLiving = .ok st ∧
    replay deadAndLiving st.enemyActions = .ok wc' ∧
    (removeDeadEnemies st.enemyListDirt st.world).enemyList.map Enemy.coords = [⟨2, -1, 0⟩] ∧
    wc'.enemyList.map Enemy.coords = [⟨2, -1, 0⟩, ⟨0, 0, 0⟩] := by
  refine ⟨⟨fun e he => ?_, fun e he => ?_, by decide⟩, ?_⟩
  · rcases List.mem_append.mp he with he | he
    · obtain ⟨t, ht, rfl⟩ := List.mem_map.mp he
      exact ⟨t, List.mem_of_mem_take ht, rfl, rfl, rfl, rfl⟩
    · exact ⟨e, List.mem_of_mem_take he, rfl, rfl, rfl, rfl⟩
  · cases List.mem_singleton.mp he
    rfl
  · have hrun : (match aiTurn deadAndLiving with
        | .ok st => match replay deadAndLiving st.enemyActions with
          | .ok wc' => some ((removeDeadEnemies st.enemyListDirt st.world).enemyList.map Enemy.coords,
            wc'.enemyList.map Enemy.coords)
          | .error _ => none
        | _ => none) = some ([⟨2, -1, 0⟩], [⟨2, -1, 0⟩, ⟨0, 0, 0⟩]) := by decide +kernel
    split at hrun
    · rename_i st hst
      split at hrun
      · rename_i wc' hreplay
        obtain ⟨hserver, hclient⟩ := Prod.mk.inj (Option.some.inj hrun)
        exact ⟨st, wc', hst, hreplay, hserver, hclient⟩
      · exact nomatch hrun
    · exact nomatch hrun

end AsciiTerra
