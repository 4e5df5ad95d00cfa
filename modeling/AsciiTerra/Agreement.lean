import AsciiTerra.Combat

/-!
# Worlds that agree

Server and clients keep the players in hash maps of their own, so two copies of the
world may iterate them in different orders. Two worlds agree when every lookup does;
the operations both programs use keep agreement.
-/

set_option autoImplicit false

namespace AsciiTerra

/-- The same players under the same keys, the same enemies in the same order, the same map. -/
structure GameWorld.Agrees (w w' : GameWorld) : Prop where
  players : ∀ id, w'.playersList.lookup id = w.playersList.lookup id
  enemies : w'.enemyList = w.enemyList
  map : w'.gameWorldMap = w.gameWorldMap

theorem keysAreIDs_iff {ps : PlayersList} :
    KeysAreIDs ps ↔ ∀ id p, ps.lookup id = some p → p.id = id :=
  ⟨fun h _ _ hp => h.id_eq hp, fun h e he => h e.1 e.2 (OrderedMap.lookup_of_mem_entries he)⟩

namespace GameWorld

theorem mem_playersOn {w : GameWorld} (hk : KeysAreIDs w.playersList) {tile : CoordVec}
    {suits : Player → Bool} {id : UInt32} :
    id ∈ w.playersOn tile suits ↔
      ∃ p, w.playersList.lookup id = some p ∧ (suits p && p.coords.equal tile) = true := by
  constructor
  · intro h
    obtain ⟨e, he, rfl⟩ := List.mem_map.mp h
    obtain ⟨hmem, hadmit⟩ := List.mem_filter.mp he
    rw [hk e hmem]
    exact ⟨e.2, OrderedMap.lookup_of_mem_entries hmem, hadmit⟩
  · rintro ⟨p, hp, hadmit⟩
    have hmem := OrderedMap.mem_entries_of_lookup hp
    exact List.mem_map.mpr ⟨⟨id, p⟩, List.mem_filter.mpr ⟨hmem, hadmit⟩, hk.id_eq hp⟩

theorem nodup_playersOn {w : GameWorld} (hk : KeysAreIDs w.playersList) (tile : CoordVec)
    (suits : Player → Bool) : (w.playersOn tile suits).Nodup := by
  have hkeys : w.playersOn tile suits =
      (w.playersList.entries.filter fun e => suits e.2 && e.2.coords.equal tile).keys := by
    refine List.map_congr_left fun e he => hk e (List.mem_of_mem_filter he)
  rw [hkeys]
  exact (List.filter_sublist.map Sigma.fst).nodup w.playersList.nodupKeys

/-- The same targets, in any order of the players. -/
structure TargetsAgree (t t' : AttackTarget) : Prop where
  enemyIDs : t'.enemyIDs = t.enemyIDs
  playerIDs : ∀ id, t'.playerIDs.count id = t.playerIDs.count id

namespace Agrees
variable {w w' : GameWorld}

theorem refl (w : GameWorld) : w.Agrees w := ⟨fun _ => rfl, rfl, rfl⟩

theorem symm (h : w.Agrees w') : w'.Agrees w :=
  ⟨fun id => (h.players id).symm, h.enemies.symm, h.map.symm⟩

theorem mem_iff (h : w.Agrees w') {id : UInt32} : id ∈ w'.playersList ↔ id ∈ w.playersList := by
  rw [OrderedMap.mem_iff_lookup, OrderedMap.mem_iff_lookup, h.players]

theorem keysAreIDs (h : w.Agrees w') (hk : KeysAreIDs w.playersList) :
    KeysAreIDs w'.playersList :=
  keysAreIDs_iff.mpr fun id _ hp => hk.id_eq (h.players id ▸ hp)

theorem playerAt_eq (h : w.Agrees w') (id : UInt32) : w'.playerAt id = w.playerAt id := by
  rw [playerAt, playerAt, h.players]

theorem modifyPlayer (h : w.Agrees w') (id : UInt32) (f : Player → Player) :
    (w.modifyPlayer id f).Agrees (w'.modifyPlayer id f) where
  players a := by
    rw [modifyPlayer_playersList, modifyPlayer_playersList, OrderedMap.lookup_modify,
      OrderedMap.lookup_modify, h.players]
  enemies := h.enemies
  map := h.map

theorem modifyEnemy (h : w.Agrees w') (i : Nat) (f : Enemy → Enemy) :
    (w.modifyEnemy i f).Agrees (w'.modifyEnemy i f) where
  players := h.players
  enemies := by rw [modifyEnemy_enemyList, modifyEnemy_enemyList, h.enemies]
  map := h.map

theorem enemiesOn_eq (h : w.Agrees w') (tile : CoordVec) (suits : Enemy → Bool) :
    w'.enemiesOn tile suits = w.enemiesOn tile suits := by
  simp only [enemiesOn, h.enemies]

theorem count_playersOn (h : w.Agrees w') (hk : KeysAreIDs w.playersList) (tile : CoordVec)
    (suits : Player → Bool) (id : UInt32) :
    (w'.playersOn tile suits).count id = (w.playersOn tile suits).count id := by
  have hmem : id ∈ w'.playersOn tile suits ↔ id ∈ w.playersOn tile suits := by
    rw [mem_playersOn hk, mem_playersOn (h.keysAreIDs hk), h.players]
  by_cases hid : id ∈ w.playersOn tile suits
  · rw [List.count_eq_one_of_mem (nodup_playersOn hk tile suits) hid,
      List.count_eq_one_of_mem (nodup_playersOn (h.keysAreIDs hk) tile suits) (hmem.mpr hid)]
  · rw [List.count_eq_zero_of_not_mem hid,
      List.count_eq_zero_of_not_mem fun hid' => hid (hmem.mp hid')]

theorem playerFindAttackTarget (h : w.Agrees w') (hk : KeysAreIDs w.playersList) (p : Player)
    (action : PlayerAction) :
    TargetsAgree (w.playerFindAttackTarget p action) (w'.playerFindAttackTarget p action) := by
  refine ⟨h.enemiesOn_eq _ _, fun id => ?_⟩
  simp only [GameWorld.playerFindAttackTarget, attackTarget]
  exact h.count_playersOn hk _ _ id

theorem enemyFindAttackTarget (h : w.Agrees w') (hk : KeysAreIDs w.playersList) (e : Enemy)
    (action : EnemyAction) :
    TargetsAgree (w.enemyFindAttackTarget e action) (w'.enemyFindAttackTarget e action) := by
  refine ⟨h.enemiesOn_eq _ _, fun id => ?_⟩
  simp only [GameWorld.enemyFindAttackTarget, attackTarget]
  exact h.count_playersOn hk _ _ id

theorem strike (h : w.Agrees w') {t t' : AttackTarget} (ht : TargetsAgree t t')
    (hids : ∀ id ∈ t.playerIDs, id ∈ w.playersList) (damage : UInt32) :
    (w.strike damage t).Agrees (w'.strike damage t') where
  players a := by
    have hids' : ∀ id ∈ t'.playerIDs, id ∈ w'.playersList := by
      intro id hid
      rw [← List.count_pos_iff, ht.playerIDs, List.count_pos_iff] at hid
      exact h.mem_iff.mpr (hids id hid)
    rw [strike_lookup hids, strike_lookup hids', h.players, ht.playerIDs]
  enemies := by simp only [GameWorld.strike, ht.enemyIDs, h.enemies]
  map := h.map

theorem makeEnemyAction (h : w.Agrees w') (hk : KeysAreIDs w.playersList) {i : Nat}
    {action : EnemyAction} {v : GameWorld} (hv : w.makeEnemyAction i action = .ok v) :
    ∃ v', w'.makeEnemyAction i action = .ok v' ∧ v.Agrees v' := by
  unfold GameWorld.makeEnemyAction at hv ⊢
  rw [h.enemies]
  cases he : w.enemyList[i]? with
  | none => simp [he] at hv
  | some enemy =>
    simp only [he] at hv ⊢
    cases ha : EEnemyActionType.ofCode action.actionType with
    | none =>
      simp only [ha] at hv
      cases hv
      exact ⟨w', rfl, h⟩
    | some type =>
      cases type with
      | enemyMove =>
        simp only [ha] at hv
        cases hv
        exact ⟨_, rfl, h.modifyEnemy i _⟩
      | enemyBaseAttack =>
        simp only [ha, enemyMakeAttack, h.enemies, he] at hv ⊢
        obtain ⟨result, hresult, hv⟩ := except_bind_eq_ok.mp hv
        rw [hresult, except_ok_bind]
        cases result with
        | none =>
          cases hv
          exact ⟨w', rfl, h⟩
        | some r =>
          cases hv
          exact ⟨_, rfl, (h.modifyEnemy i _).strike (h.enemyFindAttackTarget hk enemy action)
            (enemyFindAttackTarget_subset hk enemy action) _⟩

theorem attackOf (h : w.Agrees w') (hk : KeysAreIDs w.playersList) {id : UInt32}
    {action : PlayerAction} {v : GameWorld} (hv : w.attackOf id action = .ok v) :
    ∃ v', w'.attackOf id action = .ok v' ∧ v.Agrees v' := by
  unfold GameWorld.attackOf playerMakeAttack at hv ⊢
  rw [h.playerAt_eq]
  obtain ⟨p, hp, hv⟩ := except_bind_eq_ok.mp hv
  rw [hp, except_ok_bind] at hv ⊢
  rw [except_ok_bind]
  obtain ⟨result, hresult, hv⟩ := except_bind_eq_ok.mp hv
  rw [hresult, except_ok_bind]
  cases result with
  | none =>
    cases hv
    exact ⟨w', rfl, h⟩
  | some r =>
    cases hv
    refine ⟨_, rfl, (h.modifyPlayer id _).strike (h.playerFindAttackTarget hk p action) ?_ _⟩
    exact fun a ha => OrderedMap.mem_modify.mpr (playerFindAttackTarget_subset hk p action a ha)


theorem modifyPlayer_keysAreIDs (hk : KeysAreIDs w.playersList) {id : UInt32}
    {f : Player → Player} (hf : ∀ p, (f p).id = p.id) :
    KeysAreIDs (w.modifyPlayer id f).playersList := by
  refine keysAreIDs_iff.mpr fun a p hp => ?_
  rw [modifyPlayer_playersList, OrderedMap.lookup_modify] at hp
  split at hp
  · obtain ⟨q, hq, rfl⟩ := Option.map_eq_some_iff.mp hp
    rw [hf, hk.id_eq hq]
  · exact hk.id_eq hp

theorem actOf (h : w.Agrees w') (hk : KeysAreIDs w.playersList) {id : UInt32}
    {action : PlayerAction} {v : GameWorld} (hv : w.actOf id action = .ok v) :
    ∃ v', w'.actOf id action = .ok v' ∧ v.Agrees v' := by
  unfold GameWorld.actOf at hv ⊢
  cases ha : EPlayerActionType.ofCode action.actionType with
  | none =>
    simp only [ha] at hv ⊢
    cases hv
    exact ⟨w', rfl, h⟩
  | some type =>
    cases type with
    | move =>
      simp only [ha] at hv ⊢
      refine (h.modifyPlayer id _).attackOf ?_ hv
      exact modifyPlayer_keysAreIDs hk fun _ => rfl
    | attack =>
      simp only [ha] at hv ⊢
      exact h.attackOf hk hv
    | endTurn =>
      simp only [ha] at hv ⊢
      cases hv
      exact ⟨w', rfl, h⟩

theorem makeApprovedAction (h : w.Agrees w') (hk : KeysAreIDs w.playersList) {id : UInt32}
    {action : PlayerAction} {v : GameWorld} (hv : w.makeApprovedAction id action = .ok v) :
    ∃ v', w'.makeApprovedAction id action = .ok v' ∧ v.Agrees v' := by
  unfold GameWorld.makeApprovedAction at hv ⊢
  obtain ⟨v1, hv1, hv⟩ := except_bind_eq_ok.mp hv
  obtain ⟨v1', hv1', h1⟩ := h.actOf hk hv1
  rw [hv1', except_ok_bind, h1.playerAt_eq]
  obtain ⟨p, hp, hv⟩ := except_bind_eq_ok.mp hv
  obtain ⟨q, hq, hv⟩ := except_bind_eq_ok.mp hv
  rw [hp, except_ok_bind, hq, except_ok_bind]
  cases hv
  exact ⟨_, rfl, h1.modifyPlayer id _⟩

end Agrees

end GameWorld

end AsciiTerra
