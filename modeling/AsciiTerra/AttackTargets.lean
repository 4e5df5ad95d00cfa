import AsciiTerra.StrikeEffect

/-!
# Units on the attacked tile

`operator==` of two positions takes the absolute value of each difference in 16 bits, where
that of -32768 is -32768 itself. So the target searches also find the units half the range
of coordinates away.
-/

set_option autoImplicit false

namespace AsciiTerra

namespace CoordVec

/-- Half the range of `short` apart. -/
def Opposite (a b : Int16) : Prop := a - b = Int16.minValue

/-- Different positions whose components are equal or opposite. -/
def Aliased (a b : CoordVec) : Prop :=
  a ≠ b ∧ (a.x = b.x ∨ Opposite a.x b.x) ∧ (a.y = b.y ∨ Opposite a.y b.y) ∧
    (a.z = b.z ∨ Opposite a.z b.z)

instance (a b : CoordVec) : Decidable (a.Aliased b) :=
  have (c d : Int16) : Decidable (Opposite c d) := inferInstanceAs (Decidable (_ = _))
  inferInstanceAs (Decidable (_ ∧ _ ∧ _ ∧ _))

theorem lessOrEqual_abs_iff (d : Int16) :
    lessOrEqual d.abs 0 = true ↔ d = 0 ∨ d = Int16.minValue := by
  by_cases hmin : d = Int16.minValue
  · subst hmin
    decide
  have habs : d.abs.toInt = d.toInt.natAbs :=
    BitVec.toInt_abs_eq_natAbs_of_ne_intMin fun h => hmin (Int16.toBitVec_inj.mp h)
  have h0 : (0 : Int16).toInt = 0 := rfl
  unfold lessOrEqual
  rw [or_iff_left hmin, Bool.or_eq_true, decide_eq_true_eq, beq_iff_eq, Int16.lt_iff_toInt_lt,
    ← Int16.toInt_inj, ← Int16.toInt_inj, habs, h0]
  omega

theorem lessOrEqual_abs_sub_iff (a b : Int16) :
    lessOrEqual (a - b).abs 0 = true ↔ a = b ∨ Opposite a b := by
  rw [lessOrEqual_abs_iff, Int16.sub_eq_iff_eq_add, Int16.zero_add]
  rfl

theorem equal_iff (a b : CoordVec) : a.equal b = true ↔ a = b ∨ a.Aliased b := by
  have hequal : a.equal b = true ↔ (a.x = b.x ∨ Opposite a.x b.x) ∧
      (a.y = b.y ∨ Opposite a.y b.y) ∧ (a.z = b.z ∨ Opposite a.z b.z) := by
    simp only [equal, Bool.and_eq_true, sub_x, sub_y, sub_z, lessOrEqual_abs_sub_iff, and_assoc]
  rw [hequal]
  by_cases hab : a = b
  · subst hab
    exact iff_of_true ⟨.inl rfl, .inl rfl, .inl rfl⟩ (.inl rfl)
  · exact ⟨fun h => .inr ⟨hab, h⟩, fun h => (h.resolve_left hab).2⟩

end CoordVec

namespace GameWorld
variable {w : GameWorld}

/-- The players that pass a test on the tile, once each, the indices of such enemies, and
whether there is a unit at all. -/
structure TargetsOn (w : GameWorld) (tile : CoordVec) (suitsPlayer : Player → Bool)
    (suitsEnemy : Enemy → Bool) (t : AttackTarget) : Prop where
  players : t.playerIDs = ((w.playersList.entries.map (·.2)).filter fun p =>
    suitsPlayer p && p.coords = tile).map Player.id
  enemies : ∀ i, t.enemyIDs.count i =
    if ∃ e, w.enemyList[i]? = some e ∧ suitsEnemy e = true ∧ e.coords = tile then 1 else 0
  valid : t.valid = true ↔
    (∃ e ∈ w.playersList.entries, suitsPlayer e.2 = true ∧ e.2.coords = tile) ∨
      ∃ e ∈ w.enemyList, suitsEnemy e = true ∧ e.coords = tile

/-- No unit that passes the test is mistaken for one on the tile. -/
def NoneAliased (w : GameWorld) (tile : CoordVec) (suitsPlayer : Player → Bool)
    (suitsEnemy : Enemy → Bool) : Prop :=
  (∀ e ∈ w.playersList.entries, suitsPlayer e.2 = true → ¬ e.2.coords.Aliased tile) ∧
    ∀ e ∈ w.enemyList, suitsEnemy e = true → ¬ e.coords.Aliased tile

theorem mem_enemiesOn {tile : CoordVec} {suits : Enemy → Bool} {i : Nat} :
    i ∈ w.enemiesOn tile suits ↔
      ∃ e, w.enemyList[i]? = some e ∧ suits e = true ∧ e.coords.equal tile = true := by
  unfold enemiesOn
  rw [List.mem_filter, List.mem_range]
  constructor
  · rintro ⟨hlt, hsuits⟩
    rw [List.getElem?_eq_getElem hlt] at hsuits ⊢
    exact ⟨_, rfl, by simpa using hsuits⟩
  · rintro ⟨e, he, hsuits⟩
    refine ⟨(List.getElem?_eq_some_iff.mp he).1, ?_⟩
    rw [he]
    simpa using hsuits

theorem attackTarget_valid {tile : CoordVec} {suitsPlayer : Player → Bool}
    {suitsEnemy : Enemy → Bool} :
    (attackTarget (w.playersOn tile suitsPlayer) (w.enemiesOn tile suitsEnemy)).valid = true ↔
      (∃ e ∈ w.playersList.entries, suitsPlayer e.2 = true ∧ e.2.coords.equal tile = true) ∨
        ∃ e ∈ w.enemyList, suitsEnemy e = true ∧ e.coords.equal tile = true := by
  have hplayers : w.playersOn tile suitsPlayer ≠ [] ↔
      ∃ e ∈ w.playersList.entries, suitsPlayer e.2 = true ∧ e.2.coords.equal tile = true := by
    unfold playersOn
    rw [ne_eq, List.map_eq_nil_iff, List.filter_eq_nil_iff]
    simp
  have henemies : w.enemiesOn tile suitsEnemy ≠ [] ↔
      ∃ e ∈ w.enemyList, suitsEnemy e = true ∧ e.coords.equal tile = true := by
    constructor
    · intro hne
      obtain ⟨i, hi⟩ := List.exists_mem_of_ne_nil _ hne
      obtain ⟨e, he, hsuits⟩ := mem_enemiesOn.mp hi
      exact ⟨e, List.mem_of_getElem? he, hsuits⟩
    · rintro ⟨e, he, hsuits⟩
      obtain ⟨i, hi⟩ := List.getElem?_of_mem he
      exact List.ne_nil_of_mem (mem_enemiesOn.mpr ⟨e, hi, hsuits⟩)
  rw [← hplayers, ← henemies]
  simp [attackTarget]

section Search
variable {tile : CoordVec} {suitsPlayer : Player → Bool} {suitsEnemy : Enemy → Bool}

theorem noneAliased_of_targetsOn (h : TargetsOn w tile suitsPlayer suitsEnemy
    (attackTarget (w.playersOn tile suitsPlayer) (w.enemiesOn tile suitsEnemy))) :
    w.NoneAliased tile suitsPlayer suitsEnemy := by
  constructor
  · intro e he hsuits haliased
    have hlength := congrArg List.length h.players
    simp only [attackTarget, playersOn, List.length_map, List.filter_map] at hlength
    have hall := List.forall_of_length_filter (fun a ha => ?_) hlength e he
      (by simp [hsuits, (CoordVec.equal_iff _ _).mpr (.inr haliased)])
    · have hcoords : e.2.coords = tile := by
        simpa [hsuits] using hall
      exact haliased.1 hcoords
    · have hboth : suitsPlayer a.2 = true ∧ a.2.coords = tile := by simpa using ha
      simp [hboth.1, (CoordVec.equal_iff _ _).mpr (.inl hboth.2)]
  · intro e he hsuits haliased
    obtain ⟨i, hi⟩ := List.getElem?_of_mem he
    have hmem : i ∈ w.enemiesOn tile suitsEnemy :=
      mem_enemiesOn.mpr ⟨e, hi, hsuits, (CoordVec.equal_iff _ _).mpr (.inr haliased)⟩
    have hcount := h.enemies i
    simp only [attackTarget] at hcount
    rw [(nodup_enemiesOn w tile suitsEnemy).count, if_pos hmem] at hcount
    split at hcount
    · rename_i hexists
      obtain ⟨e', he', -, hcoords⟩ := hexists
      cases hi.symm.trans he'
      exact haliased.1 hcoords
    · cases hcount

theorem targetsOn_of_noneAliased (h : w.NoneAliased tile suitsPlayer suitsEnemy) :
    TargetsOn w tile suitsPlayer suitsEnemy
      (attackTarget (w.playersOn tile suitsPlayer) (w.enemiesOn tile suitsEnemy)) := by
  have hplayer : ∀ e ∈ w.playersList.entries, suitsPlayer e.2 = true →
      (e.2.coords.equal tile = true ↔ e.2.coords = tile) := by
    intro e he hsuits
    rw [CoordVec.equal_iff]
    exact or_iff_left (h.1 e he hsuits)
  have henemy : ∀ e ∈ w.enemyList, suitsEnemy e = true →
      (e.coords.equal tile = true ↔ e.coords = tile) := by
    intro e he hsuits
    rw [CoordVec.equal_iff]
    exact or_iff_left (h.2 e he hsuits)
  refine ⟨?_, ?_, ?_⟩
  · have hfilter : ∀ e ∈ w.playersList.entries,
        (suitsPlayer e.2 && e.2.coords.equal tile) =
          (suitsPlayer e.2 && e.2.coords = tile) := by
      intro e he
      rw [Bool.eq_iff_iff, Bool.and_eq_true, Bool.and_eq_true, decide_eq_true_eq]
      exact and_congr_right (hplayer e he)
    simp only [attackTarget, playersOn, List.filter_map, List.map_map]
    rw [List.filter_congr hfilter]
    rfl
  · intro i
    simp only [attackTarget]
    rw [(nodup_enemiesOn w tile suitsEnemy).count]
    refine if_congr ?_ rfl rfl
    rw [mem_enemiesOn]
    apply exists_congr
    intro e
    apply and_congr_right
    intro he
    exact and_congr_right (henemy e (List.mem_of_getElem? he))
  · rw [attackTarget_valid]
    apply or_congr
    · apply exists_congr
      intro e
      apply and_congr_right
      exact fun he => and_congr_right (hplayer e he)
    · apply exists_congr
      intro e
      apply and_congr_right
      exact fun he => and_congr_right (henemy e he)

/-- The search finds exactly the units on the tile if and only if none is aliased. -/
theorem attackTarget_targetsOn_iff : TargetsOn w tile suitsPlayer suitsEnemy
      (attackTarget (w.playersOn tile suitsPlayer) (w.enemiesOn tile suitsEnemy)) ↔
    w.NoneAliased tile suitsPlayer suitsEnemy :=
  ⟨noneAliased_of_targetsOn, targetsOn_of_noneAliased⟩

end Search

/-- `PlayerFindAttackTarget` and `EnemyFindAttackTarget` find exactly the units on the attacked
tile if and only if no unit that they consider is aliased to it. -/
theorem findAttackTarget_iff (w : GameWorld) :
    (∀ player action,
      TargetsOn w (player.coords + direction action.actionInfo) (fun p => p.id != player.id)
          (fun _ => true) (w.playerFindAttackTarget player action) ↔
        w.NoneAliased (player.coords + direction action.actionInfo)
          (fun p => p.id != player.id) fun _ => true) ∧
    ∀ enemy action,
      TargetsOn w (enemy.coords + direction action.actionInfo) (fun _ => true)
          (fun e => e.faction != enemy.faction) (w.enemyFindAttackTarget enemy action) ↔
        w.NoneAliased (enemy.coords + direction action.actionInfo) (fun _ => true)
          fun e => e.faction != enemy.faction :=
  ⟨fun _ _ => attackTarget_targetsOn_iff, fun _ _ => attackTarget_targetsOn_iff⟩

/-- A zombie stands next to the attacker, who strikes far to the other side. -/
theorem farAttack_hits : ∃ (w : GameWorld) (player : Player) (action : PlayerAction),
    ¬ TargetsOn w (player.coords + direction action.actionInfo) (fun p => p.id != player.id)
      (fun _ => true) (w.playerFindAttackTarget player action) := by
  refine ⟨⟨∅, (enemiesTable.take 1).map fun e => { e with coords := ⟨6, 5, 0⟩ },
    ⟨Vector.replicate _ 0⟩⟩, { Player.default with coords := ⟨5, 5, 0⟩ },
    ⟨EPlayerActionType.attack.code, 0, #v[0, -32767, 0, 0]⟩, fun h => ?_⟩
  have hvalid := h.valid.mp (by decide)
  revert hvalid
  decide

end GameWorld

end AsciiTerra
