import AsciiTerra.AimedSteps
import AsciiTerra.StrikeEffect
import AsciiTerra.TargetChoice

/-!
# Actions that aim at the target

The passes of the `while` loop for an enemy that has chosen a target, which stays where it is.
The loop has only `TargetCoords` to go by, and that moves.
-/

set_option autoImplicit false

namespace AsciiTerra

/-- A unit of a world: a player by its key or an enemy by its index. -/
inductive UnitRef
  | player (key : UInt32)
  | enemy (index : Nat)

namespace UnitRef

/-- The actual `Coords` of the unit. -/
def coords (w : GameWorld) : UnitRef → Option CoordVec
  | player key => (w.playersList.lookup key).map Player.coords
  | enemy index => w.enemyList[index]?.map Enemy.coords

/-- The unit is the one chosen for an enemy. -/
def ChosenBy (w : GameWorld) (enemy : Enemy) : UnitRef → Prop
  | player key => ∃ p, w.playersList.lookup key = some p ∧
      chooseTarget w enemy = (Candidate.player p).target enemy
  | .enemy index => ∃ e, w.enemyList[index]? = some e ∧ enemy.faction ≠ e.faction ∧
      chooseTarget w enemy = (Candidate.enemy e index).target enemy

def ListedIn (w : GameWorld) (t : AttackTarget) : UnitRef → Prop
  | player key => ∃ p, w.playersList.lookup key = some p ∧ p.id ∈ t.playerIDs
  | enemy index => index ∈ t.enemyIDs

/-- The unit is on a tile, and no fellow of the enemy at index `i`. -/
def StandsAt (i : Nat) (T : CoordVec) (faction : UInt32) (w : GameWorld) : UnitRef → Prop
  | player key => ∃ p, w.playersList.lookup key = some p ∧ p.coords = T
  | enemy index => index ≠ i ∧ ∃ e, w.enemyList[index]? = some e ∧ e.coords = T ∧
      faction ≠ e.faction

theorem exists_chosenBy {w : GameWorld} {enemy : Enemy}
    (h : (chooseTarget w enemy).bestAttackCandidate ≠ invalidID) :
    ∃ r : UnitRef, r.ChosenBy w enemy := by
  have hchoice := chooseTarget_eq w enemy
  cases hm : (w.considered enemy).argmin (Candidate.rank enemy) with
  | none =>
    rw [hchoice, hm] at h
    exact absurd rfl h
  | some m =>
    rw [hm] at hchoice
    rcases GameWorld.mem_considered (List.argmin_mem hm) with hplayer | hfoe
    · obtain ⟨e, he, rfl⟩ := List.mem_map.mp hplayer
      exact ⟨.player e.1, e.2, OrderedMap.lookup_of_mem_entries he, hchoice⟩
    · obtain ⟨i, e, rfl, he, hfaction⟩ := GameWorld.mem_foeCandidates hfoe
      exact ⟨.enemy i, e, he, hfaction, hchoice⟩

theorem ChosenBy.standsAt {w : GameWorld} {i : Nat} {enemy : Enemy} {r : UnitRef}
    (h : r.ChosenBy w enemy) (he : w.enemyList[i]? = some enemy) :
    r.StandsAt i (chooseTarget w enemy).targetCoords enemy.faction w := by
  cases r with
  | player key =>
    obtain ⟨p, hp, hchoice⟩ := h
    exact ⟨p, hp, by rw [hchoice]; rfl⟩
  | enemy index =>
    obtain ⟨e, hindex, hfaction, hchoice⟩ := h
    refine ⟨?_, e, hindex, by rw [hchoice]; rfl, hfaction⟩
    rintro rfl
    cases he.symm.trans hindex
    exact hfaction rfl

variable {i : Nat} {T : CoordVec} {faction : UInt32} {w : GameWorld} {r : UnitRef}

theorem StandsAt.coords_eq (h : r.StandsAt i T faction w) : r.coords w = some T := by
  cases r with
  | player key =>
    obtain ⟨p, hp, rfl⟩ := h
    rw [coords, hp]
    rfl
  | enemy index =>
    obtain ⟨-, e, he, rfl, -⟩ := h
    rw [coords, he]
    rfl

theorem StandsAt.modifyEnemy (h : r.StandsAt i T faction w) (f : Enemy → Enemy) :
    r.StandsAt i T faction (w.modifyEnemy i f) := by
  cases r with
  | player key => exact h
  | enemy index =>
    obtain ⟨hne, e, he, hrest⟩ := h
    refine ⟨hne, e, ?_, hrest⟩
    rw [GameWorld.modifyEnemy_enemyList, List.getElem?_modify, he]
    simp [hne.symm]

theorem StandsAt.strike (h : r.StandsAt i T faction w) (damage : UInt32) (t : AttackTarget) :
    r.StandsAt i T faction (w.strike damage t) := by
  cases r with
  | player key =>
    obtain ⟨p, hp, hcoords⟩ := h
    have hmem : key ∈ w.playersList := OrderedMap.mem_iff_lookup.mpr ⟨p, hp⟩
    refine ⟨_, by rw [GameWorld.strike_lookup_of_mem hmem, hp]; rfl, ?_⟩
    rw [Player.iterate_takeDamage]
    exact hcoords
  | enemy index =>
    obtain ⟨hne, e, he, hrest⟩ := h
    refine ⟨hne, _, by rw [GameWorld.strike_getElem?, he]; rfl, ?_⟩
    rw [Enemy.iterate_takeDamage]
    exact hrest

theorem StandsAt.listedIn {enemy : Enemy} {action : EnemyAction}
    (h : r.StandsAt i T enemy.faction w) (htile : enemy.coords + direction action.actionInfo = T) :
    r.ListedIn w (w.enemyFindAttackTarget enemy action) := by
  have habs : Int16.abs 0 = 0 := by decide
  have hequal : T.equal T = true := by simp [CoordVec.equal, CoordVec.lessOrEqual, habs]
  unfold GameWorld.enemyFindAttackTarget
  rw [htile]
  cases r with
  | player key =>
    obtain ⟨p, hp, hcoords⟩ := h
    refine ⟨p, hp, List.mem_map.mpr ⟨⟨key, p⟩, List.mem_filter.mpr ⟨?_, ?_⟩, rfl⟩⟩
    · exact OrderedMap.mem_entries_of_lookup hp
    · simp only [hcoords, hequal, Bool.and_self]
  | enemy index =>
    obtain ⟨-, e, he, hcoords, hfaction⟩ := h
    refine List.mem_filter.mpr ⟨List.mem_range.mpr (List.getElem?_eq_some_iff.mp he).1, ?_⟩
    rw [he]
    simp only [hcoords, hequal, Bool.and_true]
    exact bne_iff_ne.mpr hfaction.symm

end UnitRef

/-- The action of an enemy aims at a unit: a step brings it one closer to the actual place of
the unit, an attack goes for that place and finds the unit there. -/
def AimsAt (w : GameWorld) (e : Enemy) (r : UnitRef) (action : EnemyAction) : Prop :=
  ∃ T, r.coords w = some T ∧
    (EEnemyActionType.ofCode action.actionType = some .enemyMove →
      T.steps (e.coords + direction action.actionInfo) + 1 = T.steps e.coords) ∧
    (EEnemyActionType.ofCode action.actionType = some .enemyBaseAttack →
      action.actionInfo[1]? = some (T.x - e.coords.x) ∧
        action.actionInfo[2]? = some (T.y - e.coords.y) ∧
        r.ListedIn w (w.enemyFindAttackTarget e action))

/-- One pass of the `while` loop. -/
def Passes (i : Nat) (id : UInt32) (st st' : AILoop) : Prop :=
  st.leftedAction ≠ 0 ∧ aiIteration i id st = .ok st'

/-- In all passes from here on the action of the enemy aims at the unit. -/
def AllAimed (i : Nat) (id : UInt32) (r : UnitRef) (st : AILoop) : Prop :=
  ∀ st', Relation.ReflTransGen (Passes i id) st st' → st'.leftedAction ≠ 0 →
    ∀ e action t, st'.world.enemyList[i]? = some e →
      decideAction id st'.targetCoords e.coords = some (action, t) → AimsAt st'.world e r action

/-- The enemy at index `i` and its target, which stays at `T`. -/
structure Facing (i : Nat) (r : UnitRef) (T : CoordVec) (w : GameWorld) (e : Enemy) : Prop where
  self : w.enemyList[i]? = some e
  z : e.coords.z = 0
  target : r.StandsAt i T e.faction w

section Loop
variable {i : Nat} {id : UInt32} {r : UnitRef} {T : CoordVec} {w v : GameWorld} {e : Enemy}
  {action : EnemyAction} {t : CoordVec} {st st' : AILoop}

theorem Facing.move (h : Facing i r T w e) {d : CoordVec} (hd : d.z = 0) :
    Facing i r T (w.modifyEnemy i fun e => { e with coords := e.coords + d })
      { e with coords := e.coords + d } where
  self := by simp [h.self]
  z := by
    rw [CoordVec.add_z, h.z, hd]
    rfl
  target := h.target.modifyEnemy _

theorem Facing.attack (h : Facing i r T w e)
    (ha : EEnemyActionType.ofCode action.actionType = some .enemyBaseAttack)
    (hv : w.makeEnemyAction i action = .ok v) :
    ∃ e', Facing i r T v e' ∧ e'.coords = e.coords := by
  simp only [GameWorld.makeEnemyAction, h.self, ha, GameWorld.enemyMakeAttack] at hv
  obtain ⟨result, -, hv⟩ := except_bind_eq_ok.mp hv
  cases result with
  | none =>
    cases hv
    exact ⟨e, h, rfl⟩
  | some s =>
    cases hv
    refine ⟨{ e with
      inventory := s.2
      hp := (damagedHP s.1)^[(w.enemyFindAttackTarget e action).enemyIDs.count i] e.hp },
        ⟨?_, h.z, (h.target.modifyEnemy _).strike _ _⟩, rfl⟩
    rw [GameWorld.strike_getElem?, GameWorld.modifyEnemy_enemyList, List.getElem?_modify, h.self]
    simp [Enemy.iterate_takeDamage]

theorem int16_ofInt_sub (a b : Int16) : Int16.ofInt (a.toInt - b.toInt) = a - b := by
  rw [Int16.ofInt_sub, Int16.ofInt_toInt, Int16.ofInt_toInt]

theorem int16_sub_right_inj {a b c : Int16} : a - c = b - c ↔ a = b := by
  constructor
  · intro h
    grind
  · intro h
    rw [h]

theorem Facing.aimsAt_move (h : Facing i r T w e) (x y : Int16) :
    AimsAt w e r (enemyAction .enemyMove id x y) ↔
      T.steps (e.coords + ⟨x, y, 0⟩) + 1 = T.steps e.coords := by
  constructor
  · rintro ⟨T', hT', hmove, -⟩
    cases h.target.coords_eq.symm.trans hT'
    exact hmove (ofCode_enemyAction ..)
  · intro hmove
    refine ⟨T, h.target.coords_eq, fun _ => hmove, fun hattack => ?_⟩
    rw [ofCode_enemyAction] at hattack
    exact nomatch hattack

theorem Facing.aimsAt_attack (h : Facing i r T w e) (hT : T.z = 0) (x y : Int16) :
    AimsAt w e r (enemyAction .enemyBaseAttack id x y) ↔
      x = T.x - e.coords.x ∧ y = T.y - e.coords.y := by
  constructor
  · rintro ⟨T', hT', -, hattack⟩
    cases h.target.coords_eq.symm.trans hT'
    obtain ⟨hx, hy, -⟩ := hattack (ofCode_enemyAction ..)
    exact ⟨Option.some.inj hx, Option.some.inj hy⟩
  · rintro ⟨hx, hy⟩
    refine ⟨T, h.target.coords_eq, fun hmove => ?_, fun _ => ⟨congrArg some hx,
      congrArg some hy, h.target.listedIn ?_⟩⟩
    · rw [ofCode_enemyAction] at hmove
      exact nomatch hmove
    · rw [direction_enemyAction, hx, hy]
      apply CoordVec.eq_of_components
      · simp only [CoordVec.add_x]
        grind
      · simp only [CoordVec.add_y]
        grind
      · rw [CoordVec.add_z, h.z, hT]
        rfl

theorem decideAction_cases_next {target coords : CoordVec}
    (hd : decideAction id target coords = some (action, t)) :
    (Aim.gap ⟨target, coords⟩).lenght > 1 ∧ (∃ x y, action = enemyAction .enemyMove id x y ∧
        Aim.next ⟨target, coords⟩ = some ⟨t, coords + ⟨x, y, 0⟩⟩) ∨
      ¬ (Aim.gap ⟨target, coords⟩).lenght > 1 ∧ t = target ∧
        action = enemyAction .enemyBaseAttack id (target.x - coords.x) (target.y - coords.y) := by
  unfold decideAction at hd
  simp only at hd
  split at hd
  · rename_i hlong
    refine .inl ⟨hlong, ?_⟩
    split at hd
    · rename_i hx
      cases hd
      exact ⟨_, _, rfl, Aim.next_moveX (a := ⟨target, coords⟩) hlong hx⟩
    · rename_i hx
      split at hd
      · rename_i hy
        cases hd
        exact ⟨_, _, rfl, Aim.next_moveY (a := ⟨target, coords⟩) hlong (not_not.mp hx) hy⟩
      · cases hd
  · rename_i hlong
    rw [int16_ofInt_sub, int16_ofInt_sub] at hd
    cases hd
    exact .inr ⟨hlong, rfl, rfl⟩

/-- What the loop decides is right for the two positions if and only if it aims at the unit. -/
theorem Facing.aimsAt_iff (h : Facing i r T w e) (hT : T.z = 0) {target : CoordVec}
    (hd : decideAction id target e.coords = some (action, t)) :
    AimsAt w e r action ↔ Aim.Right T ⟨target, e.coords⟩ := by
  rcases decideAction_cases_next hd with ⟨hlong, x, y, rfl, hnext⟩ | ⟨hshort, -, rfl⟩
  · rw [h.aimsAt_move, Aim.Right, if_pos hlong]
    constructor
    · intro hcloser b hb
      cases hnext.symm.trans hb
      exact hcloser
    · intro hall
      have hcloser := hall _ hnext
      dsimp only at hcloser
      exact hcloser
  · rw [h.aimsAt_attack hT, Aim.Right, if_neg hshort]
    exact and_congr int16_sub_right_inj int16_sub_right_inj

theorem Facing.passes (h : Facing i r T st.world e) (hpass : Passes i id st st') :
    (decideAction id st.targetCoords e.coords = none ∧ st' = st) ∨
    ∃ e', Facing i r T st'.world e' ∧ st'.leftedAction = st.leftedAction - 1 ∧
      Aim.next ⟨st.targetCoords, e.coords⟩ = some ⟨st'.targetCoords, e'.coords⟩ := by
  obtain ⟨-, hit⟩ := hpass
  unfold aiIteration at hit
  rw [h.self] at hit
  simp only at hit
  cases hd : decideAction id st.targetCoords e.coords with
  | none =>
    rw [hd] at hit
    cases hit
    exact .inl ⟨rfl, rfl⟩
  | some decided =>
    obtain ⟨action, t⟩ := decided
    rw [hd] at hit
    obtain ⟨v, hv, hit⟩ := except_bind_eq_ok.mp hit
    cases hit
    right
    rcases decideAction_cases_next hd with ⟨-, x, y, rfl, hnext⟩ | ⟨hshort, rfl, rfl⟩
    · cases (GameWorld.makeEnemyAction_move h.self (ofCode_enemyAction ..)).symm.trans hv
      exact ⟨_, h.move (d := ⟨x, y, 0⟩) rfl, rfl, hnext⟩
    · obtain ⟨e', hfacing, hcoords⟩ := h.attack (ofCode_enemyAction ..) hv
      refine ⟨e', hfacing, rfl, ?_⟩
      rw [hcoords]
      exact Aim.next_attack hshort

theorem passes_of_left_eq_zero (h : st.leftedAction = 0) : ¬ Passes i id st st' :=
  fun hpass => hpass.1 h

theorem eq_of_reach_of_none (h : Facing i r T st.world e)
    (hd : decideAction id st.targetCoords e.coords = none)
    (hreach : Relation.ReflTransGen (Passes i id) st st') : st' = st := by
  induction hreach with
  | refl => rfl
  | tail _ hpass ih =>
    subst ih
    rcases h.passes hpass with ⟨-, rfl⟩ | ⟨e', -, -, hnext⟩
    · rfl
    · rw [decideAction_eq_none_iff (a := ⟨_, e.coords⟩)] at hd
      exact nomatch hd.symm.trans hnext

theorem Facing.passes_move (h : Facing i r T st.world e) (hne : st.leftedAction ≠ 0) {x y : Int16}
    (hd : decideAction id st.targetCoords e.coords = some (enemyAction .enemyMove id x y, t)) :
    ∃ st₁, Passes i id st st₁ ∧
      Facing i r T st₁.world { e with coords := e.coords + ⟨x, y, 0⟩ } ∧
      st₁.leftedAction = st.leftedAction - 1 ∧ st₁.targetCoords = t := by
  have hw := GameWorld.makeEnemyAction_move h.self (ofCode_enemyAction .enemyMove id x y)
  have hit : aiIteration i id st = .ok ⟨st.world.modifyEnemy i fun e =>
      { e with coords := e.coords + ⟨x, y, 0⟩ }, t, st.leftedAction - 1,
      st.enemyActions ++ [enemyAction .enemyMove id x y]⟩ := by
    unfold aiIteration
    rw [h.self]
    simp only [hd, hw, except_ok_bind, direction_enemyAction]
  exact ⟨_, ⟨hne, hit⟩, h.move (d := ⟨x, y, 0⟩) rfl, rfl, rfl⟩

/-- The passes of the loop aim at the unit if and only if the actions are right for the two
positions: by induction on the actions that are left. -/
theorem Facing.allAimed_iff (hT : T.z = 0) (h : Facing i r T st.world e) :
    AllAimed i id r st ↔ Aim.AllRight T st.leftedAction.toNat ⟨st.targetCoords, e.coords⟩ := by
  induction hleft : st.leftedAction.toNat generalizing st e with
  | zero =>
    have hzero : st.leftedAction = 0 := UInt32.toNat_inj.mp hleft
    refine iff_of_true (fun st' hreach hne => ?_) trivial
    rcases hreach.cases_head with rfl | ⟨st₁, hpass, -⟩
    · exact absurd hzero hne
    · exact absurd hpass (passes_of_left_eq_zero hzero)
  | succ left ih =>
    have hne : st.leftedAction ≠ 0 := by
      intro hzero
      rw [hzero] at hleft
      cases hleft
    cases hd : decideAction id st.targetCoords e.coords with
    | none =>
      have hnone := (decideAction_eq_none_iff (a := ⟨st.targetCoords, e.coords⟩)).mp hd
      refine iff_of_true (fun st' hreach _ e' action t he' hd' => ?_) ?_
      · cases eq_of_reach_of_none h hd hreach
        cases h.self.symm.trans he'
        cases hd.symm.trans hd'
      · refine ⟨?_, fun b hb => absurd (hnone.symm.trans hb) (Option.some_ne_none b).symm⟩
        unfold Aim.Right
        split
        · exact fun b hb => absurd (hnone.symm.trans hb) (Option.some_ne_none b).symm
        · rename_i hshort
          cases hnone.symm.trans (Aim.next_attack hshort)
    | some decided =>
      obtain ⟨action, t⟩ := decided
      have hfirst := h.aimsAt_iff hT hd
      have hleft' : (st.leftedAction - 1).toNat = left := by
        rw [uint32_toNat_sub_one hne, hleft]
        rfl
      constructor
      · intro hall
        have hright := hfirst.mp (hall st .refl hne e action t h.self hd)
        rcases decideAction_cases_next hd with ⟨-, x, y, rfl, hnext⟩ | ⟨hshort, -, -⟩
        · -- a step succeeds, and the passes after it aim at the unit too
          obtain ⟨st₁, hpass, hmoved, hcount, htarget⟩ := h.passes_move hne hd
          have hrest := (ih hmoved (by rw [hcount, hleft'])).mp
            fun st' hreach => hall st' (.head hpass hreach)
          rw [htarget] at hrest
          refine ⟨hright, fun b hb => ?_⟩
          cases hnext.symm.trans hb
          exact hrest
        · rw [Aim.allRight_attack hshort]
          rw [Aim.Right, if_neg hshort] at hright
          exact hright
      · rintro ⟨hright, hall⟩ st' hreach hne' e' action' t' he' hd'
        rcases hreach.cases_head with rfl | ⟨st₁, hpass, hreach⟩
        · cases h.self.symm.trans he'
          cases hd.symm.trans hd'
          exact hfirst.mpr hright
        · rcases h.passes hpass with ⟨hnone, -⟩ | ⟨e₁, hfacing, hcount, hnext⟩
          · cases hd.symm.trans hnone
          · have hrest := (ih hfacing (by rw [hcount, hleft'])).mpr (hall _ hnext)
            exact hrest st' hreach hne' e' action' t' he' hd'

end Loop

/-- The `while` loop is a row of passes until no action is left. -/
theorem passes_of_aiWhile {i : Nat} {id : UInt32} {n : Nat} {st st' : AILoop}
    (h : aiWhile i id n st = .ok st') :
    Relation.ReflTransGen (Passes i id) st st' ∧ st'.leftedAction = 0 := by
  induction n generalizing st with
  | zero => cases h
  | succ n ih =>
    unfold aiWhile at h
    split at h
    · rename_i hzero
      cases h
      exact ⟨.refl, hzero⟩
    · rename_i hne
      obtain ⟨st₁, hit, h⟩ := Outcome.bind_eq_ok.mp h
      obtain ⟨hreach, hzero⟩ := ih h
      exact ⟨.head ⟨hne, Outcome.ofExcept_eq_ok.mp hit⟩ hreach, hzero⟩

/-- An enemy has chosen a target, and aims at the unit it has chosen in every pass exactly when
the displacement is one for which the steps cancel out. -/
theorem aims_iff {w : GameWorld} {i : Nat} {enemy : Enemy} (he : w.enemyList[i]? = some enemy)
    (hbest : (chooseTarget w enemy).bestAttackCandidate ≠ invalidID) (hz : enemy.coords.z = 0)
    (hT : (chooseTarget w enemy).targetCoords.z = 0) (id : UInt32) (actions : List EnemyAction) :
    (∃ r : UnitRef, r.ChosenBy w enemy) ∧ ∀ r : UnitRef, r.ChosenBy w enemy →
      (AllAimed i id r ⟨w, (chooseTarget w enemy).targetCoords, enemy.maxActions, actions⟩ ↔
        Aim.AimsTrue enemy.maxActions.toNat ⟨(chooseTarget w enemy).targetCoords, enemy.coords⟩) := by
  refine ⟨UnitRef.exists_chosenBy hbest, fun r hr => ?_⟩
  have hfacing : Facing i r (chooseTarget w enemy).targetCoords w enemy :=
    ⟨he, hz, hr.standsAt he⟩
  rw [hfacing.allAimed_iff hT]
  have hlevel := hT.trans hz.symm
  exact Aim.allRight_iff (a := ⟨_, enemy.coords⟩) rfl hlevel _

def zombieLoop (tile : CoordVec) : AILoop := ⟨zombieAndPlayer tile, tile, 3, []⟩

theorem aims_zombie : (∃ r : UnitRef, r.ChosenBy (zombieAndPlayer ⟨6, 0, 0⟩) enemiesTable[0]) ∧
    ∀ r : UnitRef, r.ChosenBy (zombieAndPlayer ⟨6, 0, 0⟩) enemiesTable[0] →
      AllAimed 0 0 r (zombieLoop ⟨6, 0, 0⟩) := by
  have hself : (zombieAndPlayer ⟨6, 0, 0⟩).enemyList[0]? = some enemiesTable[0] := rfl
  have htarget : (chooseTarget (zombieAndPlayer ⟨6, 0, 0⟩) enemiesTable[0]).targetCoords =
      ⟨6, 0, 0⟩ := by decide +kernel
  have haims := aims_iff hself (by decide +kernel) rfl (by rw [htarget]) 0 []
  rw [htarget] at haims
  refine ⟨haims.1, fun r hr => (haims.2 r hr).mpr ?_⟩
  refine .inr (.inr ⟨by decide, ?_, .inl (by decide)⟩)
  intro i h1 h3 _
  obtain rfl | rfl : i = 1 ∨ i = 2 := by
    have h3 : i < 3 := h3
    omega
  · decide +kernel
  · decide +kernel

/-- After a step the zombie attacks the tile it is on and not that of the player beside it. -/
theorem aims_beside :
    UnitRef.ChosenBy (zombieAndPlayer ⟨2, 0, 0⟩) enemiesTable[0] (.player 10000) ∧
      ¬ AllAimed 0 0 (.player 10000) (zombieLoop ⟨2, 0, 0⟩) := by
  refine ⟨⟨_, rfl, by decide +kernel⟩, fun h => ?_⟩
  have hfacing : Facing 0 (.player 10000) ⟨2, 0, 0⟩ (zombieLoop ⟨2, 0, 0⟩).world
      enemiesTable[0] := ⟨rfl, rfl, _, rfl, rfl⟩
  have hfirst : decideAction 0 (zombieLoop ⟨2, 0, 0⟩).targetCoords (enemiesTable[0]).coords =
      some (enemyAction .enemyMove 0 1 0, ⟨1, -1, -1⟩) := by decide +kernel
  obtain ⟨st, hpass, hmoved, hleft, htarget⟩ := hfacing.passes_move (by decide) hfirst
  have hsecond : decideAction 0 st.targetCoords ⟨1, 0, 0⟩ =
      some (enemyAction .enemyBaseAttack 0 0 (-1), ⟨1, -1, -1⟩) := by
    rw [htarget]
    decide +kernel
  have haims := h st (.single hpass) (by rw [hleft]; decide) _ _ _ hmoved.self hsecond
  exact absurd ((hmoved.aimsAt_attack rfl 0 (-1)).mp haims).1 (by decide)

end AsciiTerra
