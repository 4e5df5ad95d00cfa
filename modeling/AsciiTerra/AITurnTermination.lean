import AsciiTerra.AITurnSteps

/-!
# When the turn of the enemies ends

The `while` loop of an enemy stops making progress once the enemy stands on the tile
its target coordinates name while their z components differ by more than one. Every
step subtracts the same scalar from all three components of `TargetCoords`, so the
displacement is followed here through the few actions an enemy has.
-/

set_option autoImplicit false

namespace AsciiTerra

theorem stepTowards_eq (d : Int) : stepTowards d = 1 ∨ stepTowards d = -1 := by
  unfold stepTowards
  split
  · exact Or.inl rfl
  · exact Or.inr rfl

/-- A step along an axis brings both ends closer on it, without wrapping. -/
theorem stepTowards_sub {t c : Int16} (h : t.toInt ≠ c.toInt) :
    (t - stepTowards (t.toInt - c.toInt)).toInt - (c + stepTowards (t.toInt - c.toInt)).toInt =
      (t.toInt - c.toInt) - 2 * (stepTowards (t.toInt - c.toInt)).toInt := by
  have ht := t.toInt_lt
  have ht' := t.le_toInt
  have hc := c.toInt_lt
  have hc' := c.le_toInt
  unfold stepTowards
  split
  · rw [Int16.toInt_sub, Int16.toInt_add, Int.bmod_eq_of_le, Int.bmod_eq_of_le] <;> simp <;> omega
  · rw [Int16.toInt_sub, Int16.toInt_add, Int.bmod_eq_of_le, Int.bmod_eq_of_le] <;> simp <;> omega

/-- The scalar subtraction of a step along the other axis makes the displacement odd. -/
theorem scalarSubtract_odd {s : Int16} (hs : s = 1 ∨ s = -1) (a : Int16) :
    ((a - s).toInt - a.toInt) % 2 = 1 := by
  rw [Int16.toInt_sub]
  rcases hs with rfl | rfl <;> simp [Int.bmod_def] <;> split <;> omega

/-- `TargetCoords` and `Enemy.Coords` in the `while` loop. -/
structure Aim where
  target : CoordVec
  coords : CoordVec

namespace Aim

def xDisplacement (a : Aim) : Int := a.target.x.toInt - a.coords.x.toInt
def yDisplacement (a : Aim) : Int := a.target.y.toInt - a.coords.y.toInt

/-- The displacement as a vector, which wraps. -/
def gap (a : Aim) : CoordVec := a.target - a.coords

def moveX (a : Aim) : Aim :=
  ⟨a.target.scalarSubtract (stepTowards a.xDisplacement),
    a.coords + ⟨stepTowards a.xDisplacement, 0, 0⟩⟩

def moveY (a : Aim) : Aim :=
  ⟨a.target.scalarSubtract (stepTowards a.yDisplacement),
    a.coords + ⟨0, stepTowards a.yDisplacement, 0⟩⟩

/-- What the loop body does to the two positions; none where it does nothing. -/
def next (a : Aim) : Option Aim :=
  if a.gap.lenght > 1 then
    if a.xDisplacement ≠ 0 then some a.moveX
    else if a.yDisplacement ≠ 0 then some a.moveY
    else none
  else some a

/-- Within that many actions the loop body does nothing. -/
def Stalls : Nat → Aim → Prop
  | 0, _ => False
  | n + 1, a => ∀ b, a.next = some b → b.Stalls n

/-- The target is four tiles away on one axis and two, to the same side, on the other. -/
def TwoStepsShort (a : Aim) : Prop :=
  (a.xDisplacement = 4 ∧ a.gap.y = 2) ∨ (a.xDisplacement = -4 ∧ a.gap.y = -2)

theorem stalls_succ {a b : Aim} (h : a.next = some b) (n : Nat) :
    a.Stalls (n + 1) ↔ b.Stalls n :=
  ⟨fun hs => hs b h, fun hs c hc => by cases h.symm.trans hc; exact hs⟩

theorem stalls_of_next_eq_none {a : Aim} (h : a.next = none) (n : Nat) : a.Stalls (n + 1) :=
  fun b hb => by simp [h] at hb

theorem not_stalls_of_attack {a : Aim} (h : ¬ a.gap.lenght > 1) (n : Nat) : ¬ a.Stalls n := by
  have hnext : a.next = some a := if_neg h
  induction n with
  | zero => exact id
  | succ n ih => exact fun hs => ih ((stalls_succ hnext n).mp hs)

theorem xDisplacement_moveX {a : Aim} (h : a.xDisplacement ≠ 0) :
    a.moveX.xDisplacement = a.xDisplacement - 2 * (stepTowards a.xDisplacement).toInt :=
  stepTowards_sub fun heq => h (Int.sub_eq_zero.mpr heq)

theorem gap_moveX (a : Aim) : a.moveX.gap = ⟨a.gap.x - 2 * stepTowards a.xDisplacement,
    a.gap.y - stepTowards a.xDisplacement, a.gap.z - stepTowards a.xDisplacement⟩ := by
  simp only [gap, moveX, CoordVec.scalarSubtract]
  generalize stepTowards a.xDisplacement = s
  apply CoordVec.mk.injEq .. |>.mpr
  refine ⟨?_, ?_, ?_⟩ <;> simp only [CoordVec.add_x, CoordVec.add_y, CoordVec.add_z,
    CoordVec.sub_x, CoordVec.sub_y, CoordVec.sub_z] <;> grind

theorem gap_moveY_z (a : Aim) : a.moveY.gap.z = a.gap.z - stepTowards a.yDisplacement := by
  simp only [gap, moveY, CoordVec.scalarSubtract, CoordVec.sub_z, CoordVec.add_z]
  grind

theorem xDisplacement_moveY_odd {a : Aim} (h : a.xDisplacement = 0) :
    a.moveY.xDisplacement % 2 = 1 := by
  have hx : a.coords.x = a.target.x := (Int16.toInt_inj.mp (Int.sub_eq_zero.mp h)).symm
  have hnew : a.moveY.xDisplacement =
      (a.target.x - stepTowards a.yDisplacement).toInt - a.target.x.toInt := by
    rw [xDisplacement, moveY, CoordVec.scalarSubtract, CoordVec.add_x, hx, Int16.add_zero]
  rw [hnew]
  exact scalarSubtract_odd (stepTowards_eq a.yDisplacement) a.target.x

/-- Where the loop body does nothing, the positions differ in z only, by more than one. -/
theorem next_eq_none {a : Aim} (h : a.next = none) :
    a.xDisplacement = 0 ∧ a.gap.y = 0 ∧ a.gap.z ≠ 0 ∧ a.gap.z ≠ 1 ∧ a.gap.z ≠ -1 := by
  unfold next at h
  split at h
  · rename_i hlen
    split at h
    · simp at h
    · rename_i hx
      split at h
      · simp at h
      · rename_i hy
        have hx : a.xDisplacement = 0 := not_not.mp hx
        have hy : a.yDisplacement = 0 := not_not.mp hy
        have hgx : a.gap.x = 0 := by
          have heq : a.target.x = a.coords.x := Int16.toInt_inj.mp (Int.sub_eq_zero.mp hx)
          simp [gap, heq]
        have hgy : a.gap.y = 0 := by
          have heq : a.target.y = a.coords.y := Int16.toInt_inj.mp (Int.sub_eq_zero.mp hy)
          simp [gap, heq]
        have hsq : a.gap.squareLength = a.gap.z * a.gap.z := by
          simp [CoordVec.squareLength, hgx, hgy]
        refine ⟨hx, hgy, ?_, ?_, ?_⟩ <;> intro hz <;> rw [hz] at hsq
        · exact CoordVec.lenght_le_one (n := 0) (by rw [hsq]; rfl) (by decide) hlen
        · exact CoordVec.lenght_le_one (n := 1) (by rw [hsq]; rfl) (by decide) hlen
        · exact CoordVec.lenght_le_one (n := 1) (by rw [hsq]; rfl) (by decide) hlen
  · simp at h

theorem next_cases {a : Aim} {n : Nat} (h : a.Stalls (n + 1)) :
    a.next = none ∨
    (a.xDisplacement ≠ 0 ∧ a.next = some a.moveX ∧ a.moveX.Stalls n) ∨
    (a.xDisplacement = 0 ∧ a.next = some a.moveY ∧ a.moveY.Stalls n) := by
  by_cases hlen : a.gap.lenght > 1
  · by_cases hx : a.xDisplacement = 0
    · by_cases hy : a.yDisplacement = 0
      · exact Or.inl (by simp [next, hlen, hx, hy])
      · have hnext : a.next = some a.moveY := by simp [next, hlen, hx, hy]
        exact Or.inr (Or.inr ⟨hx, hnext, (stalls_succ hnext n).mp h⟩)
    · have hnext : a.next = some a.moveX := by simp [next, hlen, hx]
      exact Or.inr (Or.inl ⟨hx, hnext, (stalls_succ hnext n).mp h⟩)
  · exact absurd h (not_stalls_of_attack hlen (n + 1))

/-- After one step from the ground layer the loop body always acts. -/
theorem gap_z_of_step {a : Aim} (hz : a.gap.z = 0) :
    (a.moveX.gap.z = 1 ∨ a.moveX.gap.z = -1) ∧ (a.moveY.gap.z = 1 ∨ a.moveY.gap.z = -1) := by
  rw [gap_moveX, gap_moveY_z, hz]
  constructor
  · rcases stepTowards_eq a.xDisplacement with h | h <;> simp [h]
  · rcases stepTowards_eq a.yDisplacement with h | h <;> simp [h]

theorem not_stalls_one {a : Aim} (hz : a.gap.z = 0 ∨ a.gap.z = 1 ∨ a.gap.z = -1) :
    ¬ a.Stalls 1 := by
  intro h
  rcases next_cases h with h | ⟨_, _, h⟩ | ⟨_, _, h⟩
  · obtain ⟨_, _, h0, h1, h2⟩ := next_eq_none h
    rcases hz with hz | hz | hz
    · exact h0 hz
    · exact h1 hz
    · exact h2 hz
  · exact h
  · exact h

theorem not_stalls_two {a : Aim} (hz : a.gap.z = 0) : ¬ a.Stalls 2 := by
  intro h
  rcases next_cases h with h | ⟨_, _, h⟩ | ⟨_, _, h⟩
  · exact (next_eq_none h).2.2.1 hz
  · exact not_stalls_one (Or.inr (gap_z_of_step hz).1) h
  · exact not_stalls_one (Or.inr (gap_z_of_step hz).2) h

theorem gap_x_of_xDisplacement {a : Aim} {d : Int16} (h : a.xDisplacement = d.toInt) :
    a.gap.x = d := by
  apply Int16.toInt_inj.mp
  unfold xDisplacement at h
  rw [gap, CoordVec.sub_x, Int16.toInt_sub, h, Int.bmod_eq_of_le]
  · simpa using d.le_toInt
  · have := d.toInt_lt
    omega

theorem next_of_long {a : Aim} {n : Nat} (hx : a.xDisplacement ≠ 0)
    (h : a.gap.squareLength.toInt = n) (hn : 4 ≤ n) : a.next = some a.moveX := by
  simp [next, CoordVec.one_lt_lenght h hn, hx]

/-- Two steps along x take a target two steps short onto the same tile, two layers apart. -/
theorem stalls_of_twoStepsShort {a : Aim} (hz : a.gap.z = 0) (h : a.TwoStepsShort) :
    a.Stalls 3 := by
  have hboth : ∃ s : Int16, (s = 1 ∨ s = -1) ∧ a.xDisplacement = (4 * s).toInt ∧
      a.gap.y = 2 * s := by
    rcases h with ⟨hx, hy⟩ | ⟨hx, hy⟩
    · exact ⟨1, Or.inl rfl, hx, hy⟩
    · exact ⟨-1, Or.inr rfl, hx, hy⟩
  obtain ⟨s, hs, hx, hy⟩ := hboth
  have hgx := gap_x_of_xDisplacement hx
  have hstep : stepTowards a.xDisplacement = s := by
    rw [hx]
    rcases hs with rfl | rfl <;> rfl
  have hx0 : a.xDisplacement ≠ 0 := by
    rw [hx]
    rcases hs with rfl | rfl <;> decide
  have hx1 : a.moveX.xDisplacement = (2 * s).toInt := by
    rw [xDisplacement_moveX hx0, hstep, hx]
    rcases hs with rfl | rfl <;> rfl
  have hstep1 : stepTowards a.moveX.xDisplacement = s := by
    rw [hx1]
    rcases hs with rfl | rfl <;> rfl
  have hx10 : a.moveX.xDisplacement ≠ 0 := by
    rw [hx1]
    rcases hs with rfl | rfl <;> decide
  have hgap1 : a.moveX.gap = ⟨2 * s, s, -s⟩ := by
    rw [gap_moveX, hstep, hgx, hy, hz]
    rcases hs with rfl | rfl <;> rfl
  have hgap2 : a.moveX.moveX.gap = ⟨0, 0, -(2 * s)⟩ := by
    rw [gap_moveX, hstep1, hgap1]
    rcases hs with rfl | rfl <;> rfl
  have hx2 : a.moveX.moveX.xDisplacement = 0 := by
    rw [xDisplacement_moveX hx10, hstep1, hx1]
    rcases hs with rfl | rfl <;> rfl
  have hy2 : a.moveX.moveX.yDisplacement = 0 := by
    have hsub : a.moveX.moveX.target.y - a.moveX.moveX.coords.y = 0 := by
      have := congrArg CoordVec.y hgap2
      simpa [gap] using this
    unfold yDisplacement
    rw [Int16.sub_eq_iff_eq_add, Int16.zero_add] at hsub
    rw [hsub, Int.sub_self]
  have hnext : a.next = some a.moveX := by
    refine next_of_long (n := 20) hx0 ?_ (by decide)
    rw [CoordVec.squareLength, hgx, hy, hz]
    rcases hs with rfl | rfl <;> rfl
  have hnext1 : a.moveX.next = some a.moveX.moveX := by
    refine next_of_long (n := 6) hx10 ?_ (by decide)
    rw [CoordVec.squareLength, hgap1]
    rcases hs with rfl | rfl <;> rfl
  have hlen2 : a.moveX.moveX.gap.lenght > 1 := by
    refine CoordVec.one_lt_lenght (n := 4) ?_ (by decide)
    rw [CoordVec.squareLength, hgap2]
    rcases hs with rfl | rfl <;> rfl
  have hnext2 : a.moveX.moveX.next = none := by simp [next, hlen2, hx2, hy2]
  rw [stalls_succ hnext, stalls_succ hnext1]
  exact stalls_of_next_eq_none hnext2 0

/-- With three actions on the ground layer, a stall comes from two steps along x after
which no displacement is left in the plane. -/
theorem twoStepsShort_of_stalls {a : Aim} (hz : a.gap.z = 0) (h : a.Stalls 3) :
    a.TwoStepsShort := by
  rcases next_cases h with h | ⟨hx, _, h⟩ | ⟨hx, _, h⟩
  · exact absurd hz (next_eq_none h).2.2.1
  · have hz1 := (gap_z_of_step hz).1
    rcases next_cases h with h | ⟨hx1, _, h⟩ | ⟨hx1, _, h⟩
    · obtain ⟨_, _, _, h1, h2⟩ := next_eq_none h
      exact absurd hz1 (not_or.mpr ⟨h1, h2⟩)
    · -- two steps along x: their signs agree, since the displacement was not zero
      rcases next_cases h with h | ⟨_, _, h⟩ | ⟨_, _, h⟩
      · obtain ⟨hx2, hy2, _⟩ := next_eq_none h
        rw [xDisplacement_moveX hx1] at hx2
        rw [gap_moveX, gap_moveX] at hy2
        simp only at hy2
        have hX := xDisplacement_moveX hx
        rcases stepTowards_eq a.xDisplacement with hs | hs <;>
          rcases stepTowards_eq a.moveX.xDisplacement with hs1 | hs1 <;>
          rw [hs] at hX hy2 <;> rw [hs1] at hx2 hy2 <;> simp at hX hx2
        · exact Or.inl ⟨by omega, by grind⟩
        · exact absurd (by omega) hx
        · exact absurd (by omega) hx
        · exact Or.inr ⟨by omega, by grind⟩
      · exact h.elim
      · exact h.elim
    · rcases next_cases h with h | ⟨_, _, h⟩ | ⟨_, _, h⟩
      · have hodd := xDisplacement_moveY_odd hx1
        have hx2 := (next_eq_none h).1
        omega
      · exact h.elim
      · exact h.elim
  · have hz1 := (gap_z_of_step hz).2
    have hodd := xDisplacement_moveY_odd hx
    rcases next_cases h with h | ⟨hx1, _, h⟩ | ⟨hx1, _, _⟩
    · obtain ⟨_, _, _, h1, h2⟩ := next_eq_none h
      exact absurd hz1 (not_or.mpr ⟨h1, h2⟩)
    · rcases next_cases h with h | ⟨_, _, h⟩ | ⟨_, _, h⟩
      · have hx2 := (next_eq_none h).1
        rw [xDisplacement_moveX hx1] at hx2
        omega
      · exact h.elim
      · exact h.elim
    · omega

end Aim

theorem decideAction_eq_none_iff {id : UInt32} {a : Aim} :
    decideAction id a.target a.coords = none ↔ a.next = none := by
  unfold decideAction Aim.next Aim.xDisplacement Aim.yDisplacement Aim.gap
  simp only
  split_ifs <;> simp

/-- The step lemma that ties the world to the two positions. -/
theorem makeEnemyAction_next {i : Nat} {id : UInt32} {w w' : GameWorld} {enemy : Enemy}
    {t t' : CoordVec} {action : EnemyAction} (he : w.enemyList[i]? = some enemy)
    (harmed : enemy.Armed) (hd : decideAction id t enemy.coords = some (action, t'))
    (hw : w.makeEnemyAction i action = .ok w') :
    ∃ enemy', w'.enemyList[i]? = some enemy' ∧
      Aim.next ⟨t, enemy.coords⟩ = some ⟨t', enemy'.coords⟩ := by
  have hmove : ∀ s : CoordVec, (w.modifyEnemy i fun e => { e with coords := e.coords + s })
      |>.enemyList[i]? = some { enemy with coords := enemy.coords + s } := by
    intro s
    simp [he]
  unfold decideAction at hd
  simp only at hd
  split at hd
  · rename_i hlen
    split at hd
    · rename_i hx
      cases hd
      cases (GameWorld.makeEnemyAction_move he (ofCode_enemyAction ..)).symm.trans hw
      refine ⟨_, hmove _, ?_⟩
      simp [Aim.next, Aim.gap, hlen, Aim.moveX, Aim.xDisplacement, hx]
    · rename_i hx
      split at hd
      · rename_i hy
        cases hd
        cases (GameWorld.makeEnemyAction_move he (ofCode_enemyAction ..)).symm.trans hw
        refine ⟨_, hmove _, ?_⟩
        simp [Aim.next, Aim.gap, hlen, Aim.moveY, Aim.xDisplacement, Aim.yDisplacement, hx, hy]
      · cases hd
  · rename_i hlen
    cases hd
    obtain ⟨enemy', he', hplace⟩ := List.Forall₂.getElem?_eq_some
      (GameWorld.attack_related he harmed (ofCode_enemyAction ..) hw).2 he
    refine ⟨enemy', he', ?_⟩
    rw [hplace.2]
    exact if_neg hlen

theorem aiWhile_deep {i : Nat} {id : UInt32} {st : AILoop} (h : st.leftedAction ≠ 0)
    (hst : aiIteration i id st = .ok st) (n : Nat) : aiWhile i id n st = .deep := by
  induction n with
  | zero => rfl
  | succ n ih => rw [aiWhile_step h hst, ih]

/-- The `while` loop returns unless the positions stall within the actions that are left. -/
theorem aiWhile_returns_iff {i : Nat} {id : UInt32} {st : AILoop} {enemy : Enemy}
    (harmed : st.world.AllArmed) (he : st.world.enemyList[i]? = some enemy) :
    (∃ n st', aiWhile i id n st = .ok st') ↔
      ¬ Aim.Stalls st.leftedAction.toNat ⟨st.targetCoords, enemy.coords⟩ := by
  induction hleft : st.leftedAction.toNat generalizing st enemy with
  | zero =>
    have hz : st.leftedAction = 0 := UInt32.toNat_inj.mp hleft
    exact iff_of_true ⟨1, st, aiWhile_zero_left hz⟩ fun h => h
  | succ left ih =>
    have hnz : st.leftedAction ≠ 0 := by
      intro hz
      rw [hz] at hleft
      exact nomatch hleft
    rcases aiIteration_cases id he (harmed enemy (List.mem_of_getElem? he)) with
      ⟨hd, hit⟩ | ⟨action, t, w, hd, hw, hrel, hit⟩
    · have hnext := (decideAction_eq_none_iff (a := ⟨st.targetCoords, enemy.coords⟩)).mp hd
      refine iff_of_false ?_ (not_not.mpr (Aim.stalls_of_next_eq_none hnext left))
      rintro ⟨n, st', hn⟩
      rw [aiWhile_deep hnz hit] at hn
      exact nomatch hn
    · obtain ⟨enemy', he', hnext⟩ := makeEnemyAction_next he
        (harmed enemy (List.mem_of_getElem? he)) hd hw
      have hleft' : (st.leftedAction - 1).toNat = left := by
        rw [uint32_toNat_sub_one hnz, hleft]
        rfl
      have hrest := @ih ⟨w, t, st.leftedAction - 1, st.enemyActions ++ [action]⟩ _
        (hrel.allArmed harmed) he' hleft'
      rw [Aim.stalls_succ hnext, ← hrest]
      constructor
      · rintro ⟨n, st', hn⟩
        cases n with
        | zero => exact nomatch hn
        | succ n => exact ⟨n, st', by rwa [aiWhile_step hnz hit] at hn⟩
      · rintro ⟨n, st', hn⟩
        exact ⟨n + 1, st', by rwa [aiWhile_step hnz hit]⟩

theorem aiWhile_of_returns {i : Nat} {id : UInt32} {n : Nat} {st st' : AILoop}
    (harmed : st.world.AllArmed) (h : aiWhile i id n st = .ok st') :
    aiWhile i id (st.leftedAction.toNat + 1) st = .ok st' := by
  induction n generalizing st with
  | zero => cases h
  | succ n ih =>
    by_cases hz : st.leftedAction = 0
    · rw [aiWhile_zero_left hz] at h ⊢
      exact h
    · cases he : st.world.enemyList[i]? with
      | none => simp [aiWhile, hz, aiIteration, he] at h
      | some enemy =>
        rcases aiIteration_cases id he (harmed enemy (List.mem_of_getElem? he)) with
          ⟨_, hit⟩ | ⟨action, t, w, _, _, hrel, hit⟩
        · rw [aiWhile_deep hz hit] at h
          cases h
        · rw [aiWhile_step hz hit] at h ⊢
          refine aiWhile_mono ?_ (ih (hrel.allArmed harmed) h)
          have hpos : 0 < st.leftedAction.toNat := by
            rw [Nat.pos_iff_ne_zero]
            exact fun h0 => hz (UInt32.toNat_inj.mp h0)
          rw [uint32_toNat_sub_one hz]
          omega

/-- An entry of `EnemiesTable` in the course of a game: faction, hit points, position and
the slots that are not equipped are free. -/
def Enemy.FromTable (e : Enemy) : Prop :=
  ∃ t ∈ enemiesTable, e.type = t.type ∧ e.maxActions = t.maxActions ∧
    e.equipedItemID = t.equipedItemID ∧
    e.inventory.storage[t.equipedItemID.toNat]? = t.inventory.storage[t.equipedItemID.toNat]?

namespace Enemy

theorem armed_of_mem_enemiesTable {t : Enemy} (h : t ∈ enemiesTable) : t.Armed := by
  simp only [enemiesTable, List.mem_cons, List.not_mem_nil, or_false] at h
  rcases h with rfl | rfl
  · exact ⟨_, rfl, rfl⟩
  · exact ⟨_, rfl, rfl⟩

theorem FromTable.armed {e : Enemy} (h : e.FromTable) : e.Armed := by
  obtain ⟨t, ht, -, -, hequiped, hweapon⟩ := h
  obtain ⟨slot, hslot, hempty⟩ := armed_of_mem_enemiesTable ht
  exact ⟨slot, by rw [hequiped, hweapon, hslot], hempty⟩

theorem FromTable.maxActions_eq {e : Enemy} (h : e.FromTable) :
    e.maxActions = 3 ∨ e.maxActions = 2 := by
  obtain ⟨t, ht, -, hmax, -⟩ := h
  rw [hmax]
  simp only [enemiesTable, List.mem_cons, List.not_mem_nil, or_false] at ht
  rcases ht with rfl | rfl
  · exact Or.inl rfl
  · exact Or.inr rfl

theorem Turned.fromTable {e e' : Enemy} (h : e.Turned e') (he : e.FromTable) :
    e'.FromTable := by
  obtain ⟨t, ht, htype, hmax, hequiped, hweapon⟩ := he
  refine ⟨t, ht, h.1.type.trans htype, h.1.maxActions.trans hmax,
    h.1.equipedItemID.trans hequiped, ?_⟩
  rw [← hweapon, ← hequiped]
  exact h.1.weapon

end Enemy

namespace GameWorld

/-- Every enemy is from `EnemiesTable` and every unit is on the ground layer. -/
structure OnGround (w : GameWorld) : Prop where
  fromTable : ∀ e ∈ w.enemyList, e.FromTable
  players : w.PlayersOnGround
  enemies : w.EnemiesOnGround

theorem OnGround.allArmed {w : GameWorld} (h : w.OnGround) : w.AllArmed :=
  fun e he => (h.fromTable e he).armed

theorem AIRelated.onGround {w w' : GameWorld} (hr : w.AIRelated w') (h : w.OnGround) :
    w'.OnGround where
  fromTable := hr.forall_enemies (fun _ _ ht he => ht.fromTable he) h.fromTable
  players := hr.ground h.players
  enemies := hr.enemiesOnGround h.enemies

/-- The living enemy at index `i` has three actions and a target two steps short. -/
def StopsShort (w : GameWorld) (i : Nat) : Prop :=
  ∃ e, w.enemyList[i]? = some e ∧ e.hp ≠ 0 ∧ e.maxActions = 3 ∧
    (chooseTarget w e).bestAttackCandidate ≠ invalidID ∧
    Aim.TwoStepsShort ⟨(chooseTarget w e).targetCoords, e.coords⟩

end GameWorld

theorem chooseTarget_z {w : GameWorld} (hw : w.OnGround) (enemy : Enemy) :
    (chooseTarget w enemy).targetCoords.z = 0 := by
  have hplayers : ∀ (ps : List Player) (t : AITarget), (∀ p ∈ ps, p.coords.z = 0) →
      t.targetCoords.z = 0 →
      (ps.foldl (AITarget.considerPlayer enemy) t).targetCoords.z = 0 := by
    intro ps
    induction ps with
    | nil => exact fun _ _ ht => ht
    | cons p ps ih =>
      intro t hps ht
      refine ih _ (fun q hq => hps q (List.mem_cons_of_mem p hq)) ?_
      unfold AITarget.considerPlayer
      simp only
      split
      · exact hps p List.mem_cons_self
      · exact ht
  have henemies : ∀ (es : List (Enemy × Nat)) (t : AITarget), (∀ e ∈ es, e.1.coords.z = 0) →
      t.targetCoords.z = 0 →
      (es.foldl (AITarget.considerEnemy enemy) t).targetCoords.z = 0 := by
    intro es
    induction es with
    | nil => exact fun _ _ ht => ht
    | cons e es ih =>
      intro t hes ht
      refine ih _ (fun q hq => hes q (List.mem_cons_of_mem e hq)) ?_
      unfold AITarget.considerEnemy
      simp only
      split
      · split
        · exact hes e List.mem_cons_self
        · exact ht
      · exact ht
  have hstart : ((w.playersList.entries.map (·.2)).foldl (AITarget.considerPlayer enemy)
      AITarget.start).targetCoords.z = 0 := by
    refine hplayers _ _ (fun p hp => ?_) rfl
    obtain ⟨e, he, rfl⟩ := List.mem_map.mp hp
    exact hw.players e he
  unfold chooseTarget
  simp only
  split
  · refine henemies _ _ (fun e he => hw.enemies e.1 ?_) hstart
    exact List.fst_mem_of_mem_zipIdx he
  · exact hstart

/-- The step lemma: one enemy takes its turn unless it stops short. -/
theorem enemyTurn_returns_iff {st : AITurn} {i : Nat} {enemy : Enemy} (hw : st.world.OnGround)
    (he : st.world.enemyList[i]? = some enemy) :
    (∃ n st', enemyTurn n st i = .ok st') ↔ ¬ st.world.StopsShort i := by
  have hmem := List.mem_of_getElem? he
  have harmed := hw.allArmed enemy hmem
  have hshort : st.world.StopsShort i ↔ enemy.hp ≠ 0 ∧ enemy.maxActions = 3 ∧
      (chooseTarget st.world enemy).bestAttackCandidate ≠ invalidID ∧
      Aim.TwoStepsShort ⟨(chooseTarget st.world enemy).targetCoords, enemy.coords⟩ := by
    refine ⟨?_, fun h => ⟨enemy, he, h⟩⟩
    rintro ⟨e, he', h⟩
    cases he.symm.trans he'
    exact h
  rw [hshort]
  by_cases hhp : enemy.hp = 0
  · rcases enemyTurn_cases he harmed with ⟨_, ht⟩ | ⟨hne, _⟩ | ⟨hne, _⟩
    · exact iff_of_true ⟨0, _, ht 0⟩ fun h => h.1 hhp
    · exact absurd hhp hne
    · exact absurd hhp hne
  by_cases hcand : (chooseTarget st.world enemy).bestAttackCandidate = invalidID
  · rcases enemyTurn_cases he harmed with ⟨h0, _⟩ | ⟨_, _, ht⟩ | ⟨_, hne, _⟩
    · exact absurd h0 hhp
    · exact iff_of_true ⟨0, _, ht 0⟩ fun h => h.2.2.1 hcand
    · exact absurd hcand hne
  · have hloop : (∃ n st', enemyTurn n st i = .ok st') ↔ ∃ n st', aiWhile i st.activeEnemyID n
        ⟨st.world, (chooseTarget st.world enemy).targetCoords, enemy.maxActions,
          st.enemyActions⟩ = .ok st' := by
      refine exists_congr fun n => ?_
      rcases enemyTurn_cases he harmed with ⟨h0, _⟩ | ⟨_, h0, _⟩ | ⟨_, _, ht⟩
      · exact absurd h0 hhp
      · exact absurd h0 hcand
      · rw [ht]
        constructor
        · rintro ⟨st', h⟩
          obtain ⟨loop, hloop, _⟩ := Outcome.bind_eq_ok.mp h
          exact ⟨loop, hloop⟩
        · rintro ⟨loop, hloop⟩
          rw [hloop]
          exact ⟨_, rfl⟩
    rw [hloop, aiWhile_returns_iff hw.allArmed he]
    have hgap : (Aim.gap ⟨(chooseTarget st.world enemy).targetCoords, enemy.coords⟩).z = 0 := by
      simp [Aim.gap, chooseTarget_z hw, hw.enemies enemy hmem]
    rcases (hw.fromTable enemy hmem).maxActions_eq with h3 | h2
    · have hstall : Aim.Stalls 3 ⟨(chooseTarget st.world enemy).targetCoords, enemy.coords⟩ ↔ _ :=
        ⟨Aim.twoStepsShort_of_stalls hgap, Aim.stalls_of_twoStepsShort hgap⟩
      simp only [h3, show (3 : UInt32).toNat = 3 from rfl, hstall, hhp, hcand, ne_eq, not_false_eq_true,
        true_and]
    · refine iff_of_true ?_ fun h => ?_
      · rw [h2]
        exact Aim.not_stalls_two hgap
      · rw [h2] at h
        exact absurd h.2.1 (by decide)

/-- The run lemma: the enemies before index `k` take their turns unless one of them stops
short when its turn comes. -/
theorem enemyTurns_return_iff {w : GameWorld} (hw : w.OnGround) {k : Nat}
    (hk : k ≤ w.enemyList.length) :
    (∃ n st, enemyTurns n w k = .ok st) ↔
      ∀ j < k, ∀ n st, enemyTurns n w j = .ok st → ¬ st.world.StopsShort j := by
  induction k with
  | zero => exact iff_of_true ⟨0, _, rfl⟩ fun j hj => absurd hj (Nat.not_lt_zero j)
  | succ k ih =>
    have ih := ih (Nat.le_of_succ_le hk)
    have hturn : ∀ n st, enemyTurns n w k = .ok st →
        ((∃ m st', enemyTurn m st k = .ok st') ↔ ¬ st.world.StopsShort k) := by
      intro n st hst
      have hrel := enemyTurns_related hw.allArmed hst
      have hlt : k < st.world.enemyList.length := by
        rw [hrel.length_eq]
        exact hk
      exact enemyTurn_returns_iff (hrel.onGround hw) (List.getElem?_eq_getElem hlt)
    constructor
    · rintro ⟨n, st, hst⟩ j hj m st' hst'
      rw [enemyTurns_succ] at hst
      obtain ⟨st1, h1, h2⟩ := Outcome.bind_eq_ok.mp hst
      rcases Nat.lt_succ_iff_lt_or_eq.mp hj with hj | rfl
      · exact ih.mp ⟨n, st1, h1⟩ j hj m st' hst'
      · exact (hturn m st' hst').mp ⟨n, st, by
          have heq := (enemyTurns_mono (Nat.le_max_left n m) h1).symm.trans
            (enemyTurns_mono (Nat.le_max_right n m) hst')
          cases heq
          exact h2⟩
    · intro h
      obtain ⟨n, st, hst⟩ := ih.mpr fun j hj => h j (Nat.lt_succ_of_lt hj)
      obtain ⟨m, st', hst'⟩ := (hturn n st hst).mpr (h k (Nat.lt_succ_self k) n st hst)
      refine ⟨max n m, st', ?_⟩
      rw [enemyTurns_succ, enemyTurns_mono (Nat.le_max_left n m) hst, Outcome.ok_bind]
      exact enemyTurn_mono (Nat.le_max_right n m) hst'

/-- `MakeAITurn` returns exactly when no enemy stops short at the moment its turn comes. -/
theorem makeAITurn_returns_iff {w : GameWorld} (hw : w.OnGround) :
    (∃ n st, enemiesAct n w = .ok st) ↔
      ∀ k < w.enemyList.length, ∀ n st, enemyTurns n w k = .ok st → ¬ st.world.StopsShort k :=
  enemyTurns_return_iff hw (Nat.le_refl _)

/-- A zombie at the origin and one living player on a tile. -/
def zombieAndPlayer (tile : CoordVec) : GameWorld where
  playersList := AList.singleton 10000
    { Player.default with id := 10000, hp := 20, coords := tile }
  enemyList := enemiesTable.take 1
  gameWorldMap := ⟨Vector.replicate _ ETileType.grass.code⟩

theorem zombieAndPlayer_onGround {tile : CoordVec} (h : tile.z = 0) :
    (zombieAndPlayer tile).OnGround where
  fromTable e he := ⟨e, List.mem_of_mem_take he, rfl, rfl, rfl, rfl⟩
  players e he := by
    cases List.mem_singleton.mp he
    exact h
  enemies e he := by
    cases List.mem_singleton.mp he
    rfl

/-- With a player four tiles east and two north the zombie never finishes. -/
theorem makeAITurn_twoStepsShort : (zombieAndPlayer ⟨4, 2, 0⟩).OnGround ∧
    ¬ ∃ n st, enemiesAct n (zombieAndPlayer ⟨4, 2, 0⟩) = .ok st := by
  refine ⟨zombieAndPlayer_onGround rfl, fun h => ?_⟩
  have hnot := (enemyTurns_return_iff (zombieAndPlayer_onGround rfl) (Nat.le_refl 1)).mp h
  refine hnot 0 Nat.one_pos 0 _ rfl ⟨_, rfl, by decide, by decide, by decide, Or.inl ?_⟩
  exact ⟨by decide, by decide⟩

/-- With a player four tiles east it does. -/
theorem makeAITurn_straight : ∃ n st, enemiesAct n (zombieAndPlayer ⟨4, 0, 0⟩) = .ok st := by
  refine (makeAITurn_returns_iff (zombieAndPlayer_onGround rfl)).mpr fun k hk n st hst => ?_
  obtain rfl : k = 0 := Nat.lt_one_iff.mp hk
  cases hst
  rintro ⟨e, he, -, -, -, hshort⟩
  cases he
  rcases hshort with ⟨-, h⟩ | ⟨h, -⟩
  · exact absurd h (by decide)
  · exact absurd h (by decide)

theorem maxActions_lt_aiIterations {w : GameWorld} {e : Enemy} (h : e ∈ w.enemyList) :
    e.maxActions.toNat < aiIterations w := by
  have hmax : ∀ (l : List Nat) (a : Nat), a ∈ l → a ≤ l.foldr max 0 := by
    intro l a ha
    induction l with
    | nil => exact nomatch ha
    | cons b l ih =>
      rcases List.mem_cons.mp ha with rfl | ha
      · exact Nat.le_max_left _ _
      · exact Nat.le_trans (ih ha) (Nat.le_max_right _ _)
  exact Nat.lt_succ_of_le (hmax _ _ (List.mem_map_of_mem h))

theorem enemyTurn_of_returns {n m : Nat} {st st' : AITurn} {i : Nat}
    (harmed : st.world.AllArmed) (hm : ∀ e ∈ st.world.enemyList, e.maxActions.toNat < m)
    (h : enemyTurn n st i = .ok st') : enemyTurn m st i = .ok st' := by
  cases he : st.world.enemyList[i]? with
  | none => simp [enemyTurn, he] at h
  | some enemy =>
    have hmem := List.mem_of_getElem? he
    rcases enemyTurn_cases he (harmed enemy hmem) with ⟨_, ht⟩ | ⟨_, _, ht⟩ | ⟨_, _, ht⟩
    · exact (ht m).trans ((ht n).symm.trans h)
    · exact (ht m).trans ((ht n).symm.trans h)
    · rw [ht n] at h
      obtain ⟨loop, hloop, h⟩ := Outcome.bind_eq_ok.mp h
      have hbound := aiWhile_mono (hm enemy hmem) (aiWhile_of_returns harmed hloop)
      rw [ht m, hbound, Outcome.ok_bind, h]

theorem enemyTurns_of_returns {n : Nat} {w : GameWorld} (harmed : w.AllArmed) {k : Nat}
    {st : AITurn} (h : enemyTurns n w k = .ok st) : enemyTurns (aiIterations w) w k = .ok st := by
  induction k generalizing st with
  | zero => exact h
  | succ k ih =>
    rw [enemyTurns_succ] at h ⊢
    obtain ⟨st1, h1, h2⟩ := Outcome.bind_eq_ok.mp h
    have hrel := enemyTurns_related harmed h1
    rw [ih h1, Outcome.ok_bind]
    refine enemyTurn_of_returns (hrel.allArmed harmed) ?_ h2
    exact hrel.forall_enemies (fun e e' ht he => by rw [ht.1.maxActions]; exact he)
      fun e he => maxActions_lt_aiIterations he

theorem aiTurn_eq_ok_iff {w : GameWorld} (harmed : w.AllArmed) {st : AITurn} :
    aiTurn w = .ok st ↔ ∃ n, enemiesAct n w = .ok st := by
  constructor
  · intro h
    exact ⟨aiIterations w, h⟩
  · rintro ⟨n, h⟩
    exact enemyTurns_of_returns harmed h

theorem aiTurn_aiRelated {w : GameWorld} (harmed : w.AllArmed) {st : AITurn}
    (h : aiTurn w = .ok st) : w.AIRelated st.world := by
  obtain ⟨n, hn⟩ := (aiTurn_eq_ok_iff harmed).mp h
  exact enemyTurns_related harmed hn

end AsciiTerra
