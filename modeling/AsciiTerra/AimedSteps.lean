import AsciiTerra.AITurnTermination

/-!
# Steps and attacks towards the real target

`TargetCoords` moves with every step of the enemy, by the same scalar in all components, so
that it names the place of the target only as long as the steps cancel out. The actions are
followed here from a start at which it is right.
-/

set_option autoImplicit false

namespace AsciiTerra

theorem stepTowards_toInt (d : Int) : (stepTowards d).toInt = if d > 0 then 1 else -1 := by
  unfold stepTowards
  split <;> rfl

theorem CoordVec.eq_of_components {u v : CoordVec} (hx : u.x = v.x) (hy : u.y = v.y)
    (hz : u.z = v.z) : u = v := by
  cases u
  cases v
  cases hx
  cases hy
  cases hz
  rfl

/-- The distance in steps along the axes. -/
def CoordVec.steps (target coords : CoordVec) : Int :=
  |target.x.toInt - coords.x.toInt| + |target.y.toInt - coords.y.toInt|

/-- A step brings the walker closer if and only if it goes the way of the displacement. -/
theorem step_closer_iff {r s m : Int} (hs : s = 1 ∨ s = -1) :
    |r - s| + m + 1 = |r| + m ↔ 0 < r * s := by
  rcases hs with rfl | rfl
  · rw [Int.mul_one]
    rcases lt_or_ge 0 r with h | h
    · rw [abs_of_nonneg (by omega : 0 ≤ r - 1), abs_of_pos h]
      omega
    · rw [abs_of_neg (by omega : r - 1 < 0), abs_of_nonpos h]
      omega
  · rw [Int.mul_neg_one]
    rcases lt_or_ge r 0 with h | h
    · rw [abs_of_nonpos (by omega : r - -1 ≤ 0), abs_of_neg h]
      omega
    · rw [abs_of_pos (by omega : 0 < r - -1), abs_of_nonneg h]
      omega

theorem toInt_add_stepTowards {t c : Int16} (h : t.toInt ≠ c.toInt) :
    (c + stepTowards (t.toInt - c.toInt)).toInt =
      c.toInt + (stepTowards (t.toInt - c.toInt)).toInt := by
  have ht := t.toInt_lt
  have ht' := t.le_toInt
  have hc := c.toInt_lt
  have hc' := c.le_toInt
  rw [Int16.toInt_add, stepTowards_toInt]
  split <;> exact Int.bmod_eq_of_le (by omega) (by omega)

theorem toInt_sub_of_bounds {x s : Int16} (h : -2 ^ 15 ≤ x.toInt - s.toInt)
    (h' : x.toInt - s.toInt < 2 ^ 15) : (x - s).toInt = x.toInt - s.toInt := by
  rw [Int16.toInt_sub]
  exact Int.bmod_eq_of_le (by omega) (by omega)

theorem toInt_add_of_bounds {x s : Int16} (h : -2 ^ 15 ≤ x.toInt + s.toInt)
    (h' : x.toInt + s.toInt < 2 ^ 15) : (x + s).toInt = x.toInt + s.toInt := by
  rw [Int16.toInt_add]
  exact Int.bmod_eq_of_le (by omega) (by omega)

theorem stepTowards_toInt_eq (d : Int) :
    (stepTowards d).toInt = 1 ∨ (stepTowards d).toInt = -1 := by
  rw [stepTowards_toInt]
  split <;> simp

namespace Aim
variable {T : CoordVec} {a b : Aim}

/-- The action that is due is right for a target at `T`: a step closer, or an attack on it. -/
def Right (T : CoordVec) (a : Aim) : Prop :=
  if a.gap.lenght > 1 then ∀ b, a.next = some b → T.steps b.coords + 1 = T.steps a.coords
  else a.target.x = T.x ∧ a.target.y = T.y

/-- So are the next actions, as many as are left. -/
def AllRight (T : CoordVec) : Nat → Aim → Prop
  | 0, _ => True
  | k + 1, a => a.Right T ∧ ∀ b, a.next = some b → AllRight T k b

theorem next_attack (h : ¬ a.gap.lenght > 1) : a.next = some a := if_neg h

theorem next_moveX (h : a.gap.lenght > 1) (hx : a.xDisplacement ≠ 0) : a.next = some a.moveX := by
  rw [next, if_pos h, if_pos hx]

theorem next_moveY (h : a.gap.lenght > 1) (hx : a.xDisplacement = 0) (hy : a.yDisplacement ≠ 0) :
    a.next = some a.moveY := by
  rw [next, if_pos h, if_neg (not_not.mpr hx), if_pos hy]

theorem next_stuck (h : a.gap.lenght > 1) (hx : a.xDisplacement = 0) (hy : a.yDisplacement = 0) :
    a.next = none := by
  rw [next, if_pos h, if_neg (not_not.mpr hx), if_neg (not_not.mpr hy)]

theorem allRight_attack (h : ¬ a.gap.lenght > 1) (k : Nat) :
    AllRight T (k + 1) a ↔ a.target.x = T.x ∧ a.target.y = T.y := by
  have hright : a.Right T ↔ a.target.x = T.x ∧ a.target.y = T.y := by rw [Right, if_neg h]
  induction k with
  | zero =>
    rw [AllRight, hright]
    exact and_iff_left fun _ _ => trivial
  | succ k ih =>
    rw [AllRight, hright]
    refine and_iff_left_of_imp fun hall b hb => ?_
    cases (next_attack h).symm.trans hb
    exact ih.mpr hall

theorem allRight_step (h : a.gap.lenght > 1) (hnext : a.next = some b) (k : Nat) :
    AllRight T (k + 1) a ↔ T.steps b.coords + 1 = T.steps a.coords ∧ AllRight T k b := by
  rw [AllRight, Right, if_pos h]
  constructor
  · exact fun hall => ⟨hall.1 b hnext, hall.2 b hnext⟩
  · rintro ⟨hcloser, hall⟩
    refine ⟨fun c hc => ?_, fun c hc => ?_⟩
    · cases hnext.symm.trans hc
      exact hcloser
    · cases hnext.symm.trans hc
      exact hall

theorem allRight_stuck (h : a.gap.lenght > 1) (hx : a.xDisplacement = 0)
    (hy : a.yDisplacement = 0) (k : Nat) : AllRight T k a := by
  cases k with
  | zero => trivial
  | succ k =>
    have hnone := next_stuck h hx hy
    rw [AllRight, Right, if_pos h]
    exact ⟨fun b hb => (nomatch hnone.symm.trans hb), fun b hb => (nomatch hnone.symm.trans hb)⟩

theorem steps_moveX (hx : a.xDisplacement ≠ 0) :
    T.steps a.moveX.coords + 1 = T.steps a.coords ↔
      0 < (T.x.toInt - a.coords.x.toInt) * (stepTowards a.xDisplacement).toInt := by
  have hcoord : a.moveX.coords.x.toInt = a.coords.x.toInt + (stepTowards a.xDisplacement).toInt :=
    toInt_add_stepTowards fun heq => hx (Int.sub_eq_zero.mpr heq)
  have hother : a.moveX.coords.y = a.coords.y := by simp [moveX]
  rw [CoordVec.steps, CoordVec.steps, hcoord, hother, ← Int.sub_sub]
  exact step_closer_iff (stepTowards_toInt_eq _)

theorem steps_moveY (hy : a.yDisplacement ≠ 0) :
    T.steps a.moveY.coords + 1 = T.steps a.coords ↔
      0 < (T.y.toInt - a.coords.y.toInt) * (stepTowards a.yDisplacement).toInt := by
  have hcoord : a.moveY.coords.y.toInt = a.coords.y.toInt + (stepTowards a.yDisplacement).toInt :=
    toInt_add_stepTowards fun heq => hy (Int.sub_eq_zero.mpr heq)
  have hother : a.moveY.coords.x = a.coords.x := by simp [moveY]
  rw [CoordVec.steps, CoordVec.steps, hcoord, hother, ← Int.sub_sub]
  have hiff := step_closer_iff (m := |T.x.toInt - a.coords.x.toInt|)
    (r := T.y.toInt - a.coords.y.toInt) (stepTowards_toInt_eq a.yDisplacement)
  rw [← hiff]
  omega

/-- The sign of the first displacement along x. -/
def xSign (a : Aim) : Int := (stepTowards a.xDisplacement).toInt

/-- The two positions after as many steps along x. -/
def alongX (i : Nat) (a : Aim) : Aim :=
  ⟨a.target.scalarSubtract (Int16.ofNat i * stepTowards a.xDisplacement),
    a.coords + ⟨Int16.ofNat i * stepTowards a.xDisplacement, 0, 0⟩⟩

theorem xSign_eq (a : Aim) : a.xSign = 1 ∨ a.xSign = -1 := stepTowards_toInt_eq _

theorem xDisplacement_eq (a : Aim) : a.xDisplacement = a.xDisplacement.natAbs * a.xSign := by
  unfold xSign
  rw [stepTowards_toInt]
  split <;> omega

theorem alongX_zero (a : Aim) : a.alongX 0 = a := by
  have hzero : Int16.ofNat 0 = 0 := rfl
  unfold alongX
  rw [hzero, Int16.zero_mul]
  exact Aim.mk.injEq .. |>.mpr
    ⟨CoordVec.eq_of_components (Int16.sub_zero _) (Int16.sub_zero _) (Int16.sub_zero _),
      CoordVec.eq_of_components (Int16.add_zero _) (Int16.add_zero _) (Int16.add_zero _)⟩

theorem toInt_add_ofNat {x : Int16} {i : Nat} (h : x.toInt + i < 2 ^ 15) :
    (x + Int16.ofNat i).toInt = x.toInt + i := by
  have hx := x.le_toInt
  have hsize : Int16.size = 2 ^ 16 := rfl
  rw [Int16.toInt_add, Int16.toInt_ofNat', hsize, Int.add_bmod_bmod]
  exact Int.bmod_eq_of_le (by omega) (by omega)

theorem toInt_sub_ofNat {x : Int16} {i : Nat} (h : -2 ^ 15 ≤ x.toInt - i) :
    (x - Int16.ofNat i).toInt = x.toInt - i := by
  have hx := x.toInt_lt
  have hsize : Int16.size = 2 ^ 16 := rfl
  rw [Int16.toInt_sub, Int16.toInt_ofNat', hsize, Int.sub_bmod_bmod]
  exact Int.bmod_eq_of_le (by omega) (by omega)

/-- Up to half the displacement, and one more step where it is odd, nothing wraps. -/
theorem alongX_toInt {i : Nat} (hi : 2 * i ≤ a.xDisplacement.natAbs + 1) :
    (a.alongX i).target.x.toInt = a.target.x.toInt - i * a.xSign ∧
      (a.alongX i).coords.x.toInt = a.coords.x.toInt + i * a.xSign := by
  have ht := a.target.x.toInt_lt
  have ht' := a.target.x.le_toInt
  have hc := a.coords.x.toInt_lt
  have hc' := a.coords.x.le_toInt
  have hdef : a.xDisplacement = a.target.x.toInt - a.coords.x.toInt := rfl
  have hsigned := xDisplacement_eq a
  have hstep := stepTowards_eq a.xDisplacement
  unfold alongX xSign at *
  simp only [CoordVec.scalarSubtract, CoordVec.add_x]
  rcases hstep with hs | hs
  · have hone : (1 : Int16).toInt = 1 := rfl
    rw [hs, hone] at hsigned ⊢
    rw [Int16.mul_one, toInt_sub_ofNat (by omega), toInt_add_ofNat (by omega)]
    omega
  · have hone : (-1 : Int16).toInt = -1 := rfl
    have hneg : Int16.ofNat i * -1 = -Int16.ofNat i := by grind
    rw [hs, hone] at hsigned ⊢
    rw [hneg, Int16.sub_neg, ← Int16.sub_eq_add_neg, toInt_add_ofNat (by omega),
      toInt_sub_ofNat (by omega)]
    omega

theorem xDisplacement_alongX {i : Nat} (hi : 2 * i ≤ a.xDisplacement.natAbs + 1) :
    (a.alongX i).xDisplacement = (a.xDisplacement.natAbs - 2 * i) * a.xSign := by
  obtain ⟨htarget, hcoords⟩ := alongX_toInt hi
  have hsigned := xDisplacement_eq a
  have hdef : a.xDisplacement = a.target.x.toInt - a.coords.x.toInt := rfl
  rw [xDisplacement, htarget, hcoords]
  rcases xSign_eq a with hs | hs <;> rw [hs] at hsigned ⊢ <;> omega

theorem moveX_alongX {i : Nat}
    (h : stepTowards (a.alongX i).xDisplacement = stepTowards a.xDisplacement) :
    (a.alongX i).moveX = a.alongX (i + 1) := by
  have hsucc : Int16.ofNat (i + 1) = Int16.ofNat i + 1 := Int16.ofNat_add i 1
  unfold moveX
  rw [h]
  unfold alongX
  rw [hsucc]
  generalize stepTowards a.xDisplacement = s
  generalize Int16.ofNat i = n
  rw [Aim.mk.injEq]
  constructor
  · simp only [CoordVec.scalarSubtract, CoordVec.mk.injEq]
    refine ⟨?_, ?_, ?_⟩ <;> grind
  · apply CoordVec.eq_of_components
    · simp only [CoordVec.add_x]
      grind
    · simp only [CoordVec.add_y]
      grind
    · simp only [CoordVec.add_z]
      grind

theorem stepTowards_alongX {i : Nat} (hi : 2 * i < a.xDisplacement.natAbs) :
    stepTowards (a.alongX i).xDisplacement = stepTowards a.xDisplacement := by
  have hsign := xSign_eq a
  have hsigned := xDisplacement_eq a
  rw [xDisplacement_alongX (by omega)]
  unfold stepTowards
  rcases hsign with hs | hs <;> rw [hs] at hsigned ⊢ <;> split <;> split <;> first | rfl | omega

theorem xDisplacement_half {j : Nat} (heven : a.xDisplacement.natAbs = 2 * j) :
    (a.alongX j).xDisplacement = 0 := by
  rw [xDisplacement_alongX (by omega), heven]
  rcases xSign_eq a with hs | hs <;> rw [hs] <;> omega

section Start
variable (htarget : a.target = T)
include htarget

theorem allRight_alongX {i : Nat} (hi : 2 * i ≤ a.xDisplacement.natAbs + 1)
    (hlong : ∀ j < i, (a.alongX j).gap.lenght > 1) (r : Nat) :
    AllRight T (i + r) a ↔ AllRight T r (a.alongX i) := by
  induction i generalizing r with
  | zero => rw [alongX_zero, Nat.zero_add]
  | succ i ih =>
    have hbefore := ih (by omega) (fun j hj => hlong j (by omega)) (r + 1)
    have hdisplacement := xDisplacement_alongX (a := a) (i := i) (by omega)
    have hcoords := (alongX_toInt (a := a) (i := i) (by omega)).2
    have hstep := stepTowards_alongX (a := a) (i := i) (by omega)
    have hsigned := xDisplacement_eq a
    have hdef : a.xDisplacement = a.target.x.toInt - a.coords.x.toInt := rfl
    have hne : (a.alongX i).xDisplacement ≠ 0 := by
      rw [hdisplacement]
      rcases xSign_eq a with hs | hs <;> rw [hs] <;> omega
    have hcloser : T.steps (a.alongX i).moveX.coords + 1 = T.steps (a.alongX i).coords := by
      rw [steps_moveX hne, hstep, hcoords, ← htarget]
      have hsign : (stepTowards a.xDisplacement).toInt = a.xSign := rfl
      rw [hsign]
      rcases xSign_eq a with hs | hs <;> rw [hs] at hsigned ⊢ <;> omega
    have hnext := next_moveX (hlong i (by omega)) hne
    have hcount : i + 1 + r = i + (r + 1) := by omega
    rw [hcount, hbefore, allRight_step (hlong i (by omega)) hnext, and_iff_right hcloser,
      moveX_alongX hstep]

theorem not_allRight_alongX_attack {i : Nat} (hpos : 1 ≤ i)
    (hi : 2 * i ≤ a.xDisplacement.natAbs + 1) (hshort : ¬ (a.alongX i).gap.lenght > 1) (r : Nat) :
    ¬ AllRight T (r + 1) (a.alongX i) := by
  rw [allRight_attack hshort]
  rintro ⟨hx, -⟩
  have hmoved := (alongX_toInt hi).1
  rw [hx, htarget] at hmoved
  rcases xSign_eq a with hs | hs <;> rw [hs] at hmoved <;> omega

/-- Past half of an odd displacement the enemy turns back. -/
theorem not_allRight_odd {m : Nat} (hodd : a.xDisplacement.natAbs + 1 = 2 * m) (hm : 1 ≤ m)
    (r : Nat) : ¬ AllRight T (r + 1) (a.alongX m) := by
  by_cases hlong : (a.alongX m).gap.lenght > 1
  · have hdisplacement := xDisplacement_alongX (a := a) (i := m) (by omega)
    have hcoords := (alongX_toInt (a := a) (i := m) (by omega)).2
    have hback : (a.alongX m).xDisplacement = -a.xSign := by
      rw [hdisplacement]
      rcases xSign_eq a with hs | hs <;> rw [hs] <;> omega
    have hne : (a.alongX m).xDisplacement ≠ 0 := by
      rw [hback]
      rcases xSign_eq a with hs | hs <;> rw [hs] <;> decide
    rw [allRight_step hlong (next_moveX hlong hne), steps_moveX hne, hback, hcoords,
      stepTowards_toInt, ← htarget]
    have hsigned := xDisplacement_eq a
    have hdef : a.xDisplacement = a.target.x.toInt - a.coords.x.toInt := rfl
    rintro ⟨hright, -⟩
    rcases xSign_eq a with hs | hs <;> rw [hs] at hsigned hright <;> simp at hright <;> omega
  · exact not_allRight_alongX_attack htarget hm (by omega) hlong r

section Turn
variable {j : Nat} (heven : a.xDisplacement.natAbs = 2 * j) (hj : 1 ≤ j)
include heven hj

/-- Between the two positions there is room on both sides. -/
theorem moveY_half :
    (a.alongX j).moveY.target.x.toInt =
        T.x.toInt - j * a.xSign - (stepTowards (a.alongX j).yDisplacement).toInt ∧
      (a.alongX j).moveY.coords.x.toInt = T.x.toInt - j * a.xSign := by
  obtain ⟨hmoved, hcoords⟩ := alongX_toInt (a := a) (i := j) (by omega)
  have hsigned := xDisplacement_eq a
  have hdef : a.xDisplacement = a.target.x.toInt - a.coords.x.toInt := rfl
  have ht := a.target.x.toInt_lt
  have ht' := a.target.x.le_toInt
  have hc := a.coords.x.toInt_lt
  have hc' := a.coords.x.le_toInt
  rw [htarget] at hmoved hdef ht ht'
  rw [heven] at hsigned
  have hstep := stepTowards_toInt_eq (a.alongX j).yDisplacement
  have hx : (a.alongX j).moveY.coords.x = (a.alongX j).coords.x := by simp [moveY]
  have hmoved' : (a.alongX j).moveY.target.x =
      (a.alongX j).target.x - stepTowards (a.alongX j).yDisplacement := rfl
  rw [hx, hcoords, hmoved']
  rcases xSign_eq a with hs | hs <;> rw [hs] at hsigned hmoved ⊢
  · rw [toInt_sub_of_bounds (by omega) (by omega), hmoved]
    omega
  · rw [toInt_sub_of_bounds (by omega) (by omega), hmoved]
    omega

theorem xDisplacement_moveY_half : (a.alongX j).moveY.xDisplacement =
    -(stepTowards (a.alongX j).yDisplacement).toInt := by
  obtain ⟨hmoved, hcoords⟩ := moveY_half htarget heven hj
  rw [xDisplacement, hmoved, hcoords]
  omega

/-- The attack after a step along y is right if that step took back the only one along x. -/
theorem allRight_moveY_attack (hshort : ¬ (a.alongX j).moveY.gap.lenght > 1) (m : Nat) :
    AllRight T (m + 1) (a.alongX j).moveY ↔
      j = 1 ∧ (stepTowards (a.alongX j).yDisplacement).toInt = -a.xSign := by
  obtain ⟨hmoved, -⟩ := moveY_half htarget heven hj
  have hstep := stepTowards_toInt_eq (a.alongX j).yDisplacement
  rw [allRight_attack hshort]
  constructor
  · rintro ⟨hx, -⟩
    rw [hx] at hmoved
    rcases xSign_eq a with hs | hs <;> rw [hs] at hmoved ⊢ <;> omega
  · rintro ⟨rfl, hback⟩
    constructor
    · apply Int16.toInt_inj.mp
      rw [hmoved, hback]
      omega
    · have hsum : stepTowards (a.alongX 1).yDisplacement = -stepTowards a.xDisplacement := by
        rcases stepTowards_eq a.xDisplacement with hs | hs <;>
          rcases stepTowards_eq (a.alongX 1).yDisplacement with hs' | hs' <;>
          simp [xSign, hs, hs'] at hback ⊢
      have hmoved' : (a.alongX 1).moveY.target.y = a.target.y -
          Int16.ofNat 1 * stepTowards a.xDisplacement -
            stepTowards (a.alongX 1).yDisplacement := rfl
      have hone : Int16.ofNat 1 = 1 := rfl
      rw [hmoved', hsum, hone, htarget]
      grind

/-- After one more step along x the enemy turns back. -/
theorem not_allRight_turnedBack
    (hback : (stepTowards (a.alongX j).yDisplacement).toInt = -a.xSign) (m : Nat) :
    ¬ AllRight T (m + 1) (a.alongX j).moveY.moveX := by
  obtain ⟨hmoved, hcoords⟩ := moveY_half htarget heven hj
  have hsigned := xDisplacement_eq a
  have hdef : a.xDisplacement = a.target.x.toInt - a.coords.x.toInt := rfl
  have ht := a.target.x.toInt_lt
  have ht' := a.target.x.le_toInt
  have hc := a.coords.x.toInt_lt
  have hc' := a.coords.x.le_toInt
  rw [htarget] at hdef ht ht'
  rw [heven] at hsigned
  have hstep : (stepTowards (a.alongX j).moveY.xDisplacement).toInt = a.xSign := by
    rw [xDisplacement_moveY_half htarget heven hj, hback, stepTowards_toInt]
    rcases xSign_eq a with hs | hs <;> rw [hs] <;> rfl
  have htx : (a.alongX j).moveY.moveX.target.x.toInt = T.x.toInt - j * a.xSign := by
    have hsub : (a.alongX j).moveY.moveX.target.x = (a.alongX j).moveY.target.x -
        stepTowards (a.alongX j).moveY.xDisplacement := rfl
    rw [hsub]
    rcases xSign_eq a with hs | hs <;> rw [hs] at hsigned hback hmoved hstep ⊢
    · rw [toInt_sub_of_bounds (by omega) (by omega)]
      omega
    · rw [toInt_sub_of_bounds (by omega) (by omega)]
      omega
  have hcx : (a.alongX j).moveY.moveX.coords.x.toInt = T.x.toInt - j * a.xSign + a.xSign := by
    have hadd : (a.alongX j).moveY.moveX.coords.x = (a.alongX j).moveY.coords.x +
        stepTowards (a.alongX j).moveY.xDisplacement := rfl
    rw [hadd]
    rcases xSign_eq a with hs | hs <;> rw [hs] at hsigned hcoords hstep ⊢
    · rw [toInt_add_of_bounds (by omega) (by omega)]
      omega
    · rw [toInt_add_of_bounds (by omega) (by omega)]
      omega
  have hdisplacement : (a.alongX j).moveY.moveX.xDisplacement = -a.xSign := by
    rw [xDisplacement, htx, hcx]
    omega
  by_cases hlong : (a.alongX j).moveY.moveX.gap.lenght > 1
  · have hne : (a.alongX j).moveY.moveX.xDisplacement ≠ 0 := by
      rw [hdisplacement]
      rcases xSign_eq a with hs | hs <;> rw [hs] <;> decide
    rw [allRight_step hlong (next_moveX hlong hne), steps_moveX hne, hcx, hdisplacement,
      stepTowards_toInt]
    rintro ⟨hright, -⟩
    rcases xSign_eq a with hs | hs <;> rw [hs] at hright <;> simp at hright <;> omega
  · rw [allRight_attack hlong]
    rintro ⟨hx, -⟩
    rw [hx] at htx
    rcases xSign_eq a with hs | hs <;> rw [hs] at htx <;> omega

/-- Where the enemy goes on, it steps along x again, right only if the step along y took one
back, and after that it turns back. -/
theorem allRight_moveY_moveX (hlong : (a.alongX j).moveY.gap.lenght > 1) (m : Nat) :
    AllRight T (m + 1) (a.alongX j).moveY ↔
      (stepTowards (a.alongX j).yDisplacement).toInt = -a.xSign ∧ m = 0 := by
  obtain ⟨hmoved, hcoords⟩ := moveY_half htarget heven hj
  have hdisplacement := xDisplacement_moveY_half htarget heven hj
  have hstep := stepTowards_toInt_eq (a.alongX j).yDisplacement
  have hne : (a.alongX j).moveY.xDisplacement ≠ 0 := by
    rw [hdisplacement]
    omega
  rw [allRight_step hlong (next_moveX hlong hne), steps_moveX hne, hcoords, hdisplacement]
  have hright : 0 < (T.x.toInt - (T.x.toInt - j * a.xSign)) *
      (stepTowards (-(stepTowards (a.alongX j).yDisplacement).toInt)).toInt ↔
        (stepTowards (a.alongX j).yDisplacement).toInt = -a.xSign := by
    rw [stepTowards_toInt (-_)]
    rcases hstep with hstep | hstep <;> rcases xSign_eq a with hs | hs <;> rw [hstep, hs] <;>
      simp <;> omega
  rw [hright]
  refine and_congr_right fun hback => ?_
  cases m with
  | zero => exact iff_of_true trivial rfl
  | succ m =>
    exact iff_of_false (not_allRight_turnedBack htarget heven hj hback m) (Nat.succ_ne_zero m)

end Turn

end Start

/-- The step along y goes the way of `TargetCoords`, the displacement the way of the target. -/
theorem opposite_iff (hx : a.xDisplacement ≠ 0) {σ : Int} (hσ : σ = 1 ∨ σ = -1)
    (hright : 0 < a.yDisplacement * σ) :
    a.yDisplacement * a.xDisplacement < 0 ↔ σ = -a.xSign := by
  have hsigned := xDisplacement_eq a
  have hpos : 0 < (a.xDisplacement.natAbs : Int) := by omega
  rw [hsigned]
  rcases hσ with rfl | rfl <;> rcases xSign_eq a with hs | hs <;> rw [hs] <;>
    simp only [Int.mul_one, Int.mul_neg] at hright ⊢
  · exact iff_of_false (not_lt.mpr (Int.mul_nonneg hright.le hpos.le)) (by decide)
  · exact iff_of_true (Int.neg_neg_of_pos (Int.mul_pos hright hpos)) (by decide)
  · exact iff_of_true (Int.mul_neg_of_neg_of_pos (by omega) hpos) (by decide)
  · refine iff_of_false (not_lt.mpr ?_) (by decide)
    rw [← Int.neg_mul]
    exact Int.mul_nonneg hright.le hpos.le

/-- What has to hold after `j` steps along x, which were all there are, with `l` actions left:
there is no displacement along y, and the enemy stops; or the step along y is right, and is the
last action, or it takes back a step along x. Then one more step may follow, or, with nothing
else to take back, the attacks. -/
def TurnsTrue (a : Aim) (j l : Nat) : Prop :=
  (a.alongX j).yDisplacement = 0 ∨
    (0 < (a.alongX j).yDisplacement * a.yDisplacement ∧
      (l = 1 ∨ (a.yDisplacement * a.xDisplacement < 0 ∧
        if (a.alongX j).moveY.gap.lenght > 1 then l = 2 else j = 1)))

/-- What has to hold of the two positions at first for `k` actions to be right: there is at most
one, or the target is within reach, or the steps along x do not come into reach too early, and
are the only ones or are well followed. -/
def AimsTrue (k : Nat) (a : Aim) : Prop :=
  k ≤ 1 ∨ ¬ a.gap.lenght > 1 ∨
    (a.xDisplacement ≠ 0 ∧
      (∀ i, 1 ≤ i → i < k → 2 * i ≤ a.xDisplacement.natAbs → (a.alongX i).gap.lenght > 1) ∧
      (k ≤ (a.xDisplacement.natAbs + 1) / 2 ∨
        ∃ j, a.xDisplacement.natAbs = 2 * j ∧ TurnsTrue a j (k - j)))

theorem sameSign_iff {y r : Int} (hy : y ≠ 0) : 0 < r * (stepTowards y).toInt ↔ 0 < y * r := by
  rw [stepTowards_toInt]
  split
  · rename_i hpos
    rw [Int.mul_one]
    exact (mul_pos_iff_of_pos_left hpos).symm
  · rename_i hneg
    have hneg : y < 0 := by omega
    rw [Int.mul_neg_one, Left.neg_pos_iff]
    constructor
    · exact fun hr => mul_pos_of_neg_of_neg hneg hr
    · intro hprod
      by_contra hnot
      exact absurd hprod (not_lt.mpr (mul_nonpos_of_nonpos_of_nonneg hneg.le (not_lt.mp hnot)))

theorem allRight_turn (htarget : a.target = T) {j l : Nat}
    (heven : a.xDisplacement.natAbs = 2 * j) (hj : 1 ≤ j)
    (hlong : (a.alongX j).gap.lenght > 1) (hl : 1 ≤ l) :
    AllRight T l (a.alongX j) ↔ TurnsTrue a j l := by
  have hx := xDisplacement_half heven
  by_cases hy : (a.alongX j).yDisplacement = 0
  · exact iff_of_true (allRight_stuck hlong hx hy l) (.inl hy)
  obtain ⟨l, rfl⟩ := Nat.exists_eq_add_of_le' hl
  have hcoords : (a.alongX j).coords.y = a.coords.y := Int16.add_zero _
  have hreal : T.y.toInt - a.coords.y.toInt = a.yDisplacement := by rw [← htarget]; rfl
  rw [allRight_step hlong (next_moveY hlong hx hy), steps_moveY hy, hcoords, hreal, TurnsTrue,
    or_iff_right hy, ← sameSign_iff hy]
  refine and_congr_right fun hright => ?_
  have hopposite := opposite_iff (by omega) (stepTowards_toInt_eq _) hright
  cases l with
  | zero => exact iff_of_true trivial (.inl rfl)
  | succ m =>
    rw [or_iff_right (by omega), hopposite]
    by_cases hshort : (a.alongX j).moveY.gap.lenght > 1
    · rw [if_pos hshort, allRight_moveY_moveX htarget heven hj hshort]
      exact and_congr_right fun _ => by omega
    · rw [if_neg hshort, allRight_moveY_attack htarget heven hj hshort]
      exact and_comm

theorem right_of_target (htarget : a.target = T) : a.Right T := by
  have hrealX : T.x.toInt - a.coords.x.toInt = a.xDisplacement := by rw [← htarget]; rfl
  have hrealY : T.y.toInt - a.coords.y.toInt = a.yDisplacement := by rw [← htarget]; rfl
  have hself : ∀ d : Int, d ≠ 0 → 0 < d * (stepTowards d).toInt := by
    intro d hd
    rw [sameSign_iff hd]
    exact mul_self_pos.mpr hd
  unfold Right
  split
  · rename_i hlong
    intro b hb
    by_cases hx : a.xDisplacement = 0
    · by_cases hy : a.yDisplacement = 0
      · exact nomatch (next_stuck hlong hx hy).symm.trans hb
      · cases (next_moveY hlong hx hy).symm.trans hb
        rw [steps_moveY hy, hrealY]
        exact hself _ hy
    · cases (next_moveX hlong hx).symm.trans hb
      rw [steps_moveX hx, hrealX]
      exact hself _ hx
  · rw [htarget]
    exact ⟨rfl, rfl⟩

theorem not_allRight_moveY (htarget : a.target = T) (hx : a.xDisplacement = 0) (m : Nat) :
    ¬ AllRight T (m + 1) a.moveY := by
  have hodd := xDisplacement_moveY_odd hx
  have hsame : T.x = a.coords.x := by
    rw [← htarget]
    exact Int16.toInt_inj.mp (Int.sub_eq_zero.mp hx)
  have hcoords : a.moveY.coords.x = T.x := by
    rw [hsame]
    exact Int16.add_zero _
  have hne : a.moveY.xDisplacement ≠ 0 := by omega
  by_cases hlong : a.moveY.gap.lenght > 1
  · rw [allRight_step hlong (next_moveX hlong hne), steps_moveX hne, hcoords, Int.sub_self,
      Int.zero_mul]
    exact fun h => absurd h.1 (lt_irrefl 0)
  · rw [allRight_attack hlong]
    rintro ⟨hmoved, -⟩
    rw [xDisplacement, hmoved, hcoords, Int.sub_self] at hodd
    exact absurd hodd (by decide)

/-- A target out of reach in the same column is in another row. -/
theorem yDisplacement_ne_zero (hlong : a.gap.lenght > 1) (hx : a.xDisplacement = 0)
    (hz : a.target.z = a.coords.z) : a.yDisplacement ≠ 0 := by
  intro hy
  have hsameX : a.target.x = a.coords.x := Int16.toInt_inj.mp (Int.sub_eq_zero.mp hx)
  have hsameY : a.target.y = a.coords.y := Int16.toInt_inj.mp (Int.sub_eq_zero.mp hy)
  have hgap : a.gap = CoordVec.zero := by
    apply CoordVec.eq_of_components
    · simp [gap, hsameX, CoordVec.zero]
    · simp [gap, hsameY, CoordVec.zero]
    · simp [gap, hz, CoordVec.zero]
  rw [hgap] at hlong
  exact absurd hlong (by decide)

/-- Steps along x that never come into reach: there are enough of them, or half of the
displacement is gone after the last one. -/
theorem allRight_outOfReach (htarget : a.target = T) (hx : a.xDisplacement ≠ 0) {m : Nat}
    (hhalf : ∀ i < m + 2, 2 * i ≤ a.xDisplacement.natAbs → (a.alongX i).gap.lenght > 1) :
    AllRight T (m + 2) a ↔ m + 2 ≤ (a.xDisplacement.natAbs + 1) / 2 ∨
      ∃ j, a.xDisplacement.natAbs = 2 * j ∧ TurnsTrue a j (m + 2 - j) := by
  by_cases hfew : m + 2 ≤ (a.xDisplacement.natAbs + 1) / 2
  · refine iff_of_true ?_ (.inl hfew)
    exact (allRight_alongX htarget (i := m + 2) (by omega)
      (fun j hj => hhalf j hj (by omega)) 0).mpr trivial
  rw [or_iff_right hfew]
  rcases Nat.even_or_odd' a.xDisplacement.natAbs with ⟨j, heven | hodd⟩
  · have hsplit := allRight_alongX htarget (i := j) (by omega)
      (fun i hi => hhalf i (by omega) (by omega)) (m + 2 - j)
    rw [Nat.add_sub_cancel' (by omega)] at hsplit
    rw [hsplit, allRight_turn htarget heven (by omega) (hhalf j (by omega) (by omega))
      (by omega)]
    constructor
    · exact fun h => ⟨j, heven, h⟩
    · rintro ⟨j', heven', h⟩
      have hsame : j' = j := by omega
      exact hsame ▸ h
  · have hsplit := allRight_alongX htarget (i := j + 1) (by omega)
      (fun i hi => hhalf i (by omega) (by omega)) (m - j + 1)
    have hcount : j + 1 + (m - j + 1) = m + 2 := by omega
    rw [hcount] at hsplit
    refine iff_of_false ?_ ?_
    · rw [hsplit]
      exact not_allRight_odd htarget (by omega) (by omega) (m - j)
    · rintro ⟨j', heven', -⟩
      omega

/-- Steps along x that come into reach are followed by a wrong attack. -/
theorem not_allRight_early (htarget : a.target = T) (hlong : a.gap.lenght > 1) {m : Nat}
    (hexists : ∃ i, 1 ≤ i ∧ i < m + 2 ∧ 2 * i ≤ a.xDisplacement.natAbs ∧
      ¬ (a.alongX i).gap.lenght > 1) : ¬ AllRight T (m + 2) a := by
  -- the first time they do
  obtain ⟨h1, h2, h3, hshort⟩ := Nat.find_spec hexists
  have hbefore : ∀ j < Nat.find hexists, (a.alongX j).gap.lenght > 1 := by
    intro j hj
    rcases Nat.eq_zero_or_pos j with rfl | hpos
    · rw [alongX_zero]
      exact hlong
    · by_contra hnot
      exact Nat.find_min hexists hj ⟨hpos, by omega, by omega, hnot⟩
  have hsplit := allRight_alongX htarget (i := Nat.find hexists) (by omega) hbefore
    (m + 1 - Nat.find hexists + 1)
  have hcount : Nat.find hexists + (m + 1 - Nat.find hexists + 1) = m + 2 := by omega
  rw [hcount] at hsplit
  rw [hsplit]
  exact not_allRight_alongX_attack htarget h1 (by omega) hshort _

theorem allRight_iff (htarget : a.target = T) (hz : a.target.z = a.coords.z) (k : Nat) :
    AllRight T k a ↔ AimsTrue k a := by
  have hfirst := right_of_target htarget
  rcases k with _ | _ | m
  · exact iff_of_true trivial (.inl (Nat.zero_le 1))
  · exact iff_of_true ⟨hfirst, fun _ _ => trivial⟩ (.inl (Nat.le_refl 1))
  have hmany : ¬ m + 2 ≤ 1 := by omega
  unfold AimsTrue
  rw [or_iff_right hmany]
  by_cases hlong : a.gap.lenght > 1
  swap
  · refine iff_of_true ((allRight_attack hlong (m + 1)).mpr ?_) (.inl hlong)
    rw [htarget]
    exact ⟨rfl, rfl⟩
  rw [or_iff_right (not_not.mpr hlong)]
  by_cases hx : a.xDisplacement = 0
  · refine iff_of_false ?_ fun h => h.1 hx
    rw [allRight_step hlong (next_moveY hlong hx (yDisplacement_ne_zero hlong hx hz))]
    exact fun h => not_allRight_moveY htarget hx m h.2
  rw [and_iff_right hx]
  by_cases hall : ∀ i, 1 ≤ i → i < m + 2 → 2 * i ≤ a.xDisplacement.natAbs →
      (a.alongX i).gap.lenght > 1
  · rw [and_iff_right hall]
    apply allRight_outOfReach htarget hx
    intro i hi hle
    rcases Nat.eq_zero_or_pos i with rfl | hpos
    · rw [alongX_zero]
      exact hlong
    · exact hall i hpos hi hle
  · refine iff_of_false ?_ fun h => hall h.1
    apply not_allRight_early htarget hlong
    by_contra hnone
    refine hall fun i h1 h2 h3 => ?_
    by_contra hshort
    exact hnone ⟨i, h1, h2, h3, hshort⟩

end Aim

end AsciiTerra
