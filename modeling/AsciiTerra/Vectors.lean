import Mathlib

/-!
# The vector templates of `spNetMath.h`

The part of `template_vec3` and `template_vec4` that the quaternions and the test for
parallel vectors use, over numbers that are exact. Which components a comparison with a
number looks at differs from operator to operator.
-/

set_option autoImplicit false

namespace AsciiTerra

@[ext] structure TemplateVec3 (K : Type*) where
  x : K
  y : K
  z : K
deriving DecidableEq

@[ext] structure TemplateVec4 (K : Type*) where
  x : K
  y : K
  z : K
  w : K
deriving DecidableEq

namespace TemplateVec4
variable {K : Type*}

/-- The constructor from a `template_vec3` and `w`. -/
def ofVec3 (vec3 : TemplateVec3 K) (w : K) : TemplateVec4 K := ⟨vec3.x, vec3.y, vec3.z, w⟩

/-- `template_vec4(number_t)`. -/
def ofScalar (scalar : K) : TemplateVec4 K := ⟨scalar, scalar, scalar, scalar⟩

def xyz (a : TemplateVec4 K) : TemplateVec3 K := ⟨a.x, a.y, a.z⟩

/-- `Multiply`, and `operator*` of two vectors. -/
def multiply [Mul K] (a b : TemplateVec4 K) : TemplateVec4 K :=
  ⟨a.x * b.x, a.y * b.y, a.z * b.z, a.w * b.w⟩

/-- `operator+`. -/
def add [Add K] (a b : TemplateVec4 K) : TemplateVec4 K :=
  ⟨a.x + b.x, a.y + b.y, a.z + b.z, a.w + b.w⟩

end TemplateVec4

section Order
variable {K : Type*} [Ring K] [LinearOrder K]

/-- `equal` of two numbers. -/
def equalNumbers (safeGuard a b : K) : Bool := |a - b| ≤ safeGuard

/-- `more` of two numbers. -/
def moreNumbers (a b : K) : Bool := a > b

/-- `less` of two numbers. -/
def lessNumbers (a b : K) : Bool := a < b

/-- `less_or_equal` of two numbers, which drops its own guard for `MTHRZ_FLOAT_EPSILON`. -/
def lessOrEqualNumbers (epsilon a b : K) : Bool := lessNumbers a b || equalNumbers epsilon a b

end Order

namespace TemplateVec3
variable {K : Type*}

def crossProduct [Ring K] (a b : TemplateVec3 K) : TemplateVec3 K :=
  ⟨a.y * b.z - a.z * b.y, a.z * b.x - a.x * b.z, a.x * b.y - a.y * b.x⟩

/-- `ScalarSubtract`, and `operator-` of a number. -/
def scalarSubtract [Ring K] (a : TemplateVec3 K) (b : K) : TemplateVec3 K :=
  ⟨a.x - b, a.y - b, a.z - b⟩

section Order
variable [Ring K] [LinearOrder K]

def abs (a : TemplateVec3 K) : TemplateVec3 K := ⟨|a.x|, |a.y|, |a.z|⟩

/-- `operator<=(number_t)`, which looks at the three components. -/
def leScalar (epsilon : K) (a : TemplateVec3 K) (number : K) : Bool :=
  lessOrEqualNumbers epsilon a.x number && lessOrEqualNumbers epsilon a.y number &&
    lessOrEqualNumbers epsilon a.z number

/-- `operator>(number_t)`, which looks at the first component. -/
def gtScalar (a : TemplateVec3 K) (number : K) : Bool := moreNumbers a.x number

/-- `operator<(number_t)`, which looks at the first component. -/
def ltScalar (a : TemplateVec3 K) (number : K) : Bool := lessNumbers a.x number

/-- `equal` of a vector and a number. -/
def equalScalar (epsilon safeGuard : K) (a : TemplateVec3 K) (b : K) : Bool :=
  leScalar epsilon (abs (a.scalarSubtract b)) safeGuard

/-- `IsParallelTo_INT`, where `epsilon` is `MTHRZ_FLOAT_EPSILON`. -/
def isParallelToINT (epsilon : K) (a b : TemplateVec3 K) : Bool :=
  equalScalar epsilon epsilon (a.crossProduct b) 0

def isParallelTo (a b : TemplateVec3 K) (safeGuard : K) : Bool :=
  let tempVector := a.crossProduct b
  tempVector.ltScalar safeGuard && tempVector.gtScalar (-safeGuard)

end Order

section Parallel
variable [Field K] [LinearOrder K]

/-- All components lie strictly between `-e` and `e`. -/
def Within (v : TemplateVec3 K) (e : K) : Prop :=
  (-e < v.x ∧ v.x < e) ∧ (-e < v.y ∧ v.y < e) ∧ (-e < v.z ∧ v.z < e)

/-- Some component has an absolute value of at least `e`. -/
def Reaches (v : TemplateVec3 K) (e : K) : Prop := e ≤ |v.x| ∨ e ≤ |v.y| ∨ e ≤ |v.z|

/-- The first component of the cross product reaches `e` or the other two do not. -/
def FirstDecides (a b : TemplateVec3 K) (e : K) : Prop :=
  e ≤ |a.y * b.z - a.z * b.y| ∨
    |a.z * b.x - a.x * b.z| < e ∧ |a.x * b.y - a.y * b.x| < e

variable [IsStrictOrderedRing K] {a b : TemplateVec3 K} {e : K}

theorem isParallelTo_iff : a.isParallelTo b e = true ↔ |(a.crossProduct b).x| < e := by
  unfold isParallelTo ltScalar gtScalar lessNumbers moreNumbers
  rw [Bool.and_eq_true, decide_eq_true_iff, decide_eq_true_iff, abs_lt]
  exact and_comm

theorem lessOrEqual_abs_zero {c : K} : lessOrEqualNumbers 0 |c - 0| 0 = true ↔ c = 0 := by
  unfold lessOrEqualNumbers lessNumbers equalNumbers
  rw [Bool.or_eq_true, decide_eq_true_iff, decide_eq_true_iff, sub_zero, sub_zero, abs_abs]
  constructor
  · rintro (hneg | hzero)
    · exact absurd hneg (not_lt.mpr (abs_nonneg c))
    · exact abs_nonpos_iff.mp hzero
  · rintro rfl
    exact .inr (le_of_eq abs_zero)

theorem isParallelToINT_iff :
    a.isParallelToINT 0 b = true ↔ a.crossProduct b = ⟨0, 0, 0⟩ := by
  unfold isParallelToINT equalScalar leScalar abs scalarSubtract
  rw [Bool.and_eq_true, Bool.and_eq_true, lessOrEqual_abs_zero, lessOrEqual_abs_zero, lessOrEqual_abs_zero,
    TemplateVec3.ext_iff, and_assoc]

theorem within_iff {v : TemplateVec3 K} : v.Within e ↔ |v.x| < e ∧ |v.y| < e ∧ |v.z| < e := by
  unfold Within
  rw [abs_lt, abs_lt, abs_lt]

theorem isParallelTo_iff_within :
    (a.isParallelTo b e = true ↔ (a.crossProduct b).Within e) ↔ FirstDecides a b e := by
  rw [isParallelTo_iff, within_iff]
  unfold FirstDecides
  constructor
  · intro hiff
    by_cases hfirst : |(a.crossProduct b).x| < e
    · exact .inr (hiff.mp hfirst).2
    · exact .inl (not_lt.mp hfirst)
  · rintro (hfirst | hrest)
    · exact iff_of_false (not_lt.mpr hfirst) fun hall => not_lt.mpr hfirst hall.1
    · exact ⟨fun hfirst => ⟨hfirst, hrest⟩, fun hall => hall.1⟩

/-- Between a cross product that is zero and one that reaches `e`, the two tests agree where the
components that `IsParallelTo` leaves out do not matter. -/
theorem isParallelTo_eq_INT (he : 0 < e)
    (hapart : a.crossProduct b = ⟨0, 0, 0⟩ ∨ (a.crossProduct b).Reaches e) :
    a.isParallelTo b e = a.isParallelToINT 0 b ↔ FirstDecides a b e := by
  rw [Bool.eq_iff_iff, isParallelToINT_iff, ← isParallelTo_iff_within, within_iff]
  have hzero : a.crossProduct b = ⟨0, 0, 0⟩ ↔ |(a.crossProduct b).x| < e ∧
      |(a.crossProduct b).y| < e ∧ |(a.crossProduct b).z| < e := by
    constructor
    · intro h
      rw [h, abs_zero]
      exact ⟨he, he, he⟩
    · rintro ⟨hx, hy, hz⟩
      refine hapart.resolve_right ?_
      rintro (hreach | hreach | hreach)
      · exact not_lt.mpr hreach hx
      · exact not_lt.mpr hreach hy
      · exact not_lt.mpr hreach hz
  rw [hzero]

/-- `IsParallelTo` is the test of the whole cross product, and agrees with the exact test, exactly
where the first component decides. -/
theorem isParallelTo_whole_iff (a b : TemplateVec3 K) {e : K} (he : 0 < e) :
    ((a.isParallelTo b e = true ↔ (a.crossProduct b).Within e) ↔ FirstDecides a b e) ∧
      (a.crossProduct b = ⟨0, 0, 0⟩ ∨ (a.crossProduct b).Reaches e →
        (a.isParallelTo b e = a.isParallelToINT 0 b ↔ FirstDecides a b e)) :=
  ⟨isParallelTo_iff_within, isParallelTo_eq_INT he⟩

end Parallel

/-- The cross product of the first two axes reaches a half in its third component only, that of the
last two in its first. -/
theorem isParallelTo_whole_iff_axes :
    ((isParallelTo (⟨0, 1, 0⟩ : TemplateVec3 ℚ) ⟨0, 0, 1⟩ (1 / 2) = true ↔
        (crossProduct (⟨0, 1, 0⟩ : TemplateVec3 ℚ) ⟨0, 0, 1⟩).Within (1 / 2)) ↔
      FirstDecides (⟨0, 1, 0⟩ : TemplateVec3 ℚ) ⟨0, 0, 1⟩ (1 / 2)) ∧
      isParallelTo (⟨0, 1, 0⟩ : TemplateVec3 ℚ) ⟨0, 0, 1⟩ (1 / 2) =
        isParallelToINT 0 (⟨0, 1, 0⟩ : TemplateVec3 ℚ) ⟨0, 0, 1⟩ := by
  have hfirst : FirstDecides (⟨0, 1, 0⟩ : TemplateVec3 ℚ) ⟨0, 0, 1⟩ (1 / 2) := by
    left
    norm_num
  obtain ⟨hwithin, hagree⟩ :=
    isParallelTo_whole_iff (⟨0, 1, 0⟩ : TemplateVec3 ℚ) ⟨0, 0, 1⟩ (e := 1 / 2) (by norm_num)
  exact ⟨hwithin, (hagree (.inr (.inl (by norm_num [crossProduct])))).mpr hfirst⟩

/-- The first two axes pass for parallel. -/
theorem isParallelTo_perpendicular :
    isParallelTo (⟨1, 0, 0⟩ : TemplateVec3 ℚ) ⟨0, 1, 0⟩ (1 / 2) = true ∧
      crossProduct (⟨1, 0, 0⟩ : TemplateVec3 ℚ) ⟨0, 1, 0⟩ = ⟨0, 0, 1⟩ ∧
      ¬ (crossProduct (⟨1, 0, 0⟩ : TemplateVec3 ℚ) ⟨0, 1, 0⟩).Within (1 / 2) ∧
      isParallelToINT 0 (⟨1, 0, 0⟩ : TemplateVec3 ℚ) ⟨0, 1, 0⟩ = false := by
  refine ⟨by decide +kernel, by decide +kernel, ?_, by decide +kernel⟩
  rintro ⟨-, -, -, hz⟩
  norm_num [crossProduct] at hz

end TemplateVec3

end AsciiTerra
