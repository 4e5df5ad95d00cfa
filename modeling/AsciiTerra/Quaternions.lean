import AsciiTerra.Matrices
import AsciiTerra.Vectors

/-!
# The quaternions of `spNetMath.h`

The product and the conjugate are those of the quaternions of Mathlib, and a vector is
rotated by a conjugation. Of the two matrices one is multiplied to that rotation and the
other to its inverse. `sqrt` is a parameter.
-/

set_option autoImplicit false

namespace AsciiTerra

@[ext] structure TemplateQuaternion (K : Type*) where
  x : K
  y : K
  z : K
  w : K
deriving DecidableEq

namespace TemplateMatrix4x4
variable {K : Type*}

/-- The constructor from the 16 numbers of `lineArrayData`. -/
def ofLineArrayData (lineArrayData : Fin 16 → K) : TemplateMatrix4x4 K :=
  ⟨fun i j => lineArrayData ⟨4 * i + j, by omega⟩⟩

local instance neZeroFour : NeZero 4 := ⟨four_ne_zero⟩

/-- `vectors[i]`. -/
def vectors (m : TemplateMatrix4x4 K) (i : Fin 4) : TemplateVec4 K :=
  ⟨m.data i 0, m.data i 1, m.data i 2, m.data i 3⟩

/-- `operator*` of a matrix and a `template_vec4`. -/
def multiplyVec4 [Ring K] (m : TemplateMatrix4x4 K) (b : TemplateVec4 K) : TemplateVec4 K :=
  let add0 := ((m.vectors 0).multiply (.ofScalar b.x)).add ((m.vectors 1).multiply (.ofScalar b.y))
  let add1 := ((m.vectors 2).multiply (.ofScalar b.z)).add ((m.vectors 3).multiply (.ofScalar b.w))
  add0.add add1

end TemplateMatrix4x4

namespace TemplateQuaternion
variable {K : Type*}

section Ring
variable [CommRing K]

/-- `Multiply` by a quaternion. -/
def multiply (q q_1 : TemplateQuaternion K) : TemplateQuaternion K where
  x := q.x * q_1.w + q.y * q_1.z - q.z * q_1.y + q.w * q_1.x
  y := -q.x * q_1.z + q.y * q_1.w + q.z * q_1.x + q.w * q_1.y
  z := q.x * q_1.y - q.y * q_1.x + q.z * q_1.w + q.w * q_1.z
  w := -q.x * q_1.x - q.y * q_1.y - q.z * q_1.z + q.w * q_1.w

/-- `Multiply` by a vector. -/
def multiplyVec3 (q : TemplateQuaternion K) (v : TemplateVec3 K) : TemplateVec3 K :=
  let vxvx := q.x * q.x
  let vzvz := q.z * q.z
  let vyvy := q.y * q.y
  let vxvy := q.x * q.y
  let vxvz := q.x * q.z
  let vyvz := q.y * q.z
  let svx := q.w * q.x
  let svy := q.w * q.y
  let svz := q.w * q.z
  { x := v.x * (1 - (vyvy + vzvz) * 2) + v.y * (vxvy - svz) * 2 + v.z * (vxvz + svy) * 2
    y := v.x * (vxvy + svz) * 2 + v.y * (1 - (vxvx + vzvz) * 2) + v.z * (vyvz - svx) * 2
    z := v.x * (vxvz - svy) * 2 + v.y * (vyvz + svx) * 2 + v.z * (1 - (vxvx + vyvy) * 2) }

def dotProduct (q q_1 : TemplateQuaternion K) : K :=
  q.x * q_1.x + q.y * q_1.y + q.z * q_1.z + q.w * q_1.w

def getConjugate (q : TemplateQuaternion K) : TemplateQuaternion K := ⟨-q.x, -q.y, -q.z, q.w⟩

/-- `Conjugate`, which changes the quaternion. -/
def conjugate (q : TemplateQuaternion K) : TemplateQuaternion K :=
  ⟨q.x * -1, q.y * -1, q.z * -1, q.w⟩

def getMatrix (q : TemplateQuaternion K) : TemplateMatrix4x4 K :=
  .ofLineArrayData ![
    1 - 2 * q.y * q.y - 2 * q.z * q.z, 2 * q.x * q.y + 2 * q.z * q.w,
      2 * q.x * q.z - 2 * q.y * q.w, 0,
    2 * q.x * q.y - 2 * q.z * q.w, 1 - 2 * q.x * q.x - 2 * q.z * q.z,
      2 * q.z * q.y + 2 * q.x * q.w, 0,
    2 * q.x * q.z + 2 * q.y * q.w, 2 * q.z * q.y - 2 * q.x * q.w,
      1 - 2 * q.x * q.x - 2 * q.y * q.y, 0,
    0, 0, 0, 0]

/-- `ToRotationMatrix` about a center. -/
def toRotationMatrixAbout (q : TemplateQuaternion K) (center : TemplateVec3 K) :
    TemplateMatrix4x4 K :=
  let d0 := q.x * q.x - q.y * q.y - q.z * q.z + q.w * q.w
  let d1 := 2 * (q.x * q.y + q.z * q.w)
  let d2 := 2 * (q.x * q.z - q.y * q.w)
  let d4 := 2 * (q.x * q.y - q.z * q.w)
  let d5 := -(q.x * q.x) + q.y * q.y - q.z * q.z + q.w * q.w
  let d6 := 2 * (q.y * q.z + q.x * q.w)
  let d8 := 2 * (q.x * q.z + q.y * q.w)
  let d9 := 2 * (q.y * q.z - q.x * q.w)
  let d10 := -(q.x * q.x) - q.y * q.y + q.z * q.z + q.w * q.w
  .ofLineArrayData ![
    d0, d1, d2, center.x - center.x * d0 - center.y * d1 - center.z * d2,
    d4, d5, d6, center.y - center.x * d4 - center.y * d5 - center.z * d6,
    d8, d9, d10, center.z - center.x * d8 - center.y * d9 - center.z * d10,
    0, 0, 0, 1]

end Ring

section Field
variable [Field K] (sqrt : K → K)

def normal (q : TemplateQuaternion K) : K :=
  sqrt (q.x * q.x + q.y * q.y + q.z * q.z + q.w * q.w)

def getNormalized (q : TemplateQuaternion K) : TemplateQuaternion K :=
  let normal := q.normal sqrt
  ⟨q.x / normal, q.y / normal, q.z / normal, q.w / normal⟩

/-- `Normalize`, which changes the quaternion. -/
def normalize (q : TemplateQuaternion K) : TemplateQuaternion K := q.getNormalized sqrt

def getInverse (q : TemplateQuaternion K) : TemplateQuaternion K := q.getConjugate.normalize sqrt

/-- `Inverse`, which changes the quaternion. -/
def inverse (q : TemplateQuaternion K) : TemplateQuaternion K := q.conjugate.normalize sqrt

def toRotationMatrix (q : TemplateQuaternion K) : TemplateMatrix4x4 K :=
  let n := q.getNormalized sqrt
  .ofLineArrayData ![
    1 - 2 * n.y * n.y - 2 * n.z * n.z, 2 * n.x * n.y - 2 * n.z * n.w,
      2 * n.x * n.z + 2 * n.y * n.w, 0,
    2 * n.x * n.y + 2 * n.z * n.w, 1 - 2 * n.x * n.x - 2 * n.z * n.z,
      2 * n.y * n.z - 2 * n.x * n.w, 0,
    2 * n.x * n.z - 2 * n.y * n.w, 2 * n.y * n.z + 2 * n.x * n.w,
      1 - 2 * n.x * n.x - 2 * n.y * n.y, 0,
    0, 0, 0, 1]

end Field

section Ring
variable [CommRing K] {p q : TemplateQuaternion K} {u v : TemplateVec3 K}

def toQuaternion (q : TemplateQuaternion K) : Quaternion K := ⟨q.w, q.x, q.y, q.z⟩

def pure (v : TemplateVec3 K) : Quaternion K := ⟨0, v.x, v.y, v.z⟩

@[simp] theorem re_toQuaternion (q : TemplateQuaternion K) : q.toQuaternion.re = q.w := rfl
@[simp] theorem imI_toQuaternion (q : TemplateQuaternion K) : q.toQuaternion.imI = q.x := rfl
@[simp] theorem imJ_toQuaternion (q : TemplateQuaternion K) : q.toQuaternion.imJ = q.y := rfl
@[simp] theorem imK_toQuaternion (q : TemplateQuaternion K) : q.toQuaternion.imK = q.z := rfl
@[simp] theorem re_pure (v : TemplateVec3 K) : (pure v).re = 0 := rfl
@[simp] theorem imI_pure (v : TemplateVec3 K) : (pure v).imI = v.x := rfl
@[simp] theorem imJ_pure (v : TemplateVec3 K) : (pure v).imJ = v.y := rfl
@[simp] theorem imK_pure (v : TemplateVec3 K) : (pure v).imK = v.z := rfl

theorem toQuaternion_injective :
    Function.Injective (toQuaternion : TemplateQuaternion K → Quaternion K) := by
  intro p q h
  obtain ⟨hw, hx, hy, hz⟩ := QuaternionAlgebra.ext_iff.mp h
  exact TemplateQuaternion.ext hx hy hz hw

theorem pure_injective : Function.Injective (pure : TemplateVec3 K → Quaternion K) := by
  intro u v h
  obtain ⟨-, hx, hy, hz⟩ := QuaternionAlgebra.ext_iff.mp h
  exact TemplateVec3.ext hx hy hz

theorem toQuaternion_multiply (p q : TemplateQuaternion K) :
    (p.multiply q).toQuaternion = p.toQuaternion * q.toQuaternion := by
  apply Quaternion.ext <;> simp [multiply] <;> ring

theorem toQuaternion_getConjugate (q : TemplateQuaternion K) :
    q.getConjugate.toQuaternion = star q.toQuaternion := by
  apply Quaternion.ext <;> simp [getConjugate]

theorem conjugate_eq (q : TemplateQuaternion K) : q.conjugate = q.getConjugate := by
  simp [conjugate, getConjugate]

theorem dotProduct_self (q : TemplateQuaternion K) :
    q.dotProduct q = Quaternion.normSq q.toQuaternion := by
  rw [Quaternion.normSq_def']
  unfold dotProduct
  change _ = q.w ^ 2 + q.x ^ 2 + q.y ^ 2 + q.z ^ 2
  ring

/-- A unit quaternion rotates a vector by conjugation. -/
theorem pure_multiplyVec3 (hq : q.dotProduct q = 1) (v : TemplateVec3 K) :
    pure (q.multiplyVec3 v) = q.toQuaternion * pure v * star q.toQuaternion := by
  unfold dotProduct at hq
  apply Quaternion.ext
  · simp
    ring
  · simp [multiplyVec3]
    linear_combination -v.x * hq
  · simp [multiplyVec3]
    linear_combination -v.y * hq
  · simp [multiplyVec3]
    linear_combination -v.z * hq

theorem dotProduct_multiply (p q : TemplateQuaternion K) :
    (p.multiply q).dotProduct (p.multiply q) = p.dotProduct p * q.dotProduct q := by
  rw [dotProduct_self, toQuaternion_multiply, map_mul, dotProduct_self, dotProduct_self]

theorem multiply_assoc (p q r : TemplateQuaternion K) :
    (p.multiply q).multiply r = p.multiply (q.multiply r) := by
  apply toQuaternion_injective
  simp only [toQuaternion_multiply]
  exact mul_assoc _ _ _

theorem multiplyVec3_multiply (hp : p.dotProduct p = 1) (hq : q.dotProduct q = 1)
    (v : TemplateVec3 K) : (p.multiply q).multiplyVec3 v = p.multiplyVec3 (q.multiplyVec3 v) := by
  have hpq : (p.multiply q).dotProduct (p.multiply q) = 1 := by
    rw [dotProduct_multiply, hp, hq, one_mul]
  apply pure_injective
  rw [pure_multiplyVec3 hpq, pure_multiplyVec3 hp, pure_multiplyVec3 hq, toQuaternion_multiply,
    star_mul]
  simp only [mul_assoc]

/-- The product of quaternions is that of norms and of rotations. -/
theorem multiply_composes (p q r : TemplateQuaternion K) :
    (p.multiply q).dotProduct (p.multiply q) = p.dotProduct p * q.dotProduct q ∧
      (p.multiply q).multiply r = p.multiply (q.multiply r) ∧
      (p.dotProduct p = 1 → q.dotProduct q = 1 → ∀ v : TemplateVec3 K,
        (p.multiply q).multiplyVec3 v = p.multiplyVec3 (q.multiplyVec3 v)) :=
  ⟨dotProduct_multiply p q, multiply_assoc p q r, multiplyVec3_multiply⟩

end Ring

/-- A rotation about the third axis. -/
def turn : TemplateQuaternion ℚ := ⟨0, 0, 3 / 5, 4 / 5⟩

theorem dotProduct_turn : turn.dotProduct turn = 1 := by decide +kernel

theorem rat_sqrt_one : Rat.sqrt 1 = 1 := by
  have hone := Rat.sqrt_eq 1
  rwa [one_mul, abs_one] at hone

/-- Two turns. -/
theorem multiply_composes_turn :
    (turn.multiply turn).dotProduct (turn.multiply turn) =
        turn.dotProduct turn * turn.dotProduct turn ∧
      (turn.multiply turn).multiplyVec3 ⟨1, 0, 0⟩ = turn.multiplyVec3 (turn.multiplyVec3 ⟨1, 0, 0⟩) := by
  obtain ⟨hdot, -, hrotate⟩ := multiply_composes turn turn turn
  exact ⟨hdot, hrotate dotProduct_turn dotProduct_turn _⟩

section Ring
variable [CommRing K] {q : TemplateQuaternion K}

theorem multiplyVec4_ofVec3 (m : TemplateMatrix4x4 K) (v : TemplateVec3 K) :
    (m.multiplyVec4 (.ofVec3 v 1)).xyz =
      ⟨m.data 0 0 * v.x + m.data 1 0 * v.y + (m.data 2 0 * v.z + m.data 3 0 * 1),
        m.data 0 1 * v.x + m.data 1 1 * v.y + (m.data 2 1 * v.z + m.data 3 1 * 1),
        m.data 0 2 * v.x + m.data 1 2 * v.y + (m.data 2 2 * v.z + m.data 3 2 * 1)⟩ := rfl

theorem getMatrix_multiplyVec4 (q : TemplateQuaternion K) (v : TemplateVec3 K) :
    (q.getMatrix.multiplyVec4 (.ofVec3 v 1)).xyz = q.multiplyVec3 v := by
  rw [multiplyVec4_ofVec3]
  ext <;> simp [getMatrix, TemplateMatrix4x4.ofLineArrayData, multiplyVec3] <;> ring

theorem toRotationMatrixAbout_multiplyVec4 (hq : q.dotProduct q = 1) (center v : TemplateVec3 K) :
    ((q.toRotationMatrixAbout center).multiplyVec4 (.ofVec3 v 1)).xyz = q.multiplyVec3 v := by
  unfold dotProduct at hq
  rw [multiplyVec4_ofVec3]
  apply TemplateVec3.ext
  · simp [toRotationMatrixAbout, TemplateMatrix4x4.ofLineArrayData, multiplyVec3]
    linear_combination v.x * hq
  · simp [toRotationMatrixAbout, TemplateMatrix4x4.ofLineArrayData, multiplyVec3]
    linear_combination v.y * hq
  · simp [toRotationMatrixAbout, TemplateMatrix4x4.ofLineArrayData, multiplyVec3]
    linear_combination v.z * hq

end Ring

section Field
variable [Field K] {sqrt : K → K} {q : TemplateQuaternion K}

theorem getNormalized_of_normal (h : q.normal sqrt = 1) : q.getNormalized sqrt = q := by
  unfold getNormalized
  rw [h]
  simp

theorem normal_eq (q : TemplateQuaternion K) : q.normal sqrt = sqrt (q.dotProduct q) := rfl

theorem toRotationMatrix_multiplyVec4 (h : q.normal sqrt = 1) (v : TemplateVec3 K) :
    ((q.toRotationMatrix sqrt).multiplyVec4 (.ofVec3 v 1)).xyz =
      q.getConjugate.multiplyVec3 v := by
  unfold toRotationMatrix
  rw [getNormalized_of_normal h, multiplyVec4_ofVec3]
  ext <;> simp [TemplateMatrix4x4.ofLineArrayData, multiplyVec3, getConjugate] <;> ring

def xyz (q : TemplateQuaternion K) : TemplateVec3 K := ⟨q.x, q.y, q.z⟩

theorem multiplyVec3_getConjugate_eq_iff (q : TemplateQuaternion K) (v : TemplateVec3 K) :
    q.getConjugate.multiplyVec3 v = q.multiplyVec3 v ↔
      (2 : K) = 0 ∨ q.w = 0 ∨ q.xyz.crossProduct v = ⟨0, 0, 0⟩ := by
  have hx : (q.getConjugate.multiplyVec3 v).x - (q.multiplyVec3 v).x =
      2 * 2 * q.w * (q.xyz.crossProduct v).x * -1 := by
    simp only [getConjugate, multiplyVec3, xyz, TemplateVec3.crossProduct]
    ring
  have hy : (q.getConjugate.multiplyVec3 v).y - (q.multiplyVec3 v).y =
      2 * 2 * q.w * (q.xyz.crossProduct v).y * -1 := by
    simp only [getConjugate, multiplyVec3, xyz, TemplateVec3.crossProduct]
    ring
  have hz : (q.getConjugate.multiplyVec3 v).z - (q.multiplyVec3 v).z =
      2 * 2 * q.w * (q.xyz.crossProduct v).z * -1 := by
    simp only [getConjugate, multiplyVec3, xyz, TemplateVec3.crossProduct]
    ring
  rw [TemplateVec3.ext_iff, ← sub_eq_zero, ← sub_eq_zero (a := TemplateVec3.y _),
    ← sub_eq_zero (a := TemplateVec3.z _), hx, hy, hz, TemplateVec3.ext_iff]
  simp only [mul_eq_zero, neg_eq_zero, one_ne_zero, or_false, or_self]
  tauto

/-- Both matrices rotate a vector like `Multiply` exactly when the rotation is its own inverse on
the vector. -/
theorem rotations_agree_iff (hsqrt : sqrt 1 = 1) (q : TemplateQuaternion K)
    (hq : q.dotProduct q = 1) (v : TemplateVec3 K) :
    ((((q.toRotationMatrix sqrt).multiplyVec4 (.ofVec3 v 1)).xyz = q.multiplyVec3 v ∧
      (q.getMatrix.multiplyVec4 (.ofVec3 v 1)).xyz = q.multiplyVec3 v) ↔
        (2 : K) = 0 ∨ q.w = 0 ∨ q.xyz.crossProduct v = ⟨0, 0, 0⟩) := by
  have hnormal : q.normal sqrt = 1 := by rw [normal_eq, hq, hsqrt]
  rw [toRotationMatrix_multiplyVec4 hnormal, and_iff_left (getMatrix_multiplyVec4 q v)]
  exact multiplyVec3_getConjugate_eq_iff q v

end Field

/-- On the axis the matrices agree. -/
theorem rotations_agree_iff_axis :
    ((turn.toRotationMatrix Rat.sqrt).multiplyVec4 (.ofVec3 ⟨0, 0, 1⟩ 1)).xyz =
        turn.multiplyVec3 ⟨0, 0, 1⟩ ∧
      (turn.getMatrix.multiplyVec4 (.ofVec3 ⟨0, 0, 1⟩ 1)).xyz = turn.multiplyVec3 ⟨0, 0, 1⟩ :=
  (rotations_agree_iff rat_sqrt_one turn dotProduct_turn ⟨0, 0, 1⟩).mpr
    (.inr (.inr (by decide +kernel)))

/-- Off the axis `ToRotationMatrix` turns to the other side. -/
theorem toRotationMatrix_turns_back :
    turn.dotProduct turn = 1 ∧
      ((turn.toRotationMatrix Rat.sqrt).multiplyVec4 (.ofVec3 ⟨1, 0, 0⟩ 1)).xyz =
        ⟨7 / 25, -24 / 25, 0⟩ ∧
      ((turn.toRotationMatrix Rat.sqrt).multiplyVec4 (.ofVec3 ⟨1, 0, 0⟩ 1)).xyz ≠
        turn.multiplyVec3 ⟨1, 0, 0⟩ ∧
      (turn.getMatrix.multiplyVec4 (.ofVec3 ⟨1, 0, 0⟩ 1)).xyz = ⟨7 / 25, 24 / 25, 0⟩ ∧
      turn.multiplyVec3 ⟨1, 0, 0⟩ = ⟨7 / 25, 24 / 25, 0⟩ := by
  have hnormal : turn.normal Rat.sqrt = 1 := by rw [normal_eq, dotProduct_turn, rat_sqrt_one]
  rw [toRotationMatrix_multiplyVec4 hnormal]
  refine ⟨dotProduct_turn, ?_⟩
  decide +kernel

section Field
variable [Field K] {sqrt : K → K} {q : TemplateQuaternion K}

theorem inverse_eq (q : TemplateQuaternion K) : q.inverse sqrt = q.getInverse sqrt := by
  unfold inverse getInverse
  rw [conjugate_eq]

theorem normal_getConjugate (q : TemplateQuaternion K) :
    q.getConjugate.normal sqrt = q.normal sqrt := by
  simp [normal, getConjugate]

theorem dotProduct_ne_zero [LinearOrder K] [IsStrictOrderedRing K] (hq : q ≠ ⟨0, 0, 0, 0⟩) :
    q.dotProduct q ≠ 0 := by
  rw [dotProduct_self]
  refine mt Quaternion.normSq_eq_zero.mp fun hzero => hq ?_
  exact toQuaternion_injective hzero

theorem multiply_divided (q : TemplateQuaternion K) (n : K) :
    q.multiply ⟨-q.x / n, -q.y / n, -q.z / n, q.w / n⟩ = ⟨0, 0, 0, q.dotProduct q / n⟩ ∧
      multiply ⟨-q.x / n, -q.y / n, -q.z / n, q.w / n⟩ q = ⟨0, 0, 0, q.dotProduct q / n⟩ := by
  constructor <;> ext <;> simp only [multiply, dotProduct] <;> ring

/-- The norm is divided out once, and the product with the conjugate has it twice. -/
theorem multiply_getInverse (hne : q.normal sqrt ≠ 0)
    (hsquare : q.normal sqrt * q.normal sqrt = q.dotProduct q) :
    q.multiply (q.getInverse sqrt) = ⟨0, 0, 0, q.normal sqrt⟩ ∧
      (q.getInverse sqrt).multiply q = ⟨0, 0, 0, q.normal sqrt⟩ := by
  have hinverse : q.getInverse sqrt = ⟨-q.x / q.normal sqrt, -q.y / q.normal sqrt,
      -q.z / q.normal sqrt, q.w / q.normal sqrt⟩ := by
    unfold getInverse normalize getNormalized
    rw [normal_getConjugate]
    rfl
  have hnormal : q.dotProduct q / q.normal sqrt = q.normal sqrt := by
    rw [← hsquare, mul_div_cancel_right₀ _ hne]
  obtain ⟨hright, hleft⟩ := multiply_divided q (q.normal sqrt)
  rw [hinverse, hright, hleft, hnormal]
  exact ⟨rfl, rfl⟩

/-- `GetInverse` inverts the unit quaternions and no others. -/
theorem getInverse_inverts_iff [LinearOrder K] [IsStrictOrderedRing K] (q : TemplateQuaternion K)
    (hq : q ≠ ⟨0, 0, 0, 0⟩) (hnonneg : 0 ≤ q.normal sqrt)
    (hsquare : q.normal sqrt * q.normal sqrt = q.dotProduct q) :
    (q.multiply (q.getInverse sqrt) = ⟨0, 0, 0, 1⟩ ∧
      (q.getInverse sqrt).multiply q = ⟨0, 0, 0, 1⟩) ↔ q.dotProduct q = 1 := by
  have hne : q.normal sqrt ≠ 0 := by
    intro hzero
    apply dotProduct_ne_zero hq
    rw [← hsquare, hzero, zero_mul]
  obtain ⟨hright, hleft⟩ := multiply_getInverse hne hsquare
  rw [hright, hleft, and_self, ← hsquare, TemplateQuaternion.ext_iff]
  constructor
  · rintro ⟨-, -, -, hone⟩
    dsimp only at hone
    rw [hone, one_mul]
  · intro hone
    exact ⟨rfl, rfl, rfl, (mul_self_eq_one_iff.mp hone).resolve_right fun hneg => by linarith⟩

end Field

theorem getInverse_inverts_iff_turn :
    turn.multiply (turn.getInverse Rat.sqrt) = ⟨0, 0, 0, 1⟩ ∧
      (turn.getInverse Rat.sqrt).multiply turn = ⟨0, 0, 0, 1⟩ := by
  have hnormal : turn.normal Rat.sqrt = 1 := by rw [normal_eq, dotProduct_turn, rat_sqrt_one]
  exact (getInverse_inverts_iff turn (by decide +kernel) (by rw [hnormal]; exact zero_le_one)
    (by rw [hnormal, dotProduct_turn, one_mul])).mpr dotProduct_turn

/-- A quaternion of norm two. -/
def double : TemplateQuaternion ℚ := ⟨0, 0, 0, 2⟩

/-- Its inverse has norm one. -/
theorem getInverse_double :
    double.normal Rat.sqrt = 2 ∧ double.getInverse Rat.sqrt = ⟨0, 0, 0, 1⟩ ∧
      double.multiply (double.getInverse Rat.sqrt) = ⟨0, 0, 0, 2⟩ ∧
      (⟨0, 0, 0, 2⟩ : TemplateQuaternion ℚ) ≠ ⟨0, 0, 0, 1⟩ := by
  have hnormal : double.normal Rat.sqrt = 2 := by
    rw [normal_eq, show double.dotProduct double = 2 * 2 by decide +kernel, Rat.sqrt_eq]
    decide +kernel
  have hinverse : double.getInverse Rat.sqrt = ⟨0, 0, 0, 1⟩ := by
    unfold getInverse normalize getNormalized
    rw [normal_getConjugate, hnormal]
    decide +kernel
  refine ⟨hnormal, hinverse, ?_, by decide +kernel⟩
  rw [hinverse]
  decide +kernel

end TemplateQuaternion

end AsciiTerra
