import Mathlib

/-!
# The matrix templates of `spNetMath.h`

A matrix is a union whose members give several names to each entry. Here it is its
`data`, the other names are read off it. The numbers are those of a commutative ring,
or of a field where the source divides. What the members compute is compared with the
matrices of Mathlib.
-/

set_option autoImplicit false

namespace AsciiTerra

/-- The union of `template_matrix2x2`, `template_matrix3x3` and `template_matrix4x4`: the entry
of row `i` and column `j` is `data[i][j]`. -/
@[ext] structure TemplateMatrix (n : Nat) (R : Type*) where
  data : Fin n → Fin n → R
deriving DecidableEq

/-- `template_matrix2x2`. -/
abbrev TemplateMatrix2x2 := TemplateMatrix 2
/-- `template_matrix3x3`. -/
abbrev TemplateMatrix3x3 := TemplateMatrix 3
/-- `template_matrix4x4`. -/
abbrev TemplateMatrix4x4 := TemplateMatrix 4

namespace TemplateMatrix
variable {n : Nat} {R : Type*}

/-- The default constructors fill `lineArrayData` with zeros. -/
def zero (n : Nat) (R : Type*) [Zero R] : TemplateMatrix n R := ⟨fun _ _ => 0⟩

def toMatrix (m : TemplateMatrix n R) : Matrix (Fin n) (Fin n) R := Matrix.of m.data

@[simp] theorem toMatrix_apply (m : TemplateMatrix n R) (i j : Fin n) :
    m.toMatrix i j = m.data i j := rfl

theorem toMatrix_injective : Function.Injective (toMatrix : TemplateMatrix n R → _) := by
  intro a b h
  apply TemplateMatrix.ext
  exact h

end TemplateMatrix

namespace TemplateMatrix2x2
variable {R : Type*}

local instance neZeroTwo : NeZero 2 := ⟨two_ne_zero⟩

def a11 (m : TemplateMatrix2x2 R) : R := m.data 0 0
def a12 (m : TemplateMatrix2x2 R) : R := m.data 0 1
def a21 (m : TemplateMatrix2x2 R) : R := m.data 1 0
def a22 (m : TemplateMatrix2x2 R) : R := m.data 1 1

/-- The constructor from four numbers, which are `a`, `b`, `c` and `d`. -/
def ofEntries (aE bE cE dE : R) : TemplateMatrix2x2 R := ⟨![![aE, bE], ![cE, dE]]⟩

/-- The constructor from a pivot. -/
def pivot [Zero R] (p : R) : TemplateMatrix2x2 R := ofEntries p 0 0 p

section Ring
variable [CommRing R] (m b : TemplateMatrix2x2 R)

def multiply : TemplateMatrix2x2 R :=
  ofEntries
    (m.data 0 0 * b.data 0 0 + m.data 0 1 * b.data 1 0)
    (m.data 0 0 * b.data 0 1 + m.data 0 1 * b.data 1 1)
    (m.data 1 0 * b.data 0 0 + m.data 1 1 * b.data 1 0)
    (m.data 1 0 * b.data 0 1 + m.data 1 1 * b.data 1 1)

def determinant : R := a11 m * a22 m - a12 m * a21 m

/-- `operator+`. -/
def add : TemplateMatrix2x2 R := ⟨fun i j => m.data i j + b.data i j⟩

instance : Add (TemplateMatrix2x2 R) := ⟨fun m b => add m b⟩

theorem toMatrix_add : (m + b).toMatrix = m.toMatrix + b.toMatrix := rfl

theorem toMatrix_multiply : (multiply m b).toMatrix = m.toMatrix * b.toMatrix := by
  ext i j
  rw [Matrix.mul_apply, Fin.sum_univ_two]
  fin_cases i <;> fin_cases j <;> rfl

theorem determinant_eq_det : determinant m = m.toMatrix.det := by
  rw [Matrix.det_fin_two]
  rfl

end Ring

section Field
variable [Field R] [DecidableEq R] (m : TemplateMatrix2x2 R)

/-- `/= b` on each entry. -/
def divideEntries (s : R) : TemplateMatrix2x2 R := ⟨fun i j => m.data i j / s⟩

/-- `ScalarDivide`. It divides the entries of `result`, which are zeros. -/
def scalarDivide (_m : TemplateMatrix2x2 R) (s : R) : TemplateMatrix2x2 R :=
  let result : TemplateMatrix2x2 R := TemplateMatrix.zero 2 R
  if s ≠ 0 then divideEntries result s else result

/-- What `ScalarDivideSelf` leaves in the matrix and returns. -/
def scalarDivideSelf (s : R) : TemplateMatrix2x2 R :=
  if s ≠ 0 then divideEntries m s else m

def getInverse : TemplateMatrix2x2 R :=
  let result := ofEntries (a22 m) (-a12 m) (-a21 m) (a11 m)
  scalarDivideSelf result (determinant result)

/-- What `InverseSelf` leaves in the matrix. -/
def inverseSelf : TemplateMatrix2x2 R := scalarDivideSelf m (determinant m)

end Field
end TemplateMatrix2x2

namespace TemplateMatrix3x3
variable {R : Type*}

def a11 (m : TemplateMatrix3x3 R) : R := m.data 0 0
def a12 (m : TemplateMatrix3x3 R) : R := m.data 0 1
def a13 (m : TemplateMatrix3x3 R) : R := m.data 0 2
def a21 (m : TemplateMatrix3x3 R) : R := m.data 1 0
def a22 (m : TemplateMatrix3x3 R) : R := m.data 1 1
def a23 (m : TemplateMatrix3x3 R) : R := m.data 1 2
def a31 (m : TemplateMatrix3x3 R) : R := m.data 2 0
def a32 (m : TemplateMatrix3x3 R) : R := m.data 2 1
def a33 (m : TemplateMatrix3x3 R) : R := m.data 2 2

/-- The first entry has the name `a` too. -/
def a (m : TemplateMatrix3x3 R) : R := m.data 0 0

/-- The constructor from a pivot. -/
def pivot [Zero R] (p : R) : TemplateMatrix3x3 R := ⟨![![p, 0, 0], ![0, p, 0], ![0, 0, p]]⟩

variable [CommRing R] (m b : TemplateMatrix3x3 R)

/-- `Multiply` by a matrix: each entry of `result` starts at zero and takes up three products. -/
def multiply : TemplateMatrix3x3 R :=
  ⟨fun i j => (List.finRange 3).foldl (fun entry k => entry + m.data i k * b.data k j) 0⟩

def determinant : R :=
  0 + a11 m * (a22 m * a33 m - a23 m * a32 m)
    - a12 m * (a21 m * a33 m - a23 m * a31 m)
    + a13 m * (a21 m * a32 m - a22 m * a31 m)

/-- `operator+`, where the entry below the middle adds `b.a`. -/
def add : TemplateMatrix3x3 R :=
  ⟨![![a11 m + a11 b, a12 m + a12 b, a13 m + a13 b],
     ![a21 m + a21 b, a22 m + a22 b, a23 m + a23 b],
     ![a31 m + a31 b, a32 m + a b, a33 m + a33 b]]⟩

instance : Add (TemplateMatrix3x3 R) := ⟨fun m b => add m b⟩

theorem toMatrix_multiply : (multiply m b).toMatrix = m.toMatrix * b.toMatrix := by
  ext i j
  rw [Matrix.mul_apply, Fin.sum_univ_three]
  simp [multiply, List.finRange_succ]

theorem determinant_eq_det : determinant m = m.toMatrix.det := by
  rw [Matrix.det_fin_three]
  simp only [determinant, a11, a12, a13, a21, a22, a23, a31, a32, a33, TemplateMatrix.toMatrix_apply]
  ring

end TemplateMatrix3x3

namespace TemplateMatrix4x4
variable {R : Type*} [CommRing R] (m : TemplateMatrix4x4 R)

def determinant : R :=
  let det2_01_01 := m.data 0 0 * m.data 1 1 - m.data 0 1 * m.data 1 0
  let det2_01_02 := m.data 0 0 * m.data 1 2 - m.data 0 2 * m.data 1 0
  let det2_01_03 := m.data 0 0 * m.data 1 3 - m.data 0 3 * m.data 1 0
  let det2_01_12 := m.data 0 1 * m.data 1 2 - m.data 0 2 * m.data 1 1
  let det2_01_13 := m.data 0 1 * m.data 1 3 - m.data 0 3 * m.data 1 1
  let det2_01_23 := m.data 0 2 * m.data 1 3 - m.data 0 3 * m.data 1 2
  let det3_201_012 :=
    m.data 2 0 * det2_01_12 - m.data 2 1 * det2_01_02 + m.data 2 2 * det2_01_01
  let det3_201_013 :=
    m.data 2 0 * det2_01_13 - m.data 2 1 * det2_01_03 + m.data 2 3 * det2_01_01
  let det3_201_023 :=
    m.data 2 0 * det2_01_23 - m.data 2 2 * det2_01_03 + m.data 2 3 * det2_01_02
  let det3_201_123 :=
    m.data 2 1 * det2_01_23 - m.data 2 2 * det2_01_13 + m.data 2 3 * det2_01_12
  (-det3_201_123 * m.data 3 0 + det3_201_023 * m.data 3 1 - det3_201_013 * m.data 3 2
    + det3_201_012 * m.data 3 3)

theorem determinant_eq_det : determinant m = m.toMatrix.det := by
  simp [determinant, Matrix.det_succ_row_zero, Fin.sum_univ_succ, Fin.succAbove]
  ring

end TemplateMatrix4x4

/-- Each `Determinant` is that of Leibniz' formula, and where there is a `Multiply` it takes
products of matrices to products. -/
theorem determinants_leibniz {R : Type*} [CommRing R] :
    (∀ m : TemplateMatrix2x2 R, m.determinant = m.toMatrix.det) ∧
    (∀ m : TemplateMatrix3x3 R, m.determinant = m.toMatrix.det) ∧
    (∀ m : TemplateMatrix4x4 R, m.determinant = m.toMatrix.det) ∧
    (∀ a b : TemplateMatrix2x2 R, (a.multiply b).determinant = a.determinant * b.determinant) ∧
    (∀ a b : TemplateMatrix3x3 R, (a.multiply b).determinant = a.determinant * b.determinant) := by
  refine ⟨TemplateMatrix2x2.determinant_eq_det, TemplateMatrix3x3.determinant_eq_det,
    TemplateMatrix4x4.determinant_eq_det, ?_, ?_⟩
  · intro a b
    rw [TemplateMatrix2x2.determinant_eq_det, TemplateMatrix2x2.toMatrix_multiply, Matrix.det_mul,
      ← TemplateMatrix2x2.determinant_eq_det, ← TemplateMatrix2x2.determinant_eq_det]
  · intro a b
    rw [TemplateMatrix3x3.determinant_eq_det, TemplateMatrix3x3.toMatrix_multiply, Matrix.det_mul,
      ← TemplateMatrix3x3.determinant_eq_det, ← TemplateMatrix3x3.determinant_eq_det]

/-- The laws of a ring that do not speak of its units, for three matrices. -/
structure RingLaws {M : Type*} [Add M] (multiply : M → M → M) (a b c : M) : Prop where
  add_comm : a + b = b + a
  add_assoc : (a + b) + c = a + (b + c)
  right_distrib : multiply (a + b) c = multiply a c + multiply b c
  left_distrib : multiply a (b + c) = multiply a b + multiply a c
  mul_assoc : multiply (multiply a b) c = multiply a (multiply b c)

namespace TemplateMatrix2x2
variable {R : Type*} [CommRing R]

theorem ringLaws (a b c : TemplateMatrix2x2 R) : RingLaws multiply a b c := by
  constructor <;> apply TemplateMatrix.toMatrix_injective <;>
    simp only [toMatrix_add, toMatrix_multiply]
  · exact add_comm _ _
  · exact add_assoc _ _ _
  · exact add_mul _ _ _
  · exact mul_add _ _ _
  · exact mul_assoc _ _ _

end TemplateMatrix2x2

namespace TemplateMatrix3x3
variable {R : Type*} [CommRing R] (A B C : TemplateMatrix3x3 R)

/-- What the entry below the middle of a sum gains by adding `b.a` in place of `b.a32`. -/
def slip : R := a11 B - a32 B

theorem multiply_assoc : multiply (multiply A B) C = multiply A (multiply B C) := by
  apply TemplateMatrix.toMatrix_injective
  simp only [toMatrix_multiply]
  exact mul_assoc _ _ _

theorem toMatrix_add :
    (A + B).toMatrix = A.toMatrix + B.toMatrix + Matrix.single 2 1 (slip B) := by
  ext i j
  rw [Matrix.add_apply, Matrix.add_apply, Matrix.single_apply]
  change (add A B).data i j = _
  fin_cases i <;> fin_cases j <;> simp [add, slip, a, a11, a12, a13, a21, a22, a23, a31, a32, a33]

theorem slip_multiply :
    slip (A.multiply B) =
      a11 A * a11 B + a12 A * a21 B + a13 A * a31 B
        - (a31 A * a12 B + a32 A * a22 B + a33 A * a32 B) := by
  have hentry : ∀ i j, (A.multiply B).data i j = ∑ k, A.data i k * B.data k j := fun i j => by
    rw [← TemplateMatrix.toMatrix_apply, toMatrix_multiply, Matrix.mul_apply]
    rfl
  simp only [slip, a11, a32, hentry, Fin.sum_univ_three]
  rfl

theorem single_eq_single_iff {x y : R} :
    Matrix.single (2 : Fin 3) (1 : Fin 3) x = Matrix.single 2 1 y ↔ x = y := by
  constructor
  · intro h
    have hentry := congrFun (congrFun h 2) 1
    rwa [Matrix.single_apply_same, Matrix.single_apply_same] at hentry
  · exact congrArg _

theorem single_mul_eq_single_iff {x y : R} (M : Matrix (Fin 3) (Fin 3) R) :
    Matrix.single 2 1 x * M = Matrix.single 2 1 y ↔
      x * M 1 0 = 0 ∧ x * M 1 1 = y ∧ x * M 1 2 = 0 := by
  rw [← Matrix.ext_iff]
  simp [Fin.forall_fin_succ, Matrix.single_apply]

theorem mul_single_eq_single_iff {x y : R} (M : Matrix (Fin 3) (Fin 3) R) :
    M * Matrix.single 2 1 x = Matrix.single 2 1 y ↔
      M 0 2 * x = 0 ∧ M 1 2 * x = 0 ∧ M 2 2 * x = y := by
  rw [← Matrix.ext_iff]
  simp [Fin.forall_fin_succ, Matrix.single_apply]

theorem add_comm_iff : A + B = B + A ↔ slip A = slip B := by
  rw [← TemplateMatrix.toMatrix_injective.eq_iff, toMatrix_add, toMatrix_add,
    add_comm B.toMatrix, add_right_inj, single_eq_single_iff]
  exact eq_comm

theorem add_assoc : (A + B) + C = A + (B + C) := by
  have hslip : slip (B + C) = slip B := by
    change a11 B + a11 C - (a32 B + a11 C) = a11 B - a32 B
    ring
  apply TemplateMatrix.toMatrix_injective
  rw [toMatrix_add, toMatrix_add, toMatrix_add, toMatrix_add, hslip]
  abel

/-- A slip in a sum is spread over the last row of a product with the sum on the left. -/
theorem right_distrib_iff :
    multiply (A + B) C = multiply A C + multiply B C ↔
      slip B * a21 C = 0 ∧ slip B * a22 C = slip (multiply B C) ∧ slip B * a23 C = 0 := by
  rw [← TemplateMatrix.toMatrix_injective.eq_iff, toMatrix_multiply, toMatrix_add, toMatrix_add,
    toMatrix_multiply, toMatrix_multiply, add_mul, add_mul, add_right_inj]
  exact single_mul_eq_single_iff _

/-- A slip in a sum is spread over the last column of a product with the sum on the right. -/
theorem left_distrib_iff :
    multiply A (B + C) = multiply A B + multiply A C ↔
      a13 A * slip C = 0 ∧ a23 A * slip C = 0 ∧ a33 A * slip C = slip (multiply A C) := by
  rw [← TemplateMatrix.toMatrix_injective.eq_iff, toMatrix_multiply, toMatrix_add, toMatrix_add,
    toMatrix_multiply, toMatrix_multiply, mul_add, mul_add, add_right_inj]
  exact mul_single_eq_single_iff _

/-- The entries of three matrices for which the slips in their sums make no difference. -/
structure Unslipped : Prop where
  comm : a32 A + a11 B = a32 B + a11 A
  right_first : (a11 B - a32 B) * a21 C = 0
  right_last : (a11 B - a32 B) * a23 C = 0
  right_middle : a31 B * a12 C + a11 B * a22 C + a33 B * a32 C =
    a11 B * a11 C + a12 B * a21 C + a13 B * a31 C
  left_first : a13 A * (a11 C - a32 C) = 0
  left_middle : a23 A * (a11 C - a32 C) = 0
  left_last : a31 A * a12 C + a32 A * a22 C + a33 A * a11 C =
    a11 A * a11 C + a12 A * a21 C + a13 A * a31 C

theorem ringLaws_iff : RingLaws multiply A B C ↔ Unslipped A B C := by
  have hcomm := add_comm_iff A B
  have hright := right_distrib_iff A B C
  have hleft := left_distrib_iff A B C
  rw [slip_multiply] at hright hleft
  unfold slip at hcomm hright hleft
  constructor
  · intro h
    obtain ⟨hfirst, hmiddle, hlast⟩ := hright.mp h.right_distrib
    obtain ⟨hfirst', hmiddle', hlast'⟩ := hleft.mp h.left_distrib
    have hslips := hcomm.mp h.add_comm
    refine ⟨?_, hfirst, hlast, ?_, hfirst', hmiddle', ?_⟩
    · linear_combination -hslips
    · linear_combination hmiddle
    · linear_combination hlast'
  · intro h
    refine ⟨hcomm.mpr ?_, add_assoc A B C, hright.mpr ⟨h.right_first, ?_, h.right_last⟩,
      hleft.mpr ⟨h.left_first, h.left_middle, ?_⟩, multiply_assoc A B C⟩
    · linear_combination -h.comm
    · linear_combination h.right_middle
    · linear_combination h.left_last

end TemplateMatrix3x3

/-- The laws hold of the smaller matrices, and of the larger exactly where the slips in their sums
make no difference. -/
theorem matrix_ringLaws {R : Type*} [CommRing R] :
    (∀ A B C : TemplateMatrix2x2 R, RingLaws TemplateMatrix2x2.multiply A B C) ∧
    ∀ A B C : TemplateMatrix3x3 R,
      RingLaws TemplateMatrix3x3.multiply A B C ↔ TemplateMatrix3x3.Unslipped A B C :=
  ⟨TemplateMatrix2x2.ringLaws, TemplateMatrix3x3.ringLaws_iff⟩

/-- The identity and the zero matrix have sums that depend on their order. -/
theorem matrix_add_not_comm :
    ¬ RingLaws TemplateMatrix3x3.multiply (TemplateMatrix3x3.pivot (1 : Int))
      (TemplateMatrix.zero 3 Int) (TemplateMatrix.zero 3 Int) := by
  intro h
  have hadd := h.add_comm
  revert hadd
  decide

namespace TemplateMatrix2x2
variable {K : Type*} [Field K] [DecidableEq K] (M : TemplateMatrix2x2 K)

/-- The members that return a matrix agree with those that change one. -/
structure Agrees : Prop where
  inverse_right : M.multiply M.getInverse = pivot 1
  inverse_left : M.getInverse.multiply M = pivot 1
  inverse_self : M.inverseSelf = M.getInverse
  divide_self : ∀ s : K, s ≠ 0 → ∀ i j, (M.scalarDivideSelf s).data i j = M.data i j / s
  divide : ∀ s : K, s ≠ 0 → M.scalarDivide s = M.scalarDivideSelf s

theorem scalarDivideSelf_apply {s : K} (hs : s ≠ 0) (i j : Fin 2) :
    (M.scalarDivideSelf s).data i j = M.data i j / s := by
  unfold scalarDivideSelf
  rw [if_pos hs]
  rfl

theorem scalarDivideSelf_one : M.scalarDivideSelf 1 = M := by
  apply TemplateMatrix.ext
  funext i j
  rw [scalarDivideSelf_apply _ one_ne_zero, div_one]

theorem scalarDivide_eq_zero (s : K) : M.scalarDivide s = TemplateMatrix.zero 2 K := by
  unfold scalarDivide
  split
  · apply TemplateMatrix.ext
    funext i j
    exact zero_div s
  · rfl

variable {M}

theorem getInverse_eq :
    M.getInverse = (ofEntries (a22 M) (-a12 M) (-a21 M) (a11 M)).scalarDivideSelf M.determinant := by
  have hdet : determinant (ofEntries (a22 M) (-a12 M) (-a21 M) (a11 M)) = M.determinant := by
    change a22 M * a11 M - -a12 M * -a21 M = a11 M * a22 M - a12 M * a21 M
    ring
  exact congrArg (scalarDivideSelf _) hdet

theorem toMatrix_getInverse (h : M.determinant ≠ 0) :
    M.getInverse.toMatrix = M.toMatrix.det⁻¹ • M.toMatrix.adjugate := by
  ext i j
  rw [Matrix.adjugate_fin_two, ← determinant_eq_det, Matrix.smul_apply, smul_eq_mul,
    inv_mul_eq_div, getInverse_eq, TemplateMatrix.toMatrix_apply, scalarDivideSelf_apply _ h]
  rfl

omit [DecidableEq K] in
theorem toMatrix_pivot_one : (pivot 1 : TemplateMatrix2x2 K).toMatrix = 1 := by
  ext i j
  fin_cases i <;> fin_cases j <;> rfl

theorem multiply_getInverse (h : M.determinant ≠ 0) : M.multiply M.getInverse = pivot 1 := by
  apply TemplateMatrix.toMatrix_injective
  rw [toMatrix_multiply, toMatrix_getInverse h, toMatrix_pivot_one, Matrix.mul_smul,
    Matrix.mul_adjugate, smul_smul, ← determinant_eq_det, inv_mul_cancel₀ h, one_smul]

theorem getInverse_multiply (h : M.determinant ≠ 0) : M.getInverse.multiply M = pivot 1 := by
  apply TemplateMatrix.toMatrix_injective
  rw [toMatrix_multiply, toMatrix_getInverse h, toMatrix_pivot_one, Matrix.smul_mul,
    Matrix.adjugate_mul, smul_smul, ← determinant_eq_det, inv_mul_cancel₀ h, one_smul]

theorem inverseSelf_eq_iff (h : M.determinant ≠ 0) :
    M.inverseSelf = M.getInverse ↔ a11 M = a22 M ∧ a12 M = -a12 M ∧ a21 M = -a21 M := by
  have hentries : M.inverseSelf = M.getInverse ↔
      ∀ i j, M.data i j = (ofEntries (a22 M) (-a12 M) (-a21 M) (a11 M)).data i j := by
    rw [← TemplateMatrix.toMatrix_injective.eq_iff, ← Matrix.ext_iff, getInverse_eq]
    simp only [TemplateMatrix.toMatrix_apply, inverseSelf, scalarDivideSelf_apply _ h,
      div_left_inj' h]
  rw [hentries, Fin.forall_fin_two, Fin.forall_fin_two, Fin.forall_fin_two]
  change (a11 M = a22 M ∧ a12 M = -a12 M) ∧ a21 M = -a21 M ∧ a22 M = a11 M ↔ _
  rw [and_assoc, eq_comm (a := a22 M)]
  tauto

theorem scalarDivide_ne (h : M.determinant ≠ 0) {s : K} (hs : s ≠ 0) :
    M.scalarDivide s ≠ M.scalarDivideSelf s := by
  rw [scalarDivide_eq_zero]
  intro heq
  apply h
  have hentry : ∀ i j, M.data i j = 0 := by
    intro i j
    have hzero := congrArg (fun m => TemplateMatrix.data m i j) heq
    rw [scalarDivideSelf_apply _ hs] at hzero
    exact (div_eq_zero_iff.mp hzero.symm).resolve_right hs
  simp [determinant, a11, a12, hentry]

end TemplateMatrix2x2

open TemplateMatrix2x2 in
/-- The inverse of a matrix and the quotient left in it are right. `InverseSelf` is right where the
adjugate is the matrix, and `ScalarDivide` never. -/
theorem not_agrees {K : Type*} [Field K] [DecidableEq K] (M : TemplateMatrix2x2 K)
    (h : M.determinant ≠ 0) :
    ¬ Agrees M ∧
    (M.multiply M.getInverse = pivot 1 ∧ M.getInverse.multiply M = pivot 1) ∧
    (M.inverseSelf = M.getInverse ↔ a11 M = a22 M ∧ a12 M = -a12 M ∧ a21 M = -a21 M) ∧
    ∀ s : K, s ≠ 0 → (∀ i j, (M.scalarDivideSelf s).data i j = M.data i j / s) ∧
      M.scalarDivide s ≠ M.scalarDivideSelf s := by
  refine ⟨?_, ⟨multiply_getInverse h, getInverse_multiply h⟩, inverseSelf_eq_iff h, ?_⟩
  · intro hagrees
    exact scalarDivide_ne h one_ne_zero (hagrees.divide 1 one_ne_zero)
  · intro s hs
    exact ⟨scalarDivideSelf_apply M hs, scalarDivide_ne h hs⟩

open TemplateMatrix2x2 in
theorem not_agrees_rational :
    ¬ Agrees (ofEntries 1 2 3 4 : TemplateMatrix2x2 ℚ) :=
  (not_agrees (ofEntries 1 2 3 4) (by decide +kernel)).1

open TemplateMatrix2x2 in
/-- A shear divided by one is lost, and it is not its own inverse. -/
theorem shear_divided :
    let shear : TemplateMatrix2x2 ℚ := ofEntries 1 1 0 1
    shear.determinant = 1 ∧ shear.inverseSelf ≠ shear.getInverse ∧
      shear.scalarDivide 1 = TemplateMatrix.zero 2 ℚ ∧ shear.scalarDivideSelf 1 = shear ∧
      ¬ Agrees shear := by
  intro shear
  have hdet : shear.determinant = 1 := by decide +kernel
  have hself : shear.inverseSelf = shear := by
    unfold inverseSelf
    rw [hdet, scalarDivideSelf_one]
  have hinverse : shear.getInverse = ofEntries 1 (-1) (-0) 1 := by
    rw [getInverse_eq, hdet, scalarDivideSelf_one]
    rfl
  have hne : shear.inverseSelf ≠ shear.getInverse := by
    rw [hself, hinverse]
    decide +kernel
  refine ⟨hdet, hne, scalarDivide_eq_zero _ _, scalarDivideSelf_one _, ?_⟩
  intro h
  exact hne h.inverse_self

end AsciiTerra
