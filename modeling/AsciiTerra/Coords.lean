import Mathlib

/-!
# Coordinates: `template_vec3<int16>`

The part of the vector template that the game instantiates. Components are 16-bit
and every operation wraps: the `int` results of the arithmetic are stored back
into `short`.
-/

set_option autoImplicit false

namespace AsciiTerra

structure CoordVec where
  x : Int16
  y : Int16
  z : Int16
deriving DecidableEq, Repr

namespace CoordVec

/-- The default constructor fills the vector with zeros. -/
def zero : CoordVec := ⟨0, 0, 0⟩

/-- `operator+(template_vec3)`. -/
def add (a b : CoordVec) : CoordVec := ⟨a.x + b.x, a.y + b.y, a.z + b.z⟩

/-- `operator-(template_vec3)`. -/
def sub (a b : CoordVec) : CoordVec := ⟨a.x - b.x, a.y - b.y, a.z - b.z⟩

instance : Add CoordVec := ⟨add⟩
instance : Sub CoordVec := ⟨sub⟩

@[simp] theorem add_x (a b : CoordVec) : (a + b).x = a.x + b.x := rfl
@[simp] theorem add_y (a b : CoordVec) : (a + b).y = a.y + b.y := rfl
@[simp] theorem add_z (a b : CoordVec) : (a + b).z = a.z + b.z := rfl
@[simp] theorem sub_x (a b : CoordVec) : (a - b).x = a.x - b.x := rfl
@[simp] theorem sub_y (a b : CoordVec) : (a - b).y = a.y - b.y := rfl
@[simp] theorem sub_z (a b : CoordVec) : (a - b).z = a.z - b.z := rfl

/-- `ScalarSubtract` and `operator-=(const number_t)`: all three components change. -/
def scalarSubtract (a : CoordVec) (b : Int16) : CoordVec := ⟨a.x - b, a.y - b, a.z - b⟩

def squareLength (a : CoordVec) : Int16 := a.x * a.x + a.y * a.y + a.z * a.z

/-- `sqrt` of a nonnegative `short`, converted to `short`. -/
def squareRoot (n : Nat) : Nat := Nat.findGreatest (fun r => r * r ≤ n) 181

/-- `Lenght`. The square root of a square length that wrapped below zero is a NaN; the
x64 conversion turns it into `0x80000000`, whose low 16 bits are zero. -/
def lenght (a : CoordVec) : Int16 :=
  if a.squareLength < 0 then 0
  else Int16.ofNat (squareRoot a.squareLength.toNatClampNeg)

/-- `less_or_equal` on integers: two of them that are `equal` up to the guard are the same. -/
def lessOrEqual (a b : Int16) : Bool := a < b || a == b

/-- `operator==(template_vec3)`: `equal` compares the vector of absolute differences with
the guard, which becomes the `short` zero. -/
def equal (a b : CoordVec) : Bool :=
  let d := a - b
  lessOrEqual d.x.abs 0 && lessOrEqual d.y.abs 0 && lessOrEqual d.z.abs 0

theorem squareRoot_eq {n : Nat} (h : n < 2 ^ 15) : squareRoot n = Nat.sqrt n := by
  have hs : Nat.sqrt n ≤ 181 := Nat.le_of_lt_succ (Nat.sqrt_lt.mpr (by omega))
  exact (Nat.findGreatest_eq_iff.mpr ⟨hs, fun _ => Nat.sqrt_le n, fun m hm _ hle =>
    absurd (Nat.le_sqrt.mpr hle) (Nat.not_le.mpr hm)⟩)

theorem lenght_toInt (a : CoordVec) :
    a.lenght.toInt = if a.squareLength < 0 then 0
      else (Nat.sqrt a.squareLength.toInt.toNat : Int) := by
  unfold lenght
  split
  · rfl
  · have hlt : a.squareLength.toInt < 2 ^ 15 := a.squareLength.toInt_lt
    have hs : Nat.sqrt a.squareLength.toInt.toNat ≤ a.squareLength.toInt.toNat :=
      Nat.sqrt_le_self _
    rw [Int16.toNatClampNeg, squareRoot_eq (by omega), Int16.toInt_ofNat_of_lt (by omega)]

theorem lenght_le (a : CoordVec) : a.lenght.toInt ≤ 181 := by
  rw [lenght_toInt]
  split
  · decide
  · have hlt : a.squareLength.toInt < 2 ^ 15 := a.squareLength.toInt_lt
    have hs : Nat.sqrt a.squareLength.toInt.toNat < 182 := Nat.sqrt_lt.mpr (by omega)
    omega

theorem lenght_of_squareLength {a : CoordVec} {n : Nat} (h : a.squareLength.toInt = n) :
    a.lenght.toInt = Nat.sqrt n := by
  have hneg : ¬ a.squareLength < 0 := by
    rw [Int16.lt_iff_toInt_lt, h]
    simp
  rw [lenght_toInt, if_neg hneg, h, Int.toNat_natCast]

theorem one_lt_lenght {a : CoordVec} {n : Nat} (h : a.squareLength.toInt = n) (hn : 4 ≤ n) :
    a.lenght > 1 := by
  have hs : 2 ≤ Nat.sqrt n := Nat.le_sqrt.mpr hn
  apply Int16.lt_iff_toInt_lt.mpr
  rw [lenght_of_squareLength h]
  exact Int.ofNat_lt.mpr hs

theorem lenght_le_one {a : CoordVec} {n : Nat} (h : a.squareLength.toInt = n) (hn : n < 4) :
    ¬ a.lenght > 1 := by
  have hs : Nat.sqrt n < 2 := Nat.sqrt_lt.mpr hn
  intro hlen
  have hlt := Int16.lt_iff_toInt_lt.mp hlen
  rw [lenght_of_squareLength h] at hlt
  exact absurd (Int.ofNat_lt.mp hlt) (not_lt.mpr (Nat.le_of_lt_succ hs))

end CoordVec

end AsciiTerra
