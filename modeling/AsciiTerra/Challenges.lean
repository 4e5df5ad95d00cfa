import AsciiTerra.Handshake

/-!
# The answers to a challenge

`scramble` swaps the two halves of each byte between two masks. The masks have seven bytes, so
the highest byte of the challenge does not come into the answer.
-/

set_option autoImplicit false

namespace AsciiTerra

/-- The seven bytes that the masks of `scramble` cover. -/
def lowBytes (x : UInt64) : UInt64 := x &&& 0xFFFFFFFFFFFFFF

/-- The halves of the seven bytes, swapped. -/
def swapNibbles (out : UInt64) : UInt64 :=
  (out &&& 0xF0F0F0F0F0F0F0) >>> 4 ||| (out &&& 0x0F0F0F0F0F0F0F) <<< 4

theorem scramble_eq (x : UInt64) :
    scramble x = swapNibbles (x ^^^ 0xDEADBEEFC0DECAFE) ^^^ 0xC0DEFACE12345678 := rfl

theorem swapNibbles_lowBytes (x : UInt64) : swapNibbles (lowBytes x) = swapNibbles x := by
  unfold swapNibbles lowBytes
  rw [UInt64.and_assoc, UInt64.and_assoc]
  rfl

theorem swapNibbles_swapNibbles (x : UInt64) : swapNibbles (swapNibbles x) = lowBytes x := by
  apply UInt64.toBitVec_inj.mp
  apply BitVec.eq_of_getLsbD_eq
  intro i hi
  unfold swapNibbles lowBytes
  interval_cases i <;> simp

theorem lowBytes_xor (x mask : UInt64) : lowBytes (x ^^^ mask) = lowBytes x ^^^ lowBytes mask := by
  apply UInt64.toBitVec_inj.mp
  apply BitVec.eq_of_getLsbD_eq
  intro i hi
  simp [lowBytes, Bool.and_xor_distrib_right]

theorem lowBytes_toNat (x : UInt64) : (lowBytes x).toNat = x.toNat % 2 ^ 56 := by
  change x.toNat &&& (2 ^ 56 - 1) = _
  exact Nat.and_two_pow_sub_one_eq_mod _ _

theorem lowBytes_eq_iff (x y : UInt64) :
    lowBytes x = lowBytes y ↔ x.toNat % 2 ^ 56 = y.toNat % 2 ^ 56 := by
  rw [← UInt64.toNat_inj, lowBytes_toNat, lowBytes_toNat]

/-- The answers agree when the lower seven bytes of the challenges do. -/
theorem scramble_eq_iff (x y : UInt64) : scramble x = scramble y ↔ lowBytes x = lowBytes y := by
  rw [scramble_eq, scramble_eq, UInt64.xor_left_inj]
  constructor
  · intro h
    have hswapped := congrArg swapNibbles h
    rw [swapNibbles_swapNibbles, swapNibbles_swapNibbles, lowBytes_xor, lowBytes_xor] at hswapped
    exact (UInt64.xor_left_inj _).mp hswapped
  · intro h
    have hmasked : lowBytes (x ^^^ 0xDEADBEEFC0DECAFE) = lowBytes (y ^^^ 0xDEADBEEFC0DECAFE) := by
      rw [lowBytes_xor, lowBytes_xor, h]
    rw [← swapNibbles_lowBytes, hmasked, swapNibbles_lowBytes]

def challengeBit (k : Fin 64) : UInt64 := 1 <<< UInt64.ofNat k

theorem lowBytes_challengeBit (k : Fin 64) : lowBytes (challengeBit k) = 0 ↔ 56 ≤ k.val := by
  revert k
  decide

theorem scramble_flip_iff (x : UInt64) (k : Fin 64) :
    scramble (x ^^^ challengeBit k) ≠ scramble x ↔ k.val < 56 := by
  rw [Ne, scramble_eq_iff, lowBytes_xor, ← Nat.not_le, ← lowBytes_challengeBit]
  apply not_congr
  constructor
  · intro h
    apply (UInt64.xor_right_inj (lowBytes x)).mp
    rw [h, UInt64.xor_zero]
  · intro h
    rw [h, UInt64.xor_zero]

/-- The answers tell two challenges apart when these differ in the lower seven bytes, and of
the bits of a challenge the answer depends on the lower 56. -/
theorem scramble_separates_iff (x y : UInt64) :
    (scramble x ≠ scramble y ↔ x.toNat % 2 ^ 56 ≠ y.toNat % 2 ^ 56) ∧
      ∀ k : Fin 64, scramble (x ^^^ challengeBit k) ≠ scramble x ↔ k.val < 56 := by
  constructor
  · apply not_congr
    exact (scramble_eq_iff x y).trans (lowBytes_eq_iff x y)
  · exact scramble_flip_iff x

theorem scramble_highByte :
    (0 : UInt64) ≠ 0x0100000000000000 ∧ scramble 0 = scramble 0x0100000000000000 := by
  decide

namespace Connection

/-- The server also accepts the answer to a challenge of which only the highest byte is
another one. -/
theorem accepts_iff (now challenge : UInt64) :
    ((Connection.ofServer now).onReadValidation
        (Codec.u64.encode (scramble challenge))).socketOpen = true ↔
      challenge.toNat % 2 ^ 56 = now.toNat % 2 ^ 56 := by
  rw [← lowBytes_eq_iff, ← scramble_eq_iff]
  by_cases hanswer : scramble challenge = scramble now
  · simp [ofServer, onReadValidation, hanswer, send]
  · simp [ofServer, onReadValidation, hanswer]

end Connection

end AsciiTerra
