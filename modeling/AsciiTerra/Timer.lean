import Mathlib

/-!
# `Timer.h`

`tt_calcDuration` with its results in 32 bits. The clock counts nanoseconds in 64
bits with a sign.
-/

set_option autoImplicit false

namespace AsciiTerra

inductive TimeFormat
  | nanoscnds
  | microscnds
  | miliscnds
  | scnds
  | mints
  | hrs
deriving DecidableEq, Repr

/-- `end - start` of two time points, unless the difference overflows. -/
def ttDuration (start stop : Int64) : Option Int :=
  let duration := stop.toInt - start.toInt
  if -2 ^ 63 ≤ duration ∧ duration < 2 ^ 63 then some duration else none

/-- `tt_calcDuration<uint32_t>`. A cast in front of a call and a quotient binds to the call, so
the units up to the second are divided after the cast. -/
def ttCalcDuration (start stop : Int64) (timeFormat : TimeFormat) : Option UInt32 := do
  let count ← ttDuration start stop
  return match timeFormat with
  | .nanoscnds => UInt32.ofInt count
  | .microscnds => UInt32.ofInt count / 1000
  | .miliscnds => UInt32.ofInt count / 1000000
  | .scnds => UInt32.ofInt count / 1000000000
  | .mints => UInt32.ofInt (count.tdiv 1000000000) / 60
  | .hrs => UInt32.ofInt (count.tdiv 1000000000) / (60 * 60)

namespace TimeFormat

def nanoseconds : TimeFormat → Nat
  | nanoscnds => 1
  | microscnds => 1000
  | miliscnds => 1000000
  | scnds => 1000000000
  | mints => 60 * 1000000000
  | hrs => 60 * 60 * 1000000000

/-- The nanoseconds in what is cast to 32 bits. -/
def beforeCast : TimeFormat → Nat
  | nanoscnds | microscnds | miliscnds | scnds => 1
  | mints | hrs => 1000000000

/-- What the result of the cast is divided by. -/
def afterCast : TimeFormat → Nat
  | nanoscnds => 1
  | microscnds => 1000
  | miliscnds => 1000000
  | scnds => 1000000000
  | mints => 60
  | hrs => 60 * 60

variable (timeFormat : TimeFormat)

theorem nanoseconds_eq : timeFormat.nanoseconds = timeFormat.beforeCast * timeFormat.afterCast := by
  cases timeFormat <;> rfl

theorem afterCast_pos : 0 < timeFormat.afterCast := by
  cases timeFormat <;> decide

theorem afterCast_le : timeFormat.afterCast ≤ 2 ^ 32 := by
  cases timeFormat <;> decide

end TimeFormat

/-- The time from `start` to `stop` in nanoseconds. -/
def elapsedTime (start stop : Int64) : Nat := (stop.toInt - start.toInt).toNat

section
variable {start stop : Int64} {timeFormat : TimeFormat}

theorem toNat_ofInt_natCast (n : Nat) : (UInt32.ofInt n).toNat = n % 2 ^ 32 := by
  unfold UInt32.ofInt
  rw [UInt32.toNat_ofNat']
  omega

theorem ttDuration_eq (h : start ≤ stop) :
    ttDuration start stop =
      if elapsedTime start stop < 2 ^ 63 then some (elapsedTime start stop : Int) else none := by
  have hle : start.toInt ≤ stop.toInt := Int64.le_iff_toInt_le.mp h
  unfold ttDuration elapsedTime
  rw [Int.toNat_of_nonneg (by omega)]
  exact if_congr (by omega) rfl rfl

theorem ttCalcDuration_eq (timeFormat : TimeFormat) (h : start ≤ stop) (hcount : elapsedTime start stop < 2 ^ 63) :
    ∃ d, ttCalcDuration start stop timeFormat = some d ∧
      d.toNat = elapsedTime start stop / timeFormat.beforeCast % 2 ^ 32 / timeFormat.afterCast := by
  have hseconds : ((elapsedTime start stop : Nat) : Int).tdiv 1000000000 =
      (elapsedTime start stop / 1000000000 : Nat) := rfl
  unfold ttCalcDuration
  rw [ttDuration_eq h, if_pos hcount]
  refine ⟨_, rfl, ?_⟩
  cases timeFormat <;>
    simp only [hseconds, UInt32.toNat_div, toNat_ofInt_natCast, TimeFormat.beforeCast,
      TimeFormat.afterCast, Nat.div_one] <;> rfl

theorem ttCalcDuration_eq_none (h : start ≤ stop) (hcount : 2 ^ 63 ≤ elapsedTime start stop) :
    ttCalcDuration start stop timeFormat = none := by
  unfold ttCalcDuration
  rw [ttDuration_eq h, if_neg (Nat.not_lt.mpr hcount)]
  rfl

theorem mod_div_eq_iff {n w k : Nat} (hk : 0 < k) (hkw : k ≤ w) : n % w / k = n / k ↔ n < w := by
  constructor
  · intro h
    by_contra hge
    have hone : 1 ≤ n / w := (Nat.one_le_div_iff (by omega)).mpr (by omega)
    have hsplit : n = n % w + w * (n / w) := (Nat.mod_add_div n w).symm
    have hmore : n % w + k ≤ n := by
      calc n % w + k ≤ n % w + w * (n / w) :=
            Nat.add_le_add_left (hkw.trans (Nat.le_mul_of_pos_right w hone)) _
        _ = n := hsplit.symm
    have hquotient := Nat.div_le_div_right (c := k) hmore
    rw [Nat.add_div_right _ hk, h] at hquotient
    omega
  · intro h
    rw [Nat.mod_eq_of_lt h]

/-- The result is the elapsed time in whole units when that takes 32 bits. -/
def ExactTime (start stop : Int64) (timeFormat : TimeFormat) : Prop :=
  elapsedTime start stop / timeFormat.nanoseconds < 2 ^ 32 →
    ∃ d, ttCalcDuration start stop timeFormat = some d ∧
      d.toNat = elapsedTime start stop / timeFormat.nanoseconds

/-- The result does not decrease while the end grows up to `stop`. -/
def NeverDecreases (start stop : Int64) (timeFormat : TimeFormat) : Prop :=
  ∀ earlier later, start ≤ earlier → earlier ≤ later → later ≤ stop →
    ∃ d d', ttCalcDuration start earlier timeFormat = some d ∧
      ttCalcDuration start later timeFormat = some d' ∧ d ≤ d'

def MeasuresTime (start stop : Int64) (timeFormat : TimeFormat) : Prop :=
  ExactTime start stop timeFormat ∧ NeverDecreases start stop timeFormat

def CastFits (start stop : Int64) (timeFormat : TimeFormat) : Prop :=
  elapsedTime start stop / timeFormat.beforeCast < 2 ^ 32

theorem CastFits.lt (h : CastFits start stop timeFormat) : elapsedTime start stop < 2 ^ 63 := by
  unfold CastFits at h
  cases timeFormat <;> simp only [TimeFormat.beforeCast, Nat.div_one] at h <;> omega

theorem CastFits.exact (h : CastFits start stop timeFormat) (hle : start ≤ stop) :
    ∃ d, ttCalcDuration start stop timeFormat = some d ∧
      d.toNat = elapsedTime start stop / timeFormat.nanoseconds := by
  obtain ⟨d, hd, hvalue⟩ := ttCalcDuration_eq timeFormat hle h.lt
  refine ⟨d, hd, ?_⟩
  rw [hvalue, Nat.mod_eq_of_lt h, Nat.div_div_eq_div_mul, ← TimeFormat.nanoseconds_eq]

theorem elapsedTime_mono (start : Int64) {earlier : Int64} (h : earlier ≤ stop) :
    elapsedTime start earlier ≤ elapsedTime start stop := by
  have hle : earlier.toInt ≤ stop.toInt := Int64.le_iff_toInt_le.mp h
  unfold elapsedTime
  omega

/-- Every moment on the way is a time point. -/
theorem exists_elapsedTime (h : start ≤ stop) {n : Nat} (hn : n ≤ elapsedTime start stop) :
    ∃ t, start ≤ t ∧ t ≤ stop ∧ elapsedTime start t = n := by
  have hle : start.toInt ≤ stop.toInt := Int64.le_iff_toInt_le.mp h
  have hlow := Int64.le_toInt start
  have hhigh := Int64.toInt_lt stop
  unfold elapsedTime at hn ⊢
  have ht : (Int64.ofInt (start.toInt + n)).toInt = start.toInt + n :=
    Int64.toInt_ofInt_of_le (by omega) (by omega)
  refine ⟨Int64.ofInt (start.toInt + n), Int64.le_iff_toInt_le.mpr ?_, Int64.le_iff_toInt_le.mpr ?_, ?_⟩
  · omega
  · omega
  · rw [ht]
    omega

theorem exactTime_iff (h : start ≤ stop) : ExactTime start stop timeFormat ↔
    CastFits start stop timeFormat ∨ 2 ^ 32 ≤ elapsedTime start stop / timeFormat.nanoseconds := by
  constructor
  · intro hexact
    by_cases hfits : elapsedTime start stop / timeFormat.nanoseconds < 2 ^ 32
    · obtain ⟨d, hd, hvalue⟩ := hexact hfits
      have hcount : elapsedTime start stop < 2 ^ 63 := by
        by_contra hge
        rw [ttCalcDuration_eq_none h (Nat.not_lt.mp hge)] at hd
        cases hd
      obtain ⟨d', hd', hcast⟩ := ttCalcDuration_eq timeFormat h hcount
      cases hd.symm.trans hd'
      rw [hcast, TimeFormat.nanoseconds_eq, ← Nat.div_div_eq_div_mul] at hvalue
      exact .inl ((mod_div_eq_iff timeFormat.afterCast_pos timeFormat.afterCast_le).mp hvalue)
    · exact .inr (Nat.not_lt.mp hfits)
  · intro h' hfits
    rcases h' with hcast | hlarge
    · exact hcast.exact h
    · omega

theorem CastFits.neverDecreases (h : CastFits start stop timeFormat) :
    NeverDecreases start stop timeFormat := by
  intro earlier later hstart hle hstop
  have hmono := elapsedTime_mono start hle
  have hlater : CastFits start later timeFormat :=
    Nat.lt_of_le_of_lt (Nat.div_le_div_right (elapsedTime_mono start hstop)) h
  have hearlier : CastFits start earlier timeFormat :=
    Nat.lt_of_le_of_lt (Nat.div_le_div_right hmono) hlater
  obtain ⟨d, hd, hvalue⟩ := hearlier.exact hstart
  obtain ⟨d', hd', hvalue'⟩ := hlater.exact (Int64.le_trans hstart hle)
  refine ⟨d, d', hd, hd', UInt32.le_iff_toNat_le.mpr ?_⟩
  rw [hvalue, hvalue']
  exact Nat.div_le_div_right hmono

/-- When the number that is cast comes round, the result drops to zero. -/
theorem NeverDecreases.castFits (h : NeverDecreases start stop timeFormat) (hle : start ≤ stop) :
    CastFits start stop timeFormat := by
  by_contra hcast
  have hbefore : 0 < timeFormat.beforeCast ∧ timeFormat.beforeCast ≤ 1000000000 := by
    cases timeFormat <;> decide
  have hround : 2 ^ 32 * timeFormat.beforeCast ≤ elapsedTime start stop :=
    (Nat.le_div_iff_mul_le hbefore.1).mp (Nat.not_lt.mp hcast)
  obtain ⟨earlier, hstart, -, hearlier⟩ :=
    exists_elapsedTime hle (n := 2 ^ 32 * timeFormat.beforeCast - 1) (by omega)
  obtain ⟨later, hstart', hstop, hlater⟩ := exists_elapsedTime hle hround
  have horder : earlier ≤ later := by
    apply Int64.le_iff_toInt_le.mpr
    have hfrom := Int64.le_iff_toInt_le.mp hstart'
    unfold elapsedTime at hearlier hlater
    omega
  obtain ⟨d, d', hd, hd', hle'⟩ := h earlier later hstart horder hstop
  obtain ⟨u, hu, hvalue⟩ := ttCalcDuration_eq timeFormat hstart (by omega)
  obtain ⟨u', hu', hvalue'⟩ := ttCalcDuration_eq timeFormat hstart' (by omega)
  cases hd.symm.trans hu
  cases hd'.symm.trans hu'
  have hgreatest : (2 ^ 32 * timeFormat.beforeCast - 1) / timeFormat.beforeCast % 2 ^ 32 /
      timeFormat.afterCast ≠ 0 := by
    cases timeFormat <;> decide
  have hzero : d'.toNat = 0 := by
    rw [hvalue', hlater, Nat.mul_div_cancel _ hbefore.1, Nat.mod_self, Nat.zero_div]
  rw [hearlier] at hvalue
  have hdown := UInt32.le_iff_toNat_le.mp hle'
  omega

end

/-- Time is measured exactly when the number that is cast to 32 bits fits in these or the result
does not, and the result never decreases exactly when that number fits. -/
theorem measuresTime_iff (start stop : Int64) (timeFormat : TimeFormat) (h : start ≤ stop) :
    (ExactTime start stop timeFormat ↔ CastFits start stop timeFormat ∨
      2 ^ 32 ≤ elapsedTime start stop / timeFormat.nanoseconds) ∧
    (MeasuresTime start stop timeFormat ↔ CastFits start stop timeFormat) := by
  refine ⟨exactTime_iff h, fun hmeasures => hmeasures.2.castFits h, fun hcast => ?_⟩
  exact ⟨(exactTime_iff h).mpr (.inl hcast), hcast.neverDecreases⟩

/-- A hundred milliseconds. -/
theorem measuresTime_short : MeasuresTime 5 100000005 .miliscnds :=
  (measuresTime_iff 5 100000005 .miliscnds (by decide)).2.mpr (by unfold CastFits; decide)

/-- After four and a half seconds `205` milliseconds are reported, after four seconds `4000`. A
count of nanoseconds goes back to `0`. -/
theorem miliscnds_wrap :
    ttCalcDuration 0 4500000000 .miliscnds = some 205 ∧
      ttCalcDuration 0 4000000000 .miliscnds = some 4000 ∧
      ¬ MeasuresTime 0 4500000000 .miliscnds ∧
      ttCalcDuration 0 4294967295 .nanoscnds = some 4294967295 ∧
      ttCalcDuration 0 4294967296 .nanoscnds = some 0 ∧
      ¬ MeasuresTime 0 4294967296 .nanoscnds := by
  have hstop : ttCalcDuration 0 4500000000 .miliscnds = some 205 := by decide
  have hbefore : ttCalcDuration 0 4294967295 .nanoscnds = some 4294967295 := by decide
  have hafter : ttCalcDuration 0 4294967296 .nanoscnds = some 0 := by decide
  refine ⟨hstop, by decide, fun h => ?_, hbefore, hafter, fun h => ?_⟩
  · obtain ⟨d, hd, hvalue⟩ := h.1 (by decide)
    cases hstop.symm.trans hd
    revert hvalue
    decide
  · obtain ⟨d, d', hd, hd', hle⟩ := h.2 4294967295 4294967296 (by decide) (by decide) (by decide)
    cases hbefore.symm.trans hd
    cases hafter.symm.trans hd'
    revert hle
    decide

end AsciiTerra
