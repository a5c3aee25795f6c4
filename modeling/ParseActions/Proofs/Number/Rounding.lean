import Mathlib
import ParseActions.Number.Double

/-!
# Rounding to doubles

A mantissa and an exponent are put into the form of a double by shifting the mantissa and rounding off
what is shifted out. All finite doubles are whole multiples of the least one, `2 ^ (-1074)`. A number
that is the same multiple as a double is rounded to this double, whatever its mantissa and exponent
are; a large number is rounded to a double with an exponent of about its size.

## Main definitions

* `Double.Canonical`: the mantissas and exponents of doubles, without a bound on the exponent
* `Double.multiple`: a number as a multiple of the least double

## Main results

* `Double.round_of_multiple_eq`: a number that is a double is rounded to it
* `Double.exists_round_eq`: a number above the least normal ones is rounded to a double of its size
-/

namespace ParseActions.Double

open Float.Model Float.Model.UnpackedFloat

variable {m M : Nat} {e E : Int} {k : Nat}

/-- A mantissa and an exponent have the form that they have in a double: the mantissa has 53 bits, or
fewer with the least exponent. -/
structure Canonical (m : Nat) (e : Int) : Prop where
  lt : m < 2 ^ 53
  le : leastExponent ≤ e
  normal : 2 ^ 52 ≤ m ∨ e = leastExponent

/-- The number `m * 2 ^ e` as a multiple of the least double. -/
def multiple (m : Nat) (e : Int) : Nat :=
  m * 2 ^ (e - leastExponent).toNat

/-! ## The exponent of a double -/

theorem log2_mul_two_pow (hm : 0 < m) (k : Nat) : (m * 2 ^ k).log2 = m.log2 + k := by
  have hlow := Nat.log2_self_le hm.ne'
  have hhigh := Nat.lt_log2_self (n := m)
  refine (Nat.log2_eq_iff (Nat.mul_pos hm (Nat.two_pow_pos k)).ne').mpr ⟨?_, ?_⟩
  · rw [Nat.pow_add]
    exact Nat.mul_le_mul_right _ hlow
  · rw [show m.log2 + k + 1 = m.log2 + 1 + k by omega, Nat.pow_add]
    exact Nat.mul_lt_mul_of_pos_right hhigh (Nat.two_pow_pos k)

theorem targetExponent_eq (m : Nat) (e : Int) :
    Format.binary64.targetExponent (totalExponent m e) = max (m.log2 + e - 52) leastExponent := by
  simp only [Format.targetExponent, totalExponent, Format.mantissaBits, Format.minExponent,
    leastExponent]
  norm_num
  omega

namespace Canonical

theorem log2_le (h : Canonical m e) : m.log2 ≤ 52 := by
  rcases Nat.eq_zero_or_pos m with rfl | hm
  · simp
  · exact Nat.lt_succ_iff.mp ((Nat.log2_lt hm.ne').mpr h.lt)

/-- A double has the exponent that its size asks for. -/
theorem max_eq (h : Canonical m e) (hm : 0 < m) : max (m.log2 + e - 52) leastExponent = e := by
  have hlog := h.log2_le
  rcases h.normal with hnormal | rfl
  · have hlow := (Nat.le_log2 hm.ne').mpr hnormal
    have hle := h.le
    omega
  · omega

end Canonical

theorem log2_multiple (hm : 0 < m) (he : leastExponent ≤ e) :
    ((multiple m e).log2 : Int) = m.log2 + (e - leastExponent) := by
  rw [multiple, log2_mul_two_pow hm]
  omega

/-! ## Shifting -/

/-- What is shifted out of a mantissa with enough zeros at its end is nothing. -/
theorem shiftRight_mul_two_pow (m k : Nat) :
    (⟨m * 2 ^ k, false, false⟩ : ExtendedMantissa) >>> k = ⟨m, false, false⟩ := by
  induction k generalizing m with
  | zero => simp [HShiftRight.hShiftRight, Nat.repeat]
  | succ k ih =>
    have hshift : (⟨m * 2 ^ (k + 1), false, false⟩ : ExtendedMantissa) >>> (k + 1) =
        ((⟨m * 2 * 2 ^ k, false, false⟩ : ExtendedMantissa) >>> k).shiftRightOne := by
      rw [Nat.pow_succ, Nat.mul_comm (2 ^ k), ← Nat.mul_assoc]
      rfl
    rw [hshift, ih, ExtendedMantissa.shiftRightOne]
    simp

theorem mantissa_shiftRight (em : ExtendedMantissa) (k : Nat) :
    (em >>> k).mantissa = em.mantissa / 2 ^ k := by
  induction k with
  | zero => simp [HShiftRight.hShiftRight, Nat.repeat]
  | succ k ih =>
    have hshift : (em >>> (k + 1)).mantissa = (em >>> k).mantissa / 2 := rfl
    rw [hshift, ih, Nat.div_div_eq_div_mul, Nat.pow_succ]

/-- A rounded mantissa is the mantissa or the next one. -/
theorem roundedMantissa_bounds (em : ExtendedMantissa) :
    em.mantissa ≤ em.roundedMantissa ∧ em.roundedMantissa ≤ em.mantissa + 1 := by
  obtain ⟨m, r, s⟩ := em
  cases r <;> cases s <;>
    simp only [ExtendedMantissa.roundedMantissa, ExtendedMantissa.accuracy,
      Accuracy.roundToNearestEven] <;> omega

/-- A double that was scaled up is shifted back to itself. -/
theorem shiftToTargetExponent_of_canonical (h : Canonical m e) (hm : 0 < m) (k : Nat) :
    shiftToTargetExponent .binary64 (m * 2 ^ k) (e - k) .exact = (⟨m, false, false⟩, e) := by
  have htarget : Format.binary64.targetExponent (totalExponent (m * 2 ^ k) (e - k)) = e := by
    rw [targetExponent_eq, log2_mul_two_pow hm, Int.natCast_add,
      show (m.log2 : Int) + k + (e - k) = m.log2 + e by omega, h.max_eq hm]
  have hamount : (e - (e - k)).toNat = k := by omega
  rw [shiftToTargetExponent, htarget, shiftToExponent, hamount]
  refine Prod.ext (shiftRight_mul_two_pow m k) ?_
  show e - k + k = e
  omega

/-! ## Rounding -/

/-- What a mantissa is rounded to is put into the form of a double. -/
theorem roundWithAccuracy_of_rounded (h : Canonical m e) (hm : 0 < m) (s : Sign)
    {em : ExtendedMantissa} {t : Int} (hshift : shiftToTargetExponent .binary64 M E .exact = (em, t))
    (k : Nat) (ht : t = e - k) (hrounded : em.roundedMantissa = m * 2 ^ k) :
    roundWithAccuracy .binary64 s M E .exact = .finite s m e hm := by
  subst ht
  simp only [roundWithAccuracy, hshift, hrounded, shiftToTargetExponent_of_canonical h hm k,
    dif_neg hm.ne']

theorem roundWithAccuracy_of_canonical (h : Canonical m e) (hm : 0 < m) (s : Sign) (k : Nat) :
    roundWithAccuracy .binary64 s (m * 2 ^ k) (e - k) .exact = .finite s m e hm :=
  roundWithAccuracy_of_rounded h hm s (shiftToTargetExponent_of_canonical h hm k) 0 (by omega)
    (Nat.mul_one m).symm

/-- Rounding starts by scaling a mantissa up that has too few bits. -/
theorem round_eq_roundWithAccuracy (s : Sign) {t : Int}
    (ht : Format.binary64.targetExponent (totalExponent M E) = t) :
    UnpackedFloat.round .binary64 s M E =
      roundWithAccuracy .binary64 s (M * 2 ^ (E - t).toNat) (E - (E - t).toNat) .exact := by
  simp only [UnpackedFloat.round, ht, decreaseExponent, Nat.shiftLeft_eq]

/-- **A number that is a double is rounded to it.** -/
theorem round_of_multiple_eq (h : Canonical m e) (hm : 0 < m) (s : Sign) (hE : leastExponent ≤ E)
    (heq : multiple M E = multiple m e) :
    UnpackedFloat.round .binary64 s M E = .finite s m e hm := by
  have he := h.le
  have hM : 0 < M := by
    refine Nat.pos_of_ne_zero ?_
    rintro rfl
    rw [multiple, Nat.zero_mul] at heq
    exact (Nat.mul_pos hm (Nat.two_pow_pos _)).ne heq
  have hlog : (M.log2 : Int) + E = m.log2 + e := by
    have hlogs := congrArg (fun n : Nat => (n.log2 : Int)) heq
    simp only [log2_multiple hM hE, log2_multiple hm he] at hlogs
    omega
  have htarget : Format.binary64.targetExponent (totalExponent M E) = e := by
    rw [targetExponent_eq, hlog, h.max_eq hm]
  rw [round_eq_roundWithAccuracy s htarget]
  rcases Int.le_total e E with hle | hle
  · -- the mantissa is scaled up to that of the double
    have hscaled : M * 2 ^ (E - e).toNat = m * 2 ^ 0 := by
      rw [multiple, multiple, show (E - leastExponent).toNat =
        (E - e).toNat + (e - leastExponent).toNat by omega, Nat.pow_add, ← Nat.mul_assoc] at heq
      rw [Nat.pow_zero, Nat.mul_one]
      exact Nat.eq_of_mul_eq_mul_right (Nat.two_pow_pos _) heq
    rw [hscaled, show E - ((E - e).toNat : Int) = e - (0 : Nat) by omega]
    exact roundWithAccuracy_of_canonical h hm s 0
  · -- the mantissa is that of the double, scaled up
    obtain ⟨k, rfl⟩ : ∃ k : Nat, E = e - k := ⟨(e - E).toNat, by omega⟩
    have hscaled : M = m * 2 ^ k := by
      rw [multiple, multiple, show (e - leastExponent).toNat =
        k + (e - k - leastExponent).toNat by omega, Nat.pow_add, ← Nat.mul_assoc] at heq
      exact Nat.eq_of_mul_eq_mul_right (Nat.two_pow_pos _) heq
    rw [show (e - k - e).toNat = 0 by omega, Nat.pow_zero, Nat.mul_one, hscaled, Int.natCast_zero,
      Int.sub_zero]
    exact roundWithAccuracy_of_canonical h hm s k

/-- A mantissa of 53 bits or more is shifted to one of 53 bits. -/
theorem div_two_pow_bounds {k : Nat} (hM : 0 < M) (hk : M.log2 = 52 + k) :
    2 ^ 52 ≤ M / 2 ^ k ∧ M / 2 ^ k < 2 ^ 53 := by
  rw [Nat.le_div_iff_mul_le (Nat.two_pow_pos k), Nat.div_lt_iff_lt_mul (Nat.two_pow_pos k),
    ← Nat.pow_add, ← Nat.pow_add, show 53 + k = M.log2 + 1 by omega, ← hk]
  exact ⟨Nat.log2_self_le hM.ne', Nat.lt_log2_self⟩

/-- A mantissa of 53 bits or more is rounded off to a double. -/
theorem exists_roundWithAccuracy_eq {k : Nat} (hM : 0 < M) (hk : M.log2 = 52 + k) (s : Sign)
    (hE : leastExponent ≤ E + k) :
    ∃ m e, ∃ hm : 0 < m, roundWithAccuracy .binary64 s M E .exact = .finite s m e hm ∧
      Canonical m e ∧ E + k ≤ e ∧ e ≤ E + k + 1 := by
  have htarget : Format.binary64.targetExponent (totalExponent M E) = E + k := by
    rw [targetExponent_eq]
    omega
  generalize hem : (⟨M, false, false⟩ : ExtendedMantissa) >>> k = em
  have hshift : shiftToTargetExponent .binary64 M E .exact = (em, E + k) := by
    rw [shiftToTargetExponent, htarget, shiftToExponent, show (E + k - E).toNat = k by omega]
    exact Prod.ext hem rfl
  have hmantissa : em.mantissa = M / 2 ^ k := hem ▸ mantissa_shiftRight _ k
  obtain ⟨hlow, hhigh⟩ := div_two_pow_bounds hM hk
  obtain ⟨hdown, hup⟩ := roundedMantissa_bounds em
  rcases Nat.lt_or_ge em.roundedMantissa (2 ^ 53) with hlt | hge
  · have hc : Canonical em.roundedMantissa (E + k) := ⟨hlt, hE, .inl (by omega)⟩
    have hm : 0 < em.roundedMantissa := by omega
    exact ⟨_, _, hm, roundWithAccuracy_of_rounded hc hm s hshift 0 (by omega) (Nat.mul_one _).symm,
      hc, by omega, by omega⟩
  · -- the mantissa was rounded up to the next power of two
    have hc : Canonical (2 ^ 52) (E + k + 1) := ⟨by decide, by omega, .inl (Nat.le_refl _)⟩
    exact ⟨2 ^ 52, _, by decide, roundWithAccuracy_of_rounded hc (by decide) s hshift 1 (by omega)
      (by omega), hc, by omega, by omega⟩

/-- **A number above the least normal doubles** is rounded to a double of its size. -/
theorem exists_round_eq (hM : 0 < M) (s : Sign) (hnormal : -1022 ≤ (M.log2 : Int) + E) :
    ∃ m e, ∃ hm : 0 < m, UnpackedFloat.round .binary64 s M E = .finite s m e hm ∧
      Canonical m e ∧ (M.log2 : Int) + E - 52 ≤ e ∧ e ≤ (M.log2 : Int) + E - 51 := by
  have hleast : leastExponent = -1074 := rfl
  have htarget : Format.binary64.targetExponent (totalExponent M E) = M.log2 + E - 52 := by
    rw [targetExponent_eq]
    omega
  -- scaled up by `a` bits, the mantissa has 53 bits and `k` more, which are rounded off
  obtain ⟨a, ha⟩ : ∃ a, (E - ((M.log2 : Int) + E - 52)).toNat = a := ⟨_, rfl⟩
  obtain ⟨k, hk⟩ : ∃ k, M.log2 + a = 52 + k := ⟨M.log2 + a - 52, by omega⟩
  obtain ⟨m, e, hm, hround, hc, hlow, hhigh⟩ :=
    exists_roundWithAccuracy_eq (M := M * 2 ^ a) (E := E - a) (Nat.mul_pos hM (Nat.two_pow_pos a))
      ((log2_mul_two_pow hM a).trans hk) s (by omega)
  rw [round_eq_roundWithAccuracy s htarget, ha]
  exact ⟨m, e, hm, hround, hc, by omega, by omega⟩

end ParseActions.Double
