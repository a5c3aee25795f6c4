import ParseActions.Proofs.Number.Exact

/-!
# Whole numbers as doubles

The whole numbers up to `2 ^ 53` are doubles, so counting from one of them to the next is exact as long
as none is left out, and the difference of two of them is exact up to that bound and large above it. A
finite double without its fraction is a whole number.

## Main definitions

* `Double.Whole`: a double is a whole number

## Main results

* `Double.whole_trunc`: a finite double without its fraction is whole
* `Double.Whole.add_one`: a step of one from a whole number
* `Double.Whole.lt_sub`: a large difference of whole numbers
* `Double.lt_sub_of_infinite`: a difference with an infinity
-/

namespace ParseActions.Double

open Float.Model Float.Model.UnpackedFloat

/-- The places behind the point that doubles have. -/
@[irreducible]
def places : Nat :=
  1074

/-- The number one, as a multiple of the least double. -/
def one : Nat :=
  2 ^ places

/-- A double is a whole number. -/
def Whole (x : Float) (n : Int) : Prop :=
  units? x = some (n * one)

variable {x y : Float} {p : Parts} {n k : Int} {m j : Nat} {e : Int}

theorem places_eq : (places : Int) = -leastExponent := by
  rw [places]
  rfl

theorem one_pos : 0 < one :=
  Nat.two_pow_pos places

/-! ## Whole multiples -/

theorem multiple_of_nonneg (m : Nat) (he : 0 ≤ e) : multiple m e = m * 2 ^ e.toNat * one := by
  have hplaces := places_eq
  have hleast : leastExponent = -1074 := rfl
  rw [multiple, one, Nat.mul_assoc, ← Nat.pow_add,
    show (e - leastExponent).toNat = e.toNat + places by omega]

theorem multiple_mul_two_pow (m : Nat) (hj : j ≤ 1074) : multiple (m * 2 ^ j) (-j) = m * one := by
  have hplaces := places_eq
  have hleast : leastExponent = -1074 := rfl
  rw [multiple, one, Nat.mul_assoc, ← Nat.pow_add,
    show j + (-(j : Int) - leastExponent).toNat = places by omega]

/-- The whole numbers up to `2 ^ 53` are doubles. -/
theorem isDouble_mul_one (h : n.natAbs ≤ 2 ^ 53) : IsDouble (n * one) := by
  have hleast : leastExponent = -1074 := rfl
  rw [IsDouble, Int.natAbs_mul, Int.natAbs_natCast]
  generalize n.natAbs = k at h
  rcases Nat.eq_zero_or_pos k with rfl | hk
  · exact ⟨0, leastExponent, ⟨by decide, Int.le_refl _, .inr rfl⟩, by decide, by simp [multiple]⟩
  rcases Nat.lt_or_eq_of_le h with hlt | rfl
  · -- the first bit is moved up to the place that it has in a double
    have hlog : k.log2 < 53 := (Nat.log2_lt hk.ne').mpr hlt
    have hbits := log2_mul_two_pow hk (52 - k.log2)
    refine ⟨k * 2 ^ (52 - k.log2), -(52 - k.log2 : Nat), ⟨?_, by omega, .inl ?_⟩, by omega,
      (multiple_mul_two_pow k (by omega)).symm⟩
    · exact (Nat.log2_lt (Nat.mul_pos hk (Nat.two_pow_pos _)).ne').mp (by omega)
    · exact (Nat.le_log2 (Nat.mul_pos hk (Nat.two_pow_pos _)).ne').mp (by omega)
  · refine ⟨2 ^ 52, 1, ⟨by decide, by decide, .inl (Nat.le_refl _)⟩, by decide, ?_⟩
    have hpow : 2 ^ 53 = 2 ^ 52 * 2 ^ (1 : Int).toNat := rfl
    rw [multiple_of_nonneg _ (by decide), ← hpow]

/-! ## Reading whole numbers -/

theorem whole_of_nonneg (h : parts? x = some p) (he : 0 ≤ p.exponent) :
    Whole x (if p.negative then -(p.mantissa * 2 ^ p.exponent.toNat : Nat) else
      (p.mantissa * 2 ^ p.exponent.toNat : Nat)) := by
  rw [Whole, units?, h, Option.map_some, Parts.units, multiple_of_nonneg _ he]
  cases p.negative <;> simp

theorem whole_of_mul_two_pow {negative : Bool}
    (h : parts? x = some ⟨negative, m * 2 ^ j, -j⟩) (hj : j ≤ 1074) :
    Whole x (if negative then -m else m) := by
  rw [Whole, units?, h, Option.map_some, Parts.units, multiple_mul_two_pow m hj]
  cases negative <;> simp

theorem whole_one : Whole 1.0 1 :=
  have hparts : parts? 1.0 = some ⟨false, 1 * 2 ^ 52, -52⟩ := by decide +kernel
  whole_of_mul_two_pow hparts (by decide)

/-! ## Doubles without their fractions -/

/-- The parts of a double have the form of one. -/
theorem canonical_of_parts? (h : parts? x = some p) : Canonical p.mantissa p.exponent := by
  rw [parts?_eq] at h
  have hpackable : Packable x.toModel.unpack := packable_unpack x.toModel.toBits
  generalize x.toModel.unpack = u at h hpackable
  cases hpackable with
  | notANumber | infinity => cases h
  | zero s =>
    obtain rfl := Option.some.inj h
    exact ⟨Nat.two_pow_pos 53, Int.le_refl _, .inr rfl⟩
  | finite s hm hc hle =>
    obtain rfl := Option.some.inj h
    exact hc

/-- The word of a normal double is read back from its fields. -/
theorem wordParts?_fields (negative : Bool) {b f : Nat} (hb : 0 < b) (hlt : b < 2047)
    (hf : f < leadingBit) :
    wordParts? (UInt64.ofNat (if negative then signBit + (b * leadingBit + f) else b * leadingBit + f)) =
      some ⟨negative, f + leadingBit, leastExponent + (b - 1 : Nat)⟩ := by
  generalize hword : (if negative then signBit + (b * leadingBit + f) else b * leadingBit + f) = word
  have hfields : word / leadingBit % 2048 = b ∧ word % leadingBit = f ∧ word < 2 ^ 64 ∧
      (signBit ≤ word ↔ negative = true) := by
    simp only [leadingBit, signBit] at *
    cases negative with
    | false =>
      rw [if_neg Bool.false_ne_true] at hword
      rw [iff_false_right Bool.false_ne_true]
      omega
    | true =>
      rw [if_pos rfl] at hword
      rw [iff_true_right rfl]
      omega
  obtain ⟨hbiased, hfraction, hbound, hsign⟩ := hfields
  have hnat : (UInt64.ofNat word).toNat = word := by
    rw [UInt64.toNat_ofNat', Nat.mod_eq_of_lt hbound]
  rw [wordParts?, shiftRight_bne_zero]
  simp only [hnat, hbiased, hfraction, hsign, Bool.decide_eq_true]
  rw [if_neg (by omega), if_neg (by omega)]

/-- A double is made from a whole number of 53 bits. -/
theorem parts?_ofParts (negative : Bool) (hpos : 0 < m) (hm : m < 2 ^ 53) :
    parts? (ofParts negative m 0) =
      some ⟨negative, m * 2 ^ (52 - m.log2), -(52 - m.log2 : Nat)⟩ := by
  have hlog : m.log2 < 53 := (Nat.log2_lt hpos.ne').mpr hm
  have hleast : leastExponent = -1074 := rfl
  have hscaled : 0 < m * 2 ^ (52 - m.log2) := Nat.mul_pos hpos (Nat.two_pow_pos _)
  have hbits : (m * 2 ^ (52 - m.log2)).log2 = 52 := by
    rw [log2_mul_two_pow hpos]
    omega
  have hlow : leadingBit ≤ m * 2 ^ (52 - m.log2) := (Nat.le_log2 hscaled.ne').mp hbits.ge
  have hhigh : m * 2 ^ (52 - m.log2) < 2 * leadingBit :=
    (Nat.log2_lt hscaled.ne').mp (Nat.lt_succ_of_le hbits.le)
  have hexponent : max ((0 : Int) + m.log2 - 52) leastExponent = -(52 - m.log2 : Nat) := by omega
  have hleft : ((0 : Int) - -(52 - m.log2 : Nat)).toNat = 52 - m.log2 := by omega
  have hright : (-(52 - m.log2 : Nat) - (0 : Int)).toNat = 0 := by omega
  have hbiased : (-((52 - m.log2 : Nat) : Int) - leastExponent).toNat + 1 = m.log2 + 1023 := by omega
  have hfraction : m * 2 ^ (52 - m.log2) % leadingBit = m * 2 ^ (52 - m.log2) - leadingBit := by
    rw [Nat.mod_eq_sub_mod hlow, Nat.mod_eq_of_lt (by omega)]
  have hfinite : ¬ 2047 ≤ m.log2 + 1023 := by omega
  rw [ofParts]
  simp only [hexponent, hleft, hright, Nat.shiftLeft_eq, Nat.shiftRight_zero,
    if_neg (Nat.not_lt.mpr hlow), hbiased, hfraction, if_neg hfinite]
  have hback : leastExponent + (m.log2 + 1023 - 1 : Nat) = -(52 - m.log2 : Nat) := by omega
  rw [parts?_ofBits, wordParts?_fields negative (by omega) (by omega) (by omega),
    Nat.sub_add_cancel hlow, hback]

/-- A double is made from a whole number of 53 bits. -/
theorem whole_ofParts (negative : Bool) (hm : m < 2 ^ 53) :
    Whole (ofParts negative m 0) (if negative then -m else m) := by
  rcases Nat.eq_zero_or_pos m with rfl | hpos
  · have hzero : parts? (ofParts negative 0 0) = some ⟨negative, 0, leastExponent⟩ := by
      cases negative <;> decide +kernel
    rw [Whole, units?, hzero]
    cases negative <;> simp [Parts.units, multiple]
  · exact whole_of_mul_two_pow (parts?_ofParts negative hpos hm) (by omega)

/-- **A finite double without its fraction** is whole. -/
theorem whole_trunc (h : parts? x = some p) : ∃ n, Whole (trunc x) n := by
  rw [trunc, roundBy, h]
  simp only
  split
  · next he => exact ⟨_, whole_of_nonneg h he⟩
  · have hlt := Nat.lt_of_le_of_lt (Nat.div_le_self p.mantissa (1 <<< (-p.exponent).toNat))
      (canonical_of_parts? h).lt
    exact ⟨_, whole_ofParts p.negative hlt⟩

theorem trunc_of_parts?_eq_none (h : parts? x = none) : trunc x = x := by
  rw [trunc, roundBy, h]

/-! ## Counting -/

namespace Whole

theorem lt_iff (hx : Whole x n) (hy : Whole y k) : x < y ↔ n < k := by
  rw [Double.lt_iff hx hy, Int.mul_lt_mul_right (Int.natCast_pos.mpr one_pos)]

/-- Doubles that are the same whole number are equal, zeros apart. -/
theorem eq_of_ne_zero (hx : Whole x n) (hy : Whole y n) (hne : n ≠ 0) : x = y :=
  eq_of_units?_eq hx hy (Int.mul_ne_zero hne (Int.natCast_pos.mpr one_pos).ne')

/-- **A step of one** from a whole number below `2 ^ 53` is exact. -/
theorem add_one (hx : Whole x n) (hlow : -2 ^ 53 ≤ n) (hhigh : n < 2 ^ 53) :
    Whole (x + 1.0) (n + 1) := by
  have hsum : n * one + 1 * one = (n + 1) * one := (Int.add_mul n 1 one).symm
  rw [Whole, ← hsum]
  refine units?_add hx whole_one ?_
  rw [hsum]
  exact isDouble_mul_one (by omega)

/-- **A large difference** of whole numbers is not rounded to a smaller number. -/
theorem lt_sub {z : Float} {l : Int} (hx : Whole x n) (hy : Whole y k) (hz : Whole z l)
    (hn : n.natAbs ≤ 2 ^ 53) (hk : k.natAbs ≤ 2 ^ 53) (hl : 0 ≤ l) (hl' : l < 2 ^ 53)
    (hlt : l < k - n) : z < y - x := by
  have hdiff : k * one - n * one = (k - n) * one := (Int.sub_mul k n one).symm
  obtain ⟨d, hd⟩ := Int.eq_ofNat_of_zero_le (show 0 ≤ k - n by omega)
  rcases Nat.lt_or_ge d (2 ^ 53) with hsmall | hlarge
  · -- a small difference is exact
    have hsub : Whole (y - x) d := by
      rw [Whole, ← hd, ← hdiff]
      refine units?_sub hy hx ?_
      rw [hdiff]
      exact isDouble_mul_one (by omega)
    exact (hz.lt_iff hsub).mpr (by omega)
  · -- a large one may be rounded, but stays above `2 ^ 53`
    have hplaces := places_eq
    have hleast : leastExponent = -1074 := rfl
    have hdpos : 0 < d := by omega
    have hlow : 53 ≤ d.log2 := (Nat.le_log2 hdpos.ne').mpr hlarge
    have hhigh : d.log2 < 55 := (Nat.log2_lt hdpos.ne').mpr (by omega)
    have hlog : (d * one).log2 = d.log2 + places := log2_mul_two_pow hdpos places
    obtain ⟨c, hc, hsub⟩ := le_units?_sub hy hx
      (by rw [hdiff, hd, Int.natCast_mul]) (by omega) (by omega)
    have hbelow : 2 ^ 53 * one ≤ c := by
      refine Nat.le_trans ?_ hc
      rw [hlog, Nat.pow_add]
      exact Nat.mul_le_mul_right _ (Nat.pow_le_pow_right (by decide) hlow)
    refine (Double.lt_iff hz hsub).mpr ?_
    calc l * one
        < 2 ^ 53 * one := Int.mul_lt_mul_of_pos_right hl' (Int.natCast_pos.mpr one_pos)
      _ ≤ c := by exact_mod_cast hbelow

end Whole

/-! ## Infinities -/

/-- What is above something and is not finite, or is above something that is not, differs from it by the
infinity. -/
theorem sub_eq_infinity {u v : UnpackedFloat} (hlt : u.lt v = true)
    (hnone : partsOf? u = none ∨ partsOf? v = none) :
    UnpackedFloat.sub .binary64 v u = .infinity .positive := by
  cases u with
  | notANumber => cases hlt
  | infinity s =>
    cases s with
    | positive =>
      cases v with
      | notANumber | zero | finite => cases hlt
      | infinity s' => cases s' <;> cases hlt
    | negative =>
      cases v with
      | notANumber => cases hlt
      | zero | finite => rfl
      | infinity s' =>
        cases s' with
        | positive => rfl
        | negative => cases hlt
  | zero | finite =>
    cases v with
    | notANumber => cases hlt
    | zero | finite => rcases hnone with h | h <;> cases h
    | infinity s' =>
      cases s' with
      | positive => rfl
      | negative => cases hlt

/-- **A difference with an infinity** is infinite. -/
theorem lt_sub_of_infinite {z : Float} (hlt : x < y) (hnone : parts? x = none ∨ parts? y = none)
    (hz : Whole z n) : z < y - x := by
  obtain ⟨p, hz, -⟩ := Option.map_eq_some_iff.mp hz
  rw [parts?_eq] at hz
  rw [parts?_eq, parts?_eq] at hnone
  rw [lt_def] at hlt ⊢
  have hdiff : (y - x).toModel.unpack = .infinity .positive := by
    show (Float.Model.pack (UnpackedFloat.sub .binary64 y.toModel.unpack x.toModel.unpack)).unpack = _
    rw [sub_eq_infinity hlt hnone]
    exact unpack_pack (.infinity .positive)
  rw [hdiff]
  generalize z.toModel.unpack = w at hz
  cases w with
  | notANumber | infinity => cases hz
  | zero | finite => rfl

end ParseActions.Double
