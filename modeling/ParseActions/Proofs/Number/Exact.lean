import ParseActions.Proofs.Number.Packing

/-!
# Exact arithmetic on doubles

Every finite double is a whole multiple of the least one. Doubles are compared as these multiples are,
and a sum or a difference is exact where the sum or the difference of the multiples is again that of a
double.

## Main definitions

* `Double.units?`: a finite double as a multiple of the least one
* `Double.IsDouble`: the multiples that are doubles

## Main results

* `Double.lt_iff`: doubles are compared as their multiples
* `Double.eq_of_units?_eq`: a double is known from its multiple, zeros apart
* `Double.units?_add`, `Double.units?_sub`: sums and differences that are doubles are exact
* `Double.le_units?_sub`: a large difference is rounded to a number of its size
-/

namespace ParseActions.Double

open Float.Model Float.Model.UnpackedFloat

/-- The number that parts stand for, as a multiple of the least double. -/
def Parts.units (p : Parts) : Int :=
  if p.negative then -(multiple p.mantissa p.exponent : Int) else multiple p.mantissa p.exponent

/-- A finite double as a multiple of the least one. -/
def units? (x : Float) : Option Int :=
  (parts? x).map Parts.units

/-- What the arithmetic of doubles works with, as a multiple of the least double. -/
def unitsOf? (u : UnpackedFloat) : Option Int :=
  (partsOf? u).map Parts.units

theorem units?_eq (x : Float) : units? x = unitsOf? x.toModel.unpack := by
  rw [units?, parts?_eq, unitsOf?]

/-- A multiple of the least double is a double. -/
def IsDouble (n : Int) : Prop :=
  ∃ m e, Canonical m e ∧ e ≤ 971 ∧ n.natAbs = multiple m e

variable {u v : UnpackedFloat} {x y : Float} {a b : Int}

theorem IsDouble.neg (h : IsDouble (-a)) : IsDouble a := by
  rwa [IsDouble, Int.natAbs_neg] at h

@[simp] theorem unitsOf?_zero (s : Sign) : unitsOf? (.zero s) = some 0 := by
  cases s <;> simp [unitsOf?, partsOf?, Parts.units, multiple]

@[simp] theorem unitsOf?_finite (s : Sign) {m : Nat} {e : Int} (hm : 0 < m) :
    unitsOf? (.finite s m e hm) = some (s.apply (multiple m e)) := by
  cases s <;> rfl

@[simp] theorem unitsOf?_infinity (s : Sign) : unitsOf? (.infinity s) = none :=
  rfl

@[simp] theorem unitsOf?_notANumber : unitsOf? .notANumber = none :=
  rfl

/-! ## Comparison -/

/-- Of two doubles, the one with the smaller exponent is smaller. -/
theorem multiple_lt_of_lt {m m' : Nat} {e e' : Int} (h : Canonical m e) (h' : Canonical m' e')
    (hlt : e < e') : multiple m e < multiple m' e' := by
  have hle := h.le
  have hnormal : 2 ^ 52 ≤ m' := h'.normal.resolve_right (by omega)
  calc multiple m e
      < 2 ^ 53 * 2 ^ (e - leastExponent).toNat :=
        Nat.mul_lt_mul_of_pos_right h.lt (Nat.two_pow_pos _)
    _ = 2 ^ 52 * 2 ^ (e + 1 - leastExponent).toNat := by
        rw [show (e + 1 - leastExponent).toNat = (e - leastExponent).toNat + 1 by omega]
        omega
    _ ≤ multiple m' e' :=
        Nat.mul_le_mul hnormal (Nat.pow_le_pow_right (by decide) (by omega))

/-- Doubles of one sign are compared by their exponents first. -/
theorem compare_multiple {m m' : Nat} {e e' : Int} (h : Canonical m e) (h' : Canonical m' e') :
    (compare e e').then (compare m m') = compare (multiple m e) (multiple m' e') := by
  rcases Int.lt_trichotomy e e' with hlt | rfl | hgt
  · rw [Int.compare_eq_lt.mpr hlt, Nat.compare_eq_lt.mpr (multiple_lt_of_lt h h' hlt)]
    rfl
  · have hpos := Nat.two_pow_pos (e - leastExponent).toNat
    rw [Int.compare_eq_eq.mpr rfl, Ordering.eq_then, multiple, multiple]
    rcases Nat.lt_trichotomy m m' with hlt | rfl | hgt
    · rw [Nat.compare_eq_lt.mpr hlt, Nat.compare_eq_lt.mpr (Nat.mul_lt_mul_of_pos_right hlt hpos)]
    · rw [Nat.compare_eq_eq.mpr rfl, Nat.compare_eq_eq.mpr rfl]
    · rw [Nat.compare_eq_gt.mpr hgt, Nat.compare_eq_gt.mpr (Nat.mul_lt_mul_of_pos_right hgt hpos)]
  · rw [Int.compare_eq_gt.mpr hgt, Nat.compare_eq_gt.mpr (multiple_lt_of_lt h' h hgt)]
    rfl

theorem multiple_pos {m : Nat} (hm : 0 < m) (e : Int) : 0 < multiple m e :=
  Nat.mul_pos hm (Nat.two_pow_pos _)

/-- Only one mantissa and exponent have the form of a given double. -/
theorem eq_of_multiple_eq {m m' : Nat} {e e' : Int} (h : Canonical m e) (h' : Canonical m' e')
    (heq : multiple m e = multiple m' e') : m = m' ∧ e = e' := by
  rcases Int.lt_trichotomy e e' with hlt | rfl | hgt
  · exact absurd heq (multiple_lt_of_lt h h' hlt).ne
  · exact ⟨Nat.eq_of_mul_eq_mul_right (Nat.two_pow_pos _) heq, rfl⟩
  · exact absurd heq (multiple_lt_of_lt h' h hgt).ne'

/-- What has a multiple is a zero, or has the form of a double. -/
theorem cases_of_unitsOf? (hu : Packable u) (ha : unitsOf? u = some a) :
    (∃ s, u = .zero s ∧ a = 0) ∨ ∃ s m e, ∃ hm : 0 < m, u = .finite s m e hm ∧ Canonical m e ∧
      e ≤ 971 ∧ a = s.apply (multiple m e) := by
  cases hu with
  | notANumber | infinity => cases ha
  | zero s => exact .inl ⟨s, rfl, Option.some.inj (ha.symm.trans (unitsOf?_zero s))⟩
  | finite s hm h hle =>
    exact .inr ⟨s, _, _, hm, rfl, h, hle, Option.some.inj (ha.symm.trans (unitsOf?_finite s hm))⟩

theorem beq_lt_iff (o : Ordering) : (some o == some .lt) = true ↔ o = .lt := by
  cases o <;> decide

/-- The operands of arithmetic are compared as their multiples. -/
theorem lt_iff_of_packable (hu : Packable u) (hv : Packable v) (ha : unitsOf? u = some a)
    (hb : unitsOf? v = some b) : u.lt v = true ↔ a < b := by
  rw [UnpackedFloat.lt]
  obtain ⟨s, rfl, rfl⟩ | ⟨s, m, e, hm, rfl, h, -, rfl⟩ := cases_of_unitsOf? hu ha <;>
    obtain ⟨s', rfl, rfl⟩ | ⟨s', m', e', hm', rfl, h', -, rfl⟩ := cases_of_unitsOf? hv hb
  · simp [UnpackedFloat.compare]
  · have hpos := multiple_pos hm' e'
    cases s' <;> simp [UnpackedFloat.compare, Sign.apply, hpos]
  · have hpos := multiple_pos hm e
    cases s <;> simp [UnpackedFloat.compare, Sign.apply, hpos]
  · have hpos := multiple_pos hm e
    have hpos' := multiple_pos hm' e'
    cases s <;> cases s' <;>
      simp only [UnpackedFloat.compare, Sign.apply, beq_lt_iff, compare_multiple h h']
    · rw [Ordering.swap_eq_lt, Nat.compare_eq_gt]
      omega
    · exact iff_of_true trivial (by omega)
    · exact iff_of_false nofun (by omega)
    · rw [Nat.compare_eq_lt]
      omega

theorem lt_def : x < y ↔ x.toModel.unpack.lt y.toModel.unpack = true :=
  decide_eq_true_iff

/-- **Finite doubles are compared as their multiples.** -/
theorem lt_iff (ha : units? x = some a) (hb : units? y = some b) : x < y ↔ a < b := by
  rw [units?_eq] at ha hb
  exact lt_def.trans (lt_iff_of_packable (packable_unpack _) (packable_unpack _) ha hb)

theorem units?_of_parts? {p : Parts} (h : parts? x = some p) : units? x = some p.units :=
  congrArg (Option.map Parts.units) h

/-- What is below a finite double is not above it. -/
theorem not_lt_of_lt {p : Parts} (hy : parts? y = some p) (h : x < y) : ¬ y < x := by
  intro habove
  cases hx : parts? x with
  | some q =>
    have hbelow := (lt_iff (units?_of_parts? hx) (units?_of_parts? hy)).mp h
    exact absurd hbelow
      (Int.not_lt.mpr ((lt_iff (units?_of_parts? hy) (units?_of_parts? hx)).mp habove).le)
  | none =>
    -- of the doubles that are not finite, only the negative infinity is below
    rw [parts?_eq] at hx hy
    rw [lt_def] at h habove
    generalize x.toModel.unpack = u at hx h habove
    generalize y.toModel.unpack = v at hy h habove
    cases u with
    | notANumber => cases h
    | zero | finite => cases hx
    | infinity s =>
      cases v with
      | notANumber | infinity => cases hy
      | zero | finite =>
        cases s with
        | positive => cases h
        | negative => cases habove

/-! ## Equality -/

/-- Arithmetic works with the same parts for doubles that are the same multiple, zeros apart. -/
theorem eq_of_unitsOf?_eq (hu : Packable u) (hv : Packable v) (ha : unitsOf? u = some a)
    (hb : unitsOf? v = some a) (hne : a ≠ 0) : u = v := by
  obtain ⟨s, rfl, rfl⟩ | ⟨s, m, e, hm, rfl, h, -, rfl⟩ := cases_of_unitsOf? hu ha
  · exact absurd rfl hne
  obtain ⟨s', rfl, hzero⟩ | ⟨s', m', e', hm', rfl, h', -, heq⟩ := cases_of_unitsOf? hv hb
  · exact absurd hzero hne
  have hpos := multiple_pos hm e
  have hpos' := multiple_pos hm' e'
  have hboth : s = s' ∧ multiple m e = multiple m' e' := by
    cases s <;> cases s' <;> simp only [Sign.apply] at heq
    · exact ⟨rfl, by omega⟩
    · omega
    · omega
    · exact ⟨rfl, by omega⟩
  obtain ⟨rfl, hmultiple⟩ := hboth
  obtain ⟨rfl, rfl⟩ := eq_of_multiple_eq h h' hmultiple
  rfl

/-- **Doubles that are the same multiple** are equal, zeros apart. -/
theorem eq_of_units?_eq (ha : units? x = some a) (hb : units? y = some a) (hne : a ≠ 0) : x = y := by
  rw [units?_eq] at ha hb
  have hunpack := eq_of_unitsOf?_eq (packable_unpack _) (packable_unpack _) ha hb hne
  have hbits := (unpack_inj_of_valid x.toModel.valid y.toModel.valid).mp hunpack
  exact Float.toBits_inj.mp (UInt64.toBitVec_inj.mp hbits)

/-! ## Sums and differences -/

theorem unitsOf?_round (s : Sign) {M : Nat} {E : Int} (hM : 0 < M) (hE : leastExponent ≤ E)
    (h : IsDouble (multiple M E)) :
    unitsOf? (UnpackedFloat.round .binary64 s M E) = some (s.apply (multiple M E)) ∧
      Packable (UnpackedFloat.round .binary64 s M E) := by
  obtain ⟨m, e, hc, hle, heq⟩ := h
  rw [Int.natAbs_natCast] at heq
  have hm : 0 < m := by
    refine Nat.pos_of_ne_zero ?_
    rintro rfl
    rw [multiple, multiple, Nat.zero_mul] at heq
    exact (multiple_pos hM E).ne' heq
  rw [round_of_multiple_eq hc hm s hE heq, unitsOf?_finite, heq]
  exact ⟨rfl, .finite s hm hc hle⟩

/-- A mantissa with a sign is rounded to the double that it is with its exponent. -/
theorem unitsOf?_normalize {M E : Int} (hE : leastExponent ≤ E)
    (h : IsDouble (M * (2 ^ (E - leastExponent).toNat : Nat))) :
    unitsOf? (UnpackedFloat.normalize .binary64 M E .positive) =
        some (M * (2 ^ (E - leastExponent).toNat : Nat)) ∧
      Packable (UnpackedFloat.normalize .binary64 M E .positive) := by
  rw [UnpackedFloat.normalize]
  rcases Int.lt_trichotomy M 0 with hneg | rfl | hpos
  · obtain ⟨n, rfl⟩ : ∃ n : Nat, M = -n := ⟨M.natAbs, by omega⟩
    rw [Int.compare_eq_lt.mpr hneg, Int.neg_neg, Int.toNat_natCast]
    rw [Int.neg_mul, ← Int.natCast_mul] at h ⊢
    exact unitsOf?_round .negative (by omega) hE h.neg
  · rw [Int.zero_mul]
    exact ⟨unitsOf?_zero _, .zero _⟩
  · obtain ⟨n, rfl⟩ := Int.eq_ofNat_of_zero_le hpos.le
    rw [Int.compare_eq_gt.mpr hpos, Int.toNat_natCast]
    rw [← Int.natCast_mul] at h ⊢
    exact unitsOf?_round .positive (Int.natCast_pos.mp hpos) hE h

/-- A large number is rounded to one of at least its highest power of two. -/
theorem le_unitsOf?_normalize {M E : Int} (hE : leastExponent ≤ E) {n : Nat}
    (hn : M * (2 ^ (E - leastExponent).toNat : Nat) = n) (hlow : 52 < n.log2)
    (hhigh : n.log2 ≤ 2096) :
    ∃ c : Nat, 2 ^ n.log2 ≤ c ∧
      unitsOf? (UnpackedFloat.normalize .binary64 M E .positive) = some (c : Int) ∧
      Packable (UnpackedFloat.normalize .binary64 M E .positive) := by
  have hleast : leastExponent = -1074 := rfl
  have hscale : (0 : Int) < (2 ^ (E - leastExponent).toNat : Nat) :=
    Int.natCast_pos.mpr (Nat.two_pow_pos _)
  have hpos : 0 < n := by
    refine Nat.pos_of_ne_zero ?_
    rintro rfl
    simp at hlow
  have hM : 0 < M := by
    refine Int.pos_of_mul_pos_left ?_ hscale
    rw [hn]
    exact Int.natCast_pos.mpr hpos
  obtain ⟨k, rfl⟩ := Int.eq_ofNat_of_zero_le hM.le
  have hk : 0 < k := Int.natCast_pos.mp hM
  have hmultiple : multiple k E = n := by
    rw [multiple]
    exact_mod_cast hn
  have hlog := log2_multiple hk hE
  rw [hmultiple] at hlog
  obtain ⟨m, e, hm, hround, hc, hge, hle⟩ := exists_round_eq hk .positive (E := E) (by omega)
  have hnormal : 2 ^ 52 ≤ m := hc.normal.resolve_right (by omega)
  rw [UnpackedFloat.normalize, Int.compare_eq_gt.mpr hM, Int.toNat_natCast]
  simp only [hround, unitsOf?_finite]
  refine ⟨multiple m e, ?_, rfl, .finite _ hm hc (by omega)⟩
  calc 2 ^ n.log2
      = 2 ^ 52 * 2 ^ (n.log2 - 52) := by
        rw [← Nat.pow_add]
        congr 1
        omega
    _ ≤ multiple m e := Nat.mul_le_mul hnormal (Nat.pow_le_pow_right (by decide) (by omega))

/-- A mantissa is brought to a smaller exponent. -/
theorem apply_shiftLeft (s : Sign) (m : Nat) {e t : Int} (ht : leastExponent ≤ t) (hle : t ≤ e) :
    s.apply (m <<< (e - t).toNat : Nat) * (2 ^ (t - leastExponent).toNat : Nat) =
      s.apply (multiple m e) := by
  have hscaled : m <<< (e - t).toNat * 2 ^ (t - leastExponent).toNat = multiple m e := by
    rw [Nat.shiftLeft_eq, multiple, Nat.mul_assoc, ← Nat.pow_add]
    congr 2
    omega
  rw [← hscaled]
  cases s <;> simp [Sign.apply]

/-- The mantissas of a sum are added with the smaller exponent. -/
theorem add_finite_eq (s s' : Sign) {m m' : Nat} {e e' : Int} (hm : 0 < m) (hm' : 0 < m')
    (he : leastExponent ≤ e) (he' : leastExponent ≤ e') :
    ∃ M E, leastExponent ≤ E ∧
      M * (2 ^ (E - leastExponent).toNat : Nat) =
        s.apply (multiple m e) + s'.apply (multiple m' e') ∧
      UnpackedFloat.add .binary64 (.finite s m e hm) (.finite s' m' e' hm') =
        UnpackedFloat.normalize .binary64 M E .positive := by
  have hmin : leastExponent ≤ min e e' := Int.le_min.mpr ⟨he, he'⟩
  refine ⟨_, min e e', hmin, ?_, rfl⟩
  rw [Int.add_mul, apply_shiftLeft s m hmin (Int.min_le_left e e'),
    apply_shiftLeft s' m' hmin (Int.min_le_right e e')]

/-- **A sum that is a double** is exact. -/
theorem unitsOf?_add (hu : Packable u) (hv : Packable v) (ha : unitsOf? u = some a)
    (hb : unitsOf? v = some b) (h : IsDouble (a + b)) :
    unitsOf? (UnpackedFloat.add .binary64 u v) = some (a + b) ∧
      Packable (UnpackedFloat.add .binary64 u v) := by
  obtain ⟨s, rfl, rfl⟩ | ⟨s, m, e, hm, rfl, hc, hle, rfl⟩ := cases_of_unitsOf? hu ha <;>
    obtain ⟨s', rfl, rfl⟩ | ⟨s', m', e', hm', rfl, hc', hle', rfl⟩ := cases_of_unitsOf? hv hb
  · rw [UnpackedFloat.add]
    split
    · exact ⟨unitsOf?_zero _, .zero _⟩
    · exact ⟨unitsOf?_zero _, .zero _⟩
  · rw [Int.zero_add]
    exact ⟨hb, hv⟩
  · rw [Int.add_zero]
    exact ⟨ha, hu⟩
  · obtain ⟨M, E, hE, hsum, hadd⟩ := add_finite_eq s s' hm hm' hc.le hc'.le
    rw [← hsum] at h ⊢
    rw [hadd]
    exact unitsOf?_normalize hE h

/-- **A large sum** is rounded to a number of at least its highest power of two. -/
theorem le_unitsOf?_add (hu : Packable u) (hv : Packable v) (ha : unitsOf? u = some a)
    (hb : unitsOf? v = some b) {n : Nat} (hn : a + b = n) (hlow : 52 < n.log2)
    (hhigh : n.log2 ≤ 2096) :
    ∃ c : Nat, 2 ^ n.log2 ≤ c ∧ unitsOf? (UnpackedFloat.add .binary64 u v) = some (c : Int) ∧
      Packable (UnpackedFloat.add .binary64 u v) := by
  have hpos : 0 < n := by
    refine Nat.pos_of_ne_zero ?_
    rintro rfl
    simp at hlow
  have hself := Nat.log2_self_le hpos.ne'
  obtain ⟨s, rfl, rfl⟩ | ⟨s, m, e, hm, rfl, hc, hle, rfl⟩ := cases_of_unitsOf? hu ha <;>
    obtain ⟨s', rfl, rfl⟩ | ⟨s', m', e', hm', rfl, hc', hle', rfl⟩ := cases_of_unitsOf? hv hb
  · omega
  · rw [Int.zero_add] at hn
    exact ⟨n, hself, hb.trans (congrArg some hn), hv⟩
  · rw [Int.add_zero] at hn
    exact ⟨n, hself, ha.trans (congrArg some hn), hu⟩
  · obtain ⟨M, E, hE, hsum, hadd⟩ := add_finite_eq s s' hm hm' hc.le hc'.le
    rw [hn] at hsum
    rw [hadd]
    exact le_unitsOf?_normalize hE hsum hlow hhigh

theorem units?_ofModel_pack (hu : Packable u) (ha : unitsOf? u = some a) :
    units? (.ofModel (.pack u)) = some a := by
  rw [units?_eq]
  exact (congrArg unitsOf? (unpack_pack hu)).trans ha

/-- **A sum of doubles that is a double** is exact. -/
theorem units?_add (ha : units? x = some a) (hb : units? y = some b) (h : IsDouble (a + b)) :
    units? (x + y) = some (a + b) := by
  rw [units?_eq] at ha hb
  obtain ⟨hsum, hpackable⟩ := unitsOf?_add (packable_unpack _) (packable_unpack _) ha hb h
  exact units?_ofModel_pack hpackable hsum

/-- Subtraction adds the negative. -/
theorem sub_eq_add_neg (u v : UnpackedFloat) :
    UnpackedFloat.sub .binary64 u v = UnpackedFloat.add .binary64 u v.neg := by
  cases u with
  | notANumber => cases v <;> rfl
  | infinity s => cases v <;> rfl
  | zero s => cases v <;> rfl
  | finite s m e hm =>
    cases v with
    | notANumber | infinity | zero => rfl
    | finite s' m' e' hm' =>
      have hneg (n : Int) : -s'.apply n = (-s').apply n := by
        cases s'
        · exact Int.neg_neg n
        · rfl
      simp only [UnpackedFloat.sub, UnpackedFloat.add, UnpackedFloat.neg, Int.sub_eq_add_neg, hneg]

theorem unitsOf?_neg (hv : Packable v) (hb : unitsOf? v = some b) :
    unitsOf? v.neg = some (-b) ∧ Packable v.neg := by
  obtain ⟨s, rfl, rfl⟩ | ⟨s, m, e, hm, rfl, hc, hle, rfl⟩ := cases_of_unitsOf? hv hb
  · exact ⟨unitsOf?_zero _, .zero _⟩
  · refine ⟨?_, .finite _ hm hc hle⟩
    rw [UnpackedFloat.neg, unitsOf?_finite]
    cases s
    · exact congrArg some (Int.neg_neg _).symm
    · rfl

/-- **A difference of doubles that is a double** is exact. -/
theorem units?_sub (ha : units? x = some a) (hb : units? y = some b) (h : IsDouble (a - b)) :
    units? (x - y) = some (a - b) := by
  rw [units?_eq] at ha hb
  obtain ⟨hneg, hpackable⟩ := unitsOf?_neg (packable_unpack _) hb
  obtain ⟨hsum, hpackable⟩ := unitsOf?_add (packable_unpack _) hpackable ha hneg h
  rw [← sub_eq_add_neg] at hsum hpackable
  exact units?_ofModel_pack hpackable hsum

/-- **A large difference** is rounded to a number of at least its highest power of two. -/
theorem le_units?_sub (ha : units? x = some a) (hb : units? y = some b) {n : Nat} (hn : a - b = n)
    (hlow : 52 < n.log2) (hhigh : n.log2 ≤ 2096) :
    ∃ c : Nat, 2 ^ n.log2 ≤ c ∧ units? (x - y) = some (c : Int) := by
  rw [units?_eq] at ha hb
  obtain ⟨hneg, hpackable⟩ := unitsOf?_neg (packable_unpack _) hb
  obtain ⟨c, hle, hsum, hpackable⟩ :=
    le_unitsOf?_add (packable_unpack _) hpackable ha hneg hn hlow hhigh
  rw [← sub_eq_add_neg] at hsum hpackable
  exact ⟨c, hle, units?_ofModel_pack hpackable hsum⟩

end ParseActions.Double
