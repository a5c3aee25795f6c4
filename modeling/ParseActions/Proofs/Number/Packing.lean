import ParseActions.Proofs.Number.Rounding

/-!
# Doubles as words

A double is a word: a sign, eleven bits of the exponent and 52 of the mantissa, whose first bit is left
out where it is set. The parts that are read from the word are those with which the arithmetic of
doubles works, and a word is written from them and read back without a loss.

## Main definitions

* `Double.wordParts?`: the parts of a word
* `Double.partsOf?`: the parts with which the arithmetic of doubles works
* `Double.Packable`: the results of arithmetic that doubles can hold

## Main results

* `Double.parts?_eq`: the parts of a double are those with which its arithmetic works
* `Double.unpack_pack`: a result that a double can hold is read back
* `Double.parts?_ofBits`: what is made from a word has the parts of the word
-/

namespace ParseActions.Double

open Float.Model Float.Model.UnpackedFloat

/-- The parts of a word, if it is that of a finite double. -/
def wordParts? (word : UInt64) : Option Parts :=
  let biased := word.toNat / leadingBit % 2048
  let fraction := word.toNat % leadingBit
  let negative := word >>> 63 != 0
  if biased = 2047 then none
  else if biased = 0 then some ⟨negative, fraction, leastExponent⟩
  else some ⟨negative, fraction + leadingBit, leastExponent + (biased - 1 : Nat)⟩

/-- Whether a sign is that of a negative number. -/
def isMinus : Sign → Bool
  | .negative => true
  | .positive => false

/-- The parts with which the arithmetic of doubles works. -/
def partsOf? : UnpackedFloat → Option Parts
  | .zero s => some ⟨isMinus s, 0, leastExponent⟩
  | .finite s m e _ => some ⟨isMinus s, m, e⟩
  | .infinity _ | .notANumber => none

/-! ## Reading a word -/

section Fields

variable (b : BitVec Format.binary64.numBits)

theorem toNat_unpackMantissa : (unpackMantissa b).toNat = b.toNat % leadingBit := by
  simp [unpackMantissa, BitVec.extractLsb_toNat, leadingBit]

theorem toNat_unpackExponent : (unpackExponent b).toNat = b.toNat / leadingBit % 2048 := by
  simp [unpackExponent, BitVec.extractLsb_toNat, Nat.shiftRight_eq_div_pow, leadingBit]

/-- The sign bit is set in the words from `2 ^ 63` on. -/
theorem shiftRight_bne_zero (w : UInt64) : (w >>> 63 != 0) = decide (signBit ≤ w.toNat) := by
  have hshift : (w >>> 63).toNat = w.toNat / signBit := by
    simp [UInt64.toNat_shiftRight, Nat.shiftRight_eq_div_pow, signBit]
  have hzero : w >>> 63 = 0 ↔ w.toNat < signBit := by
    rw [← UInt64.toNat_inj, hshift]
    exact Nat.div_eq_zero_iff_lt (by decide)
  rw [Bool.eq_iff_iff, bne_iff_ne, decide_eq_true_iff, Ne, hzero, Nat.not_lt]

theorem isMinus_ofBitVec_unpackSign (w : UInt64) :
    isMinus (Sign.ofBitVec (@unpackSign .binary64 w.toBitVec)) = (w >>> 63 != 0) := by
  have hsign : (@unpackSign .binary64 w.toBitVec).toNat = w.toNat / signBit := by
    have hlt := w.toNat_lt
    simp [unpackSign, BitVec.extractLsb_toNat, Nat.shiftRight_eq_div_pow, signBit]
    omega
  have hzero : @unpackSign .binary64 w.toBitVec = 0#1 ↔ w.toNat < signBit := by
    rw [← BitVec.toNat_inj, hsign]
    exact Nat.div_eq_zero_iff_lt (by decide)
  rw [shiftRight_bne_zero, Sign.ofBitVec]
  simp only [hzero]
  split
  · next hlt => simp [isMinus, hlt]
  · next hge => simp [isMinus, Nat.not_lt.mp hge]

end Fields

/-- A mantissa with its first bit. -/
theorem toNat_one_append (m : BitVec 52) : (1#1 ++ m).toNat = m.toNat + leadingBit := by
  rw [BitVec.toNat_append, ← Nat.shiftLeft_add_eq_or_of_lt m.isLt, Nat.add_comm]
  rfl

/-- **The parts of a word** are those with which arithmetic works. -/
theorem wordParts?_eq (w : UInt64) :
    wordParts? w = partsOf? (UnpackedFloat.unpack .binary64 w.toBitVec) := by
  have hexponent := toNat_unpackExponent w.toBitVec
  have hmantissa := toNat_unpackMantissa w.toBitVec
  have hsign := isMinus_ofBitVec_unpackSign w
  have hword : w.toBitVec.toNat = w.toNat := rfl
  rw [hword] at hexponent hmantissa
  have hones : (@unpackExponent .binary64 w.toBitVec) = -1#_ ↔ w.toNat / leadingBit % 2048 = 2047 := by
    rw [← BitVec.toNat_inj, hexponent]
    rfl
  have hzeros : (@unpackExponent .binary64 w.toBitVec) = 0#_ ↔ w.toNat / leadingBit % 2048 = 0 := by
    rw [← BitVec.toNat_inj, hexponent]
    rfl
  have hbias : ((Format.binary64.exponentBias : Nat) : Int) +
      (Format.binary64.mantissaBitsWithoutImplicit : Nat) = 1075 := rfl
  have hleast : leastExponent = -1074 := rfl
  rw [wordParts?, UnpackedFloat.unpack]
  simp only [hones, hzeros, hexponent, hbias]
  -- both readings ask first whether the bits of the exponent are all ones, and then all zeros
  split
  · split <;> rfl
  · split
    · next hzero =>
      split
      · next hnone =>
        have hfraction : w.toNat % leadingBit = 0 := by
          rw [← hmantissa, hnone]
          rfl
        simp only [partsOf?, hsign, hfraction]
      · simp only [partsOf?, hsign, hmantissa, hzero, hleast]
        rfl
    · next hnonzero =>
      simp only [partsOf?, hsign, toNat_one_append, hmantissa]
      congr 2
      omega

theorem parts?_eq (x : Float) : parts? x = partsOf? x.toModel.unpack :=
  wordParts?_eq x.toBits

/-! ## Writing a word -/

/-- The results of arithmetic that doubles can hold. -/
inductive Packable : UnpackedFloat → Prop
  | notANumber : Packable .notANumber
  | infinity (s : Sign) : Packable (.infinity s)
  | zero (s : Sign) : Packable (.zero s)
  | finite (s : Sign) {m : Nat} {e : Int} (hm : 0 < m) (h : Canonical m e) (hle : e ≤ 971) :
    Packable (.finite s m e hm)

theorem leadingBit_pos : 0 < leadingBit :=
  Nat.two_pow_pos 52

/-- What is unpacked from the fields of a word. -/
theorem unpack_packComponents (s : Sign) (e : BitVec 11) (m : BitVec 52) (he : e ≠ -1#11) :
    UnpackedFloat.unpack .binary64 (packComponents .binary64 s e m) =
      if e = 0#11 then
        if h : m = 0#52 then .zero s
        else .finite s m.toNat leastExponent (BitVec.toNat_pos_of_ne_zero h)
      else .finite s (m.toNat + leadingBit) (e.toNat - 1075) (Nat.add_pos_right _ leadingBit_pos) := by
  have hbias : ((Format.binary64.exponentBias : Nat) : Int) +
      (Format.binary64.mantissaBitsWithoutImplicit : Nat) = 1075 := rfl
  rw [UnpackedFloat.unpack]
  simp only [unpackMantissa_packComponents, unpackExponent_packComponents,
    unpackSign_packComponents, Sign.ofBitVec_toBitVec, if_neg he, hbias, toNat_one_append]
  split
  · next hzero =>
    subst hzero
    rfl
  · rfl

/-- A mantissa of 53 bits, and an exponent, are read back from a word. -/
theorem unpack_pack_normal (s : Sign) {m : Nat} {e : Int} (hm : 0 < m) (h : Canonical m e)
    (hle : e ≤ 971) (hnormal : 2 ^ 52 ≤ m) :
    UnpackedFloat.unpack .binary64 (UnpackedFloat.pack .binary64 (.finite s m e hm)) =
      .finite s m e hm := by
  have hleast : leastExponent = -1074 := rfl
  have hge := h.le
  have hlt := h.lt
  have hbits : m.log2 + 1 = Format.binary64.mantissaBits :=
    congrArg (· + 1) (Nat.le_antisymm h.log2_le ((Nat.le_log2 hm.ne').mpr hnormal))
  have hbiased : (e + (Format.binary64.exponentBias : Nat) +
      (Format.binary64.mantissaBitsWithoutImplicit : Nat)).toNat = (e + 1075).toNat := by
    show (e + (1023 : Nat) + (52 : Nat)).toNat = _
    congr 1
    omega
  have hexponent : (BitVec.ofNat 11 (e + 1075).toNat).toNat = (e + 1075).toNat := by
    rw [BitVec.toNat_ofNat, Nat.mod_eq_of_lt (by omega)]
  have hmantissa : (BitVec.ofNat 52 m).toNat + leadingBit = m := by
    rw [BitVec.toNat_ofNat, leadingBit]
    omega
  -- the exponent of a normal double is written in bits that are neither all ones nor all zeros
  have hones : BitVec.ofNat 11 (e + 1075).toNat ≠ -1#11 := by
    intro heq
    rw [heq] at hexponent
    have hvalue : (-1#11).toNat = 2047 := rfl
    omega
  have hzeros : BitVec.ofNat 11 (e + 1075).toNat ≠ 0#11 := by
    intro heq
    rw [heq] at hexponent
    have hvalue : (0#11).toNat = 0 := rfl
    omega
  rw [UnpackedFloat.pack]
  simp only [hbiased, if_pos hbits]
  rw [if_neg (by show ¬ 2 ^ 11 ≤ _; omega), unpack_packComponents s _ _ hones, if_neg hzeros]
  simp only [hexponent, hmantissa]
  congr 1
  omega

theorem unpack_pack_subnormal (s : Sign) {m : Nat} (hm : 0 < m) (hlt : m < 2 ^ 52) :
    UnpackedFloat.unpack .binary64 (UnpackedFloat.pack .binary64 (.finite s m leastExponent hm)) =
      .finite s m leastExponent hm := by
  have hbits : ¬ m.log2 + 1 = Format.binary64.mantissaBits := by
    have hlog := (Nat.log2_lt hm.ne').mpr hlt
    show ¬ m.log2 + 1 = 53
    omega
  have hmantissa : (BitVec.ofNat 52 m).toNat = m := by
    rw [BitVec.toNat_ofNat, Nat.mod_eq_of_lt hlt]
  have hnonzero : BitVec.ofNat 52 m ≠ 0#52 := by
    intro heq
    rw [heq] at hmantissa
    exact hm.ne hmantissa
  rw [UnpackedFloat.pack]
  simp only [if_neg hbits]
  rw [if_neg (by decide), unpack_packComponents s _ _ (by decide), if_pos rfl, dif_neg hnonzero]
  simp only [hmantissa]

/-- **A result that a double can hold** is read back from its word. -/
theorem unpack_pack {u : UnpackedFloat} (h : Packable u) : (Float.Model.pack u).unpack = u := by
  show UnpackedFloat.unpack .binary64 (UnpackedFloat.pack .binary64 u) = u
  cases h with
  | notANumber => rfl
  | infinity s => cases s <;> rfl
  | zero s => cases s <;> rfl
  | finite s hm h hle =>
    rcases Nat.lt_or_ge _ (2 ^ 52) with hlt | hge
    · obtain rfl := h.normal.resolve_left (Nat.not_le.mpr hlt)
      exact unpack_pack_subnormal s hm hlt
    · exact unpack_pack_normal s hm h hle hge

/-- What a word is unpacked to, a double can hold. -/
theorem packable_unpack (w : UInt64) : Packable (UnpackedFloat.unpack .binary64 w.toBitVec) := by
  have hbias : ((Format.binary64.exponentBias : Nat) : Int) +
      (Format.binary64.mantissaBitsWithoutImplicit : Nat) = 1075 := rfl
  have hleast : leastExponent = -1074 := rfl
  have hfraction := (@unpackMantissa .binary64 w.toBitVec).isLt
  have hfield := (@unpackExponent .binary64 w.toBitVec).isLt
  rw [UnpackedFloat.unpack]
  simp only [hbias]
  split
  · split
    · exact .infinity _
    · exact .notANumber
  · next hones =>
    split
    · next hzeros =>
      split
      · exact .zero _
      · refine .finite _ _ ⟨?_, ?_, .inr ?_⟩ ?_
        · exact Nat.lt_trans hfraction (by decide)
        all_goals
          rw [hzeros]
          decide
    · next hzeros =>
      have hnonzero : (@unpackExponent .binary64 w.toBitVec).toNat ≠ 0 :=
        fun heq => hzeros (BitVec.eq_of_toNat_eq heq)
      have hother : (@unpackExponent .binary64 w.toBitVec).toNat ≠ 2047 :=
        fun heq => hones (BitVec.eq_of_toNat_eq heq)
      have hlt : (@unpackExponent .binary64 w.toBitVec).toNat < 2048 := hfield
      have hmantissa := toNat_one_append (@unpackMantissa .binary64 w.toBitVec)
      have hlt' : (@unpackMantissa .binary64 w.toBitVec).toNat < 2 ^ 52 := hfraction
      rw [leadingBit] at hmantissa
      exact .finite _ _ ⟨by omega, by omega, .inl (by omega)⟩ (by omega)

/-- **What is made from a word** has the parts of the word. -/
theorem parts?_ofBits (w : UInt64) : parts? (Float.ofBits w) = wordParts? w := by
  rw [parts?_eq, wordParts?_eq]
  exact congrArg partsOf? (unpack_pack (packable_unpack w))

end ParseActions.Double
