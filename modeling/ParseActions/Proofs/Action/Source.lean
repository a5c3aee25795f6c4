import ParseActions.Action.Source
import ParseActions.Proofs.Action.Arguments
import ParseActions.Proofs.Text.Parts

/-!
# The encoding of sources

The bytes of an argument name are neither zero, which ends it, nor one, which ends the names. So a
source whose names have the shape of identifiers is known by its encoding, and two such sources have
one fingerprint only if the digests of two messages agree.

## Main definitions

* `Sha256.Collision`: different messages with one digest

## Main results

* `ActionSource.bytesOf_injective`: a text is known by its bytes
* `ActionSource.encoding_injOn`: a source is known by its encoding
* `ActionSource.fingerprint_eq_iff`: when two sources have one fingerprint
-/

namespace ParseActions

/-- Two messages are different and have one digest. -/
def Sha256.Collision (message message' : List UInt8) : Prop :=
  message ≠ message' ∧ digest message = digest message'

namespace Scanner

/-- The characters of names are printable ones of ASCII. -/
theorem toNat_of_isNameChar {c : Char} (h : isNameChar c = true) :
    36 ≤ c.toNat ∧ c.toNat < 128 := by
  change (((decide (c.val ≥ 65 ∧ c.val ≤ 90) || (c.val ≥ 97 && c.val ≤ 122)) ||
    (c.val ≥ 48 && c.val ≤ 57)) || c == '_') = true at h
  simp only [Bool.or_eq_true, Bool.and_eq_true, decide_eq_true_eq, beq_iff_eq,
    UInt32.le_iff_toNat_le, ge_iff_le] at h
  change (((65 ≤ c.toNat ∧ c.toNat ≤ 90) ∨ (97 ≤ c.toNat ∧ c.toNat ≤ 122)) ∨
    (48 ≤ c.toNat ∧ c.toNat ≤ 57)) ∨ c = '_' at h
  rcases h with h | rfl
  · omega
  · decide

end Scanner

/-- So are the characters of a text that has the shape of an identifier. -/
theorem Token.NameShaped.toNat {text : String} (h : NameShaped text) {c : Char}
    (hc : c ∈ text.toList) : 36 ≤ c.toNat ∧ c.toNat < 128 := by
  obtain ⟨first, more, rfl, hfirst, hmore⟩ := h
  rw [String.toList_ofList] at hc
  rcases List.mem_cons.mp hc with rfl | hc
  · rcases hfirst with hstart | rfl
    · apply Scanner.toNat_of_isNameChar
      rw [Scanner.isNameStart, Bool.or_eq_true] at hstart
      rw [Scanner.isNameChar, Char.isAlphanum, Bool.or_eq_true, Bool.or_eq_true]
      exact hstart.imp_left .inl
    · decide
  · exact Scanner.toNat_of_isNameChar (hmore c hc)

namespace ActionSource

/-- The bytes of a text are those of its characters. -/
theorem bytesOf_eq (text : String) : bytesOf text = text.toList.flatMap String.utf8EncodeChar := by
  rw [bytesOf, String.toUTF8_eq_toByteArray, ← String.utf8Encode_toList, List.utf8Encode]
  simp

/-- **A text is known by its bytes.** -/
theorem bytesOf_injective {text text' : String} (h : bytesOf text = bytesOf text') :
    text = text' := by
  rw [← String.toByteArray_inj]
  exact ByteArray.ext (Array.toList_inj.mp h)

/-- A character of ASCII is one byte. -/
theorem utf8EncodeChar_of_lt {c : Char} (h : c.toNat < 128) :
    String.utf8EncodeChar c = [c.val.toUInt8] := by
  apply String.utf8EncodeChar_eq_singleton
  rw [Char.utf8Size_eq_one_iff, UInt32.le_iff_toNat_le]
  exact Nat.le_of_lt_succ h

/-- **The bytes of a name** are neither zero nor one. -/
theorem ne_of_mem_bytesOf {name : String} (h : Token.NameShaped name) {b : UInt8}
    (hb : b ∈ bytesOf name) : b ≠ 0 ∧ b ≠ 1 := by
  rw [bytesOf_eq] at hb
  obtain ⟨c, hc, hb⟩ := List.mem_flatMap.mp hb
  obtain ⟨hleast, hlt⟩ := h.toNat hc
  rw [utf8EncodeChar_of_lt hlt, List.mem_singleton] at hb
  have hvalue : b.toNat = c.toNat := by
    rw [hb, UInt32.toNat_toUInt8]
    show c.toNat % 2 ^ 8 = c.toNat
    exact Nat.mod_eq_of_lt (by omega)
  constructor
  · rintro rfl
    rw [← hvalue] at hleast
    exact absurd hleast (by decide)
  · rintro rfl
    rw [← hvalue] at hleast
    exact absurd hleast (by decide)

/-! ## Encodings -/

theorem encoding_cons (arg : String) (args : List String) (body : String) :
    encoding ⟨arg :: args, body⟩ = bytesOf arg ++ 0 :: encoding ⟨args, body⟩ := by
  simp [encoding]

/-- The names of arguments end where a one stands for the first byte of a name. -/
theorem encoding_nil_ne_cons {arg : String} (harg : Token.NameShaped arg) (args : List String)
    (body body' : String) : encoding ⟨[], body⟩ ≠ encoding ⟨arg :: args, body'⟩ := by
  rw [encoding_cons]
  cases hbytes : bytesOf arg with
  | nil =>
    intro h
    cases (List.cons.inj h).1
  | cons b bytes =>
    intro h
    have hb : b ∈ bytesOf arg := by
      rw [hbytes]
      exact List.mem_cons_self
    exact (ne_of_mem_bytesOf harg hb).2 (List.cons.inj h).1.symm

/-- **A source is known by its encoding**, when its names have the shape of identifiers. -/
theorem encoding_injOn {args args' : List String} {body body' : String}
    (hargs : Arguments.Named args) (hargs' : Arguments.Named args')
    (h : encoding ⟨args, body⟩ = encoding ⟨args', body'⟩) :
    ActionSource.mk args body = ⟨args', body'⟩ := by
  induction args generalizing args' with
  | nil =>
    cases args' with
    | nil =>
      obtain rfl : body = body' := bytesOf_injective (List.cons.inj h).2
      rfl
    | cons arg' args' =>
      exact absurd h (encoding_nil_ne_cons (hargs' arg' List.mem_cons_self) args' body body')
  | cons arg args ih =>
    have hzero {name : String} (hname : Token.NameShaped name) : 0 ∉ bytesOf name := by
      intro hmem
      exact (ne_of_mem_bytesOf hname hmem).1 rfl
    cases args' with
    | nil =>
      exact absurd h.symm (encoding_nil_ne_cons (hargs arg List.mem_cons_self) args body' body)
    | cons arg' args' =>
      -- the first zero ends the first name on both sides
      rw [encoding_cons, encoding_cons] at h
      obtain ⟨hbytes, hrest⟩ := Text.append_cons_inj_first (hzero (hargs arg List.mem_cons_self))
        (hzero (hargs' arg' List.mem_cons_self)) h
      have hsame := ih (fun name hname => hargs name (List.mem_cons_of_mem _ hname))
        (fun name hname => hargs' name (List.mem_cons_of_mem _ hname)) hrest
      obtain ⟨rfl, rfl⟩ := ActionSource.mk.inj hsame
      rw [bytesOf_injective hbytes]

/-! ## Fingerprints -/

variable {source source' : ActionSource}

/-- Sources whose names have the shape of identifiers are told apart by the bytes that are hashed. -/
theorem encoding_inj (h : Arguments.Named source.args) (h' : Arguments.Named source'.args) :
    source.encoding = source'.encoding ↔ source = source' :=
  ⟨encoding_injOn h h', congrArg encoding⟩

/-- **Sources have one fingerprint** exactly if they are the same, or their bytes are a collision. -/
theorem fingerprint_eq_iff (h : Arguments.Named source.args) (h' : Arguments.Named source'.args) :
    source.fingerprint = source'.fingerprint ↔
      source = source' ∨ Sha256.Collision source.encoding source'.encoding := by
  rw [fingerprint, fingerprint, Fingerprint.mk.injEq]
  constructor
  · intro hdigest
    by_cases hsame : source = source'
    · exact .inl hsame
    · exact .inr ⟨mt (encoding_inj h h').mp hsame, hdigest⟩
  · rintro (rfl | ⟨-, hdigest⟩)
    · rfl
    · exact hdigest

end ActionSource

end ParseActions
