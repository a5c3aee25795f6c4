import Mathlib.Tactic.IntervalCases
import ParseActions.Json.Printer
import ParseActions.Json.Reader

/-!
# Documents are read back from their text

A document without doubles is read back from the text it is written as. Reading a value stops where
its text ends: a string ends at its closing quote and a list or an object at its bracket, and what
follows a number within a document is no part of a number.

## Main definitions

* `Json.Exact`: documents that are written without loss
* `Json.written`: the characters that a document is written as
* `Json.Reader.EndsNumber`: texts that no number goes on with

## Main results

* `Json.Reader.string?_escaped`: a string is read back up to its closing quote
* `Json.Reader.number?_toDigits`: a whole number is read back from its digits
* `Json.Exact.value?_written`: a document is read back, and the text after it is left
* `Json.readDeep?_render`: a text is read as the document that it was written for
-/

namespace ParseActions

namespace Json

/-- A document without doubles, whose numbers fit a 64-bit word and whose parts stand for values. -/
inductive Exact : Json → Prop
  | null : Exact null
  | bool (b : Bool) : Exact (bool b)
  | int {n : Int} (low : -Double.signBit ≤ n) (high : n ≤ Double.maxWord) : Exact (int n)
  | string (s : String) : Exact (string s)
  | array {items : List Json} (parts : ∀ item ∈ items, item.Exact) : Exact (array items)
  | object {fields : List (String × Json)} (parts : ∀ field ∈ fields, field.2.Exact) :
    Exact (object fields)

namespace Exact

theorem nat {n : Nat} (h : n ≤ Double.maxWord) : (nat n).Exact :=
  .int (by omega) (Int.ofNat_le.mpr h)

variable {α : Type} {encode : α → Json}

theorem list {as : List α} (h : ∀ a ∈ as, (encode a).Exact) : (list encode as).Exact :=
  .array (List.forall_mem_map.mpr h)

theorem optionalField {name : String} {o : Option α} (h : ∀ a ∈ o, (encode a).Exact) :
    ∀ field ∈ optionalField name encode o, field.2.Exact := by
  cases o with
  | none => simp [Json.optionalField]
  | some a => simpa [Json.optionalField] using h a rfl

end Exact

/-! ## The text of a document -/

mutual

/-- The characters that a document is written as. -/
def written : Json → List Char
  | null | unusable => ['n', 'u', 'l', 'l']
  | bool true => ['t', 'r', 'u', 'e']
  | bool false => ['f', 'a', 'l', 's', 'e']
  | int n => (toString n).toList
  | float x => (renderDouble x).toList
  | string s => (Text.quoted s).toList
  | array items => '[' :: (writtenItems true items ++ [']'])
  | object fields => '{' :: (writtenFields true fields ++ ['}'])

/-- The characters of some items, with commas between them. -/
def writtenItems (first : Bool) : List Json → List Char
  | [] => []
  | item :: items => (if first then [] else [',']) ++ item.written ++ writtenItems false items

/-- The characters of some fields, with commas between them. -/
def writtenFields (first : Bool) : List (String × Json) → List Char
  | [] => []
  | (name, value) :: fields =>
    (if first then [] else [',']) ++ (Text.quoted name).toList ++ ':' :: value.written ++
      writtenFields false fields

end

mutual

/-- A document is written after a text. -/
theorem toList_renderAfter (out : String) : (json : Json) →
    (renderAfter out json).toList = out.toList ++ json.written
  | null | unusable => by simp [renderAfter, written]
  | bool true | bool false => by simp [renderAfter, written]
  | int n | float x | string s => by simp [renderAfter, written]
  | array items => by simp [renderAfter, written, toList_renderItems _ true items]
  | object fields => by simp [renderAfter, written, toList_renderFields _ true fields]

theorem toList_renderItems (out : String) (first : Bool) : (items : List Json) →
    (renderItems out first items).toList = out.toList ++ writtenItems first items
  | [] => by simp [renderItems, writtenItems]
  | item :: items => by
    rw [renderItems, toList_renderItems _ false items, toList_renderAfter _ item, writtenItems]
    cases first <;> simp

theorem toList_renderFields (out : String) (first : Bool) : (fields : List (String × Json)) →
    (renderFields out first fields).toList = out.toList ++ writtenFields first fields
  | [] => by simp [renderFields, writtenFields]
  | (name, value) :: fields => by
    rw [renderFields, toList_renderFields _ false fields, toList_renderAfter _ value, writtenFields]
    cases first <;> simp

end

theorem toList_render (json : Json) : json.render.toList = json.written := by
  rw [render, toList_renderAfter, String.toList_empty, List.nil_append]

namespace Reader

variable {c : Char} {cs out rest : List Char} {fuel n : Nat}

/-! ## Strings -/

/-- The two last digits of the escape of a control character are read back. -/
theorem hexUnit?_hexDigit :
    ∀ n < 32, hexUnit? '0' '0' (Text.hexDigit (n / 16)) (Text.hexDigit n) = some n := by
  decide

/-- A control character is read from its escape, whether or not another escape follows. -/
theorem string?_control (h : c.toNat < 32) (out rest : List Char) :
    string? out true
      ('\\' :: 'u' :: '0' :: '0' :: Text.hexDigit (c.toNat / 16) :: Text.hexDigit c.toNat :: rest) =
      string? (c :: out) true rest := by
  have hunit := hexUnit?_hexDigit c.toNat h
  rw [string?.eq_def]
  split
  case h_3 heq =>
    simp only [List.cons.injEq, true_and] at heq
    obtain ⟨rfl, rfl, rfl, rfl, rfl⟩ := heq
    rw [hunit]
    dsimp only
    rw [if_neg (by omega), if_neg (by omega), Char.ofNat_toNat]
  case h_4 heq =>
    simp only [List.cons.injEq, true_and] at heq
    obtain ⟨rfl, rfl, rfl, rfl, rfl⟩ := heq
    rw [hunit]
    dsimp only
    rw [if_neg (by omega), Char.ofNat_toNat]
  -- the other forms do not start with the four digits of an escape
  case h_5 hother heq =>
    simp only [List.cons.injEq, true_and] at heq
    obtain ⟨rfl, rfl⟩ := heq
    exact (hother _ _ _ _ _ rfl rfl).elim
  case h_6 hother heq =>
    simp only [List.cons.injEq] at heq
    obtain ⟨rfl, rfl⟩ := heq
    exact (hother _ _ rfl rfl).elim
  all_goals simp at *

/-- A character is read back from the way it is written. -/
theorem string?_escape (c : Char) (out rest : List Char) :
    string? out true (Text.escape c ++ rest) = string? (c :: out) true rest := by
  unfold Text.escape
  split
  case h_8 hquote hbackslash _ _ _ _ _ =>
    split
    · next hcontrol => exact string?_control hcontrol out rest
    · next hplain =>
      rw [List.singleton_append, string?.eq_def]
      split
      case h_6 heq =>
        obtain ⟨rfl, rfl⟩ := List.cons.inj heq
        rw [if_neg hplain]
      all_goals simp_all
  all_goals rfl

/-- **A string is read back** up to its closing quote. -/
theorem string?_escaped (out cs rest : List Char) :
    string? out true (cs.flatMap Text.escape ++ '"' :: rest) =
      some (some (String.ofList (out.reverse ++ cs)), rest) := by
  induction cs generalizing out with
  | nil => simp [string?]
  | cons c cs ih =>
    rw [List.flatMap_cons, List.append_assoc, string?_escape, ih, List.reverse_cons,
      List.append_assoc, List.singleton_append]

theorem string?_quoted (s : String) (rest : List Char) :
    ∃ text, (Text.quoted s).toList ++ rest = '"' :: text ∧
      string? [] true text = some (some s, rest) := by
  refine ⟨s.toList.flatMap Text.escape ++ '"' :: rest, ?_, ?_⟩
  · simp [Text.quoted]
  · rw [string?_escaped, List.reverse_nil, List.nil_append, String.ofList_toList]

/-! ## Numbers -/

/-- The text starts with a character that no number goes on with, or is empty. -/
def EndsNumber (rest : List Char) : Prop :=
  ∀ c ∈ rest.head?, c ≠ '.' ∧ c ≠ 'e' ∧ c ≠ 'E' ∧ c.isDigit = false

theorem endsNumber_nil : EndsNumber [] := by
  simp [EndsNumber]

theorem le_ofDigitChars (cs : List Char) (n : Nat) : n ≤ Nat.ofDigitChars 10 cs n := by
  rw [Nat.ofDigitChars_eq_ofDigitChars_zero]
  exact Nat.le_add_right_of_le (Nat.le_mul_of_pos_left n (Nat.pow_pos (by decide)))

/-- The digits of a number that fits a word are all collected. -/
theorem significand_eq (h : Nat.ofDigitChars 10 cs n ≤ Double.maxWord) :
    significand n cs = (Nat.ofDigitChars 10 cs n, 0) := by
  induction cs generalizing n with
  | nil => rfl
  | cons d cs ih =>
    rw [Nat.ofDigitChars_cons, Nat.mul_comm] at h ⊢
    have hnext := le_ofDigitChars cs (n * 10 + (d.toNat - '0'.toNat))
    rw [significand, if_neg (by omega), ih h]

/-- The digits of a number do not start with a zero, unless it is zero. -/
theorem head?_toDigits_ne (hn : 0 < n) : (Nat.toDigits 10 n).head? ≠ some '0' := by
  induction n using Nat.strongRecOn with
  | ind n ih =>
    rw [Nat.toDigits_eq_if (by decide)]
    split
    · next hlt => interval_cases n <;> decide
    · next hge =>
      have hfirst := ih (n / 10) (by omega) (by omega)
      obtain ⟨d, ds, hds⟩ := List.exists_cons_of_ne_nil (Nat.toDigits_ne_nil (n := n / 10) (b := 10))
      rw [hds] at hfirst ⊢
      exact hfirst

/-- **A whole number is read back** from its digits. -/
theorem number?_toDigits (negative : Bool) (n : Nat) (h : EndsNumber rest) :
    number? negative (Nat.toDigits 10 n ++ rest) =
      some (Numeral.value ⟨negative, Nat.toDigits 10 n, [], none⟩, rest) := by
  have hdigits : ∀ d ∈ Nat.toDigits 10 n, d.isDigit = true := fun d hd =>
    Nat.isDigit_of_mem_toDigits (by decide) (by decide) hd
  have hnone : rest.takeWhile Char.isDigit = [] ∧ rest.dropWhile Char.isDigit = rest := by
    cases rest with
    | nil => exact ⟨rfl, rfl⟩
    | cons c after =>
      have hc := (h c rfl).2.2.2
      exact ⟨List.takeWhile_cons_of_neg (by simp [hc]), List.dropWhile_cons_of_neg (by simp [hc])⟩
  have htake : (Nat.toDigits 10 n ++ rest).takeWhile Char.isDigit = Nat.toDigits 10 n := by
    rw [List.takeWhile_append_of_pos hdigits, hnone.1, List.append_nil]
  have hdrop : (Nat.toDigits 10 n ++ rest).dropWhile Char.isDigit = rest := by
    rw [List.dropWhile_append_of_pos hdigits, hnone.2]
  have hwhole : ((Nat.toDigits 10 n).isEmpty ||
      ((Nat.toDigits 10 n).head? == some '0' && (Nat.toDigits 10 n).length != 1)) = false := by
    rcases Nat.eq_zero_or_pos n with rfl | hn
    · decide
    · simp [head?_toDigits_ne hn, Nat.toDigits_ne_nil]
  rw [number?]
  simp only [htake, hdrop, hwhole]
  cases rest with
  | nil => rfl
  | cons c after =>
    obtain ⟨hpoint, he, hE, -⟩ := h c rfl
    simp [hpoint, he, hE]

/-- White space is none of the characters that a value or a field starts with. -/
theorem skipSpace_cons (h : c ∉ [' ', '\n', '\t', '\r']) (cs : List Char) :
    skipSpace (c :: cs) = c :: cs := by
  simp only [List.mem_cons, List.not_mem_nil, or_false, not_or] at h
  simp [skipSpace, h]

theorem not_space_of_isDigit (hc : c.isDigit = true) : c ∉ [' ', '\n', '\t', '\r'] := by
  intro hmem
  simp only [List.mem_cons, List.not_mem_nil, or_false] at hmem
  rcases hmem with rfl | rfl | rfl | rfl <;> cases hc

/-- A value that starts with a digit is a number. -/
theorem value?_of_isDigit (hc : c.isDigit = true) (fuel : Nat) (cs : List Char) :
    value? (fuel + 1) (c :: cs) = number? false (c :: cs) := by
  rw [value?, skipSpace_cons (not_space_of_isDigit hc)]
  split
  case h_8 => rfl
  all_goals
    next heq =>
      obtain ⟨rfl, -⟩ := List.cons.inj heq
      cases hc

/-- A whole number that fits its word keeps its digits. -/
theorem Numeral.value_toDigits (h : n ≤ Double.maxWord) :
    Numeral.value ⟨false, Nat.toDigits 10 n, [], none⟩ = int n ∧
      (0 < n → n ≤ Double.signBit →
        Numeral.value ⟨true, Nat.toDigits 10 n, [], none⟩ = int (-n)) := by
  have hn : significand 0 (Nat.toDigits 10 n) = (n, 0) := by
    rw [significand_eq (by rwa [Nat.ofDigitChars_ten_toDigits]), Nat.ofDigitChars_ten_toDigits]
  constructor
  · simp [Numeral.value, hn]
  · intro hpos hword
    simp [Numeral.value, hn, hpos, hword]

theorem written_ofNat (n : Nat) : ∃ d ds, (int (.ofNat n)).written = d :: ds ∧
    d.isDigit = true ∧ Nat.toDigits 10 n = d :: ds := by
  have hwritten : (int (.ofNat n)).written = Nat.toDigits 10 n := by
    change (toString n).toList = _
    rw [Nat.toString_eq_ofList_toDigits, String.toList_ofList]
  obtain ⟨d, ds, hds⟩ := List.exists_cons_of_ne_nil (Nat.toDigits_ne_nil (n := n) (b := 10))
  refine ⟨d, ds, hwritten.trans hds, ?_, hds⟩
  exact Nat.isDigit_of_mem_toDigits (by decide) (by decide) (hds ▸ List.mem_cons_self)

theorem written_negSucc (n : Nat) :
    (int (.negSucc n)).written = '-' :: Nat.toDigits 10 (n + 1) := by
  change ("-" ++ toString (n + 1)).toList = _
  simp

/-- **A whole number** is read back from the text it is written as. -/
theorem value?_int {n : Int} (low : -Double.signBit ≤ n) (high : n ≤ Double.maxWord) (fuel : Nat)
    (hrest : EndsNumber rest) :
    value? (fuel + 1) ((int n).written ++ rest) = some (int n, rest) := by
  cases n with
  | ofNat n =>
    have hword : n ≤ Double.maxWord := Int.ofNat_le.mp high
    have hnumber := number?_toDigits false n hrest
    rw [(Numeral.value_toDigits hword).1] at hnumber
    obtain ⟨d, ds, hwritten, hd, hds⟩ := written_ofNat n
    rw [hds] at hnumber
    rw [hwritten, List.cons_append, value?_of_isDigit hd]
    exact hnumber
  | negSucc n =>
    have hword : n + 1 ≤ Double.signBit := by omega
    have hnumber := number?_toDigits true (n + 1) hrest
    rw [(Numeral.value_toDigits (hword.trans (by decide))).2 n.succ_pos hword] at hnumber
    rw [written_negSucc]
    exact hnumber

/-! ## Documents -/

theorem endsNumber_cons (h : c ∈ [',', ']', '}']) (cs : List Char) : EndsNumber (c :: cs) := by
  rintro d ⟨⟩
  simp only [List.mem_cons, List.not_mem_nil, or_false] at h
  rcases h with rfl | rfl | rfl <;> decide

/-- The document is read back from the text it is written as, and the text after it is left. -/
def Reads (json : Json) : Prop :=
  ∀ {fuel : Nat} {rest : List Char}, json.written.length ≤ fuel → EndsNumber rest →
    value? fuel (json.written ++ rest) = some (json, rest)

theorem writtenItems_cons (item : Json) (items : List Json) :
    writtenItems false (item :: items) = ',' :: writtenItems true (item :: items) := by
  simp [writtenItems]

theorem writtenFields_cons (field : String × Json) (fields : List (String × Json)) :
    writtenFields false (field :: fields) = ',' :: writtenFields true (field :: fields) := by
  simp [writtenFields]

section Steps

variable {items : List Json} {item : Json} {fields : List (String × Json)} {name : String}
  {text : List Char}

theorem items?_more (h : value? fuel cs = some (item, ',' :: rest)) :
    items? (fuel + 1) items cs = items? fuel (item :: items) rest := by
  rw [items?, h]
  rfl

theorem items?_last (h : value? fuel cs = some (item, ']' :: rest)) :
    items? (fuel + 1) items cs = some (array (item :: items).reverse, rest) := by
  rw [items?, h]
  rfl

theorem fields?_more (hname : string? [] true text = some (some name, ':' :: cs))
    (h : value? fuel cs = some (item, ',' :: rest)) :
    fields? (fuel + 1) fields true ('"' :: text) = fields? fuel ((name, item) :: fields) true rest := by
  rw [fields?, skipSpace_cons (by decide)]
  simp only [hname, skipSpace_cons (c := ':') (by decide), h, skipSpace_cons (c := ',') (by decide)]
  rfl

theorem fields?_last (hname : string? [] true text = some (some name, ':' :: cs))
    (h : value? fuel cs = some (item, '}' :: rest)) :
    fields? (fuel + 1) fields true ('"' :: text) =
      some (object ((name, item) :: fields).reverse, rest) := by
  rw [fields?, skipSpace_cons (by decide)]
  simp only [hname, skipSpace_cons (c := ':') (by decide), h, skipSpace_cons (c := '}') (by decide)]
  rfl

theorem value?_array (hspace : c ∉ [' ', '\n', '\t', '\r']) (hclose : c ≠ ']') :
    value? (fuel + 1) ('[' :: c :: cs) = items? fuel [] (c :: cs) := by
  simp only [value?, skipSpace_cons (c := '[') (by decide), skipSpace_cons hspace]
  split
  · next heq => exact absurd (List.cons.inj heq).1 hclose
  · rfl

theorem value?_object : value? (fuel + 1) ('{' :: '"' :: cs) = fields? fuel [] true ('"' :: cs) :=
  rfl

end Steps

/-- **Items are read back** up to the closing bracket. -/
theorem items?_written {out items : List Json} (hne : items ≠ [])
    (hitems : ∀ item ∈ items, Reads item) (hfuel : (writtenItems true items).length < fuel) :
    items? fuel out (writtenItems true items ++ ']' :: rest) =
      some (array (out.reverse ++ items), rest) := by
  induction items generalizing fuel out with
  | nil => exact absurd rfl hne
  | cons item items ih =>
    obtain ⟨hitem, hitems⟩ := List.forall_mem_cons.mp hitems
    obtain ⟨fuel, rfl⟩ := Nat.exists_eq_add_one_of_ne_zero (Nat.ne_zero_of_lt hfuel)
    have hwritten : writtenItems true (item :: items) = item.written ++ writtenItems false items :=
      by simp [writtenItems]
    rw [hwritten, List.length_append] at hfuel
    rw [hwritten, List.append_assoc]
    cases items with
    | nil =>
      rw [writtenItems, List.nil_append,
        items?_last (hitem (by omega) (endsNumber_cons (by decide) rest)), List.reverse_cons]
    | cons next items =>
      rw [writtenItems_cons, List.length_cons] at hfuel
      rw [writtenItems_cons, List.cons_append,
        items?_more (hitem (by omega) (endsNumber_cons (by decide) _)),
        ih (by simp) hitems (by omega), List.reverse_cons, List.append_assoc, List.singleton_append]

/-- **Fields are read back** up to the closing brace. -/
theorem fields?_written {out fields : List (String × Json)} (hne : fields ≠ [])
    (hfields : ∀ field ∈ fields, Reads field.2)
    (hfuel : (writtenFields true fields).length < fuel) :
    fields? fuel out true (writtenFields true fields ++ '}' :: rest) =
      some (object (out.reverse ++ fields), rest) := by
  induction fields generalizing fuel out with
  | nil => exact absurd rfl hne
  | cons field fields ih =>
    obtain ⟨name, value⟩ := field
    obtain ⟨hvalue, hfields⟩ : Reads value ∧ ∀ field ∈ fields, Reads field.2 :=
      List.forall_mem_cons.mp hfields
    obtain ⟨fuel, rfl⟩ := Nat.exists_eq_add_one_of_ne_zero (Nat.ne_zero_of_lt hfuel)
    have hwritten : writtenFields true ((name, value) :: fields) =
        (Text.quoted name).toList ++ ':' :: (value.written ++ writtenFields false fields) := by
      simp [writtenFields]
    rw [hwritten, List.length_append, List.length_cons, List.length_append] at hfuel
    obtain ⟨text, htext, hname⟩ := string?_quoted name
      (':' :: (value.written ++ (writtenFields false fields ++ '}' :: rest)))
    rw [hwritten, List.append_assoc, List.cons_append, List.append_assoc, htext]
    cases fields with
    | nil =>
      rw [writtenFields, List.nil_append] at hname
      rw [fields?_last hname (hvalue (by omega) (endsNumber_cons (by decide) rest)),
        List.reverse_cons]
    | cons next fields =>
      rw [writtenFields_cons, List.length_cons] at hfuel
      rw [writtenFields_cons, List.cons_append] at hname
      rw [fields?_more hname (hvalue (by omega) (endsNumber_cons (by decide) _)),
        ih (by simp) hfields (by omega), List.reverse_cons, List.append_assoc, List.singleton_append]

/-- A value starts with a character that is neither white space nor closes a list. -/
theorem exists_written {json : Json} (h : json.Exact) :
    ∃ c cs, json.written = c :: cs ∧ c ∉ [' ', '\n', '\t', '\r'] ∧ c ≠ ']' := by
  cases h with
  | null => exact ⟨'n', _, rfl, by decide, by decide⟩
  | bool b => cases b <;> exact ⟨_, _, rfl, by decide, by decide⟩
  | @int n low high =>
    cases n with
    | ofNat n =>
      obtain ⟨d, ds, hwritten, hd, -⟩ := written_ofNat n
      exact ⟨d, ds, hwritten, not_space_of_isDigit hd, by rintro rfl; cases hd⟩
    | negSucc n => exact ⟨'-', _, written_negSucc n, by decide, by decide⟩
  | string s =>
    obtain ⟨text, htext, -⟩ := string?_quoted s []
    exact ⟨'"', text, by rw [written, ← htext, List.append_nil], by decide, by decide⟩
  | array parts => exact ⟨'[', _, rfl, by decide, by decide⟩
  | object parts => exact ⟨'{', _, rfl, by decide, by decide⟩

/-- Every document is written with a character at least, so there is fuel for a value. -/
theorem reads_of_succ {json : Json} (h : json.Exact)
    (hread : ∀ (fuel : Nat) (rest : List Char), json.written.length ≤ fuel + 1 → EndsNumber rest →
      value? (fuel + 1) (json.written ++ rest) = some (json, rest)) : Reads json := by
  intro fuel rest hfuel hrest
  obtain ⟨c, cs, hwritten, -⟩ := exists_written h
  obtain ⟨fuel, rfl⟩ := Nat.exists_eq_add_one_of_ne_zero (n := fuel) (by
    rintro rfl
    simp [hwritten] at hfuel)
  exact hread fuel rest hfuel hrest

theorem reads_array {items : List Json} (h : ∀ item ∈ items, item.Exact)
    (hitems : ∀ item ∈ items, Reads item) : Reads (array items) := by
  refine reads_of_succ (.array h) fun fuel rest hfuel _ => ?_
  cases items with
  | nil => rfl
  | cons item items =>
    obtain ⟨c, cs, hwritten, hspace, hclose⟩ := exists_written (h item List.mem_cons_self)
    have hfirst : writtenItems true (item :: items) = c :: (cs ++ writtenItems false items) := by
      simp [writtenItems, hwritten]
    rw [written, List.length_cons, List.length_append, List.length_singleton] at hfuel
    rw [written, List.cons_append, List.append_assoc, List.singleton_append, hfirst,
      List.cons_append, value?_array hspace hclose, ← List.cons_append, ← hfirst,
      items?_written (by simp) hitems (by omega)]
    rfl

theorem reads_object {fields : List (String × Json)} (h : ∀ field ∈ fields, field.2.Exact)
    (hfields : ∀ field ∈ fields, Reads field.2) : Reads (object fields) := by
  refine reads_of_succ (.object h) fun fuel rest hfuel _ => ?_
  cases fields with
  | nil => rfl
  | cons field fields =>
    obtain ⟨text, htext, -⟩ := string?_quoted field.1 (':' :: field.2.written)
    have hfirst : writtenFields true (field :: fields) =
        '"' :: (text ++ writtenFields false fields) := by
      rw [← List.cons_append, ← htext]
      simp [writtenFields]
    rw [written, List.length_cons, List.length_append, List.length_singleton] at hfuel
    rw [written, List.cons_append, List.append_assoc, List.singleton_append, hfirst,
      List.cons_append, value?_object, ← List.cons_append, ← hfirst,
      fields?_written (by simp) hfields (by omega)]
    rfl

end Reader

open Reader

/-- **A document is read back** from the text it is written as, and the text after it is left. -/
theorem Exact.reads {json : Json} (h : json.Exact) : Reads json := by
  induction h with
  | null => exact reads_of_succ .null fun _ _ _ _ => rfl
  | bool b => exact reads_of_succ (.bool b) fun _ _ _ _ => by cases b <;> rfl
  | int low high =>
    exact reads_of_succ (.int low high) fun fuel _ _ hrest => value?_int low high fuel hrest
  | string s =>
    refine reads_of_succ (.string s) fun fuel rest _ _ => ?_
    obtain ⟨text, htext, hread⟩ := string?_quoted s rest
    rw [written, htext, value?, skipSpace_cons (by decide)]
    simp [hread]
  | array parts ih => exact reads_array parts ih
  | object parts ih => exact reads_object parts ih

/-- **A text is read** as the document that it was written for. -/
theorem readDeep?_render {json : Json} (h : json.Exact) : readDeep? json.render = some json := by
  have hread : value? (json.written.length + 1) (json.written ++ []) = some (json, []) :=
    h.reads (Nat.le_succ _) endsNumber_nil
  rw [List.append_nil] at hread
  simp only [readDeep?, toList_render, hread]
  rfl

end Json

end ParseActions
