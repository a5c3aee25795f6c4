import ParseActions.Proofs.Action.Arguments
import ParseActions.Proofs.Action.Numbering

/-!
# The names of arguments by default

Where the rules of a grammar are named by ASCII identifiers, so are the arguments that are named for
them: a name for a rule, a word or a repetition starts with a letter or an underscore and goes on with
letters, digits and underscores, is given up where it would be a reserved word, and keeps its form when
it is numbered. What remains to be checked is that no two arguments have the same name, and that holds
unless a name is there already that a repeated one is numbered to.

## Main definitions

* `ParsingExpr.ruleNames`: the rules that an expression applies
* `Token.isPlain`: the ASCII identifiers
* `Parameter.Bindable`: the names that an argument may have
* `ParsingExpr.defaultNames`: the names of the arguments before they are numbered

## Main results

* `ParsingExpr.bindable_of_mem_signature`: each name by default is one that an argument may have
* `ParsingExpr.resolve_signature`: the names by default are in order unless numbers clash
-/

namespace ParseActions

open Scanner (isNameStart isNameChar)

mutual

/-- The rules that an expression applies. -/
def ParsingExpr.ruleNames : ParsingExpr → List String
  | .mk shape _ => shape.ruleNames

/-- The rules that an expression of a form applies. -/
def Shape.ruleNames : Shape → List String
  | .apply rule => [rule]
  | .seq es | .alt es => ruleNamesIn es
  | .iter e _ | .not e | .lookahead e | .lex e => e.ruleNames
  | .terminal _ | .range .. | .category _ => []

/-- The rules that expressions apply. -/
def ruleNamesIn : List ParsingExpr → List String
  | [] => []
  | e :: es => e.ruleNames ++ ruleNamesIn es

end

/-! ## Identifiers in ASCII -/

namespace Token

variable {text : String}

/-- Whether a text is a letter or an underscore, and after it letters, digits and underscores. -/
def isPlain (text : String) : Bool :=
  match text.toList with
  | [] => false
  | c :: more => isNameStart c && more.all isNameChar

theorem isPlain_iff :
    isPlain text = true ↔ ∃ c more, text.toList = c :: more ∧ isNameStart c = true ∧
      ∀ d ∈ more, isNameChar d = true := by
  rw [isPlain]
  split
  · next hnil => simp [hnil]
  · next c more hcons => simp [hcons]

theorem isName_of_isPlain (h : isPlain text = true) (hfree : Keyword.ofWord? text = none) :
    IsName text := by
  obtain ⟨c, more, htext, hc, hmore⟩ := isPlain_iff.mp h
  exact ⟨⟨c, more, by rw [← htext, String.ofList_toList], .inl hc, hmore⟩, hfree⟩

/-- A text goes on being plain when letters, digits and underscores are added. -/
theorem isPlain_append {more : String} (h : isPlain text = true)
    (hmore : ∀ d ∈ more.toList, isNameChar d = true) : isPlain (text ++ more) = true := by
  obtain ⟨c, cs, htext, hc, hcs⟩ := isPlain_iff.mp h
  refine isPlain_iff.mpr ⟨c, cs ++ more.toList, by rw [String.toList_append, htext]; rfl, hc, ?_⟩
  exact List.forall_mem_append.mpr ⟨hcs, hmore⟩

/-- Each character of a plain text may stand in a name. -/
theorem isNameChar_of_isPlain (h : isPlain text = true) :
    ∀ d ∈ text.toList, isNameChar d = true := by
  obtain ⟨c, more, htext, hc, hmore⟩ := isPlain_iff.mp h
  rw [htext]
  refine List.forall_mem_cons.mpr ⟨?_, hmore⟩
  simp only [isNameStart, isNameChar, Char.isAlphanum, Bool.or_eq_true] at hc ⊢
  exact hc.imp_left .inl

/-- A character that starts a name is in the ASCII range. -/
theorem lt_of_isNameStart {c : Char} (hc : isNameStart c = true) : c.toNat < 128 := by
  have hcases : (c.isUpper = true ∨ c.isLower = true) ∨ c = '_' :=
    ((Bool.or_eq_true _ _).mp hc).imp (Bool.or_eq_true _ _).mp eq_of_beq
  rcases hcases with (hupper | hlower) | rfl
  · have hle : c.val ≤ 'Z'.val := (of_decide_eq_true hupper).2
    exact Nat.lt_of_le_of_lt (UInt32.le_iff_toNat_le.mp hle) (by decide)
  · have hle : c.val ≤ 'z'.val := of_decide_eq_true ((Bool.and_eq_true _ _).mp hlower).2
    exact Nat.lt_of_le_of_lt (UInt32.le_iff_toNat_le.mp hle) (by decide)
  · decide

/-- What holds of the characters of the ASCII range that start a name holds of all that do. -/
theorem forall_isNameStart {P : Char → Prop}
    (h : ∀ n < 128, isNameStart (Char.ofNat n) = true → P (Char.ofNat n)) {c : Char}
    (hc : isNameStart c = true) : P c := by
  have hP := h c.toNat (lt_of_isNameStart hc)
  rw [Char.ofNat_toNat] at hP
  exact hP hc

/-- The first character of a plain text may be put into another case. -/
theorem isPlain_mapFirst {f : Char → List Char} (h : isPlain text = true)
    (hf : ∀ c, isNameStart c = true → ∃ d, f c = [d] ∧ isNameStart d = true) :
    isPlain (Parameter.mapFirst f text) = true := by
  obtain ⟨c, more, htext, hc, hmore⟩ := isPlain_iff.mp h
  obtain ⟨d, hd, hstart⟩ := hf c hc
  refine isPlain_iff.mpr ⟨d, more, ?_, hstart, hmore⟩
  rw [Parameter.mapFirst, htext]
  simp [hd]

theorem isPlain_lowerFirst (h : isPlain text = true) :
    isPlain (Parameter.mapFirst Text.lowerChar text) = true := by
  refine isPlain_mapFirst h fun c hc => ⟨c.toLower, ?_, ?_⟩
  · rw [Text.lowerChar, if_pos (lt_of_isNameStart hc)]
  · exact forall_isNameStart (P := fun c => isNameStart c.toLower = true) (by decide +kernel) hc

theorem isPlain_upperFirst (h : isPlain text = true) :
    isPlain (Parameter.mapFirst Text.upperChar text) = true := by
  refine isPlain_mapFirst h fun c hc => ⟨c.toUpper, ?_, ?_⟩
  · rw [Text.upperChar, if_pos (lt_of_isNameStart hc)]
  · exact forall_isNameStart (P := fun c => isNameStart c.toUpper = true) (by decide +kernel) hc

/-- A word is plain behind an underscore. -/
theorem isPlain_underscore (h : Parameter.isWord text = true) : isPlain ("_" ++ text) = true := by
  refine isPlain_append rfl fun d hd => ?_
  rw [Parameter.isWord, Bool.and_eq_true, String.all_bool_eq, List.all_eq_true] at h
  exact h.2 d hd

end Token

/-! ## Names that an argument may have -/

namespace Parameter

variable {name text : String}

/-- A name is read as an identifier, and is not bound in every body anyway. -/
structure Bindable (name : String) : Prop where
  isName : Token.IsName name
  unreserved : name ∉ reserved

theorem Bindable.isIdentifier (h : Bindable name) : Arguments.isIdentifier name = true :=
  Arguments.isIdentifier_of_isName h.isName

theorem usable?_eq_some (h : usable? text = some name) :
    name = text ∧ Keyword.ofWord? name = none ∧ name ∉ reserved := by
  rw [usable?] at h
  split at h
  · cases h
  · next hfree =>
    obtain rfl := Option.some.inj h
    obtain ⟨-, hword, hreserved⟩ := by simpa only [not_or] using hfree
    exact ⟨rfl, by simpa using hword, hreserved⟩

/-- The names by default that stand for what is matched: plain texts that an argument may have. -/
structure Telling (name : String) : Prop where
  isPlain : Token.isPlain name = true
  free : Keyword.ofWord? name = none
  unreserved : name ∉ reserved

theorem Telling.bindable (h : Telling name) : Bindable name :=
  ⟨Token.isName_of_isPlain h.isPlain h.free, h.unreserved⟩

theorem telling_of_usable? (h : usable? text = some name) (htext : Token.isPlain text = true) :
    Telling name := by
  obtain ⟨rfl, hfree, hreserved⟩ := usable?_eq_some h
  exact ⟨htext, hfree, hreserved⟩

/-- A name with a character that no reserved word has is none of them. -/
theorem ofWord?_eq_none {c : Char} (hc : ∀ k ∈ Keyword.all, c ∉ k.word.toList)
    (hname : c ∈ name.toList) : Keyword.ofWord? name = none := by
  refine List.find?_eq_none.mpr fun k hk heq => ?_
  obtain rfl := beq_iff_eq.mp heq
  exact hc k hk hname

theorem not_mem_reserved {c : Char} (hc : ∀ word ∈ reserved, c ∉ word.toList)
    (hname : c ∈ name.toList) : name ∉ reserved :=
  fun hmem => hc name hmem hname

theorem isNameChar_toDigits (k : Nat) : ∀ d ∈ Nat.toDigits 10 k, isNameChar d = true := by
  intro d hd
  have hdigit := Nat.isDigit_of_mem_toDigits (by decide) (by decide) hd
  simp [isNameChar, Char.isAlphanum, hdigit]

/-- The name of a place. -/
theorem bindable_positional (place : Nat) : Bindable (positional place) := by
  have htext := toList_positional place
  have hdollar : '$' ∈ (positional place).toList := by simp [htext]
  refine ⟨⟨⟨'$', Nat.toDigits 10 place, ?_, .inr ⟨rfl, Nat.toDigits_ne_nil⟩,
    isNameChar_toDigits place⟩, ofWord?_eq_none (by decide) hdollar⟩,
    not_mem_reserved (by decide) hdollar⟩
  rw [← htext, String.ofList_toList]

/-- A name with a number. -/
theorem Bindable.suffixed (h : Bindable name) (k : Nat) : Bindable (suffixed name k) := by
  obtain ⟨c, more, hname, hc, hmore⟩ := h.isName.written
  have htext : (Parameter.suffixed name k).toList = c :: (more ++ '_' :: Nat.toDigits 10 k) := by
    rw [toList_suffixed, hname, String.toList_ofList, List.cons_append]
  have hunderscore : '_' ∈ (Parameter.suffixed name k).toList := by simp [htext]
  refine ⟨⟨⟨c, more ++ '_' :: Nat.toDigits 10 k, by rw [← htext, String.ofList_toList],
    hc.imp_right fun hc => ⟨hc.1, by simp⟩, ?_⟩, ofWord?_eq_none (by decide) hunderscore⟩,
    not_mem_reserved (by decide) hunderscore⟩
  exact List.forall_mem_append.mpr
    ⟨hmore, List.forall_mem_cons.mpr ⟨rfl, isNameChar_toDigits k⟩⟩

end Parameter

/-! ## The names of expressions -/

open Parameter

mutual

/-- A telling name is one that an argument may have. -/
theorem ParsingExpr.telling_of_argumentName? {name : String} :
    (e : ParsingExpr) → (∀ rule ∈ e.ruleNames, Token.isPlain rule = true) →
      e.argumentName? = some name → Telling name
  | .mk shape _, hrules, h => shape.telling_of_argumentName? hrules h

theorem Shape.telling_of_argumentName? {name : String} :
    (shape : Shape) → (∀ rule ∈ shape.ruleNames, Token.isPlain rule = true) →
      shape.argumentName? = some name → Telling name
  | .apply rule, hrules, h =>
    telling_of_usable? h (Token.isPlain_lowerFirst (hrules rule List.mem_cons_self))
  | .terminal text, _, h => by
    rw [Shape.argumentName?] at h
    split at h
    · next hword => exact telling_of_usable? h (Token.isPlain_underscore hword)
    · cases h
  | .iter inner op, hrules, h => by
    obtain ⟨word, hword, h⟩ := Option.bind_eq_some_iff.mp h
    have hplain := (inner.telling_of_argumentName? hrules hword).isPlain
    refine telling_of_usable? h ?_
    cases op with
    | star | plus => exact Token.isPlain_append hplain (List.all_eq_true.mp (by decide))
    | optional =>
      exact Token.isPlain_append rfl (Token.isNameChar_of_isPlain (Token.isPlain_upperFirst hplain))
  | .lookahead inner, hrules, h | .lex inner, hrules, h => by
    obtain ⟨word, hword, h⟩ := Option.bind_eq_some_iff.mp h
    exact telling_of_usable? h (inner.telling_of_argumentName? hrules hword).isPlain
  | .seq _, _, h | .alt _, _, h | .range .., _, h | .category _, _, h | .not _, _, h => nomatch h

end

/-- The factors that bind arguments apply no other rules. -/
theorem ruleNames_subset_of_mem_bindingFactors {e : ParsingExpr} {es : List ParsingExpr}
    (h : e ∈ bindingFactors es) : e.ruleNames ⊆ ruleNamesIn es := by
  fun_induction bindingFactors es with
  | case1 => cases h
  | case2 factors source rest ihfactors ihrest =>
    rw [ruleNamesIn]
    rcases List.mem_append.mp h with h | h
    · exact List.subset_append_of_subset_left _ (ihfactors h)
    · exact List.subset_append_of_subset_right _ (ihrest h)
  | case3 inner source rest ih =>
    exact List.subset_append_of_subset_right _ (ih h)
  | case4 first rest _ _ ih =>
    rcases List.mem_cons.mp h with rfl | h
    · exact List.subset_append_left _ _
    · exact List.subset_append_of_subset_right _ (ih h)

namespace ParsingExpr

variable {e factor : ParsingExpr} {name : String}

/-- The names of the arguments of an expression before they are numbered. -/
def defaultNames (e : ParsingExpr) : List String :=
  e.binders.mapIdx fun i e => e.argumentName?.getD (positional (i + 1))

/-- The arguments have the names by default, those that occur several times with numbers. -/
theorem map_name_signature (e : ParsingExpr) :
    e.signature.map Parameter.name = distinguished e.defaultNames := by
  rw [signature, List.map_zipWith, ← List.map_uncurry_zip_eq_zipWith]
  exact List.map_snd_zip (by simp)

/-- There is an argument for each expression that binds one, shown as that expression. -/
theorem map_display_signature (e : ParsingExpr) :
    e.signature.map Parameter.display = e.binders.map display := by
  have hpairs : (e.binders.zip (distinguished e.defaultNames)).map Prod.fst = e.binders :=
    List.map_fst_zip (by simp [defaultNames])
  calc e.signature.map Parameter.display
      = (e.binders.zip (distinguished e.defaultNames)).map (display ∘ Prod.fst) := by
        rw [signature, List.map_zipWith, ← List.map_uncurry_zip_eq_zipWith]
        rfl
    _ = e.binders.map display := by rw [← List.map_map, hpairs]

theorem length_signature (e : ParsingExpr) : e.signature.length = e.binders.length := by
  have hlengths := congrArg List.length e.map_display_signature
  rwa [List.length_map, List.length_map] at hlengths

theorem ruleNames_subset_of_mem_binders (h : factor ∈ e.binders) :
    factor.ruleNames ⊆ e.ruleNames := by
  obtain ⟨shape, source⟩ := e
  cases shape
  case seq factors => exact ruleNames_subset_of_mem_bindingFactors h
  all_goals
    obtain rfl := List.mem_singleton.mp h
    exact List.Subset.refl _

theorem bindable_of_mem_defaultNames (hrules : ∀ rule ∈ e.ruleNames, Token.isPlain rule = true)
    (h : name ∈ e.defaultNames) : Bindable name := by
  obtain ⟨i, hi, rfl⟩ := List.mem_mapIdx.mp h
  cases hname : e.binders[i].argumentName? with
  | none => exact bindable_positional (i + 1)
  | some word =>
    have hfactor := ruleNames_subset_of_mem_binders (List.getElem_mem hi)
    exact (telling_of_argumentName? _ (fun rule hmem => hrules rule (hfactor hmem)) hname).bindable

/-- **Names by default are names that an argument may have**, with their numbers. -/
theorem bindable_of_mem_signature (hrules : ∀ rule ∈ e.ruleNames, Token.isPlain rule = true)
    (h : name ∈ e.signature.map Parameter.name) : Bindable name := by
  rw [map_name_signature] at h
  exact distinguished_induction (fun _ k hx => hx.suffixed k)
    (fun _ hx => bindable_of_mem_defaultNames hrules hx) name h

/-- **Names by default are in order up to clashes.** Each is an identifier that is not reserved, so
they pass the check exactly when they are distinct; and if no name is there that a repeated one is
numbered to, they pass, and a rule without names of the author's has them. -/
theorem resolve_signature (e : ParsingExpr)
    (hrules : ∀ rule ∈ e.ruleNames, Token.isPlain rule = true) (action rule : String) :
    let names := e.signature.map Parameter.name
    (∀ name ∈ names, Arguments.isIdentifier name = true ∧ name ∉ reserved) ∧
      (Arguments.check (Arguments.fileName action rule) rule names = .ok () ↔ names.Nodup) ∧
      (¬ Clash e.defaultNames → Arguments.resolve action rule names [] = .ok names) := by
  intro names
  have hbindable (name : String) (h : name ∈ names) :
      Arguments.isIdentifier name = true ∧ name ∉ reserved :=
    have hname := bindable_of_mem_signature hrules h
    ⟨hname.isIdentifier, hname.unreserved⟩
  have hcheck : Arguments.check (Arguments.fileName action rule) rule names = .ok () ↔
      names.Nodup :=
    Arguments.check_eq_ok_iff_nodup.trans (and_iff_right hbindable)
  refine ⟨hbindable, hcheck, fun hclash => ?_⟩
  have hnodup : names.Nodup := by
    rw [show names = distinguished e.defaultNames from map_name_signature e]
    exact nodup_distinguished hclash
  exact Arguments.resolve_nil (hcheck.mpr hnodup)

/-- Two numbers, a sign between them, and digits. -/
def sum : ParsingExpr :=
  .of (.seq [.of (.apply "Num"), .of (.terminal "+"), .of (.apply "Num"),
    .of (.iter (.of (.apply "Digit")) .star)])

theorem defaultNames_sum : sum.defaultNames = ["num", "$2", "num", "digits"] := by
  have hbinders : sum.binders = [.of (.apply "Num"), .of (.terminal "+"), .of (.apply "Num"),
      .of (.iter (.of (.apply "Digit")) .star)] := by
    simp [binders, sum, of, shape, bindingFactors]
  have hsign : (of (.terminal "+")).argumentName? = none := by
    simp [of, argumentName?, Shape.argumentName?, isWord, String.all_bool_eq]
  rw [defaultNames, hbinders]
  simp only [List.mapIdx_cons, List.mapIdx_nil, hsign]
  decide +kernel

/-- The two numbers are told apart, and the sign is named for its place. -/
theorem resolve_signature_sum :
    (∀ rule ∈ sum.ruleNames, Token.isPlain rule = true) ∧ ¬ Clash sum.defaultNames ∧
      Arguments.resolve "value" "Sum" (sum.signature.map Parameter.name) [] =
        .ok ["num_1", "$2", "num_2", "digits"] := by
  have hrules : ∀ rule ∈ sum.ruleNames, Token.isPlain rule = true := by decide +kernel
  have hclash : ¬ Clash sum.defaultNames := by
    rw [defaultNames_sum]
    decide +kernel
  have hnames : sum.signature.map Parameter.name = ["num_1", "$2", "num_2", "digits"] := by
    rw [map_name_signature, defaultNames_sum]
    decide +kernel
  have hresolve := (resolve_signature sum hrules "value" "Sum").2.2 hclash
  exact ⟨hrules, hclash, hresolve.trans (congrArg Except.ok hnames)⟩

/-- A letter twice, and a rule that has the name of the first of them with its number. -/
def clashing : ParsingExpr :=
  .of (.seq [.of (.apply "a"), .of (.apply "a"), .of (.apply "a_1")])

theorem defaultNames_clashing : clashing.defaultNames = ["a", "a", "a_1"] := by
  have hbinders : clashing.binders = [.of (.apply "a"), .of (.apply "a"), .of (.apply "a_1")] := by
    simp [binders, clashing, of, shape, bindingFactors]
  rw [defaultNames, hbinders]
  decide +kernel

/-- Where a repeated name is numbered to one that is there, the names by default are refused, under
every action and for every rule. -/
theorem check_signature_clashing :
    (∀ rule ∈ clashing.ruleNames, Token.isPlain rule = true) ∧
      clashing.signature.map Parameter.name = ["a_1", "a_2", "a_1"] ∧
      ∀ action rule, Arguments.check (Arguments.fileName action rule) rule
        (clashing.signature.map Parameter.name) ≠ .ok () := by
  have hnames : clashing.signature.map Parameter.name = ["a_1", "a_2", "a_1"] := by
    rw [map_name_signature, defaultNames_clashing]
    decide +kernel
  refine ⟨by decide +kernel, hnames, fun action rule hcheck => ?_⟩
  have hnodup := (Arguments.check_eq_ok_iff_nodup.mp hcheck).2
  rw [hnames] at hnodup
  exact absurd hnodup (by decide)

end ParsingExpr

end ParseActions
