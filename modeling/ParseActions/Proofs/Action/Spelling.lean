import Mathlib.Logic.Basic
import ParseActions.Proofs.Action.Arguments
import ParseActions.Proofs.Diagnostic

/-!
# How the names of arguments are spelled

Whether a name is an identifier is decided by reading it as the text of a body: it is one if it is read as
one identifier, and nothing else is found or reported. What is passed over on the way, such as blanks and
comments, is not part of the identifier, and so is not in a name that is. This leaves the spellings of
identifiers: a letter or underscore, or a dollar sign with something after it, and then letters, digits
and underscores; the reserved words are left out. With these spellings the check of names is decided
without reading anything, and there is one report for each name that is not in order.

## Main definitions

* `Arguments.Spelled`: the spellings of identifiers
* `Arguments.Offends`, `Arguments.offending`: the places at which a name is not in order

## Main results

* `Arguments.isIdentifier_iff`: names that are read as identifiers, by their spelling
* `Arguments.map_span_reports`: there is a report for each place at which a name is not in order
* `Arguments.check_decides`: the names that are in order, and the reports on all others
-/

namespace ParseActions

open Scanner (isNameStart isNameChar)

namespace Arguments

variable {file header name : String} {before names : List String}

/-! ## Spellings -/

/-- The spellings of identifiers: after the first character there are only ASCII letters, digits and
underscores. The first one is a letter or an underscore, and the name is no reserved word, or it is a
dollar sign, and the name goes on after it. -/
def Spelled (name : String) : Prop :=
  (∀ c ∈ name.toList.tail, c.isAlphanum = true ∨ c = '_') ∧
    (name.toList.head?.any (fun c => c.isAlpha || c == '_') = true ∧
        name ∉ Keyword.all.map Keyword.word ∨
      name.toList.head? = some '$' ∧ name.toList.tail ≠ [])

instance : DecidablePred Spelled :=
  fun _ => inferInstanceAs (Decidable (_ ∧ _))

theorem ofWord?_eq_none_iff : Keyword.ofWord? name = none ↔ name ∉ Keyword.all.map Keyword.word := by
  rw [Keyword.ofWord?, List.find?_eq_none, List.mem_map]
  simp only [beq_iff_eq, not_exists, not_and]

/-- No reserved word has a dollar sign. -/
theorem ofWord?_of_dollar {more : List Char} :
    Keyword.ofWord? (String.ofList ('$' :: more)) = none := by
  have hwords : ∀ word ∈ Keyword.all.map Keyword.word, word.toList.head? ≠ some '$' := by decide
  refine ofWord?_eq_none_iff.mpr fun hmem => hwords _ hmem ?_
  rw [String.toList_ofList, List.head?_cons]

/-- A spelling is that of a name that is read as itself. -/
theorem spelled_iff_isName : Spelled name ↔ Token.IsName name := by
  have hchar (c : Char) : isNameChar c = true ↔ c.isAlphanum = true ∨ c = '_' := by
    rw [isNameChar, Bool.or_eq_true, beq_iff_eq]
  constructor
  · rintro ⟨htail, hfirst⟩
    cases hname : name.toList with
    | nil =>
      rw [hname] at hfirst
      rcases hfirst with ⟨hfirst, -⟩ | ⟨hfirst, -⟩
      · cases hfirst
      · cases hfirst
    | cons c more =>
      obtain rfl : name = String.ofList (c :: more) := by rw [← hname, String.ofList_toList]
      rw [hname] at htail hfirst
      have hmore : ∀ d ∈ more, isNameChar d = true := fun d hd => (hchar d).mpr (htail d hd)
      rcases hfirst with ⟨hc, hfree⟩ | ⟨hc, hne⟩
      · exact ⟨⟨c, more, rfl, .inl hc, hmore⟩, ofWord?_eq_none_iff.mpr hfree⟩
      · obtain rfl : c = '$' := Option.some.inj hc
        exact ⟨⟨'$', more, rfl, .inr ⟨rfl, hne⟩, hmore⟩, ofWord?_of_dollar⟩
  · rintro ⟨⟨c, more, rfl, hc, hmore⟩, hfree⟩
    rw [Spelled, String.toList_ofList]
    refine ⟨fun d hd => (hchar d).mp (hmore d hd), ?_⟩
    rcases hc with hc | ⟨rfl, hne⟩
    · exact .inl ⟨hc, ofWord?_eq_none_iff.mp hfree⟩
    · exact .inr ⟨rfl, hne⟩

/-- **A name is an identifier** just when it is spelled like one. -/
theorem isIdentifier_iff : isIdentifier name = true ↔ Spelled name :=
  ⟨fun h => spelled_iff_isName.mpr (isName_of_isIdentifier h),
    fun h => isIdentifier_of_isName (spelled_iff_isName.mp h)⟩

/-! ## Places of reports -/

/-- The name at a place, counted from zero, is not in order: every body has it anyway, it is not spelled
like an identifier, or it stands before that place, too. -/
def Offends (args : List String) (i : Nat) : Prop :=
  ∃ name ∈ args[i]?, name ∈ Parameter.reserved ∨ ¬ Spelled name ∨ name ∈ args.take i

instance (args : List String) : DecidablePred (Offends args) :=
  fun i => inferInstanceAs (Decidable (∃ name ∈ args[i]?, _))

/-- The places at which a name is not in order. -/
def offending (args : List String) : List Nat :=
  (List.range args.length).filter fun i => Offends args i

/-- Something is wrong with a name after others just at a place at which it is not in order. -/
theorem fault?_isSome_iff :
    (fault? before name).isSome = true ↔ Offends (before ++ name :: names) before.length := by
  have hname : (before ++ name :: names)[before.length]? = some name := by
    rw [List.getElem?_append_right (Nat.le_refl _), Nat.sub_self, List.getElem?_cons_zero]
  rw [Option.isSome_iff_ne_none, Ne, fault?_eq_none, isIdentifier_iff, Offends, hname,
    List.take_left]
  simp only [Option.mem_def, Option.some.injEq, exists_eq_left', not_and_or, not_not]

theorem Fault.span_report (fault : Fault) (place : Nat) :
    (fault.report file header place name).span = .point 1 place := by
  cases fault <;> rfl

/-- **There is a report for each place** at which a name is not in order. -/
theorem map_span_reports (file header : String) (before names : List String) :
    (reports file header before names).map Diagnostic.span =
      ((List.range' before.length names.length).filter fun i => Offends (before ++ names) i).map
        fun i => .point 1 (i + 1) := by
  induction names generalizing before with
  | nil => rfl
  | cons name names ih =>
    have hrest := ih (before ++ [name])
    rw [List.append_assoc, List.singleton_append, List.length_append, List.length_singleton] at hrest
    rw [reports, List.length_cons, List.range'_succ]
    cases hfault : fault? before name with
    | none =>
      have hfine : ¬ Offends (before ++ name :: names) before.length := by
        rw [← fault?_isSome_iff, hfault]
        exact Bool.false_ne_true
      rw [List.filter_cons_of_neg (by simpa using hfine)]
      exact hrest
    | some fault =>
      have hoffends : Offends (before ++ name :: names) before.length := by
        rw [← fault?_isSome_iff, hfault]
        rfl
      rw [List.filter_cons_of_pos (by simpa using hoffends), List.map_cons, List.map_cons,
        Fault.span_report]
      exact congrArg _ hrest

/-! ## The check -/

/-- **The check of names** finds them in order when they are distinct, none is a name that every body
has, and all are spelled like identifiers. It rejects all others, and reports each place at which a name
is not in order, in turn, as long as reports are kept. -/
theorem check_decides (file rule : String) (args : List String) :
    (check file rule args = .ok () ↔
      args.Nodup ∧ ∀ name ∈ args, name ≠ "args" ∧ name ≠ "this" ∧ Spelled name) ∧
    (check file rule args = .ok () ∨ ∃ errors : Diagnostics,
      check file rule args = .error ⟨.arguments, rule, errors⟩ ∧
        errors.total = (offending args).length ∧
        errors.kept.map Diagnostic.span =
          ((offending args).take Diagnostics.maxKept).map fun i => .point 1 (i + 1)) := by
  constructor
  · rw [check_eq_ok_iff_nodup, and_comm]
    refine and_congr_right fun _ => forall₂_congr fun name _ => ?_
    rw [isIdentifier_iff, Parameter.reserved, List.mem_cons, List.mem_singleton, not_or]
    exact and_rotate
  · have hspans := map_span_reports file (", ".intercalate args) [] args
    rw [List.nil_append, List.length_nil, ← List.range_eq_range'] at hspans
    have hcheck : check file rule args =
        if (Diagnostics.ofReports (reports file (", ".intercalate args) [] args)).hasErrors then
          .error ⟨.arguments, rule, .ofReports (reports file (", ".intercalate args) [] args)⟩
        else .ok () :=
      rfl
    rw [hcheck]
    split
    · refine .inr ⟨_, rfl, ?_, ?_⟩
      · rw [Diagnostics.ofReports_eq, ← List.length_map Diagnostic.span, hspans, List.length_map]
        rfl
      · rw [Diagnostics.ofReports_eq, List.map_take, hspans, List.map_take]
        rfl
    · exact .inl rfl

end Arguments

end ParseActions
