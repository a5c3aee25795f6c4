import ParseActions.Action.Arguments
import ParseActions.Proofs.Token.Name

/-!
# Names of arguments that are in order

The names of arguments that pass their check are identifiers, and so have the shape of one. Names pass
when each of them is an identifier that is not reserved, and none occurs twice.

## Main definitions

* `Arguments.Named`: the names of arguments have the shape of identifiers

## Main results

* `Arguments.check_eq_ok_iff`: names are in order when nothing is wrong with any of them
* `Arguments.check_eq_ok_iff_nodup`: names are in order when all are identifiers and distinct
* `Arguments.named_of_check`: names that are in order have the shape of identifiers
-/

namespace ParseActions

theorem Diagnostics.total_foldl_push (ds : Diagnostics) (reports : List Diagnostic) :
    (reports.foldl push ds).total = ds.total + reports.length := by
  induction reports generalizing ds with
  | nil => rfl
  | cons d reports ih =>
    rw [List.foldl_cons, ih, List.length_cons]
    show ds.total + 1 + reports.length = ds.total + (reports.length + 1)
    omega

/-- Pushing reports leaves some exactly when there are any. -/
theorem Diagnostics.hasErrors_foldl_push (reports : List Diagnostic) :
    (reports.foldl push .empty).hasErrors = true ↔ reports ≠ [] := by
  rw [hasErrors, total_foldl_push, decide_eq_true_iff]
  simp [empty, List.length_pos_iff]

namespace Arguments

/-- The names of arguments have the shape of identifiers. -/
def Named (args : List String) : Prop :=
  ∀ name ∈ args, Token.NameShaped name

variable {file rule header name : String} {args before : List String}

/-- An identifier is a name that is read as itself: what is read is compared with it. -/
theorem isName_of_isIdentifier (h : isIdentifier name = true) : Token.IsName name := by
  unfold isIdentifier at h
  split at h
  · next text _ _ errors hlex =>
    have hsame : text = name := by
      simp only [Bool.and_eq_true, beq_iff_eq] at h
      exact h.1
    rw [← hsame]
    exact Scanner.isName_of_scanNormal (Scanner.scanNormal_of_run
      (s := Scanner.start ⟨"argument", name⟩) rfl rfl (congrArg Prod.fst hlex) rfl)
  · cases h

/-- A name that is read as itself is an identifier. -/
theorem isIdentifier_of_isName (h : Token.IsName name) : isIdentifier name = true := by
  have hsource : Token.IsName (SourceText.mk "argument" name).text := h
  obtain ⟨span, stop, htokens, herrors⟩ := Token.lex_of_isName hsource
  have hlex : Token.lex ⟨"argument", name⟩ =
      ([⟨.identifier name, span⟩, ⟨.eof, stop⟩], (Token.lex ⟨"argument", name⟩).2) :=
    Prod.ext htokens rfl
  rw [isIdentifier, hlex]
  simp [herrors]

/-- Nothing is wrong with a name that is an identifier, is not reserved, and is new. -/
theorem fault?_eq_none :
    fault? before name = none ↔
      name ∉ Parameter.reserved ∧ isIdentifier name = true ∧ name ∉ before := by
  rw [fault?]
  split
  · next hreserved => simp [hreserved]
  · next hreserved =>
    split
    · next hmalformed => simp_all
    · next hidentifier =>
      split
      · next hrepeated => simp [hrepeated]
      · next hnew => simp_all

/-- There is no report on names when nothing is wrong with the first, nor with the others after
it. -/
theorem reports_cons_eq_nil {names : List String} :
    reports file header before (name :: names) = [] ↔
      fault? before name = none ∧ reports file header (before ++ [name]) names = [] := by
  rw [reports]
  cases fault? before name with
  | none => simp
  | some fault => simp

theorem isIdentifier_of_reports {names : List String}
    (h : reports file header before names = []) (hname : name ∈ names) :
    isIdentifier name = true := by
  induction names generalizing before with
  | nil => cases hname
  | cons first names ih =>
    obtain ⟨hfirst, hrest⟩ := reports_cons_eq_nil.mp h
    rcases List.mem_cons.mp hname with rfl | hname
    · exact (fault?_eq_none.mp hfirst).2.1
    · exact ih hrest hname

/-- **Names are in order** when there is no report on them. -/
theorem check_eq_ok_iff :
    check file rule args = .ok () ↔ reports file (", ".intercalate args) [] args = [] := by
  have herrors := Diagnostics.hasErrors_foldl_push (reports file (", ".intercalate args) [] args)
  simp only [check]
  split
  · next hsome => simp [herrors.mp hsome]
  · next hnone =>
    simp only [true_iff]
    exact Classical.byContradiction fun hreports => hnone (herrors.mpr hreports)

/-- There is no report on names when all are identifiers, none is reserved, and each is new. -/
theorem reports_eq_nil_iff {names : List String} :
    reports file header before names = [] ↔
      (∀ name ∈ names, isIdentifier name = true ∧ name ∉ Parameter.reserved) ∧
        names.Nodup ∧ ∀ name ∈ names, name ∉ before := by
  induction names generalizing before with
  | nil => simp [reports]
  | cons first names ih =>
    rw [reports_cons_eq_nil, fault?_eq_none, ih, List.forall_mem_cons, List.nodup_cons,
      List.forall_mem_cons]
    simp only [List.mem_append, List.mem_singleton, not_or]
    constructor
    · rintro ⟨⟨hreserved, hidentifier, hnew⟩, hall, hnodup, hbefore⟩
      exact ⟨⟨⟨hidentifier, hreserved⟩, hall⟩, ⟨fun hmem => (hbefore _ hmem).2 rfl, hnodup⟩, hnew,
        fun name hname => (hbefore name hname).1⟩
    · rintro ⟨⟨⟨hidentifier, hreserved⟩, hall⟩, ⟨hfirst, hnodup⟩, hnew, hbefore⟩
      refine ⟨⟨hreserved, hidentifier, hnew⟩, hall, hnodup, fun name hname => ⟨hbefore name hname, ?_⟩⟩
      rintro rfl
      exact hfirst hname

/-- **Names are in order** when all are identifiers, none is reserved, and none occurs twice. -/
theorem check_eq_ok_iff_nodup :
    check file rule args = .ok () ↔
      (∀ name ∈ args, isIdentifier name = true ∧ name ∉ Parameter.reserved) ∧ args.Nodup := by
  rw [check_eq_ok_iff, reports_eq_nil_iff]
  simp

/-- **Names that are in order** have the shape of identifiers. -/
theorem named_of_check (h : check file rule args = .ok ()) : Named args := by
  intro name hname
  exact (isName_of_isIdentifier (isIdentifier_of_reports (check_eq_ok_iff.mp h) hname)).nameShaped

/-- A rule has names that are in order, where the author gives none. -/
theorem resolve_nil {action : String} (h : check (fileName action rule) rule args = .ok ()) :
    resolve action rule args [] = .ok args := by
  have hsame : override args [] = args := by cases args <;> rfl
  simp only [resolve, List.length_nil, Nat.not_lt_zero, if_false, hsame, h]
  rfl

/-- The names that a rule is given are in order. -/
theorem check_of_resolve {action : String} {names : List String} {overrides : List (Option String)}
    (h : resolve action rule names overrides = .ok args) :
    check (fileName action rule) rule args = .ok () := by
  simp only [resolve] at h
  split at h
  · cases h
  · cases hcheck : check (fileName action rule) rule (override names overrides) with
    | error e =>
      rw [hcheck] at h
      cases h
    | ok _ =>
      rw [hcheck] at h
      obtain rfl : override names overrides = args := Except.ok.inj h
      exact hcheck

end Arguments

end ParseActions
