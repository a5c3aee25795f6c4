import ParseActions.Action.Basic
import ParseActions.Proofs.Body.Block
import ParseActions.Proofs.Token.Scan

/-!
# Rejections are explained

A reading of a text gives a body or reports, and never both or neither: where nothing is reported
every production succeeds, and a body with reports is dropped. So an action whose body is refused
comes with a report that says why.

## Main definitions

* `Parsed.Explained`: a body, or a report

## Main results

* `Parsed.explained_expression`, `Parsed.explained_block`, `Parsed.explained_statements`
* `RuleAction.rejections_explained`: the readings and the refusals of actions
-/

set_option synthInstance.maxSize 100000

namespace ParseActions

open Parse Diagnostics

namespace Parsed

variable {source : SourceText} {tokens : List Token} {parsed : Parsed}

/-- A body without reports, or no body and a report. -/
def Explained (parsed : Parsed) : Prop :=
  (parsed.body.isSome ∧ parsed.errors = .empty) ∨ (parsed.body = none ∧ parsed.errors.kept ≠ [])

/-- A body is given just if there are no reports. -/
theorem Explained.isSome_iff (h : Explained parsed) :
    parsed.body.isSome ↔ parsed.errors.kept = [] := by
  rcases h with ⟨hbody, hempty⟩ | ⟨hbody, hkept⟩
  · simp [hbody, hempty, Diagnostics.empty]
  · simp [hbody, hkept]

/-- A run that succeeds where it makes no report gives a body or a report. -/
theorem explained_run {p : Productions → Parse Body} {Q : Body → State → Prop}
    (hkeeps : Keeps (p (productions (tokens.length + 1))))
    (hp : ∀ stream : Stream, stream.final.kind = .eof →
      Ensures stream (p (productions (tokens.length + 1))) (State.start tokens) Q) :
    Explained (run source tokens p) := by
  let stream : Stream := ⟨source, ⟨.eof, (tokens.getLast?.map Token.span).getD (.point 1 1)⟩⟩
  have hclean := hkeeps.errors lasting_clean stream (State.start tokens) fun _ => rfl
  have hkept := hkeeps.errors lasting_explained stream (State.start tokens) (.inl rfl)
  have hsucceeds := hp stream rfl
  rw [run, Explained]
  dsimp only
  rw [Ensures] at hsucceeds
  generalize p (productions (tokens.length + 1)) stream (State.start tokens) = outcome at *
  obtain ⟨body, s⟩ := outcome
  cases hreports : s.errors.hasErrors with
  | false =>
    obtain ⟨found, s', hrun, -⟩ := hsucceeds hreports
    rw [Prod.mk.injEq] at hrun
    exact .inl ⟨by simp [hrun.1], hclean hreports⟩
  | true =>
    refine .inr ⟨rfl, hkept.resolve_left ?_⟩
    intro hempty
    rw [hempty] at hreports
    cases hreports

/-- Reports of the lexer are added to, and take the body away. -/
theorem Explained.afterLexer {lexical : Diagnostics} (h : Explained parsed)
    (hlexical : lexical = .empty ∨ lexical.kept ≠ []) : Explained (parsed.afterLexer lexical) := by
  rw [Parsed.afterLexer]
  split
  · next hreports =>
    have hkept := lasting_explained.extend hlexical parsed.errors
    have hdirty := lasting_hasErrors.extend hreports parsed.errors
    refine .inr ⟨rfl, hkept.resolve_left ?_⟩
    intro hempty
    rw [hempty] at hdirty
    cases hdirty
  · exact h

theorem explained_lex (source : SourceText) :
    (Token.lex source).2 = .empty ∨ (Token.lex source).2.kept ≠ [] := by
  rw [Token.lex]
  exact Scanner.lasting_run lasting_explained (.inl rfl)

theorem explained_expression (source : SourceText) : Explained (expression source) := by
  have hparsed : Explained (ofExpression source (Token.lex source).1) := by
    refine explained_run ?_ fun stream => ensures_wholeExpression
    unfold wholeExpression
    infer_instance
  simpa only [expression] using hparsed.afterLexer (explained_lex source)

theorem explained_ofBlock (source : SourceText) (tokens : List Token) :
    Explained (ofBlock source tokens) := by
  refine explained_run ?_ fun stream => ensures_wholeBlock
  unfold wholeBlock
  infer_instance

theorem explained_block (source : SourceText) : Explained (block source) := by
  simpa only [block] using (explained_ofBlock _ _).afterLexer (explained_lex source)

theorem explained_statements (source : SourceText) : Explained (statements source) := by
  simpa only [statements] using (explained_ofBlock _ _).afterLexer (explained_lex source)

end Parsed

namespace RuleAction

variable {action rule text : String} {args : List String} {source : SourceText}

theorem explained_fallback (source : SourceText) : (fallback source).Explained := by
  delta fallback
  dsimp only
  split
  · split
    · exact Parsed.explained_block source
    · split
      · exact Parsed.explained_statements source
      · exact Parsed.explained_block source
  · exact Parsed.explained_statements source

/-- A body that cannot be read is reported on. -/
theorem kept_of_parseBody {reports : Diagnostics} (h : parseBody source = .error reports) :
    reports.kept ≠ [] := by
  have hexpression := Parsed.explained_expression source
  have hfallback := explained_fallback source
  -- the equation of the definition would be proved by running the lexer
  delta parseBody at h
  dsimp only at h
  split at h
  · cases h
  · next hnone =>
    split at h
    · obtain rfl := Except.error.inj h
      exact (hexpression.resolve_left (by simp [hnone])).2
    · split at h
      · cases h
      · next hnone =>
        obtain rfl := Except.error.inj h
        exact (hfallback.resolve_left (by simp [hnone])).2

theorem part_of_check {file : String} {e : CompileError}
    (h : Arguments.check file rule args = .error e) : e.part = .arguments := by
  rw [Arguments.check] at h
  split at h
  · rw [← Except.error.inj h]
  · cases h

/-- An action is refused for its arguments, or because its body cannot be read. -/
theorem compile_eq_error {e : CompileError} (h : compile action rule args text = .error e) :
    e.part = .arguments ∨
      parseBody ⟨Arguments.fileName action rule, text⟩ = .error e.reports := by
  cases hcheck : Arguments.check (Arguments.fileName action rule) rule args with
  | error fault =>
    simp only [compile, hcheck] at h
    exact .inl (Except.error.inj h ▸ part_of_check hcheck)
  | ok _ =>
    simp only [compile, hcheck] at h
    cases hbody : parseBody ⟨Arguments.fileName action rule, text⟩ with
    | ok body =>
      rw [hbody] at h
      cases h
    | error reports =>
      rw [hbody] at h
      exact .inr (congrArg (fun e => Except.error e.reports) (Except.error.inj h))

/-- **Rejections are explained**: whichever way a text is read, it gives a body just if nothing is
reported on it; so an action that is refused for its body comes with a report. -/
theorem rejections_explained :
    (∀ source : SourceText,
      ∀ parsed ∈ [Parsed.expression source, Parsed.block source, Parsed.statements source],
        parsed.body.isSome ↔ parsed.errors.kept = []) ∧
    ∀ (action rule text : String) (args : List String) (e : CompileError),
      compile action rule args text = .error e → e.part = .body → e.reports.kept ≠ [] := by
  constructor
  · intro source
    rw [List.forall_mem_cons, List.forall_mem_cons, List.forall_mem_singleton]
    exact ⟨(Parsed.explained_expression source).isSome_iff,
      (Parsed.explained_block source).isSome_iff, (Parsed.explained_statements source).isSome_iff⟩
  · intro action rule text args e he hpart
    rcases compile_eq_error he with hargs | hbody
    · cases hargs.symm.trans hpart
    · exact kept_of_parseBody hbody

/-- A sum is read without a report, and a parenthesis that is not closed is reported. -/
theorem rejections_explained_parenthesis :
    (Parsed.expression ⟨"Num.value", "1 + 2"⟩).errors.kept = [] ∧
      ∃ e, compile "value" "Num" ["digits"] "(1 + 2" = .error e ∧ e.part = .body ∧
        e.reports.kept ≠ [] := by
  have hsum : (Parsed.expression ⟨"Num.value", "1 + 2"⟩).body.isSome := by decide +kernel
  refine ⟨(rejections_explained.1 _ _ List.mem_cons_self).mp hsum, ?_⟩
  have hrefused : (match compile "value" "Num" ["digits"] "(1 + 2" with
      | .ok _ => false
      | .error e => e.part = .body) = true := by decide +kernel
  split at hrefused
  · cases hrefused
  · next e he =>
    have hpart : e.part = .body := of_decide_eq_true hrefused
    exact ⟨e, he, hpart, rejections_explained.2 _ _ _ _ e he hpart⟩

end RuleAction

end ParseActions
