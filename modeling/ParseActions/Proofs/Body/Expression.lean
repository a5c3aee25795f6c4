import Mathlib.Data.List.DropRight
import ParseActions.Body.Parsed
import ParseActions.Proofs.Body.Completeness
import ParseActions.Proofs.Body.Soundness
import ParseActions.Proofs.Body.Yield

/-!
# Bodies that are expressions

The content of a stream of tokens stands between separators before the end of the stream. A text is
read as an expression just if the content of its tokens is derived from the grammar, with
expressions and operands nested no deeper than is allowed. What is read is the tree of the
derivation, so no token is lost but separators and trailing commas.

## Main definitions

* `Token.content`: a stream without its end and the separators around the rest

## Main results

* `Parsed.ofExpression_body_iff`: streams that are read as an expression
* `Parsed.expression_body_iff`: texts that are
-/

set_option synthInstance.maxSize 100000

namespace ParseActions

open Parse Token

/-! ## The content of a stream -/

namespace Token

variable {tokens before ts after front rest : List Token} {last t : Token}

/-- A stream without its end and the separators at the start and before the end. -/
def content (tokens : List Token) : List Token :=
  (tokens.dropLast.dropWhile fun t => t.kind.isSeparator).rdropWhile fun t => t.kind.isSeparator

/-- Separators stand around the content of a stream. -/
theorem exists_content (inner : List Token) (last : Token) :
    ∃ before after, inner = before ++ (content (inner ++ [last]) ++ after) ∧ Separators before ∧
      Separators after := by
  refine ⟨inner.takeWhile fun t => t.kind.isSeparator,
    (inner.dropWhile fun t => t.kind.isSeparator).rtakeWhile fun t => t.kind.isSeparator, ?_,
    fun t ht => List.mem_takeWhile_imp (p := fun t : Token => t.kind.isSeparator) ht,
    fun t ht => List.mem_rtakeWhile_imp (p := fun t : Token => t.kind.isSeparator) ht⟩
  rw [content, List.dropLast_concat, List.rdropWhile_append_rtakeWhile,
    List.takeWhile_append_dropWhile]

theorem IsStream.unreserved_content (h : IsStream tokens) : ∀ t ∈ content tokens, t.Unreserved := by
  obtain ⟨inner, last, rfl, -, hinner⟩ := h
  obtain ⟨before, after, hsplit, -, -⟩ := exists_content inner last
  intro t ht
  exact (hinner t (by rw [hsplit]; simp [ht])).2

/-- What starts and ends with no separator is the content between separators. -/
theorem content_append (hbefore : Separators before) (hafter : Separators after)
    (hstart : (nextKind ts).isSeparator = false) (hend : EndApart ts) :
    content (before ++ (ts ++ after) ++ [last]) = ts := by
  obtain ⟨front, t, rfl, ht⟩ := hend
  have hdrop : ((front ++ [t]) ++ after).dropWhile (fun t => t.kind.isSeparator) =
      (front ++ [t]) ++ after := by
    cases front with
    | nil => simp [Kind.isSeparator_of_isContent ht]
    | cons u front =>
      have hu : u.kind.isSeparator = false := hstart
      simp [hu]
  have hreverse : Separators after.reverse := fun t ht => hafter t (List.mem_reverse.mp ht)
  rw [content, List.dropLast_concat, List.dropWhile_append_of_pos hbefore, hdrop, List.rdropWhile,
    List.reverse_append, List.dropWhile_append_of_pos hreverse]
  simp [Kind.isSeparator_of_isContent ht]

/-- What starts and ends with no separator is the content before the end. -/
theorem content_concat (hstart : (nextKind ts).isSeparator = false) (hend : EndApart ts) :
    content (ts ++ [last]) = ts := by
  have hcontent : content ([] ++ (ts ++ []) ++ [last]) = ts :=
    content_append (List.forall_mem_nil _) (List.forall_mem_nil _) hstart hend
  simpa using hcontent

/-- Separators after what ends with a token of its own do not end with the end of a stream. -/
theorem EndApart.ne_eof_of_getLast? (hend : EndApart ts) (hafter : Separators after)
    (ht : (before ++ (ts ++ after)).getLast? = some t) : t.kind ≠ .eof := by
  obtain ⟨front, back, rfl, hback⟩ := hend
  rcases List.eq_nil_or_concat after with rfl | ⟨more, u, rfl⟩
  · obtain rfl : back = t := by simpa using ht
    exact Kind.ne_eof_of_isContent hback
  · obtain rfl : u = t := by simpa [← List.append_assoc] using ht
    intro heof
    have hseparator := hafter u (by simp)
    rw [heof] at hseparator
    cases hseparator

/-- What is left of a stream at its end is the end alone. -/
theorem IsStream.exists_eq_singleton (h : IsStream (front ++ rest))
    (hfront : ∀ t, front.getLast? = some t → t.kind ≠ .eof) (hrest : nextKind rest = .eof) :
    ∃ last, rest = [last] := by
  obtain ⟨inner, last, htokens, hlast, hinner⟩ := h
  cases rest with
  | nil =>
    rw [List.append_nil] at htokens
    exact absurd hlast (hfront last (by rw [htokens, List.getLast?_concat]))
  | cons t rest =>
    rcases List.eq_nil_or_concat rest with rfl | ⟨more, u, rfl⟩
    · exact ⟨t, rfl⟩
    · have hsplit : front ++ t :: more = inner := by
        rw [List.concat_eq_append, ← List.cons_append, ← List.append_assoc] at htokens
        exact (List.append_inj' htokens rfl).1
      exact absurd hrest (hinner t (by simp [← hsplit])).1

/-- Up to the end of a stream, what stands between separators is its content. -/
theorem IsStream.content_eq (h : IsStream (before ++ (ts ++ after) ++ rest))
    (hbefore : Separators before) (hafter : Separators after)
    (hstart : (nextKind ts).isSeparator = false) (hend : EndApart ts)
    (hrest : nextKind rest = .eof) : content (before ++ (ts ++ after) ++ rest) = ts := by
  obtain ⟨last, rfl⟩ := h.exists_eq_singleton (fun t => hend.ne_eof_of_getLast? hafter) hrest
  exact content_append hbefore hafter hstart hend

end Token

/-! ## Bodies that fill a stream -/

namespace Parsed

variable {source : SourceText} {stream : Stream} {s : State}

/-- A body that is read up to separators before the end of the stream is the whole of it. -/
theorem whole_of_run {part : String} {p : Parse Body} {ts after : List Token} {last : Token}
    {body : Body} {previous previous' : Span} (hts : (nextKind ts).isSeparator = false)
    (hafter : Separators after) (hlast : last.kind = .eof)
    (hp : p stream ⟨ts, previous, 0, .empty⟩ = (some body, ⟨after ++ [last], previous', 0, .empty⟩)) :
    whole part p stream ⟨ts, previous, 0, .empty⟩ =
      (some body, ⟨[last], lastSpan previous' after, 0, .empty⟩) := by
  rw [whole, skipSeparators_bind, State.skipWhile_of_nextKind hts, attempt_bind, hp]
  simp only [skipSeparators_bind]
  rw [State.skipWhile_append hafter (by rw [nextKind_cons, hlast]; rfl), atEnd_bind]
  simp [hlast]

/-- Where a body makes no report, it is the whole of a stream up to separators. -/
theorem ensures_whole {part : String} {p : Parse Body} [Keeps p] {R : Body → State → Prop}
    (hfinal : stream.final.kind = .eof) (hs : (nextKind s.rest).isSeparator = false)
    (hp : Ensures stream p s R) :
    Ensures stream (whole part p) s fun body s' => ∃ s₁ after, R body s₁ ∧ Separators after ∧
      Taken s₁ after s' ∧ nextKind s'.rest = .eof := by
  refine .skipSeparators_of_not hs ?_
  refine .bind_of_keeps (fun body => by cases body <;> infer_instance) hp.attempt ?_
  rintro _ s₁ ⟨body, rfl, hR⟩
  refine .skipSeparators fun after s₂ hafter h₂ _ => ?_
  rw [Ensures, atEnd_bind, State.kind_peek hfinal]
  by_cases heof : nextKind s₂.rest = .eof
  · simp only [heof, decide_true, Bool.not_true, Bool.and_false, Bool.false_eq_true, if_false]
    exact fun _ => ⟨body, s₂, rfl, s₁, after, hR, hafter, h₂, heof⟩
  · simp only [heof, decide_false, Bool.not_false, Option.isSome_some, Bool.and_true, if_true]
    exact fun hclean => Bool.noConfusion (hasErrors_report.symm.trans hclean)

variable {tokens : List Token} {p : Productions → Parse Body} {body : Body}

theorem run_body_eq_some {s' : State} (hs' : s'.errors.hasErrors = false)
    (h : ∀ stream : Stream, stream.final.kind = .eof →
      p (productions (tokens.length + 1)) stream (State.start tokens) = (some body, s')) :
    (run source tokens p).body = some body := by
  simp [run, h, hs']

/-- A body that is given was found without a report. -/
theorem exists_of_run_body {Q : Body → State → Prop} (h : (run source tokens p).body = some body)
    (hp : ∀ stream : Stream, stream.final.kind = .eof →
      Ensures stream (p (productions (tokens.length + 1))) (State.start tokens) Q) :
    ∃ s', Q body s' := by
  simp only [run] at h
  split at h
  · cases h
  · next hclean =>
    obtain ⟨found, s', hrun, hQ⟩ :=
      hp ⟨source, ⟨.eof, (tokens.getLast?.map Token.span).getD (.point 1 1)⟩⟩ rfl
        (Bool.eq_false_iff.mpr hclean)
    rw [hrun] at h
    obtain rfl : found = body := Option.some.inj h
    exact ⟨s', hQ⟩

/-- A stream is read just if its content is of a kind `D`, where a step reads what is of that kind up
to separators around it, and nothing else. -/
theorem run_body_iff {D : List Token → Body → Prop} (h : IsStream tokens)
    (hstart : ∀ {ts body}, D ts body → (nextKind ts).isSeparator = false ∧ EndApart ts)
    (hsound : ∀ stream : Stream, stream.final.kind = .eof →
      Ensures stream (p (productions (tokens.length + 1))) (State.start tokens) fun body s' =>
        ∃ before ts after, D ts body ∧ Separators before ∧ Separators after ∧
          tokens = before ++ (ts ++ after) ++ s'.rest ∧ nextKind s'.rest = .eof)
    (hcomplete : ∀ {stream : Stream} {budget : Nat} {before ts after : List Token} {last : Token}
      {body : Body}, stream.final.kind = .eof → ts.length < budget → D ts body →
      Separators before → Separators after → last.kind = .eof →
      p (productions budget) stream (State.start (before ++ (ts ++ (after ++ [last])))) =
        (some body, ⟨[last], lastSpan (.point 1 1) (before ++ (ts ++ after)), 0, .empty⟩)) :
    (run source tokens p).body = some body ↔ D (content tokens) body := by
  constructor
  · -- what is read stands between separators before the end, so it is the content
    intro hbody
    obtain ⟨s', before, ts, after, hD, hbefore, hafter, rfl, heof⟩ :=
      exists_of_run_body hbody hsound
    obtain ⟨hnext, hend⟩ := hstart hD
    rwa [h.content_eq hbefore hafter hnext hend heof]
  · -- there are more productions than tokens, so there is room for the content
    intro hD
    obtain ⟨inner, last, rfl, hlast, -⟩ := h
    obtain ⟨before, after, hinner, hbefore, hafter⟩ := exists_content inner last
    generalize content (inner ++ [last]) = ts at hD hinner
    subst hinner
    rw [List.append_assoc, List.append_assoc]
    refine run_body_eq_some rfl fun stream hfinal => hcomplete hfinal ?_ hD hbefore hafter hlast
    simp only [List.length_append]
    omega

/-! ## Streams that are read as an expression -/

/-- What is read as an expression is derived, and stands between separators. -/
theorem ensures_wholeExpression (hfinal : stream.final.kind = .eof) :
    Ensures stream (wholeExpression (productions (tokens.length + 1))) (State.start tokens)
      fun body s' => ∃ before ts after,
        (∃ e, body = .expr e ∧ Derives .expression maxDepth ts e) ∧ Separators before ∧
        Separators after ∧ tokens = before ++ (ts ++ after) ++ s'.rest ∧
        nextKind s'.rest = .eof := by
  have hstart : Within (productions (tokens.length + 1)).budget 0 (State.start tokens) := by
    rw [budget_productions]
    exact ⟨Nat.lt_succ_self _, rfl⟩
  refine .skipSeparators fun before s₁ hbefore h₁ hnext => ?_
  refine .check hfinal (fun _ => .of_hasErrors hasErrors_report) fun _ => ?_
  have hread := ((sound_productions hfinal _).expression (hstart.taken h₁)).map (g := Body.expr)
  refine (ensures_whole hfinal hnext hread).mono ?_
  rintro body s' ⟨s₂, after, ⟨e, rfl, ts, h₂, he⟩, hafter, h₃, heof⟩
  refine ⟨before, ts, after, ⟨e, rfl, he⟩, hbefore, hafter, ?_, heof⟩
  have htokens := (h₁.trans (h₂.trans h₃)).rest
  rwa [← List.append_assoc] at htokens ⊢

/-- What is derived and stands between separators is read as an expression. -/
theorem wholeExpression_run {b : Nat} {before ts after : List Token} {last : Token} {e : Expr}
    (hb : ts.length < b) (he : Derives .expression maxDepth ts e) (hbefore : Separators before)
    (hafter : Separators after) (hlast : last.kind = .eof) (hfinal : stream.final.kind = .eof) :
    wholeExpression (productions b) stream (State.start (before ++ (ts ++ (after ++ [last])))) =
      (some (.expr e), ⟨[last], lastSpan (.point 1 1) (before ++ (ts ++ after)), 0, .empty⟩) := by
  have hstart : StartWith Kind.startsExpression ts := he.opens
  have hnext := hstart.isSeparator_nextKind rfl rfl (after ++ [last])
  have heof : nextKind (ts ++ (after ++ [last])) ≠ .eof := hstart.nextKind_ne _ rfl
  have hends : (nextKind (after ++ [last])).EndsStatement := by
    cases after with
    | nil => exact .inr (.inl hlast)
    | cons t after => exact .inl (hafter t List.mem_cons_self)
  have helse : ElseFree (after ++ [last]) :=
    elseFree_separators hafter (by rw [nextKind_cons, hlast]; nofun)
      (by rw [nextKind_cons, hlast]; nofun)
  have hread := he.reads stream b ts.length 0 .rightBrace (after ++ [last])
    (lastSpan (.point 1 1) before) hfinal hb (Nat.le_refl _) (Nat.le_of_eq (Nat.zero_add _))
    (stop_of_endsStatement hends helse)
  have hbody : (Body.expr <$> (productions b).expression) stream
      ⟨ts ++ (after ++ [last]), lastSpan (.point 1 1) before, 0, .empty⟩ =
      (some (.expr e), ⟨after ++ [last], lastSpan (lastSpan (.point 1 1) before) ts, 0, .empty⟩) :=
    bind_of_some hread
  rw [wholeExpression, State.start, skipSeparators_bind, State.skipWhile_append hbefore hnext,
    atEnd_bind, State.kind_peek hfinal]
  simp only [heof, decide_false, Bool.false_eq_true, if_false]
  rw [whole_of_run hnext hafter hlast hbody]
  simp

/-- **A stream is read as an expression** just if its content is derived. -/
theorem ofExpression_body_iff (h : IsStream tokens) :
    (ofExpression source tokens).body = some body ↔
      ∃ e, body = .expr e ∧ Derives .expression maxDepth (content tokens) e := by
  refine run_body_iff (D := fun ts body => ∃ e, body = .expr e ∧ Derives .expression maxDepth ts e)
    h ?_ (fun _ => ensures_wholeExpression) ?_
  · rintro ts _ ⟨e, rfl, he⟩
    have hstart : StartWith Kind.startsExpression ts := he.opens
    exact ⟨hstart.isSeparator_nextKind_self rfl rfl, he.closes⟩
  · rintro stream budget before ts after last _ hfinal hbudget ⟨e, rfl, he⟩ hbefore hafter hlast
    exact wholeExpression_run hbudget he hbefore hafter hlast hfinal

/-! ## Texts that are read as an expression -/

/-- A text is read by its tokens, if there are no reports on them. -/
theorem expression_body_eq_some (source : SourceText) (body : Body) :
    (expression source).body = some body ↔
      (Token.lex source).2.hasErrors = false ∧
        (ofExpression source (Token.lex source).1).body = some body := by
  simp only [expression, afterLexer]
  split
  · next hdirty => simp [hdirty]
  · next hclean => simp [Bool.eq_false_iff.mpr hclean]

/-- **A text is read as an expression** just if there are no reports on its tokens and their content
is derived, with expressions and operands nested at most 32 deep. What is read is the tree of the
derivation: it is written as the content without separators and trailing commas, and its operands
bind as tightly as their places ask for. -/
theorem expression_body_iff (source : SourceText) :
    (∀ e, (expression source).body = some (.expr e) ↔
      (Token.lex source).2.hasErrors = false ∧
        Derives .expression 32 (content (Token.lex source).1) e) ∧
    ∀ body, (expression source).body = some body →
      ∃ e, body = .expr e ∧ e.yield = significant (content (Token.lex source).1) [] ∧
        e.WellBound := by
  have hstream : IsStream (Token.lex source).1 := isStream_lex source
  have hread := expression_body_eq_some source
  generalize Token.lex source = lexed at hstream hread
  simp only [hread, ofExpression_body_iff hstream]
  constructor
  · intro e
    simp [maxDepth]
  · rintro body ⟨-, e, rfl, he⟩
    have hyield : significant (content lexed.1) [] = e.yield ++ [] :=
      he.yield_eq hstream.unreserved_content trivial
    exact ⟨e, rfl, by rw [hyield, List.append_nil], he.wellBound⟩

end Parsed

end ParseActions
