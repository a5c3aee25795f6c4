import ParseActions.Proofs.Body.Expression

/-!
# Bodies that are blocks

A text is read as a block just if the content of its tokens is derived from the grammar as a block,
and as the statements of a block just if its tokens between braces are.

## Main results

* `Parsed.ofBlock_body_iff`: streams that are read as a block
* `Parsed.block_body_iff`, `Parsed.statements_body_iff`: texts that are read as a block, or as the
  statements of one
* `Parsed.derived_of_body`: whichever way a text is read, its tokens derive the body
-/

set_option synthInstance.maxSize 100000

namespace ParseActions

open Parse Token

namespace Parsed

variable {source : SourceText} {stream : Stream} {s : State} {tokens : List Token} {body : Body}

/-- Separators at the start are skipped once. -/
theorem whole_skipWhile (part : String) (p : Parse Body) (stream : Stream) (s : State) :
    whole part p stream (s.skipWhile Kind.isSeparator) = whole part p stream s := by
  obtain ⟨-, -, -, hnext⟩ := Taken.skipWhile (p := Kind.isSeparator) rfl s
  rw [whole, skipSeparators_bind, skipSeparators_bind, State.skipWhile_of_nextKind hnext]

/-! ## Streams that are read as a block -/

/-- What is read as a block is derived, and stands between separators. -/
theorem ensures_wholeBlock (hfinal : stream.final.kind = .eof) :
    Ensures stream (wholeBlock (productions (tokens.length + 1))) (State.start tokens)
      fun body s' => ∃ before ts after,
        (∃ b, body = .block b ∧ Derives .block maxDepth ts b) ∧ Separators before ∧
        Separators after ∧ tokens = before ++ (ts ++ after) ++ s'.rest ∧
        nextKind s'.rest = .eof := by
  have hstart : Within (productions (tokens.length + 1)).budget 0 (State.start tokens) := by
    rw [budget_productions]
    exact ⟨Nat.lt_succ_self _, rfl⟩
  obtain ⟨before, hbefore, h₁, hnext⟩ :=
    Taken.skipWhile (p := Kind.isSeparator) rfl (State.start tokens)
  have hread := ((sound_productions hfinal _).block (hstart.taken h₁)).map (g := Body.block)
  rw [Ensures, wholeBlock, ← whole_skipWhile]
  refine (ensures_whole hfinal hnext hread).mono ?_
  rintro body s' ⟨s₂, after, ⟨b, rfl, ts, h₂, hb⟩, hafter, h₃, heof⟩
  refine ⟨before, ts, after, ⟨b, rfl, hb⟩, hbefore, hafter, ?_, heof⟩
  have htokens := (h₁.trans (h₂.trans h₃)).rest
  rwa [← List.append_assoc] at htokens ⊢

/-- What is derived and stands between separators is read as a block. -/
theorem wholeBlock_run {budget : Nat} {before ts after : List Token} {last : Token} {b : Block}
    (hbudget : ts.length < budget) (hb : Derives .block maxDepth ts b) (hbefore : Separators before)
    (hafter : Separators after) (hlast : last.kind = .eof) (hfinal : stream.final.kind = .eof) :
    wholeBlock (productions budget) stream (State.start (before ++ (ts ++ (after ++ [last])))) =
      (some (.block b), ⟨[last], lastSpan (.point 1 1) (before ++ (ts ++ after)), 0, .empty⟩) := by
  have hstart : StartWith (· == .symbol .leftBrace) ts := hb.opens
  have hnext := hstart.isSeparator_nextKind rfl rfl (after ++ [last])
  have hread := hb.reads stream budget ts.length 0 .rightBrace (after ++ [last])
    (lastSpan (.point 1 1) before) hfinal hbudget (Nat.le_refl _)
    (Nat.le_of_eq (Nat.zero_add _)) trivial
  have hbody : (Body.block <$> (productions budget).block) stream
      ⟨ts ++ (after ++ [last]), lastSpan (.point 1 1) before, 0, .empty⟩ =
      (some (.block b), ⟨after ++ [last], lastSpan (lastSpan (.point 1 1) before) ts, 0, .empty⟩) :=
    bind_of_some hread
  rw [wholeBlock, ← whole_skipWhile, State.start, State.skipWhile_append hbefore hnext,
    whole_of_run hnext hafter hlast hbody]
  simp

/-- **A stream is read as a block** just if its content is derived. -/
theorem ofBlock_body_iff (h : IsStream tokens) :
    (ofBlock source tokens).body = some body ↔
      ∃ b, body = .block b ∧ Derives .block maxDepth (content tokens) b := by
  refine run_body_iff (D := fun ts body => ∃ b, body = .block b ∧ Derives .block maxDepth ts b)
    h ?_ (fun _ => ensures_wholeBlock) ?_
  · rintro ts _ ⟨b, rfl, hb⟩
    have hstart : StartWith (· == .symbol .leftBrace) ts := hb.opens
    exact ⟨hstart.isSeparator_nextKind_self rfl rfl, hb.closes⟩
  · rintro stream budget before ts after last _ hfinal hbudget ⟨b, rfl, hb⟩ hbefore hafter hlast
    exact wholeBlock_run hbudget hb hbefore hafter hlast hfinal

/-! ## Texts that are read as a block -/

/-- **A text is read as a block** just if there are no reports on its tokens and their content is
derived. -/
theorem block_body_iff (source : SourceText) (body : Body) :
    (block source).body = some body ↔
      (Token.lex source).2.hasErrors = false ∧
        ∃ b, body = .block b ∧ Derives .block maxDepth (content (Token.lex source).1) b := by
  have hstream : IsStream (Token.lex source).1 := isStream_lex source
  rw [← @ofBlock_body_iff source _ _ hstream]
  simp only [block, afterLexer]
  split
  · next hdirty => simp [hdirty]
  · next hclean => simp [Bool.eq_false_iff.mpr hclean]

/-- The tokens between braces are the content of the stream that they make. -/
theorem content_inBraces (inner : List Token) (last : Token) :
    content (inBraces (inner ++ [last])) =
      ⟨.symbol .leftBrace, .point 1 1⟩ :: (inner ++ [⟨.symbol .rightBrace, last.span⟩]) := by
  let opening : Token := ⟨.symbol .leftBrace, .point 1 1⟩
  let closing : Token := ⟨.symbol .rightBrace, last.span⟩
  have hend : EndApart (opening :: (inner ++ [closing])) :=
    ((EndApart.singleton rfl).after inner).cons opening
  have hcontent : content ((opening :: (inner ++ [closing])) ++ [last]) =
      opening :: (inner ++ [closing]) := content_concat rfl hend
  simpa [inBraces] using hcontent

theorem isStream_inBraces (h : IsStream tokens) : IsStream (inBraces tokens) := by
  obtain ⟨inner, last, rfl, hlast, hinner⟩ := h
  let opening : Token := ⟨.symbol .leftBrace, .point 1 1⟩
  let closing : Token := ⟨.symbol .rightBrace, last.span⟩
  have hopening : opening.kind ≠ .eof ∧ opening.Unreserved := ⟨nofun, nofun⟩
  have hclosing : closing.kind ≠ .eof ∧ closing.Unreserved := ⟨nofun, nofun⟩
  refine ⟨opening :: (inner ++ [closing]), last, by simp [inBraces, opening, closing], hlast, ?_⟩
  refine List.forall_mem_cons.mpr ⟨hopening, List.forall_mem_append.mpr ⟨hinner, ?_⟩⟩
  exact List.forall_mem_singleton.mpr hclosing

/-- **A text is read as the statements of a block** just if there are no reports on its tokens and
they are derived as a block when braces are put around. -/
theorem statements_body_iff (source : SourceText) (body : Body) :
    (statements source).body = some body ↔
      (Token.lex source).2.hasErrors = false ∧
        ∃ b, body = .block b ∧
          Derives .block maxDepth (content (inBraces (Token.lex source).1)) b := by
  have hstream := isStream_inBraces (isStream_lex source)
  rw [← @ofBlock_body_iff source _ _ hstream]
  simp only [statements, afterLexer]
  split
  · next hdirty => simp [hdirty]
  · next hclean => simp [Bool.eq_false_iff.mpr hclean]

/-! ## Bodies -/

/-- Some tokens derive a body. -/
def Derived (tokens : List Token) : Body → Prop
  | .expr e => Derives .expression maxDepth tokens e
  | .block b => Derives .block maxDepth tokens b

/-- **Each body of a text is derived**: from the content of its tokens, or of its tokens between
braces. -/
theorem derived_of_body (source : SourceText) :
    ∀ parsed ∈ [expression source, block source, statements source],
      ∀ body, parsed.body = some body → (Token.lex source).2.hasErrors = false ∧
        (Derived (content (Token.lex source).1) body ∨
          Derived (content (inBraces (Token.lex source).1)) body) := by
  rw [List.forall_mem_cons, List.forall_mem_cons, List.forall_mem_singleton]
  refine ⟨fun body hbody => ?_, fun body hbody => ?_, fun body hbody => ?_⟩
  · rw [expression_body_eq_some, ofExpression_body_iff (isStream_lex source)] at hbody
    obtain ⟨hclean, e, rfl, he⟩ := hbody
    exact ⟨hclean, .inl he⟩
  · obtain ⟨hclean, b, rfl, hb⟩ := (block_body_iff source body).mp hbody
    exact ⟨hclean, .inl hb⟩
  · obtain ⟨hclean, b, rfl, hb⟩ := (statements_body_iff source body).mp hbody
    exact ⟨hclean, .inr hb⟩

end Parsed

end ParseActions
