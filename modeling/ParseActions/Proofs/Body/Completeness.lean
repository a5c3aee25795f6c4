import ParseActions.Proofs.Body.Follow

/-!
# What is derived is read

The production of a phrase reads each segment that is derived from the phrase, up to tokens that may
follow, and gives the tree of the derivation. There is one lemma for each rule of the grammar.

## Main definitions

* `Phrase.Reads`: the production of a phrase reads a segment and gives a tree

## Main results

* `Derives.reads`: a segment that is derived is read
* `Derives.unique`: an expression has one tree
-/

namespace ParseActions

open Parse Token

namespace Phrase

/-- Productions that are nested are built for one token more. -/
def slack : Phrase → Nat
  | level _ | tail _ _ | suffix _ => 0
  | _ => 1

/-- The state after a phrase: a statement takes the separators after it. -/
def after (s : State) : Phrase → State
  | statement => s.skipWhile Token.Kind.isSeparator
  | _ => s

/-- The production of a phrase reads a segment and gives a tree, where there is room for the
segment and what follows stops the phrase. -/
def Reads (g : Phrase) (d : Nat) (ts : List Token) (a : g.Tree) : Prop :=
  ∀ (stream : Stream) (b budget n : Nat) (close : Symbol) (rest : List Token) (previous : Span),
    stream.final.kind = .eof → ts.length + g.slack ≤ b → ts.length ≤ budget → n + d ≤ maxDepth →
    g.Stops close rest →
    g.parser (productions b) budget close stream ⟨ts ++ rest, previous, n, .empty⟩ =
      (some a, g.after ⟨rest, lastSpan previous ts, n, .empty⟩)

namespace Reads

variable {d : Nat} {l : Level} {t : Token} {ts us newlines : List Token} {left right object e : Expr}

/-! ## Levels -/

theorem expression (h : Reads (.level .disjunction) d ts e) : Reads .expression (d + 1) ts e := by
  intro stream b budget n close rest previous hfinal hb hbudget hn hrest
  obtain ⟨b, rfl⟩ : ∃ b', b = b' + 1 := ⟨b - 1, by simp only [slack] at hb; omega⟩
  simp only [slack] at hb
  exact nested_of_lt (by omega) (h stream b budget (n + 1) close rest previous hfinal
    (by simp only [slack]; omega) hbudget (by omega) hrest)

theorem chain (hl : l.Chains) (htail : Derives (.tail l left) d us e)
    (hleft : Reads (.level l.tighter) d ts left) (hread : Reads (.tail l left) d us e) :
    Reads (.level l) d (ts ++ us) e := by
  intro stream b budget n close rest previous hfinal hb hbudget hn hrest
  simp only [slack, List.length_append] at hb hbudget
  have hfirst := hleft stream b budget n close (us ++ rest) previous hfinal
    (by simp only [slack]; omega) (by omega) hn (htail.stop_tail hl hrest)
  have hloop := hread stream b b n close rest (lastSpan previous ts) hfinal
    (by simp only [slack]; omega) (by omega) hn hrest
  simp only [parser, after] at hfirst hloop ⊢
  rw [Level.parser_eq hl, List.append_assoc, bind_of_some hfirst, budget_productions, hloop,
    lastSpan_append]

theorem tailNil : Reads (.tail l left) d [] left := by
  intro stream b budget n close rest previous hfinal hb hbudget hn hrest
  refine Level.loop_of_none ?_
  rw [State.kind_peek hfinal]
  exact hrest.operator?_eq_none (Nat.le_refl _)

/-- Newlines before an expression are skipped. -/
theorem skipNewlines_append (hnewlines : Newlines newlines) (h : nextKind us ≠ .newline)
    (previous : Span) (n : Nat) :
    (⟨newlines ++ us, previous, n, .empty⟩ : State).skipWhile (· == .newline) =
      ⟨us, lastSpan previous newlines, n, .empty⟩ :=
  State.skipWhile_append (fun t ht => by simp [hnewlines t ht]) (by simpa using h) _ _ _

/-- An expression does not start with a newline. -/
theorem nextKind_ne_newline (h : Derives (.level l) d ts e) (us : List Token) :
    nextKind (ts ++ us) ≠ .newline :=
  (Derives.startsExpression_of_opens h.opens).nextKind_ne us rfl

theorem tailCons {o : Operator} (ho : o.level.Chains) (ht : t.kind = o.token)
    (hnewlines : Newlines newlines) (hopens : Derives (.level o.level.tighter) d ts right)
    (htail : Derives (.tail o.level (o.apply left right)) d us e)
    (hright : Reads (.level o.level.tighter) d ts right)
    (hread : Reads (.tail o.level (o.apply left right)) d us e) :
    Reads (.tail o.level left) d (t :: (newlines ++ (ts ++ us))) e := by
  intro stream b budget n close rest previous hfinal hb hbudget hn hrest
  simp only [slack, List.length_cons, List.length_append] at hb hbudget
  obtain ⟨budget, rfl⟩ : ∃ k, budget = k + 1 := ⟨budget - 1, by omega⟩
  have hoperand := hright stream b budget n close (us ++ rest) (lastSpan t.span newlines) hfinal
    (by simp only [slack]; omega) (by omega) hn (htail.stop_tail ho hrest)
  have hloop := hread stream b budget n close rest (lastSpan (lastSpan t.span newlines) ts) hfinal
    (by simp only [slack]; omega) (by omega) hn hrest
  have hop : o.level.operator? t.kind = some o := Level.operator?_eq_some.mpr ⟨ht, rfl⟩
  simp only [parser, after] at hoperand hloop ⊢
  simp only [Level.loop_succ ho, List.cons_append, State.peek_mk_cons, hop, advance_bind,
    State.advance_mk_cons, skipNewlines_bind, List.append_assoc]
  rw [skipNewlines_append hnewlines (nextKind_ne_newline hopens _), bind_of_some hoperand, hloop]
  simp

theorem uncompared (h : Reads (.level .sum) d ts e) : Reads (.level .comparison) d ts e := by
  intro stream b budget n close rest previous hfinal hb hbudget hn hrest
  have hrank : Level.comparison.rank ≤ Level.sum.rank := by decide
  have hread := h stream b budget n close rest previous hfinal hb hbudget hn (hrest.mono hrank)
  have hop : Productions.comparison? (nextKind rest) = none := by
    have := hrest.operator?_eq_none (Nat.le_refl _)
    rwa [← Productions.comparison?_eq, Option.map_eq_none_iff] at this
  simp only [parser, Level.parser, after] at hread ⊢
  rw [Productions.comparison, bind_of_some hread, peekKind_bind, State.kind_peek hfinal, hop]
  rfl

theorem compared {o : Operator} (ho : o.level = .comparison) (ht : t.kind = o.token)
    (hnewlines : Newlines newlines) (hopens : Derives (.level .sum) d us right)
    (hleft : Reads (.level .sum) d ts left) (hright : Reads (.level .sum) d us right) :
    Reads (.level .comparison) d (ts ++ t :: (newlines ++ us)) (o.apply left right) := by
  intro stream b budget n close rest previous hfinal hb hbudget hn hrest
  simp only [slack, List.length_append, List.length_cons] at hb hbudget
  have hrank : Level.comparison.rank < Level.sum.rank := by decide
  have hfirst := hleft stream b budget n close (t :: (newlines ++ (us ++ rest))) previous hfinal
    (by simp only [slack]; omega) (by omega) hn
    (stop_cons (by rw [ht, joins?_of_operator]) (by rw [ho]; exact hrank))
  have hsecond := hright stream b budget n close rest (lastSpan t.span newlines) hfinal
    (by simp only [slack]; omega) (by omega) hn (hrest.mono (Nat.le_of_lt hrank))
  have hop : (Productions.comparison? t.kind).map Operator.binary = some o := by
    rw [Productions.comparison?_eq]
    exact Level.operator?_eq_some.mpr ⟨ht, ho⟩
  obtain ⟨op, hcomparison, rfl⟩ := Option.map_eq_some_iff.mp hop
  have hnone : Productions.comparison? (nextKind rest) = none := by
    have := hrest.operator?_eq_none (Nat.le_refl _)
    rwa [← Productions.comparison?_eq, Option.map_eq_none_iff] at this
  simp only [parser, Level.parser, after, List.append_assoc, List.cons_append] at hfirst hsecond ⊢
  rw [Productions.comparison, bind_of_some hfirst, peekKind_bind, State.peek_mk_cons, hcomparison]
  simp only [advance_bind, State.advance_mk_cons, skipNewlines_bind]
  rw [skipNewlines_append hnewlines (nextKind_ne_newline hopens _), bind_of_some hsecond,
    peekKind_bind, State.kind_peek hfinal, hnone]
  simp [Productions.binary, Operator.apply]

theorem unary {op : UnaryOp} (ht : t.kind = op.token) (h : Reads (.level .prefixed) d ts e) :
    Reads (.level .prefixed) (d + 1) (t :: ts) (.unary (t.span.merge e.span) op e) := by
  intro stream b budget n close rest previous hfinal hb hbudget hn hrest
  simp only [slack, List.length_cons] at hb hbudget
  obtain ⟨b, rfl⟩ : ∃ b', b = b' + 1 := ⟨b - 1, by omega⟩
  have hread := h stream b budget (n + 1) close rest t.span hfinal (by simp only [slack]; omega)
    (by omega) (by omega) hrest
  simp only [parser, Level.parser, after, List.cons_append] at hread ⊢
  have hnested : nested (productions (b + 1)).operand stream ⟨ts ++ rest, t.span, n, .empty⟩ = _ :=
    nested_of_lt (by omega) hread
  rw [Productions.prefixed, currentSpan_bind, peekKind_bind, State.peek_mk_cons,
    unary?_eq_some.mpr ht]
  simp only [advance_bind, State.advance_mk_cons]
  rw [bind_of_some hnested]
  simp

theorem plain (hopens : Derives (.level .suffixed) d ts e) (h : Reads (.level .suffixed) d ts e) :
    Reads (.level .prefixed) d ts e := by
  intro stream b budget n close rest previous hfinal hb hbudget hn hrest
  have hrank : Level.prefixed.rank ≤ Level.suffixed.rank := by decide
  have hread := h stream b budget n close rest previous hfinal hb hbudget hn (hrest.mono hrank)
  have hstart : StartWith Kind.startsPrimary ts := hopens.opens
  have hop : Productions.unary? (nextKind (ts ++ rest)) = none := by
    cases hop : Productions.unary? (nextKind (ts ++ rest)) with
    | none => rfl
    | some op =>
      refine absurd (unary?_eq_some.mp hop) (hstart.nextKind_ne rest ?_)
      cases op <;> rfl
  simp only [parser, Level.parser, after] at hread ⊢
  rw [Productions.prefixed, currentSpan_bind, peekKind_bind, State.kind_peek hfinal, hop]
  exact hread

/-! ## Accesses, calls and indexing -/

theorem suffixed (hsuffix : Derives (.suffix object) d us e)
    (hobject : Reads (.level .primary) d ts object) (hread : Reads (.suffix object) d us e) :
    Reads (.level .suffixed) d (ts ++ us) e := by
  intro stream b budget n close rest previous hfinal hb hbudget hn hrest
  simp only [slack, List.length_append] at hb hbudget
  have hfirst := hobject stream b budget n close (us ++ rest) previous hfinal
    (by simp only [slack]; omega) (by omega) hn (hsuffix.stop_suffix hrest)
  have hmore := hread stream b b n close rest (lastSpan previous ts) hfinal
    (by simp only [slack]; omega) (by omega) hn hrest
  simp only [parser, Level.parser, after, List.append_assoc] at hfirst hmore ⊢
  rw [bind_of_some hfirst, budget_productions, hmore, lastSpan_append]

theorem suffixNil : Reads (.suffix object) d [] object := by
  intro stream b budget n close rest previous hfinal hb hbudget hn hrest
  have hdot : nextKind rest ≠ .symbol .dot := hrest.ne rfl (Nat.le_refl _)
  have hbracket : nextKind rest ≠ .symbol .leftBracket := hrest.ne rfl (Nat.le_refl _)
  cases budget with
  | zero => rfl
  | succ budget =>
    simp only [parser, List.nil_append, after, Productions.suffixes, peekKind_bind,
      State.kind_peek hfinal]
    rfl

/-- A name after a dot or before a colon is read. -/
theorem expectMemberName_cons {stream : Stream} {name : String} (ht : t.kind.memberName? = some name)
    (rest : List Token) (previous : Span) (n : Nat) :
    expectMemberName stream ⟨t :: rest, previous, n, .empty⟩ =
      (some ⟨name, t.span⟩, ⟨rest, t.span, n, .empty⟩) := by
  rw [expectMemberName, peekKind_bind, State.peek_mk_cons]
  cases hkind : t.kind with
  | identifier text | keyword k =>
    rw [hkind] at ht
    cases ht
    rfl
  | _ =>
    rw [hkind] at ht
    cases ht

theorem member {dot : Token} {name : String} (hdot : dot.kind = .symbol .dot)
    (ht : t.kind.memberName? = some name)
    (hsuffix : Derives (.suffix (.member (object.span.merge t.span) object ⟨name, t.span⟩)) d us e)
    (h : Reads (.suffix (.member (object.span.merge t.span) object ⟨name, t.span⟩)) d us e) :
    Reads (.suffix object) d (dot :: t :: us) e := by
  intro stream b budget n close rest previous hfinal hb hbudget hn hrest
  simp only [slack, List.length_cons] at hb hbudget
  obtain ⟨budget, rfl⟩ : ∃ k, budget = k + 1 := ⟨budget - 1, by omega⟩
  have hmore := h stream b budget n close rest t.span hfinal (by simp only [slack]; omega)
    (by omega) hn hrest
  have hparen := hsuffix.ne_leftParen_of_suffix hrest
  simp only [parser, after] at hmore ⊢
  simp only [Productions.suffixes, peekKind_bind, List.cons_append, State.peek_mk_cons, hdot,
    advance_bind, State.advance_mk_cons]
  rw [bind_of_some (expectMemberName_cons ht _ _ _), check_bind, State.kind_peek hfinal]
  simp [hparen, hmore]

theorem call {dot opening closing : Token} {name : String} {args : List Expr}
    (hdot : dot.kind = .symbol .dot) (ht : t.kind.memberName? = some name)
    (hopening : opening.kind = .symbol .leftParen) (hclosing : closing.kind = .symbol .rightParen)
    (hargs : Reads (.listing .expression) d ts args)
    (h : Reads (.suffix (.call (object.span.merge closing.span) object ⟨name, t.span⟩ args)) d us e) :
    Reads (.suffix object) d (dot :: t :: opening :: (ts ++ closing :: us)) e := by
  intro stream b budget n close rest previous hfinal hb hbudget hn hrest
  simp only [slack, List.length_cons, List.length_append] at hb hbudget
  obtain ⟨budget, rfl⟩ : ∃ k, budget = k + 1 := ⟨budget - 1, by omega⟩
  have hlist := hargs stream b b n .rightParen (closing :: (us ++ rest)) opening.span hfinal
    (by simp only [slack]; omega) (by omega) hn ⟨trivial, hclosing⟩
  have hmore := h stream b budget n close rest closing.span hfinal (by simp only [slack]; omega)
    (by omega) hn hrest
  simp only [parser, after, Item.parser] at hlist hmore ⊢
  simp only [Productions.suffixes, peekKind_bind, List.cons_append, State.peek_mk_cons, hdot,
    advance_bind, State.advance_mk_cons, List.append_assoc, budget_productions]
  rw [bind_of_some (expectMemberName_cons ht _ _ _), check_bind, State.peek_mk_cons, hopening]
  simp only [decide_true, if_true, advance_bind, State.advance_mk_cons]
  rw [bind_of_some hlist, expect_bind_of_kind hclosing]
  simp [hmore]

theorem index {opening closing : Token} {newlines' : List Token} {key : Expr}
    (hopening : opening.kind = .symbol .leftBracket) (hnewlines : Newlines newlines)
    (hkey : Derives .expression d ts key) (hnewlines' : Newlines newlines')
    (hclosing : closing.kind = .symbol .rightBracket) (hread : Reads .expression d ts key)
    (h : Reads (.suffix (.index (object.span.merge closing.span) object key)) d us e) :
    Reads (.suffix object) d
      (opening :: (newlines ++ (ts ++ (newlines' ++ closing :: us)))) e := by
  intro stream b budget n close rest previous hfinal hb hbudget hn hrest
  simp only [slack, List.length_cons, List.length_append] at hb hbudget
  obtain ⟨budget, rfl⟩ : ∃ k, budget = k + 1 := ⟨budget - 1, by omega⟩
  have hexpr := hread stream b budget n close (newlines' ++ closing :: (us ++ rest))
    (lastSpan opening.span newlines) hfinal (by simp only [slack]; omega) (by omega) hn
    (stop_newlines hnewlines' hclosing rfl nofun nofun)
  have hmore := h stream b budget n close rest closing.span hfinal (by simp only [slack]; omega)
    (by omega) hn hrest
  have hstart : StartWith Kind.startsExpression ts := hkey.opens
  simp only [parser, after, Item.parser] at hexpr hmore ⊢
  simp only [Productions.suffixes, peekKind_bind, List.cons_append, State.peek_mk_cons, hopening,
    advance_bind, State.advance_mk_cons, List.append_assoc, skipNewlines_bind]
  rw [skipNewlines_append hnewlines (hstart.nextKind_ne _ rfl), bind_of_some hexpr]
  simp only [skipNewlines_bind]
  rw [skipNewlines_append hnewlines' (by rw [nextKind_cons, hclosing]; nofun),
    expect_bind_of_kind hclosing]
  simp [hmore]

/-! ## Literals, names and parentheses -/

/-- A literal of one token, by what the production does with it. -/
theorem literal (h : ∀ (sub : Productions) (stream : Stream) (rest : List Token) (previous : Span)
      (n : Nat), nextKind rest ≠ .symbol .leftParen →
      Productions.primary sub stream ⟨t :: rest, previous, n, .empty⟩ =
        (some e, ⟨rest, t.span, n, .empty⟩)) : Reads (.level .primary) d [t] e := by
  intro stream b budget n close rest previous hfinal hb hbudget hn hrest
  exact h _ stream rest previous n (hrest.ne rfl (Nat.le_refl _))

theorem number {value : Float} (ht : t.kind = .number value) :
    Reads (.level .primary) d [t] (.number t.span value) :=
  literal fun _ _ _ _ _ _ => by
    rw [Productions.primary, currentSpan_bind, peekKind_bind, State.peek_mk_cons, ht]
    rfl

theorem string {text : String} (ht : t.kind = .string text) :
    Reads (.level .primary) d [t] (.string t.span text) :=
  literal fun _ _ _ _ _ _ => by
    rw [Productions.primary, currentSpan_bind, peekKind_bind, State.peek_mk_cons, ht]
    rfl

theorem true (ht : t.kind = .keyword .trueWord) :
    Reads (.level .primary) d [t] (.bool t.span Bool.true) :=
  literal fun _ _ _ _ _ _ => by
    rw [Productions.primary, currentSpan_bind, peekKind_bind, State.peek_mk_cons, ht]
    rfl

theorem false (ht : t.kind = .keyword .falseWord) :
    Reads (.level .primary) d [t] (.bool t.span Bool.false) :=
  literal fun _ _ _ _ _ _ => by
    rw [Productions.primary, currentSpan_bind, peekKind_bind, State.peek_mk_cons, ht]
    rfl

theorem nil (ht : t.kind = .keyword .nilWord) : Reads (.level .primary) d [t] (.nil t.span) :=
  literal fun _ _ _ _ _ _ => by
    rw [Productions.primary, currentSpan_bind, peekKind_bind, State.peek_mk_cons, ht]
    rfl

theorem ident {name : String} (ht : t.kind = .identifier name) :
    Reads (.level .primary) d [t] (.ident t.span name) :=
  literal fun _ _ rest previous n hparen => by
    have hnext : (⟨t :: rest, previous, n, .empty⟩ : State).kindAt 1 = nextKind rest := by
      cases rest <;> rfl
    rw [Productions.primary, currentSpan_bind, peekKind_bind, State.peek_mk_cons, ht]
    simp only [lookAhead_bind, hnext, hparen, if_false]
    rfl

theorem template {text : String} {parts : List Fragment} (ht : t.kind = .stringStart text)
    (h : Reads .holes d ts parts) :
    Reads (.level .primary) d (t :: ts)
      (.template (t.span.merge (lastSpan t.span ts)) (Productions.textPart text ++ parts)) := by
  intro stream b budget n close rest previous hfinal hb hbudget hn hrest
  simp only [slack, List.length_cons] at hb hbudget
  have hholes := h stream b b n close rest t.span hfinal (by simp only [slack]; omega)
    (by omega) hn trivial
  simp only [parser, Level.parser, after] at hholes ⊢
  rw [List.cons_append, Productions.primary, currentSpan_bind, peekKind_bind, State.peek_mk_cons, ht]
  simp only [advance_bind, State.advance_mk_cons, budget_productions]
  rw [bind_of_some hholes]
  simp

theorem list {opening closing : Token} {items : List Expr}
    (hopening : opening.kind = .symbol .leftBracket) (hclosing : closing.kind = .symbol .rightBracket)
    (h : Reads (.listing .expression) d ts items) :
    Reads (.level .primary) d (opening :: (ts ++ [closing]))
      (.list (opening.span.merge closing.span) items) := by
  intro stream b budget n close rest previous hfinal hb hbudget hn hrest
  simp only [slack, List.length_cons, List.length_append] at hb hbudget
  have hitems := h stream b b n .rightBracket (closing :: rest) opening.span hfinal
    (by simp only [slack]; omega) (by omega) hn ⟨trivial, hclosing⟩
  simp only [parser, Level.parser, after, Item.parser] at hitems ⊢
  rw [List.cons_append, Productions.primary, currentSpan_bind, peekKind_bind, State.peek_mk_cons,
    hopening]
  simp only [Productions.list, List.append_assoc, List.cons_append, List.nil_append, advance_bind,
    State.advance_mk_cons, budget_productions]
  rw [bind_of_some hitems, expect_bind_of_kind hclosing]
  simp

theorem record {opening closing : Token} {fields : List Field}
    (hopening : opening.kind = .symbol .leftBrace) (hclosing : closing.kind = .symbol .rightBrace)
    (h : Reads (.listing .field) d ts fields) :
    Reads (.level .primary) d (opening :: (ts ++ [closing]))
      (.record (opening.span.merge closing.span) fields) := by
  intro stream b budget n close rest previous hfinal hb hbudget hn hrest
  simp only [slack, List.length_cons, List.length_append] at hb hbudget
  have hfields := h stream b b n .rightBrace (closing :: rest) opening.span hfinal
    (by simp only [slack]; omega) (by omega) hn ⟨trivial, hclosing⟩
  simp only [parser, Level.parser, after, Item.parser] at hfields ⊢
  rw [List.cons_append, Productions.primary, currentSpan_bind, peekKind_bind, State.peek_mk_cons,
    hopening]
  simp only [Productions.record, List.append_assoc, List.cons_append, List.nil_append, advance_bind,
    State.advance_mk_cons, budget_productions]
  rw [bind_of_some hfields, expect_bind_of_kind hclosing]
  simp

theorem paren {opening closing : Token} {newlines' : List Token}
    (hopening : opening.kind = .symbol .leftParen) (hnewlines : Newlines newlines)
    (hstart : StartWith Kind.startsExpression ts) (hnewlines' : Newlines newlines')
    (hclosing : closing.kind = .symbol .rightParen) (h : Reads .expression d ts e) :
    Reads (.level .primary) d (opening :: (newlines ++ (ts ++ (newlines' ++ [closing]))))
      (.paren (opening.span.merge closing.span) e) := by
  intro stream b budget n close rest previous hfinal hb hbudget hn hrest
  simp only [slack, List.length_cons, List.length_append] at hb hbudget
  have hinner := h stream b budget n close (newlines' ++ closing :: rest)
    (lastSpan opening.span newlines) hfinal (by simp only [slack]; omega) (by omega) hn
    (stop_newlines hnewlines' hclosing rfl nofun nofun)
  simp only [parser, Level.parser, after, Item.parser] at hinner ⊢
  rw [List.cons_append, Productions.primary, currentSpan_bind, peekKind_bind, State.peek_mk_cons,
    hopening]
  simp only [List.append_assoc, List.cons_append, List.nil_append, advance_bind,
    State.advance_mk_cons, skipNewlines_bind]
  rw [skipNewlines_append hnewlines (hstart.nextKind_ne _ rfl), bind_of_some hinner]
  simp only [skipNewlines_bind]
  rw [skipNewlines_append hnewlines' (by rw [nextKind_cons, hclosing]; nofun),
    expect_bind_of_kind hclosing]
  simp

/-- What the phrase of conditionals reads is what `branches` does with one production less. -/
theorem branches_run {stream : Stream} {b n : Nat} {rest : List Token}
    {c : Conditional} (h : Reads .conditional d ts c) (hfinal : stream.final.kind = .eof)
    (hb : ts.length ≤ b) (hn : n + d ≤ maxDepth) (hrest : ElseFree rest)
    (previous : Span) :
    Productions.branches (productions b) stream ⟨ts ++ rest, previous, n, .empty⟩ =
      (some c, ⟨rest, lastSpan previous ts, n, .empty⟩) :=
  h stream (b + 1) ts.length n .rightBrace rest previous hfinal (Nat.succ_le_succ hb)
    (Nat.le_refl _) hn hrest

theorem choice {c : Conditional} (hstart : StartWith (· == .keyword .ifWord) ts)
    (h : Reads .conditional d ts c) : Reads (.level .primary) d ts (.conditional c) := by
  intro stream b budget n close rest previous hfinal hb hbudget hn hrest
  have hrun := h.branches_run hfinal hb hn hrest.2 previous
  obtain ⟨t, us, rfl, ht⟩ := hstart
  have ht : t.kind = .keyword .ifWord := eq_of_beq ht
  rw [List.cons_append] at hrun
  simp only [parser, Level.parser, after, List.cons_append]
  rw [Productions.primary, currentSpan_bind, peekKind_bind, State.peek_mk_cons, ht]
  dsimp only
  rw [bind_of_some hrun]
  rfl

/-! ## Lists -/

theorem field {colon : Token} {name : String} (ht : t.kind.memberName? = some name)
    (hcolon : colon.kind = .symbol .colon) (hnewlines : Newlines newlines)
    (hstart : StartWith Kind.startsExpression ts) (h : Reads .expression d ts e) :
    Reads .field d (t :: colon :: (newlines ++ ts)) (.mk ⟨name, t.span⟩ e) := by
  intro stream b budget n close rest previous hfinal hb hbudget hn hrest
  simp only [slack, List.length_cons, List.length_append] at hb hbudget
  have hvalue := h stream b budget n close rest (lastSpan colon.span newlines) hfinal
    (by simp only [slack]; omega) (by omega) hn hrest
  simp only [parser, after, Item.parser] at hvalue ⊢
  simp only [Productions.field, List.cons_append, List.append_assoc]
  rw [bind_of_some (expectMemberName_cons ht _ _ _), expect_bind_of_kind hcolon, skipNewlines_bind,
    skipNewlines_append hnewlines (hstart.nextKind_ne _ rfl), bind_of_some hvalue]
  simp

variable {i : Item} {a : i.Tree} {as : List i.Tree} {close : Symbol}

theorem startsItem_newline (i : Item) : Kind.startsItem i .newline = Bool.false := by
  cases i <;> rfl

theorem startsItem_close (i : Item) (h : close.IsClosing) :
    Kind.startsItem i (.symbol close) = Bool.false := by
  cases i <;> cases close <;> first | rfl | cases h

/-- What is read of the first item of a list that goes on with `rest`. -/
theorem commaItems_first {stream : Stream} {b budget n : Nat} {rest : List Token} {previous : Span}
    (h : Reads (.item i) d ts a) (hstart : StartWith (Kind.startsItem i) ts)
    (hnewlines : Newlines newlines) (hfinal : stream.final.kind = .eof) (hb : ts.length + 1 ≤ b)
    (hn : n + d ≤ maxDepth) (hstop : Stop .disjunction (newlines ++ rest))
    (hrest : nextKind rest ≠ .newline) :
    commaItems (i.parser (productions b)) close (budget + 1) stream
        ⟨ts ++ (newlines ++ rest), previous, n, .empty⟩ =
      (eat (.symbol .comma) >>= fun comma => if comma = Bool.true then do
          skipNewlines
          if ← check (.symbol close) then return [a]
          else return a :: (← commaItems (i.parser (productions b)) close budget)
        else return [a] : Parse (List i.Tree)) stream
        ⟨rest, lastSpan (lastSpan previous ts) newlines, n, .empty⟩ := by
  have hitem := h stream b ts.length n close (newlines ++ rest) previous hfinal hb (Nat.le_refl _)
    hn hstop
  simp only [parser, after] at hitem
  rw [commaItems, skipNewlines_bind, State.skipWhile_of_nextKind, bind_of_some hitem,
    skipNewlines_bind, skipNewlines_append hnewlines hrest]
  simpa using hstart.nextKind_ne _ (startsItem_newline i)

/-- The token that closes a list is next. -/
theorem exists_close {rest : List Token} (h : nextKind rest = .symbol close) :
    ∃ t more, rest = t :: more ∧ t.kind = .symbol close := by
  cases rest with
  | nil => cases h
  | cons t more => exact ⟨t, more, rfl, h⟩

theorem joins?_close (h : close.IsClosing) : (Kind.symbol close).joins? = none := by
  cases close <;> first | rfl | cases h

theorem itemsLast (hstart : StartWith (Kind.startsItem i) ts) (hnewlines : Newlines newlines)
    (h : Reads (.item i) d ts a) : Reads (.items i) d (ts ++ newlines) [a] := by
  intro stream b budget n close rest previous hfinal hb hbudget hn hrest
  simp only [slack, List.length_append] at hb hbudget
  obtain ⟨hclosing, hclose⟩ := hrest
  obtain ⟨closing, more, rfl, hkind⟩ := exists_close hclose
  have hpos := List.length_pos_iff.mpr hstart.ne_nil
  obtain ⟨budget, rfl⟩ : ∃ k, budget = k + 1 := ⟨budget - 1, by omega⟩
  have hstop : Stop .disjunction (newlines ++ closing :: more) :=
    stop_newlines hnewlines hkind (joins?_close hclosing) nofun nofun
  have hcomma : ¬ closing.kind = .symbol .comma := by
    rw [hkind]
    rintro ⟨⟩
    exact hclosing
  simp only [parser, after, List.append_assoc]
  rw [commaItems_first h hstart hnewlines hfinal (by omega) hn hstop
    (by rw [nextKind_cons, hkind]; nofun)]
  simp [hcomma]

theorem itemsTrailing {comma : Token} {newlines' : List Token}
    (hstart : StartWith (Kind.startsItem i) ts) (hnewlines : Newlines newlines)
    (hcomma : comma.kind = .symbol .comma) (hnewlines' : Newlines newlines')
    (h : Reads (.item i) d ts a) :
    Reads (.items i) d (ts ++ (newlines ++ comma :: newlines')) [a] := by
  intro stream b budget n close rest previous hfinal hb hbudget hn hrest
  simp only [slack, List.length_append, List.length_cons] at hb hbudget
  obtain ⟨budget, rfl⟩ : ∃ k, budget = k + 1 := ⟨budget - 1, by omega⟩
  have hstop : Stop .disjunction (newlines ++ comma :: (newlines' ++ rest)) :=
    stop_newlines hnewlines hcomma rfl nofun nofun
  simp only [parser, after, List.append_assoc, List.cons_append]
  rw [commaItems_first h hstart hnewlines hfinal (by omega) hn hstop
    (by rw [nextKind_cons, hcomma]; nofun), eat_bind, State.peek_mk_cons, if_pos hcomma]
  simp only [if_true, State.advance_mk_cons, skipNewlines_bind]
  rw [skipNewlines_append hnewlines' (by rw [hrest.2]; nofun), check_bind, State.kind_peek hfinal]
  simp [hrest.2]

theorem itemsCons {comma : Token} {newlines' : List Token}
    (hstart : StartWith (Kind.startsItem i) ts) (hnewlines : Newlines newlines)
    (hcomma : comma.kind = .symbol .comma) (hnewlines' : Newlines newlines')
    (hstart' : StartWith (Kind.startsItem i) us) (h : Reads (.item i) d ts a)
    (hread : Reads (.items i) d us as) :
    Reads (.items i) d (ts ++ (newlines ++ comma :: (newlines' ++ us))) (a :: as) := by
  intro stream b budget n close rest previous hfinal hb hbudget hn hrest
  simp only [slack, List.length_append, List.length_cons] at hb hbudget
  obtain ⟨budget, rfl⟩ : ∃ k, budget = k + 1 := ⟨budget - 1, by omega⟩
  have hstop : Stop .disjunction (newlines ++ comma :: (newlines' ++ (us ++ rest))) :=
    stop_newlines hnewlines hcomma rfl nofun nofun
  have hmore := hread stream b budget n close rest (lastSpan comma.span newlines') hfinal
    (by simp only [slack]; omega) (by omega) hn hrest
  have hclose : ¬ nextKind (us ++ rest) = .symbol close :=
    hstart'.nextKind_ne _ (startsItem_close i hrest.1)
  simp only [parser, after, List.append_assoc, List.cons_append] at hmore ⊢
  rw [commaItems_first h hstart hnewlines hfinal (by omega) hn hstop
    (by rw [nextKind_cons, hcomma]; nofun), eat_bind, State.peek_mk_cons, if_pos hcomma]
  simp only [if_true, State.advance_mk_cons, skipNewlines_bind]
  rw [skipNewlines_append hnewlines' (hstart'.nextKind_ne _ (startsItem_newline i)), check_bind,
    State.kind_peek hfinal]
  simp only [hclose, decide_false, Bool.false_eq_true, if_false]
  rw [bind_of_some hmore]
  simp

theorem listingNil (hnewlines : Newlines newlines) : Reads (.listing i) d newlines [] := by
  intro stream b budget n close rest previous hfinal hb hbudget hn hrest
  simp only [parser, after, commaList, skipNewlines_bind]
  rw [skipNewlines_append hnewlines (by rw [hrest.2]; nofun), check_bind, State.kind_peek hfinal]
  simp [hrest.2]

theorem listing (hnewlines : Newlines newlines) (hstart : StartWith (Kind.startsItem i) ts)
    (h : Reads (.items i) d ts as) : Reads (.listing i) d (newlines ++ ts) as := by
  intro stream b budget n close rest previous hfinal hb hbudget hn hrest
  simp only [slack, List.length_append] at hb hbudget
  have hitems := h stream b budget n close rest (lastSpan previous newlines) hfinal
    (by simp only [slack]; omega) (by omega) hn hrest
  have hclose : ¬ nextKind (ts ++ rest) = .symbol close :=
    hstart.nextKind_ne _ (startsItem_close i hrest.1)
  simp only [parser, after, commaList, skipNewlines_bind, List.append_assoc] at hitems ⊢
  rw [skipNewlines_append hnewlines (hstart.nextKind_ne _ (startsItem_newline i)), check_bind,
    State.kind_peek hfinal]
  simp only [hclose, decide_false, Bool.false_eq_true, if_false]
  rw [hitems, lastSpan_append]

/-! ## Holes of strings -/

theorem holesLast {opening closing : Token} {text : String} (hopening : opening.kind = .holeStart)
    (hclosing : closing.kind = .holeEnd) (ht : t.kind = .stringEnd text)
    (h : Reads .expression d ts e) :
    Reads .holes d (opening :: (ts ++ [closing, t])) (.hole e :: Productions.textPart text) := by
  intro stream b budget n close rest previous hfinal hb hbudget hn hrest
  simp only [slack, List.length_append, List.length_cons] at hb hbudget
  obtain ⟨budget, rfl⟩ : ∃ k, budget = k + 1 := ⟨budget - 1, by omega⟩
  have hvalue := h stream b ts.length n close (closing :: t :: rest) opening.span hfinal
    (by simp only [slack]; omega) (Nat.le_refl _) hn (stop_token hclosing rfl nofun nofun)
  simp only [parser, after, Item.parser] at hvalue ⊢
  simp only [Productions.holes, List.cons_append, List.append_assoc, List.nil_append]
  rw [expect_bind_of_kind hopening, bind_of_some hvalue, expect_bind_of_kind hclosing,
    peekKind_bind, State.peek_mk_cons, ht]
  simp only [advance_bind, State.advance_mk_cons]
  simp

theorem holesCons {opening closing : Token} {text : String} {parts : List Fragment}
    (hopening : opening.kind = .holeStart) (hclosing : closing.kind = .holeEnd)
    (ht : t.kind = .stringPart text) (h : Reads .expression d ts e)
    (hread : Reads .holes d us parts) :
    Reads .holes d (opening :: (ts ++ closing :: t :: us))
      (.hole e :: Productions.textPart text ++ parts) := by
  intro stream b budget n close rest previous hfinal hb hbudget hn hrest
  simp only [slack, List.length_append, List.length_cons] at hb hbudget
  obtain ⟨budget, rfl⟩ : ∃ k, budget = k + 1 := ⟨budget - 1, by omega⟩
  have hvalue := h stream b ts.length n close (closing :: t :: (us ++ rest)) opening.span hfinal
    (by simp only [slack]; omega) (Nat.le_refl _) hn (stop_token hclosing rfl nofun nofun)
  have hmore := hread stream b budget n close rest t.span hfinal (by simp only [slack]; omega)
    (by omega) hn trivial
  simp only [parser, after, Item.parser] at hvalue hmore ⊢
  simp only [Productions.holes, List.cons_append, List.append_assoc]
  rw [expect_bind_of_kind hopening, bind_of_some hvalue, expect_bind_of_kind hclosing,
    peekKind_bind, State.peek_mk_cons, ht]
  simp only [advance_bind, State.advance_mk_cons]
  rw [bind_of_some hmore]
  simp

/-! ## Conditionals and blocks -/

theorem nothing : Reads .otherwise d [] .nothing := by
  intro stream b budget n close rest previous hfinal hb hbudget hn hrest
  exact Productions.otherwise_of_not hfinal hrest

theorem elseIf {c : Conditional} (hnewlines : Newlines newlines) (ht : t.kind = .keyword .elseWord)
    (hstart : StartWith (· == .keyword .ifWord) ts) (h : Reads .conditional d ts c) :
    Reads .otherwise d (newlines ++ t :: ts) (.elseIf c) := by
  intro stream b budget n close rest previous hfinal hb hbudget hn hrest
  simp only [slack, List.length_append, List.length_cons] at hb hbudget
  have hnext := h stream b ts.length n close rest t.span hfinal (by simp only [slack]; omega)
    (Nat.le_refl _) hn hrest
  have hif : nextKind (ts ++ rest) = .keyword .ifWord := eq_of_beq (hstart.nextKind rest)
  simp only [parser, after, List.append_assoc, List.cons_append] at hnext ⊢
  rw [Productions.otherwise_else hnewlines ht, check_bind, State.kind_peek hfinal]
  simp only [hif, decide_true, if_true]
  rw [bind_of_some hnext]
  simp

theorem elseBlock {b : Block} (hnewlines : Newlines newlines) (ht : t.kind = .keyword .elseWord)
    (hstart : StartWith (· == .symbol .leftBrace) ts) (h : Reads .block d ts b) :
    Reads .otherwise d (newlines ++ t :: ts) (.block b) := by
  intro stream bound budget n close rest previous hfinal hb hbudget hn hrest
  simp only [slack, List.length_append, List.length_cons] at hb hbudget
  have hblock := h stream bound ts.length n close rest t.span hfinal (by simp only [slack]; omega)
    (Nat.le_refl _) hn trivial
  have hif : ¬ nextKind (ts ++ rest) = .keyword .ifWord := by
    rw [eq_of_beq (hstart.nextKind rest)]
    nofun
  simp only [parser, after, List.append_assoc, List.cons_append] at hblock ⊢
  rw [Productions.otherwise_else hnewlines ht, check_bind, State.kind_peek hfinal]
  simp only [hif, decide_false, Bool.false_eq_true, if_false]
  rw [bind_of_some hblock]
  simp

theorem branches {vs : List Token} {condition : Expr} {thenBlock : Block} {otherwise : Otherwise}
    (hstart : StartWith (· == .symbol .leftBrace) us)
    (hcondition : Reads .expression d ts condition) (hthen : Reads .block d us thenBlock)
    (hotherwise : Reads .otherwise d vs otherwise) :
    Reads .conditional d (t :: (ts ++ (us ++ vs)))
      (.mk (t.span.merge (lastSpan t.span (us ++ vs))) condition thenBlock otherwise) := by
  intro stream b budget n close rest previous hfinal hb hbudget hn hrest
  simp only [slack, List.length_append, List.length_cons] at hb hbudget
  obtain ⟨b, rfl⟩ : ∃ b', b = b' + 1 := ⟨b - 1, by omega⟩
  obtain ⟨brace, us, rfl, hbrace⟩ := hstart
  have hbrace : brace.kind = .symbol .leftBrace := eq_of_beq hbrace
  simp only [List.length_cons] at hb hbudget
  have hfirst := hcondition stream b ts.length n close (brace :: (us ++ (vs ++ rest))) t.span hfinal
    (by simp only [slack]; omega) (Nat.le_refl _) hn (stop_token hbrace rfl nofun nofun)
  have hsecond := hthen stream b (brace :: us).length n close (vs ++ rest) (lastSpan t.span ts) hfinal
    (by simp only [slack, List.length_cons]; omega) (Nat.le_refl _) hn trivial
  have hthird := hotherwise stream b vs.length n close rest (lastSpan brace.span us)
    hfinal (by simp only [slack]; omega) (Nat.le_refl _) hn hrest
  simp only [parser, after, List.append_assoc, List.cons_append, lastSpan_cons, Item.parser]
    at hfirst hsecond hthird ⊢
  have hrun : (productions (b + 1)).conditional = Productions.branches (productions b) := rfl
  rw [hrun, Productions.branches_eq, currentSpan_bind, State.peek_mk_cons, advance_bind,
    State.advance_mk_cons, bind_of_some hfirst, bind_of_some hsecond, bind_of_some hthird]
  simp

theorem block {opening closing : Token} {separators : List Token} {stmts : List Stmt}
    (hopening : opening.kind = .symbol .leftBrace) (hseparators : Separators separators)
    (hclosing : closing.kind = .symbol .rightBrace)
    (hstart : ∀ rest, (nextKind rest).isSeparator = Bool.false →
      (nextKind (ts ++ rest)).isSeparator = Bool.false)
    (h : Reads .statements d ts stmts) :
    Reads .block d (opening :: (separators ++ (ts ++ [closing])))
      (.mk (opening.span.merge closing.span) stmts) := by
  intro stream b budget n close rest previous hfinal hb hbudget hn hrest
  simp only [slack, List.length_append, List.length_cons] at hb hbudget
  obtain ⟨b, rfl⟩ : ∃ b', b = b' + 1 := ⟨b - 1, by omega⟩
  have hstmts := h stream b b n close (closing :: rest) (lastSpan opening.span separators) hfinal
    (by simp only [slack]; omega) (by omega) hn hclosing
  simp only [parser, after, List.append_assoc, List.cons_append, List.nil_append] at hstmts ⊢
  have hrun : (productions (b + 1)).block = Productions.braces (productions b) := rfl
  rw [hrun, Productions.braces, currentSpan_bind, expect_bind_of_kind hopening, skipSeparators_bind,
    State.skipWhile_append hseparators (hstart _ (by rw [nextKind_cons, hclosing]; rfl)),
    budget_productions, bind_of_some hstmts, expect_bind_of_kind hclosing]
  simp

theorem statementsNil : Reads .statements d [] [] := by
  intro stream b budget n close rest previous hfinal hb hbudget hn hrest
  cases budget with
  | zero => rfl
  | succ budget =>
    have hclose : nextKind rest = .symbol .rightBrace := hrest
    simp only [parser, after, List.nil_append, Productions.statements, check_bind,
      State.kind_peek hfinal, hclose, decide_true, atEnd_bind]
    rfl

theorem statementsCons {separators : List Token} {stmt : Stmt} {stmts : List Stmt}
    (hstart : StartWith Kind.startsStatement ts) (hseparators : Separators separators)
    (hapart : separators ≠ [] ∨ us = [])
    (hstart' : us = [] ∨ StartWith Kind.startsStatement us) (h : Reads .statement d ts stmt)
    (hread : Reads .statements d us stmts) :
    Reads .statements d (ts ++ (separators ++ us)) (stmt :: stmts) := by
  intro stream b budget n close rest previous hfinal hb hbudget hn hrest
  simp only [slack, List.length_append] at hb hbudget
  have hpos := List.length_pos_iff.mpr hstart.ne_nil
  obtain ⟨budget, rfl⟩ : ∃ k, budget = k + 1 := ⟨budget - 1, by omega⟩
  have hclose : nextKind rest = .symbol .rightBrace := hrest
  have hnext : (nextKind (us ++ rest)).isSeparator = Bool.false ∧
      nextKind (us ++ rest) ≠ .newline ∧ nextKind (us ++ rest) ≠ .keyword .elseWord := by
    rcases hstart' with rfl | hstart'
    · rw [List.nil_append, hclose]
      exact ⟨rfl, nofun, nofun⟩
    · exact ⟨hstart'.isSeparator_nextKind rfl rfl rest, hstart'.nextKind_ne rest rfl,
        hstart'.nextKind_ne rest rfl⟩
  -- a statement without separators after it is the last one, so a brace ends it
  have hends : (nextKind (separators ++ (us ++ rest))).EndsStatement := by
    cases separators with
    | cons t separators => exact .inl (hseparators t List.mem_cons_self)
    | nil =>
      obtain rfl := hapart.resolve_left fun h => h rfl
      exact .inr (.inr hclose)
  have hfirst := h stream b ts.length n close (separators ++ (us ++ rest)) previous hfinal
    (by simp only [slack]; omega) (Nat.le_refl _) hn
    ⟨hends, elseFree_separators hseparators hnext.2.1 hnext.2.2⟩
  have hmore := hread stream b budget n close rest (lastSpan (lastSpan previous ts) separators)
    hfinal (by simp only [slack]; omega) (by omega) hn hrest
  simp only [parser, after, List.append_assoc] at hfirst hmore ⊢
  rw [State.skipWhile_append hseparators hnext.1] at hfirst
  have hbrace : ¬ nextKind (ts ++ (separators ++ (us ++ rest))) = .symbol .rightBrace :=
    hstart.nextKind_ne _ rfl
  have heof : ¬ nextKind (ts ++ (separators ++ (us ++ rest))) = .eof := hstart.nextKind_ne _ rfl
  have hfull (f : Bool → Parse (List Stmt)) (s : State) :
      (Productions.tooManyReports >>= f) stream s = f s.errors.isFull stream s := rfl
  simp only [Productions.statements, check_bind, atEnd_bind, State.kind_peek hfinal, hbrace, heof,
    hfull, decide_false, Bool.false_or]
  rw [if_neg (by decide), attempt_bind, hfirst]
  simp only [skipSeparators_bind]
  rw [State.skipWhile_of_nextKind hnext.1, bind_of_some hmore]
  simp

/-! ## Statements -/

/-- A statement ends before a separator, which is read, before a brace and at the end. -/
theorem expectSeparator_of_ends {stream : Stream} {s : State} (hfinal : stream.final.kind = .eof)
    (h : (nextKind s.rest).EndsStatement) :
    expectSeparator stream s = (some (), s.skipWhile Kind.isSeparator) := by
  rw [expectSeparator, peekKind_bind, State.kind_peek hfinal]
  rcases h with h | h | h
  · rcases isSeparator_eq_true h with hkind | hkind
    · rw [hkind]
      rfl
    · rw [hkind]
      rfl
  · rw [State.skipWhile_of_nextKind (by rw [h]; rfl), h]
    rfl
  · rw [State.skipWhile_of_nextKind (by rw [h]; rfl), h]
    rfl

variable {b : Block}

/-- What the production of statements does with a token that is no separator. -/
theorem statement_start {stream : Stream} {sub : Productions} {n : Nat} {rest : List Token}
    {previous : Span} (ht : t.kind.isSeparator = Bool.false) :
    Productions.statement sub stream ⟨t :: rest, previous, n, .empty⟩ =
      (match t.kind with
        | .eof => fail
        | .symbol .rightBrace => fail
        | .keyword .letWord => Productions.binding sub
        | .keyword .ifWord => do
          let next ← Productions.branches sub
          expectSeparator
          return .conditional next
        | .keyword .forWord => do
          let stmt ← Productions.loop sub
          expectSeparator
          return stmt
        | .keyword .returnWord => Productions.leave sub
        | .keyword .assertWord => Productions.assertion sub
        | .keyword .throwWord => Productions.throwing sub
        | _ => do
          let value ← sub.expression
          expectSeparator
          return .expr value : Parse Stmt) stream ⟨t :: rest, previous, n, .empty⟩ := by
  rw [Productions.statement, skipSeparators_bind, State.skipWhile_of_nextKind ht]
  rfl

/-- An identifier is read. -/
theorem expectIdentifier_cons {stream : Stream} {name : String} (ht : t.kind = .identifier name)
    (rest : List Token) (previous : Span) (n : Nat) :
    expectIdentifier stream ⟨t :: rest, previous, n, .empty⟩ =
      (some ⟨name, t.span⟩, ⟨rest, t.span, n, .empty⟩) := by
  rw [expectIdentifier, peekKind_bind, State.peek_mk_cons, ht]
  rfl

theorem bind {u equal : Token} {name : String} (ht : t.kind = .keyword .letWord)
    (hu : u.kind = .identifier name) (hequal : equal.kind = .symbol .equal)
    (hnewlines : Newlines newlines) (hstart : StartWith Kind.startsExpression ts)
    (h : Reads .expression d ts e) :
    Reads .statement d (t :: u :: equal :: (newlines ++ ts))
      (.bind (t.span.merge (lastSpan t.span ts)) ⟨name, u.span⟩ e) := by
  intro stream b budget n close rest previous hfinal hb hbudget hn hrest
  simp only [slack, List.length_append, List.length_cons] at hb hbudget
  have hvalue := h stream b ts.length n close rest (lastSpan equal.span newlines) hfinal
    (by simp only [slack]; omega) (Nat.le_refl _) hn (stop_of_endsStatement hrest.1 hrest.2)
  simp only [parser, after, List.append_assoc, List.cons_append, Item.parser] at hvalue ⊢
  rw [statement_start (by rw [ht]; rfl), ht]
  simp only [Productions.binding, currentSpan_bind, State.peek_mk_cons, advance_bind,
    State.advance_mk_cons]
  rw [bind_of_some (expectIdentifier_cons hu _ _ _), expect_bind_of_kind hequal, skipNewlines_bind,
    skipNewlines_append hnewlines (hstart.nextKind_ne _ rfl), bind_of_some hvalue,
    previousSpan_bind, bind_of_some (expectSeparator_of_ends hfinal hrest.1)]
  simp [lastSpan_congr hstart.ne_nil _ t.span]

theorem conditional {c : Conditional} (hstart : StartWith (· == .keyword .ifWord) ts)
    (h : Reads .conditional d ts c) : Reads .statement d ts (.conditional c) := by
  intro stream b budget n close rest previous hfinal hb hbudget hn hrest
  have hrun := h.branches_run hfinal (Nat.le_of_succ_le hb) hn hrest.2 previous
  obtain ⟨t, us, rfl, ht⟩ := hstart
  have ht : t.kind = .keyword .ifWord := eq_of_beq ht
  simp only [parser, after, List.cons_append] at hrun ⊢
  rw [statement_start (by rw [ht]; rfl), ht]
  dsimp only
  rw [bind_of_some hrun, bind_of_some (expectSeparator_of_ends hfinal hrest.1)]
  rfl

/-- The index of a loop is read. -/
theorem index_bind {β : Type} {stream : Stream} {ts rest : List Token} {index : Option Ident}
    (h : DerivesIndex ts index) (hfinal : stream.final.kind = .eof)
    (hrest : nextKind rest ≠ .symbol .comma) (previous : Span) (n : Nat)
    (f : Option Ident → Parse β) :
    (eat (.symbol .comma) >>= fun comma =>
        if comma = Bool.true then some <$> expectIdentifier >>= f else pure none >>= f) stream
        ⟨ts ++ rest, previous, n, .empty⟩ =
      f index stream ⟨rest, lastSpan previous ts, n, .empty⟩ := by
  rw [eat_bind, State.kind_peek hfinal]
  cases h with
  | nothing =>
    rw [List.nil_append, if_neg hrest]
    rfl
  | @name comma t name hcomma ht =>
    rw [List.cons_append, nextKind_cons, if_pos hcomma]
    exact bind_of_some (bind_of_some (expectIdentifier_cons ht rest comma.span n))

/-- The message of an assertion is read. -/
theorem message_bind {β : Type} {stream : Stream} {ts rest : List Token} {message : Option String}
    (h : DerivesMessage ts message) (hfinal : stream.final.kind = .eof)
    (hrest : nextKind rest ≠ .symbol .comma) (previous : Span) (n : Nat)
    (f : Option String → Parse β) :
    (eat (.symbol .comma) >>= fun comma =>
        if comma = Bool.true then some <$> expectString >>= f else pure none >>= f) stream
        ⟨ts ++ rest, previous, n, .empty⟩ =
      f message stream ⟨rest, lastSpan previous ts, n, .empty⟩ := by
  rw [eat_bind, State.kind_peek hfinal]
  cases h with
  | nothing =>
    rw [List.nil_append, if_neg hrest]
    rfl
  | @text comma t text hcomma ht =>
    have hstring : expectString stream ⟨t :: rest, comma.span, n, .empty⟩ =
        (some text, ⟨rest, t.span, n, .empty⟩) := by
      rw [expectString, peekKind_bind, State.peek_mk_cons, ht]
      rfl
    rw [List.cons_append, nextKind_cons, if_pos hcomma]
    exact bind_of_some (bind_of_some hstring)

theorem loop {u inWord : Token} {is : List Token} {item : String} {index : Option Ident}
    (ht : t.kind = .keyword .forWord) (hu : u.kind = .identifier item)
    (hindex : DerivesIndex is index) (hin : inWord.kind = .keyword .inWord)
    (hstart : StartWith (· == .symbol .leftBrace) us) (h : Reads .expression d ts e)
    (hbody : Reads .block d us b) :
    Reads .statement d (t :: u :: (is ++ inWord :: (ts ++ us)))
      (.loop (t.span.merge (lastSpan t.span us)) ⟨item, u.span⟩ index e b) := by
  intro stream bound budget n close rest previous hfinal hb hbudget hn hrest
  simp only [slack, List.length_append, List.length_cons] at hb hbudget
  obtain ⟨brace, us, rfl, hbrace⟩ := hstart
  have hbrace : brace.kind = .symbol .leftBrace := eq_of_beq hbrace
  simp only [List.length_cons] at hb hbudget
  have hitems := h stream bound ts.length n close (brace :: (us ++ rest)) inWord.span hfinal
    (by simp only [slack]; omega) (Nat.le_refl _) hn (stop_token hbrace rfl nofun nofun)
  have hblock := hbody stream bound (brace :: us).length n close rest (lastSpan inWord.span ts) hfinal
    (by simp only [slack, List.length_cons]; omega) (Nat.le_refl _) hn trivial
  have hcomma : nextKind (inWord :: (ts ++ brace :: (us ++ rest))) ≠ .symbol .comma := by
    rw [nextKind_cons, hin]
    nofun
  simp only [parser, after, List.append_assoc, List.cons_append, Item.parser] at hitems hblock ⊢
  have hrun : Productions.loop (productions bound) stream
      ⟨t :: u :: (is ++ inWord :: (ts ++ brace :: (us ++ rest))), previous, n, .empty⟩ =
      (some (.loop (t.span.merge (lastSpan brace.span us)) ⟨item, u.span⟩ index e b),
        ⟨rest, lastSpan brace.span us, n, .empty⟩) := by
    rw [Productions.loop, currentSpan_bind, State.peek_mk_cons, advance_bind, State.advance_mk_cons,
      bind_of_some (expectIdentifier_cons hu _ _ _), index_bind hindex hfinal hcomma]
    dsimp only
    rw [expect_bind_of_kind hin, bind_of_some hitems, bind_of_some hblock]
    simp
  rw [statement_start (by rw [ht]; rfl), ht]
  dsimp only
  rw [bind_of_some hrun, bind_of_some (expectSeparator_of_ends hfinal hrest.1)]
  simp

theorem leave (ht : t.kind = .keyword .returnWord) :
    Reads .statement d [t] (.leave (t.span.merge t.span)) := by
  intro stream b budget n close rest previous hfinal hb hbudget hn hrest
  have hends : ((nextKind rest).isSeparator || nextKind rest == .eof ||
      nextKind rest == .symbol .rightBrace) = Bool.true := by
    simpa [or_assoc, Kind.EndsStatement] using hrest.1
  simp only [parser, after, List.cons_append, List.nil_append]
  rw [statement_start (by rw [ht]; rfl), ht]
  simp only [Productions.leave, advance_bind, State.peek_mk_cons, State.advance_mk_cons,
    peekKind_bind, State.kind_peek hfinal, hends, if_true, previousSpan_bind]
  rw [bind_of_some (expectSeparator_of_ends hfinal hrest.1)]
  simp

theorem leaveWith (ht : t.kind = .keyword .returnWord) (hstart : StartWith Kind.startsExpression ts)
    (h : Reads .expression d ts e) :
    Reads .statement d (t :: ts) (.leaveWith (t.span.merge (lastSpan t.span ts)) e) := by
  intro stream b budget n close rest previous hfinal hb hbudget hn hrest
  simp only [slack, List.length_cons] at hb hbudget
  have hvalue := h stream b ts.length n close rest t.span hfinal
    (by simp only [slack]; omega) (Nat.le_refl _) hn (stop_of_endsStatement hrest.1 hrest.2)
  have hends : ((nextKind (ts ++ rest)).isSeparator || nextKind (ts ++ rest) == .eof ||
      nextKind (ts ++ rest) == .symbol .rightBrace) = Bool.false := by
    have heof : nextKind (ts ++ rest) ≠ .eof := hstart.nextKind_ne rest rfl
    have hbrace : nextKind (ts ++ rest) ≠ .symbol .rightBrace := hstart.nextKind_ne rest rfl
    simp [hstart.isSeparator_nextKind rfl rfl rest, heof, hbrace]
  simp only [parser, after, List.cons_append, Item.parser] at hvalue ⊢
  rw [statement_start (by rw [ht]; rfl), ht]
  simp only [Productions.leave, advance_bind, State.peek_mk_cons, State.advance_mk_cons,
    peekKind_bind, State.kind_peek hfinal, hends, Bool.false_eq_true, if_false]
  rw [bind_of_some hvalue, previousSpan_bind, bind_of_some (expectSeparator_of_ends hfinal hrest.1)]
  simp

theorem assertion {ms : List Token} {message : Option String} (ht : t.kind = .keyword .assertWord)
    (hmessage : DerivesMessage ms message) (h : Reads .expression d ts e) :
    Reads .statement d (t :: (ts ++ ms))
      (.assert (t.span.merge (lastSpan t.span (ts ++ ms))) e message) := by
  intro stream b budget n close rest previous hfinal hb hbudget hn hrest
  simp only [slack, List.length_cons, List.length_append] at hb hbudget
  have hstop : Stop .disjunction (ms ++ rest) := by
    cases hmessage with
    | nothing => exact stop_of_endsStatement hrest.1 hrest.2
    | text hcomma =>
      exact stop_token hcomma rfl nofun nofun
  have hcomma : nextKind rest ≠ .symbol .comma := by
    intro hkind
    have hends := hrest.1
    rw [hkind] at hends
    rcases hends with h | h | h <;> cases h
  have hvalue := h stream b ts.length n close (ms ++ rest) t.span hfinal
    (by simp only [slack]; omega) (Nat.le_refl _) hn hstop
  simp only [parser, after, List.cons_append, List.append_assoc, Item.parser] at hvalue ⊢
  rw [statement_start (by rw [ht]; rfl), ht]
  simp only [Productions.assertion, currentSpan_bind, advance_bind, State.peek_mk_cons,
    State.advance_mk_cons]
  rw [bind_of_some hvalue, message_bind hmessage hfinal hcomma, previousSpan_bind,
    bind_of_some (expectSeparator_of_ends hfinal hrest.1)]
  simp

theorem throwing (ht : t.kind = .keyword .throwWord) (h : Reads .expression d ts e) :
    Reads .statement d (t :: ts) (.throw (t.span.merge (lastSpan t.span ts)) e) := by
  intro stream b budget n close rest previous hfinal hb hbudget hn hrest
  simp only [slack, List.length_cons] at hb hbudget
  have hvalue := h stream b ts.length n close rest t.span hfinal
    (by simp only [slack]; omega) (Nat.le_refl _) hn (stop_of_endsStatement hrest.1 hrest.2)
  simp only [parser, after, List.cons_append, Item.parser] at hvalue ⊢
  rw [statement_start (by rw [ht]; rfl), ht]
  simp only [Productions.throwing, currentSpan_bind, advance_bind, State.peek_mk_cons,
    State.advance_mk_cons]
  rw [bind_of_some hvalue, previousSpan_bind, bind_of_some (expectSeparator_of_ends hfinal hrest.1)]
  simp

theorem evaluation (hstart : StartWith Kind.startsExpression ts)
    (hif : ts.head?.map Token.kind ≠ some (.keyword .ifWord)) (h : Reads .expression d ts e) :
    Reads .statement d ts (.expr e) := by
  intro stream b budget n close rest previous hfinal hb hbudget hn hrest
  have hvalue := h stream b budget n close rest previous hfinal hb hbudget hn
    (stop_of_endsStatement hrest.1 hrest.2)
  have hsep := hstart.isSeparator_nextKind rfl rfl rest
  obtain ⟨t, us, rfl, ht⟩ := hstart
  simp only [parser, after, List.cons_append, Item.parser] at hvalue ⊢
  have hrun : Productions.statement (productions b) stream ⟨t :: (us ++ rest), previous, n, .empty⟩ =
      (do
        let value ← (productions b).expression
        expectSeparator
        return .expr value : Parse Stmt) stream ⟨t :: (us ++ rest), previous, n, .empty⟩ := by
    rw [statement_start hsep]
    -- no expression starts with the token of another statement, but for `if`
    cases hkind : t.kind with
    | keyword k =>
      cases k with
      | ifWord => exact absurd (congrArg some hkind) hif
      | letWord | forWord | returnWord | assertWord | throwWord =>
        rw [hkind] at ht
        cases ht
      | _ => rfl
    | symbol k =>
      cases k with
      | rightBrace =>
        rw [hkind] at ht
        cases ht
      | _ => rfl
    | eof =>
      rw [hkind] at ht
      cases ht
    | _ => rfl
  rw [hrun, bind_of_some hvalue, bind_of_some (expectSeparator_of_ends hfinal hrest.1)]
  rfl

end Reads

end Phrase

namespace Derives

variable {g : Phrase} {d : Nat} {ts : List Token} {a : g.Tree}

/-- A segment of statements starts with no separator. -/
theorem isSeparator_of_statements {stmts : List Stmt} (h : Derives .statements d ts stmts)
    (rest : List Token) (hrest : (nextKind rest).isSeparator = Bool.false) :
    (nextKind (ts ++ rest)).isSeparator = Bool.false := by
  cases h with
  | statementsNil => exact hrest
  | statementsCons h =>
    have hstart : StartWith Kind.startsStatement _ := h.opens
    exact (hstart.append _).isSeparator_nextKind rfl rfl rest

theorem startsStatement_or_nil {stmts : List Stmt} (h : Derives .statements d ts stmts) :
    ts = [] ∨ StartWith Kind.startsStatement ts := by
  cases h with
  | statementsNil => exact .inl rfl
  | statementsCons h =>
    have hstart : StartWith Kind.startsStatement _ := h.opens
    exact .inr (hstart.append _)

open Phrase (Reads) in
/-- **What is derived is read.** -/
theorem reads (h : Derives g d ts a) : g.Reads d ts a := by
  induction h with
  | expression _ ih => exact ih.expression
  | chain hl _ htail ih ih' => exact .chain hl htail ih ih'
  | tailNil => exact .tailNil
  | tailCons ho ht hnewlines hright htail ih ih' =>
    exact .tailCons ho ht hnewlines hright htail ih ih'
  | uncompared _ ih => exact ih.uncompared
  | compared ho _ ht hnewlines hright ih ih' => exact .compared ho ht hnewlines hright ih ih'
  | unary ht _ ih => exact .unary ht ih
  | plain h ih => exact .plain h ih
  | suffixed _ hsuffix ih ih' => exact .suffixed hsuffix ih ih'
  | suffixNil => exact .suffixNil
  | member hdot ht hsuffix ih => exact .member hdot ht hsuffix ih
  | call hdot ht hopening _ hclosing _ ih ih' => exact .call hdot ht hopening hclosing ih ih'
  | index hopening hnewlines hkey hnewlines' hclosing _ ih ih' =>
    exact .index hopening hnewlines hkey hnewlines' hclosing ih ih'
  | number ht => exact .number ht
  | string ht => exact .string ht
  | template ht _ ih => exact .template ht ih
  | true ht => exact .true ht
  | false ht => exact .false ht
  | nil ht => exact .nil ht
  | list hopening _ hclosing ih => exact .list hopening hclosing ih
  | record hopening _ hclosing ih => exact .record hopening hclosing ih
  | paren hopening hnewlines h hnewlines' hclosing ih =>
    exact .paren hopening hnewlines h.opens hnewlines' hclosing ih
  | choice h ih => exact .choice h.opens ih
  | ident ht => exact .ident ht
  | field ht hcolon hnewlines h ih => exact .field ht hcolon hnewlines h.opens ih
  | itemsLast h hnewlines ih => exact .itemsLast h.opens hnewlines ih
  | itemsTrailing h hnewlines hcomma hnewlines' ih =>
    exact .itemsTrailing h.opens hnewlines hcomma hnewlines' ih
  | itemsCons h hnewlines hcomma hnewlines' hitems ih ih' =>
    exact .itemsCons h.opens hnewlines hcomma hnewlines' hitems.opens ih ih'
  | listingNil hnewlines => exact .listingNil hnewlines
  | listing hnewlines h ih => exact .listing hnewlines h.opens ih
  | holesLast hopening _ hclosing ht ih => exact .holesLast hopening hclosing ht ih
  | holesCons hopening _ hclosing ht _ ih ih' => exact .holesCons hopening hclosing ht ih ih'
  | branches _ _ hthen _ ih ih' ih'' => exact .branches hthen.opens ih ih' ih''
  | nothing => exact .nothing
  | elseIf hnewlines ht h ih => exact .elseIf hnewlines ht h.opens ih
  | elseBlock hnewlines ht h ih => exact .elseBlock hnewlines ht h.opens ih
  | block hopening hseparators hstmts hclosing ih =>
    exact .block hopening hseparators hclosing hstmts.isSeparator_of_statements ih
  | statementsNil => exact .statementsNil
  | statementsCons h hseparators hstmts hapart ih ih' =>
    exact .statementsCons h.opens hseparators hapart hstmts.startsStatement_or_nil ih ih'
  | bind ht hu hequal hnewlines h ih => exact .bind ht hu hequal hnewlines h.opens ih
  | conditional h ih => exact .conditional h.opens ih
  | loop ht hu hindex hin _ hbody ih ih' => exact .loop ht hu hindex hin hbody.opens ih ih'
  | leave ht => exact .leave ht
  | leaveWith ht h ih => exact .leaveWith ht h.opens ih
  | assertion ht _ hmessage ih => exact .assertion ht hmessage ih
  | throwing ht _ ih => exact .throwing ht ih
  | evaluation h hif ih => exact .evaluation h.opens hif ih

/-- **The grammar is unambiguous**: what is read of a segment is one tree. -/
theorem unique {e e' : Expr} (h : Derives .expression maxDepth ts e)
    (h' : Derives .expression maxDepth ts e') : e = e' := by
  -- both trees are what the grammar reads of the segment alone
  let stream : Stream := ⟨⟨"", ""⟩, ⟨.eof, .point 1 1⟩⟩
  have hend : Phrase.expression.Stops .rightBrace [] :=
    stop_of_endsStatement (.inr (.inl rfl)) (elseFree_of_ne nofun nofun)
  have hread := h.reads stream (ts.length + 1) ts.length 0 .rightBrace [] (.point 1 1) rfl
    (Nat.le_refl _) (Nat.le_refl _) (Nat.le_of_eq (Nat.zero_add _)) hend
  have hread' := h'.reads stream (ts.length + 1) ts.length 0 .rightBrace [] (.point 1 1) rfl
    (Nat.le_refl _) (Nat.le_refl _) (Nat.le_of_eq (Nat.zero_add _)) hend
  exact Option.some.inj (congrArg Prod.fst (hread.symm.trans hread'))

end Derives

end ParseActions
