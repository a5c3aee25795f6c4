import ParseActions.Proofs.Body.Ensures

/-!
# What is read is derived

A production that is run without a report succeeds, and takes a segment of the stream that is
derived from its phrase, with the tree that it gives. There is one lemma for each production, over
the productions that it nests; `closedList` and `closedExpression` are the parts that several have in
common.

## Main definitions

* `Phrase.Sound`: a production takes what is derived
* `Productions.Sound`: all productions that are nested do

## Main results

* `sound_productions`: the productions of the grammar take what is derived
-/

set_option synthInstance.maxSize 100000

namespace ParseActions

open Parse Token

/-- A production that makes no report takes a segment that is derived from the phrase. -/
def Phrase.Sound (g : Phrase) (stream : Stream) (p : Parse g.Tree) (n : Nat) (s : State) : Prop :=
  Ensures stream p s fun a s' => ∃ ts, Taken s ts s' ∧ Derives g (maxDepth - n) ts a

/-- The productions that are nested take what is derived. -/
structure Productions.Sound (sub : Productions) (stream : Stream) : Prop where
  expression {n : Nat} {s : State} (hs : Within sub.budget n s) :
    Phrase.expression.Sound stream sub.expression n s
  operand {n : Nat} {s : State} (hs : Within sub.budget n s) :
    (Phrase.level .prefixed).Sound stream sub.operand n s
  block {n : Nat} {s : State} (hs : Within sub.budget n s) :
    Phrase.block.Sound stream sub.block n s
  conditional {n : Nat} {s : State} (hs : Within sub.budget n s)
    (hif : nextKind s.rest = .keyword .ifWord) :
    Phrase.conditional.Sound stream sub.conditional n s

instance {sub : Productions} [sub.Keep] (i : Item) : Keeps (i.parser sub) := by
  cases i
  · exact inferInstanceAs (Keeps sub.expression)
  · exact inferInstanceAs (Keeps (Productions.field sub))

instance {sub : Productions} [sub.Keep] : Keeps (Productions.otherwise sub) := by
  unfold Productions.otherwise
  infer_instance

instance {sub : Productions} [sub.Keep] {l : Level} {budget : Nat} {left : Expr} :
    Keeps (l.loop sub budget left) := by
  cases l <;> unfold Level.loop <;> infer_instance

/-- What is read one level deeper is derived with one level less. -/
theorem Phrase.ensures_nested {g : Phrase} {stream : Stream} {p : Parse g.Tree} {bound n : Nat} {s : State}
    (hs : Within bound n s) (hp : ∀ s, Within bound (n + 1) s → g.Sound stream p (n + 1) s) :
    Ensures stream (Parse.nested p) s fun a s' =>
      ∃ ts d, maxDepth - n = d + 1 ∧ Taken s ts s' ∧ Derives g d ts a := by
  refine .nested hs.2 fun hn => ?_
  refine (hp { s with depth := n + 1 } ⟨hs.1, rfl⟩).mono ?_
  rintro a s' ⟨ts, h, ha⟩
  refine ⟨ts, maxDepth - (n + 1), by omega, ⟨h.rest, h.previous, ?_⟩, ha⟩
  rw [h.depth, hs.2]
  rfl

/-! ## Chains of operators -/

section

variable {sub : Productions} {stream : Stream} {n : Nat} {s : State} [sub.Keep]
  (hfinal : stream.final.kind = .eof)

include hfinal

theorem Level.sound_loop {l : Level} (hl : l.Chains)
    (htighter : ∀ {s : State}, Within (sub.budget + 1) n s →
      (Phrase.level l.tighter).Sound stream (l.tighter.parser sub) n s)
    (k : Nat) (left : Expr) (hs : Within (sub.budget + 1) n s) :
    (Phrase.tail l left).Sound stream (l.loop sub k left) n s := by
  induction k generalizing s left with
  | zero =>
    refine fun _ => ⟨left, s, ?_, [], .refl s, .tailNil⟩
    cases l <;> rfl
  | succ k ih =>
    rw [Phrase.Sound, Ensures, Level.loop_succ hl, State.kind_peek hfinal]
    cases hop : l.operator? (nextKind s.rest) with
    | none => exact fun _ => ⟨left, s, rfl, [], .refl s, .tailNil⟩
    | some o =>
      obtain ⟨hkind, rfl⟩ := Level.operator?_eq_some.mp hop
      obtain ⟨t, rest, hrest, ht⟩ := exists_rest hkind o.token_ne_eof
      refine Ensures.advance hrest fun h₁ => .skipNewlines fun newlines s₂ hnewlines h₂ _ => ?_
      refine (htighter (hs.taken (h₁.cons h₂))).bind ?_
      rintro right s₃ ⟨ts, h₃, hright⟩
      refine (ih _ (hs.taken (h₁.cons (h₂.trans h₃)))).mono ?_
      rintro e s₄ ⟨us, h₄, he⟩
      exact ⟨_, h₁.cons (h₂.trans (h₃.trans h₄)), .tailCons hl ht hnewlines hright he⟩

/-- A level with chains takes what is derived if the level of its operands does. -/
theorem Level.sound_parser {l : Level} (hl : l.Chains)
    (htighter : ∀ {s : State}, Within (sub.budget + 1) n s →
      (Phrase.level l.tighter).Sound stream (l.tighter.parser sub) n s)
    (hs : Within (sub.budget + 1) n s) : (Phrase.level l).Sound stream (l.parser sub) n s := by
  rw [Level.parser_eq hl]
  refine (htighter hs).bind ?_
  rintro left s₁ ⟨ts, h₁, hleft⟩
  refine (sound_loop hfinal hl htighter sub.budget left (hs.taken h₁)).mono ?_
  rintro e s₂ ⟨us, h₂, he⟩
  exact ⟨_, h₁.trans h₂, .chain hl hleft he⟩

/-- A second comparison is reported. -/
theorem Productions.sound_comparison
    (hsum : ∀ {s : State}, Within (sub.budget + 1) n s →
      (Phrase.level .sum).Sound stream (Level.sum.parser sub) n s)
    (hs : Within (sub.budget + 1) n s) :
    (Phrase.level .comparison).Sound stream (Level.comparison.parser sub) n s := by
  refine .bind_of_keeps (fun left => respects_bind inferInstance fun kind => by
    split <;> infer_instance) (hsum hs) ?_
  rintro left s₁ ⟨ts, h₁, hleft⟩
  refine .peekKind hfinal ?_
  cases hop : comparison? (nextKind s₁.rest) with
  | none => exact .pure ⟨ts, h₁, .uncompared hleft⟩
  | some op =>
    have hbinary : Level.comparison.operator? (nextKind s₁.rest) = some (.binary op) := by
      rw [← comparison?_eq, hop]
      rfl
    obtain ⟨hkind, hlevel⟩ := Level.operator?_eq_some.mp hbinary
    obtain ⟨t, rest, hrest, ht⟩ := exists_rest hkind (Operator.token_ne_eof _)
    refine .advance hrest fun h₂ => .skipNewlines fun newlines s₃ hnewlines h₃ _ => ?_
    refine (hsum (hs.taken (h₁.trans (h₂.cons h₃)))).bind ?_
    rintro right s₄ ⟨us, h₄, hright⟩
    refine .peekKind hfinal ?_
    split
    · exact .of_hasErrors hasErrors_report
    · exact .pure ⟨_, h₁.trans (h₂.cons (h₃.trans h₄)),
        .compared hlevel hleft ht hnewlines hright⟩

end

/-! ## Parts of statements -/

/-- What a statement takes: a segment that is derived and the separators after it, which are there
unless the block ends or the tokens do. -/
def TakesStatement (n : Nat) (s : State) (stmt : Stmt) (s' : State) : Prop :=
  ∃ ts separators, Taken s (ts ++ separators) s' ∧ Derives .statement (maxDepth - n) ts stmt ∧
    Separators separators ∧ (nextKind s'.rest).isSeparator = false ∧
    (separators = [] → nextKind s'.rest = .eof ∨ nextKind s'.rest = .symbol .rightBrace)

section

variable {stream : Stream} {n : Nat} {s : State} (hfinal : stream.final.kind = .eof)

include hfinal

theorem ensures_index {f : Option Ident → Parse Stmt} {Q : Stmt → State → Prop}
    [∀ index, Keeps (f index)]
    (hf : ∀ is index s', DerivesIndex is index → Taken s is s' → Ensures stream (f index) s' Q) :
    Ensures stream (eat (.symbol .comma) >>= fun b =>
      if b = true then some <$> expectIdentifier >>= f else pure none >>= f) s Q := by
  refine .eat hfinal (by nofun) (fun comma s₁ hcomma h₁ => ?_) fun _ => hf [] none s .nothing (.refl s)
  refine Ensures.bind (ensures_expectIdentifier hfinal).map ?_
  rintro _ s₂ ⟨_, rfl, t, name, ht, rfl, h₂⟩
  exact hf _ _ s₂ (.name hcomma ht) (h₁.cons h₂)

theorem ensures_message {f : Option String → Parse Stmt} {Q : Stmt → State → Prop}
    [∀ message, Keeps (f message)]
    (hf : ∀ ms message s', DerivesMessage ms message → Taken s ms s' →
      Ensures stream (f message) s' Q) :
    Ensures stream (eat (.symbol .comma) >>= fun b =>
      if b = true then some <$> expectString >>= f else pure none >>= f) s Q := by
  refine .eat hfinal (by nofun) (fun comma s₁ hcomma h₁ => ?_) fun _ => hf [] none s .nothing (.refl s)
  refine Ensures.bind (ensures_expectString hfinal).map ?_
  rintro _ s₂ ⟨text, rfl, t, ht, h₂⟩
  exact hf _ _ s₂ (.text hcomma ht) (h₁.cons h₂)

/-- The separators after a statement are taken with it. -/
theorem ensures_ends {s₁ : State} {ts : List Token} {stmt : Stmt} (h : Taken s ts s₁)
    (hstmt : Derives .statement (maxDepth - n) ts stmt) :
    Ensures stream (expectSeparator >>= fun _ => pure stmt) s₁ (TakesStatement n s) := by
  refine (ensures_expectSeparator hfinal).bind ?_
  rintro _ s₂ ⟨separators, hseparators, h₁, hnext, hends⟩
  exact .pure ⟨ts, separators, h.trans h₁, hstmt, hseparators, hnext, hends⟩

end

namespace Productions.Sound

variable {sub : Productions} {stream : Stream} {n : Nat} {s : State} [sub.Keep]

section

variable (hsub : sub.Sound stream) (hfinal : stream.final.kind = .eof)

include hsub hfinal

/-! ## Lists -/

theorem field (hs : Within sub.budget n s) :
    Phrase.field.Sound stream (Productions.field sub) n s := by
  refine (ensures_expectMemberName hfinal).bind ?_
  rintro _ s₁ ⟨t, name, ht, rfl, h₁⟩
  refine (ensures_expect hfinal (by nofun)).bind ?_
  rintro colon s₂ ⟨hcolon, h₂⟩
  refine .skipNewlines fun newlines s₃ hnewlines h₃ _ => ?_
  refine (hsub.expression (hs.taken (h₁.trans (h₂.trans h₃)))).bind ?_
  rintro e s₄ ⟨ts, h₄, he⟩
  exact .pure ⟨_, h₁.cons (h₂.cons (h₃.trans h₄)), .field ht hcolon hnewlines he⟩

theorem item (i : Item) (hs : Within sub.budget n s) :
    (Phrase.item i).Sound stream (i.parser sub) n s := by
  cases i
  · exact hsub.expression hs
  · exact hsub.field hfinal hs

theorem items (i : Item) (close : Symbol) (k : Nat) (hk : Within k n s)
    (hs : Within sub.budget n s) (hnext : nextKind s.rest ≠ .newline) :
    (Phrase.items i).Sound stream (commaItems (i.parser sub) close k) n s := by
  induction k generalizing s with
  | zero => exact absurd hk.1 (Nat.not_lt_zero _)
  | succ k ih =>
    refine .skipNewlines_of_ne hnext ?_
    refine (hsub.item hfinal i hs).bind ?_
    rintro a s₁ ⟨ts, h₁, ha⟩
    refine .skipNewlines fun newlines s₂ hnewlines h₂ _ => ?_
    refine .eat hfinal (by nofun) (fun comma s₃ hcomma h₃ => ?_) fun _ =>
      .pure ⟨_, h₁.trans h₂, .itemsLast ha hnewlines⟩
    refine .skipNewlines fun newlines' s₄ hnewlines' h₄ hnext => ?_
    have h := h₁.trans (h₂.trans (h₃.cons h₄))
    refine .check hfinal (fun _ => .pure ⟨_, h, .itemsTrailing ha hnewlines hcomma hnewlines'⟩)
      fun _ => ?_
    refine (ih (hk.taken_of_ne_nil h (by simp)) (hs.taken h) hnext).bind ?_
    rintro as s₅ ⟨us, h₅, has⟩
    exact .pure ⟨_, h₁.trans (h₂.trans (h₃.cons (h₄.trans h₅))),
      .itemsCons ha hnewlines hcomma hnewlines' has⟩

theorem listing (i : Item) (close : Symbol) (hs : Within sub.budget n s) :
    (Phrase.listing i).Sound stream (commaList sub.budget (i.parser sub) close) n s := by
  refine .skipNewlines fun newlines s₁ hnewlines h₁ hnext => ?_
  refine .check hfinal (fun _ => .pure ⟨_, h₁, .listingNil hnewlines⟩) fun _ => ?_
  refine (hsub.items hfinal i close sub.budget (hs.taken h₁) (hs.taken h₁) hnext).mono ?_
  rintro as s₂ ⟨ts, h₂, has⟩
  exact ⟨_, h₁.trans h₂, .listing hnewlines has⟩

/-- A list with the symbol that closes it. -/
theorem closedList {β : Type} {Q : β → State → Prop} (i : Item) (close : Symbol)
    {f : List i.Tree → Span → Parse β} [∀ as last, Keeps (f as last)] (hs : Within sub.budget n s)
    (hf : ∀ as ts closing s', Derives (.listing i) (maxDepth - n) ts as →
      closing.kind = .symbol close → Taken s (ts ++ [closing]) s' →
      Ensures stream (f as closing.span) s' Q) :
    Ensures stream (commaList sub.budget (i.parser sub) close >>= fun as =>
      expect (.symbol close) >>= fun _ => previousSpan >>= fun last => f as last) s Q := by
  refine (hsub.listing hfinal i close hs).bind ?_
  rintro as s₁ ⟨ts, h₁, has⟩
  refine (ensures_expect hfinal (by nofun)).bind ?_
  rintro closing s₂ ⟨hclosing, h₂⟩
  refine .previousSpan ?_
  rw [h₂.previous_singleton]
  exact hf as ts closing s₂ has hclosing (h₁.trans h₂)

omit [sub.Keep] in
/-- An expression on lines of its own, with the symbol that closes it. -/
theorem closedExpression {β : Type} {Q : β → State → Prop} (close : Symbol)
    {f : Expr → Span → Parse β} [∀ e last, Keeps (f e last)] (hs : Within sub.budget n s)
    (hf : ∀ e newlines ts newlines' closing s', Newlines newlines →
      Derives .expression (maxDepth - n) ts e → Newlines newlines' →
      closing.kind = .symbol close → Taken s (newlines ++ (ts ++ (newlines' ++ [closing]))) s' →
      Ensures stream (f e closing.span) s' Q) :
    Ensures stream (skipNewlines >>= fun _ => sub.expression >>= fun e => skipNewlines >>= fun _ =>
      expect (.symbol close) >>= fun _ => previousSpan >>= fun last => f e last) s Q := by
  refine .skipNewlines fun newlines s₁ hnewlines h₁ _ => ?_
  refine (hsub.expression (hs.taken h₁)).bind ?_
  rintro e s₂ ⟨ts, h₂, he⟩
  refine .skipNewlines fun newlines' s₃ hnewlines' h₃ _ => ?_
  refine (ensures_expect hfinal (by nofun)).bind ?_
  rintro closing s₄ ⟨hclosing, h₄⟩
  refine .previousSpan ?_
  rw [h₄.previous_singleton]
  exact hf e newlines ts newlines' closing s₄ hnewlines he hnewlines' hclosing
    (h₁.trans (h₂.trans (h₃.trans h₄)))

theorem holes (k : Nat) (hk : Within k n s) (hs : Within sub.budget n s) :
    Phrase.holes.Sound stream (Productions.holes sub k) n s := by
  induction k generalizing s with
  | zero => exact absurd hk.1 (Nat.not_lt_zero _)
  | succ k ih =>
    rw [Productions.holes_succ]
    refine (ensures_expect hfinal (by simp)).bind ?_
    rintro opening s₁ ⟨hopening, h₁⟩
    refine (hsub.expression (hs.taken h₁)).bind ?_
    rintro e s₂ ⟨ts, h₂, he⟩
    refine (ensures_expect hfinal (by simp)).bind ?_
    rintro closing s₃ ⟨hclosing, h₃⟩
    refine .peekKind hfinal ?_
    split
    · next text hkind =>
      obtain ⟨t, rest, hrest, ht⟩ := exists_rest hkind (by simp)
      refine .advance hrest fun h₄ => ?_
      have h := h₁.cons (h₂.trans (h₃.cons h₄))
      refine (ih (hk.taken_of_ne_nil h (by simp)) (hs.taken h)).bind ?_
      rintro parts s₅ ⟨us, h₅, hparts⟩
      exact .pure ⟨_, h₁.cons (h₂.trans (h₃.cons (h₄.cons h₅))),
        .holesCons hopening he hclosing ht hparts⟩
    · next text hkind =>
      obtain ⟨t, rest, hrest, ht⟩ := exists_rest hkind (by simp)
      exact .advance hrest fun h₄ =>
        .pure ⟨_, h₁.cons (h₂.trans (h₃.cons h₄)), .holesLast hopening he hclosing ht⟩
    · exact .of_hasErrors hasErrors_report

/-! ## Conditionals -/

omit [sub.Keep] in
theorem otherwise (hs : Within sub.budget n s) :
    Phrase.otherwise.Sound stream (Productions.otherwise sub) n s := by
  by_cases helse : ElseFree s.rest
  · exact fun _ => ⟨_, _, Productions.otherwise_of_not hfinal helse, [], .refl s, .nothing⟩
  · obtain ⟨newlines, hnewlines, h₁, -⟩ := Taken.skipWhile (p := (· == .newline)) rfl s
    have hnewlines : Newlines newlines := fun t ht => eq_of_beq (hnewlines t ht)
    have hkind : nextKind (s.skipWhile (· == .newline)).rest = .keyword .elseWord :=
      not_not.mp helse
    obtain ⟨t, rest, hrest, ht⟩ := exists_rest hkind nofun
    have htokens : s.rest = newlines ++ t :: rest := by rw [h₁.rest, hrest]
    obtain ⟨tokens, previous, depth, errors⟩ := s
    obtain rfl : tokens = newlines ++ t :: rest := htokens
    have h₁ : Taken ⟨newlines ++ t :: rest, previous, depth, errors⟩ newlines
        ⟨t :: rest, lastSpan previous newlines, depth, errors⟩ := ⟨rfl, rfl, rfl⟩
    have h₂ : Taken ⟨t :: rest, lastSpan previous newlines, depth, errors⟩ [t]
        ⟨rest, t.span, depth, errors⟩ := .advance rfl
    have hs := hs.taken (h₁.trans h₂)
    rw [Phrase.Sound, Ensures, Productions.otherwise_else hnewlines ht]
    refine Ensures.check hfinal (fun hif => ?_) fun _ => ?_
    · refine (hsub.conditional hs hif).bind ?_
      rintro c s₃ ⟨ts, h₃, hc⟩
      exact .pure ⟨_, h₁.trans (h₂.cons h₃), .elseIf hnewlines ht hc⟩
    · refine (hsub.block hs).bind ?_
      rintro b s₃ ⟨ts, h₃, hb⟩
      exact .pure ⟨_, h₁.trans (h₂.cons h₃), .elseBlock hnewlines ht hb⟩

theorem branches (hs : Within (sub.budget + 1) n s) (hif : nextKind s.rest = .keyword .ifWord) :
    Phrase.conditional.Sound stream (Productions.branches sub) n s := by
  obtain ⟨t, rest, hrest, ht⟩ := exists_rest hif nofun
  rw [Productions.branches_eq]
  refine .start hrest fun h₁ => ?_
  have hs := hs.taken_of_ne_nil h₁ (by simp)
  refine (hsub.expression hs).bind ?_
  rintro condition s₂ ⟨ts, h₂, hcondition⟩
  refine (hsub.block (hs.taken h₂)).bind ?_
  rintro thenBlock s₃ ⟨us, h₃, hthen⟩
  refine (hsub.otherwise hfinal (hs.taken (h₂.trans h₃))).bind ?_
  rintro other s₄ ⟨vs, h₄, hother⟩
  refine .previousSpan (.pure ⟨_, h₁.cons (h₂.trans (h₃.trans h₄)), ?_⟩)
  have hstart : StartWith (· == .symbol .leftBrace) us := hthen.opens
  rw [(h₃.trans h₄).previous_of_ne_nil (by simp [hstart.ne_nil]) t.span]
  exact .branches ht hcondition hthen hother

/-! ## Expressions -/

theorem primary (hs : Within (sub.budget + 1) n s) :
    (Phrase.level .primary).Sound stream (Productions.primary sub) n s := by
  refine .currentSpan (.peekKind hfinal ?_)
  cases hrest : s.rest with
  | nil => exact .of_hasErrors hasErrors_report
  | cons t rest =>
    rw [peek_of_rest hrest, nextKind_cons]
    have hnext : nextKind s.rest = t.kind := by rw [hrest, nextKind_cons]
    -- one token is taken before anything is nested, which pays for the smaller budget of `sub`
    have hinner : Taken s [t] s.advance → Within sub.budget n s.advance := fun h₁ =>
      hs.taken_of_ne_nil h₁ (by simp)
    split
    · next value ht => exact .advance hrest fun h₁ => .pure ⟨_, h₁, .number ht⟩
    · next text ht => exact .advance hrest fun h₁ => .pure ⟨_, h₁, .string ht⟩
    · next text ht =>
      refine .advance hrest fun h₁ => ?_
      refine (hsub.holes hfinal sub.budget (hinner h₁) (hinner h₁)).bind ?_
      rintro parts s₂ ⟨ts, h₂, hparts⟩
      refine .previousSpan (.pure ⟨_, h₁.cons h₂, ?_⟩)
      rw [(h₁.cons h₂).previous_cons]
      exact .template ht hparts
    · next ht => exact .advance hrest fun h₁ => .pure ⟨_, h₁, .true ht⟩
    · next ht => exact .advance hrest fun h₁ => .pure ⟨_, h₁, .false ht⟩
    · next ht => exact .advance hrest fun h₁ => .pure ⟨_, h₁, .nil ht⟩
    · next ht =>
      refine .advance hrest fun h₁ => hsub.closedList hfinal .expression .rightBracket (hinner h₁) ?_
      intro items ts closing s₂ hitems hclosing h₂
      exact .pure ⟨_, h₁.cons h₂, .list ht hitems hclosing⟩
    · next ht =>
      refine .advance hrest fun h₁ => hsub.closedList hfinal .field .rightBrace (hinner h₁) ?_
      intro fields ts closing s₂ hfields hclosing h₂
      exact .pure ⟨_, h₁.cons h₂, .record ht hfields hclosing⟩
    · next ht =>
      refine .advance hrest fun h₁ => hsub.closedExpression hfinal .rightParen (hinner h₁) ?_
      intro e newlines ts newlines' closing s₂ hnewlines he hnewlines' hclosing h₂
      exact .pure ⟨_, h₁.cons h₂, .paren ht hnewlines he hnewlines' hclosing⟩
    · next ht =>
      refine (hsub.branches hfinal hs (hnext.trans ht)).bind ?_
      rintro c s₁ ⟨ts, h₁, hc⟩
      exact .pure ⟨ts, h₁, .choice hc⟩
    · next name ht =>
      change Ensures stream (if s.kindAt 1 = .symbol .leftParen then _ else _) s _
      split
      · exact .of_hasErrors hasErrors_report
      · exact .advance hrest fun h₁ => .pure ⟨_, h₁, .ident ht⟩
    · exact .of_hasErrors hasErrors_report

theorem suffixes (k : Nat) (object : Expr) (hs : Within (sub.budget + 1) n s) :
    (Phrase.suffix object).Sound stream (Productions.suffixes sub k object) n s := by
  induction k generalizing s object with
  | zero => exact .pure ⟨[], .refl s, .suffixNil⟩
  | succ k ih =>
    refine .peekKind hfinal ?_
    split
    · next hkind =>
      obtain ⟨dot, rest, hrest, hdot⟩ := exists_rest hkind (by simp)
      refine .advance hrest fun h₁ => ?_
      refine (ensures_expectMemberName hfinal).bind ?_
      rintro _ s₂ ⟨t, name, ht, rfl, h₂⟩
      refine .check hfinal (fun hkind => ?_) fun _ => ?_
      · obtain ⟨opening, rest, hrest, hopening⟩ := exists_rest hkind (by simp)
        refine .advance hrest fun h₃ => ?_
        have h := h₁.cons (h₂.cons h₃)
        refine hsub.closedList hfinal .expression .rightParen (hs.taken_of_ne_nil h (by simp)) ?_
        intro args ts closing s₄ hargs hclosing h₄
        refine (ih _ (hs.taken (h.trans h₄))).mono ?_
        rintro e s₅ ⟨us, h₅, he⟩
        refine ⟨_, (h.trans h₄).trans h₅, ?_⟩
        simpa using .call hdot ht hopening hargs hclosing he
      · refine (ih _ (hs.taken (h₁.cons h₂))).mono ?_
        rintro e s₃ ⟨us, h₃, he⟩
        exact ⟨_, h₁.cons (h₂.cons h₃), .member hdot ht he⟩
    · next hkind =>
      obtain ⟨opening, rest, hrest, hopening⟩ := exists_rest hkind (by simp)
      refine .advance hrest fun h₁ => ?_
      refine hsub.closedExpression hfinal .rightBracket (hs.taken_of_ne_nil h₁ (by simp)) ?_
      intro key newlines ts newlines' closing s₂ hnewlines hkey hnewlines' hclosing h₂
      refine (ih _ (hs.taken (h₁.cons h₂))).mono ?_
      rintro e s₃ ⟨us, h₃, he⟩
      refine ⟨_, (h₁.cons h₂).trans h₃, ?_⟩
      simpa using .index hopening hnewlines hkey hnewlines' hclosing he
    · exact .pure ⟨[], .refl s, .suffixNil⟩

theorem suffixed (hs : Within (sub.budget + 1) n s) :
    (Phrase.level .suffixed).Sound stream (Level.suffixed.parser sub) n s := by
  refine (hsub.primary hfinal hs).bind ?_
  rintro object s₁ ⟨ts, h₁, hobject⟩
  refine (hsub.suffixes hfinal sub.budget object (hs.taken h₁)).mono ?_
  rintro e s₂ ⟨us, h₂, he⟩
  exact ⟨_, h₁.trans h₂, .suffixed hobject he⟩

theorem prefixed (hs : Within (sub.budget + 1) n s) :
    (Phrase.level .prefixed).Sound stream (Productions.prefixed sub) n s := by
  refine .currentSpan (.peekKind hfinal ?_)
  cases hop : unary? (nextKind s.rest) with
  | none =>
    refine (hsub.suffixed hfinal hs).mono ?_
    rintro e s₁ ⟨ts, h₁, he⟩
    exact ⟨ts, h₁, .plain he⟩
  | some op =>
    have hkind : nextKind s.rest = op.token := unary?_eq_some.mp hop
    obtain ⟨t, rest, hrest, ht⟩ := exists_rest hkind (by cases op <;> simp [UnaryOp.token])
    rw [peek_of_rest hrest]
    refine .advance hrest fun h₁ => ?_
    refine (Phrase.ensures_nested (g := .level .prefixed) (hs.taken_of_ne_nil h₁ (by simp))
      fun s' hs' => hsub.operand hs').bind ?_
    rintro e s₂ ⟨ts, d, hd, h₂, he⟩
    exact .pure ⟨_, h₁.cons h₂, hd ▸ .unary ht he⟩

/-! ## All levels -/

/-- An expression of the loosest level, by all levels in turn. -/
theorem disjunction (hs : Within (sub.budget + 1) n s) :
    (Phrase.level .disjunction).Sound stream (Level.disjunction.parser sub) n s := by
  have hproduct {s : State} (hs : Within (sub.budget + 1) n s) :=
    Level.sound_parser (l := .product) hfinal trivial (hsub.prefixed hfinal) hs
  have hsum {s : State} (hs : Within (sub.budget + 1) n s) :=
    Level.sound_parser (l := .sum) hfinal trivial hproduct hs
  have hcomparison {s : State} (hs : Within (sub.budget + 1) n s) :=
    sound_comparison hfinal hsum hs
  have hcoalesced {s : State} (hs : Within (sub.budget + 1) n s) :=
    Level.sound_parser (l := .coalescing) hfinal trivial hcomparison hs
  have hconjunction {s : State} (hs : Within (sub.budget + 1) n s) :=
    Level.sound_parser (l := .conjunction) hfinal trivial hcoalesced hs
  exact Level.sound_parser hfinal trivial hconjunction hs

/-! ## Statements -/

theorem binding (hs : Within sub.budget n s) (hlet : nextKind s.rest = .keyword .letWord) :
    Ensures stream (Productions.binding sub) s (TakesStatement n s) := by
  obtain ⟨t, rest, hrest, ht⟩ := exists_rest hlet nofun
  refine .start hrest fun h₁ => ?_
  refine (ensures_expectIdentifier hfinal).bind ?_
  rintro _ s₂ ⟨u, name, hu, rfl, h₂⟩
  refine (ensures_expect hfinal (by nofun)).bind ?_
  rintro equal s₃ ⟨hequal, h₃⟩
  refine .skipNewlines fun newlines s₄ hnewlines h₄ _ => ?_
  have h := h₁.cons (h₂.cons (h₃.cons h₄))
  refine (hsub.expression (hs.taken h)).bind ?_
  rintro e s₅ ⟨ts, h₅, he⟩
  refine .previousSpan ?_
  have hstart : StartWith Kind.startsExpression ts := he.opens
  rw [h₅.previous_of_ne_nil hstart.ne_nil t.span]
  exact ensures_ends hfinal (h₁.cons (h₂.cons (h₃.cons (h₄.trans h₅))))
    (.bind ht hu hequal hnewlines he)

theorem loop (hs : Within sub.budget n s) (hfor : nextKind s.rest = .keyword .forWord) :
    Phrase.statement.Sound stream (Productions.loop sub) n s := by
  obtain ⟨t, rest, hrest, ht⟩ := exists_rest hfor nofun
  refine .start hrest fun h₁ => ?_
  refine (ensures_expectIdentifier hfinal).bind ?_
  rintro _ s₂ ⟨u, item, hu, rfl, h₂⟩
  refine ensures_index hfinal fun is index s₃ hindex h₃ => ?_
  refine (ensures_expect hfinal (by nofun)).bind ?_
  rintro inWord s₄ ⟨hin, h₄⟩
  have h := h₁.cons (h₂.cons (h₃.trans h₄))
  refine (hsub.expression (hs.taken h)).bind ?_
  rintro e s₅ ⟨ts, h₅, he⟩
  refine (hsub.block (hs.taken (h.trans h₅))).bind ?_
  rintro b s₆ ⟨us, h₆, hb⟩
  refine .previousSpan ?_
  have hstart : StartWith (· == .symbol .leftBrace) us := hb.opens
  rw [h₆.previous_of_ne_nil hstart.ne_nil t.span]
  exact .pure ⟨_, h₁.cons (h₂.cons (h₃.trans (h₄.cons (h₅.trans h₆)))),
    .loop ht hu hindex hin he hb⟩

omit [sub.Keep] in
theorem leave (hs : Within sub.budget n s) (hreturn : nextKind s.rest = .keyword .returnWord) :
    Ensures stream (Productions.leave sub) s (TakesStatement n s) := by
  obtain ⟨t, rest, hrest, ht⟩ := exists_rest hreturn nofun
  refine .advance hrest fun h₁ => .peekKind hfinal ?_
  split
  · refine .previousSpan ?_
    rw [h₁.previous_singleton]
    exact ensures_ends hfinal h₁ (.leave ht)
  · refine (hsub.expression (hs.taken h₁)).bind ?_
    rintro e s₂ ⟨ts, h₂, he⟩
    refine .previousSpan ?_
    have hstart : StartWith Kind.startsExpression ts := he.opens
    rw [h₂.previous_of_ne_nil hstart.ne_nil t.span]
    exact ensures_ends hfinal (h₁.cons h₂) (.leaveWith ht he)

omit [sub.Keep] in
theorem assertion (hs : Within sub.budget n s) (hassert : nextKind s.rest = .keyword .assertWord) :
    Ensures stream (Productions.assertion sub) s (TakesStatement n s) := by
  obtain ⟨t, rest, hrest, ht⟩ := exists_rest hassert nofun
  refine .start hrest fun h₁ => ?_
  refine (hsub.expression (hs.taken h₁)).bind ?_
  rintro e s₂ ⟨ts, h₂, he⟩
  refine ensures_message hfinal fun ms message s₃ hmessage h₃ => .previousSpan ?_
  have hstart : StartWith Kind.startsExpression ts := he.opens
  rw [(h₂.trans h₃).previous_of_ne_nil (by simp [hstart.ne_nil]) t.span]
  exact ensures_ends hfinal (h₁.cons (h₂.trans h₃)) (.assertion ht he hmessage)

omit [sub.Keep] in
theorem throwing (hs : Within sub.budget n s) (hthrow : nextKind s.rest = .keyword .throwWord) :
    Ensures stream (Productions.throwing sub) s (TakesStatement n s) := by
  obtain ⟨t, rest, hrest, ht⟩ := exists_rest hthrow nofun
  refine .start hrest fun h₁ => ?_
  refine (hsub.expression (hs.taken h₁)).bind ?_
  rintro e s₂ ⟨ts, h₂, he⟩
  refine .previousSpan ?_
  have hstart : StartWith Kind.startsExpression ts := he.opens
  rw [h₂.previous_of_ne_nil hstart.ne_nil t.span]
  exact ensures_ends hfinal (h₁.cons h₂) (.throwing ht he)

/-- A statement where one is looked for. -/
theorem statement (hs : Within sub.budget n s) (hseparator : (nextKind s.rest).isSeparator = false)
    (heof : nextKind s.rest ≠ .eof) (hbrace : nextKind s.rest ≠ .symbol .rightBrace) :
    Ensures stream (Productions.statement sub) s (TakesStatement n s) := by
  refine .skipSeparators_of_not hseparator (.peekKind hfinal ?_)
  split
  · next h => exact absurd h heof
  · next h => exact absurd h hbrace
  · next h => exact hsub.binding hfinal hs h
  · next h =>
    refine (hsub.branches hfinal ⟨Nat.lt_succ_of_lt hs.1, hs.2⟩ h).bind ?_
    rintro c s₁ ⟨ts, h₁, hc⟩
    exact ensures_ends hfinal h₁ (.conditional hc)
  · next h =>
    refine (hsub.loop hfinal hs h).bind ?_
    rintro stmt s₁ ⟨ts, h₁, hstmt⟩
    exact ensures_ends hfinal h₁ hstmt
  · next h => exact hsub.leave hfinal hs h
  · next h => exact hsub.assertion hfinal hs h
  · next h => exact hsub.throwing hfinal hs h
  · next _ _ _ hif _ _ _ _ =>
    refine (hsub.expression hs).bind ?_
    rintro e s₁ ⟨ts, h₁, he⟩
    have hstart : StartWith Kind.startsExpression ts := he.opens
    -- a conditional was read as a statement of its own above
    refine ensures_ends hfinal h₁ (.evaluation he fun hhead => hif ?_)
    obtain ⟨t, rest, rfl, -⟩ := hstart
    rw [h₁.rest]
    exact Option.some.inj hhead

/-- Where a block ends or the tokens do, no statements are read. -/
theorem statements (k : Nat) (hs : Within sub.budget n s)
    (hseparator : (nextKind s.rest).isSeparator = false) :
    Ensures stream (Productions.statements sub k) s fun stmts s' => ∃ ts,
      Taken s ts s' ∧ Derives .statements (maxDepth - n) ts stmts ∧
      (nextKind s.rest = .eof ∨ nextKind s.rest = .symbol .rightBrace → ts = []) := by
  induction k generalizing s with
  | zero => exact .pure ⟨[], .refl s, .statementsNil, fun _ => rfl⟩
  | succ k ih =>
    have hrun : Productions.statements sub (k + 1) stream s =
        (if decide (nextKind s.rest = .symbol .rightBrace) || decide (nextKind s.rest = .eof) ||
            s.errors.isFull then pure []
          else attempt (Productions.statement sub) >>= afterStatement sub k) stream s := by
      rw [← State.kind_peek hfinal]
      rfl
    rw [Ensures, hrun]
    split
    · exact fun _ => ⟨[], s, rfl, [], .refl s, .statementsNil, fun _ => rfl⟩
    · next h =>
      simp only [Bool.or_eq_true, decide_eq_true_eq, not_or] at h
      obtain ⟨⟨hbrace, heof⟩, -⟩ := h
      refine Ensures.bind (hsub.statement hfinal hs hseparator heof hbrace).attempt ?_
      rintro _ s₁ ⟨stmt, rfl, ts, separators, h₁, hstmt, hseparators, hnext, hends⟩
      refine .skipSeparators_of_not hnext ?_
      refine (ih (hs.taken h₁) hnext).bind ?_
      rintro stmts s₂ ⟨us, h₂, hstmts, hnil⟩
      refine .pure ⟨ts ++ (separators ++ us), ?_, ?_, fun hend => ?_⟩
      · rw [← List.append_assoc]
        exact h₁.trans h₂
      · refine .statementsCons hstmt hseparators hstmts ?_
        -- without separators after it a statement is the last one, as no other can start there
        by_cases hnone : separators = []
        · exact .inr (hnil (hends hnone))
        · exact .inl hnone
      · rcases hend with hend | hend
        · exact absurd hend heof
        · exact absurd hend hbrace

theorem braces (hs : Within (sub.budget + 1) n s) :
    Phrase.block.Sound stream (Productions.braces sub) n s := by
  refine .currentSpan ?_
  refine (ensures_expect hfinal (by nofun)).bind ?_
  rintro opening s₁ ⟨hopening, h₁⟩
  rw [peek_of_rest h₁.rest]
  refine .skipSeparators fun separators s₂ hseparators h₂ hnext => ?_
  have hs := hs.taken_of_ne_nil (h₁.cons h₂) (by simp)
  refine (hsub.statements hfinal sub.budget hs hnext).bind ?_
  rintro stmts s₃ ⟨ts, h₃, hstmts, _⟩
  refine (ensures_expect hfinal (by nofun)).bind ?_
  rintro closing s₄ ⟨hclosing, h₄⟩
  refine .previousSpan ?_
  rw [h₄.previous_singleton]
  exact .pure ⟨_, h₁.cons (h₂.trans (h₃.trans h₄)), .block hopening hseparators hstmts hclosing⟩

/-! ## All productions -/

theorem next : (Productions.next sub).Sound stream where
  expression hs :=
    (Phrase.ensures_nested hs fun _ hs => hsub.disjunction hfinal hs).mono fun _ _ ⟨ts, _, hd, h, he⟩ =>
      ⟨ts, h, hd ▸ .expression he⟩
  operand hs := hsub.prefixed hfinal hs
  block hs := hsub.braces hfinal hs
  conditional hs hif := hsub.branches hfinal hs hif

end

end Productions.Sound

/-- **What is read is derived**, in all productions of the grammar. -/
theorem sound_productions {stream : Stream} (hfinal : stream.final.kind = .eof) (b : Nat) :
    (productions b).Sound stream := by
  induction b with
  | zero =>
    exact ⟨fun hs => absurd hs.1 (Nat.not_lt_zero _), fun hs => absurd hs.1 (Nat.not_lt_zero _),
      fun hs => absurd hs.1 (Nat.not_lt_zero _), fun hs => absurd hs.1 (Nat.not_lt_zero _)⟩
  | succ b ih => exact ih.next hfinal

end ParseActions
