import ParseActions.Proofs.Body.Production

/-!
# What may follow a phrase

A phrase is read up to a token that does not go on with it. An expression of a level is gone on with
by an operator of the level or a tighter one, by an access, a call or an index, and by an `else`
after newlines.

## Main definitions

* `Token.Kind.joins?`: the level at which a token goes on with an expression
* `Token.Stop`: tokens that do not go on with an expression of a level
* `Phrase.Stops`: tokens that may follow a phrase

## Main results

* `Derives.stop_tail`, `Derives.stop_suffix`: operands and objects stop before what goes on with
  them at a looser level
-/

namespace ParseActions

open Parse

namespace Token

/-! ## After expressions -/

/-- The level at which a token goes on with the expression before it. -/
def Kind.joins? : Kind → Option Level
  | symbol .dot | symbol .leftBracket => some .suffixed
  | symbol .leftParen => some .primary
  | kind => (Operator.ofKind? kind).map Operator.level

/-- The token after the newlines is no `else`. -/
def ElseFree (rest : List Token) : Prop :=
  nextKind (rest.dropWhile fun t => t.kind == .newline) ≠ .keyword .elseWord

/-- Tokens that do not go on with an expression of a level. -/
def Stop (l : Level) (rest : List Token) : Prop :=
  (∀ m, (nextKind rest).joins? = some m → m.rank < l.rank) ∧ ElseFree rest

variable {l m : Level} {ts rest newlines : List Token} {t : Token}

theorem elseFree_of_ne (hnewline : nextKind ts ≠ .newline) (helse : nextKind ts ≠ .keyword .elseWord) :
    ElseFree ts := by
  cases ts with
  | nil => exact helse
  | cons t ts =>
    have ht : (t.kind == .newline) = false := by simpa using hnewline
    simpa [ElseFree, ht] using helse

/-- Newlines do not matter for what comes after them. -/
theorem ElseFree.after (h : ElseFree ts) (hnewlines : Newlines newlines) :
    ElseFree (newlines ++ ts) := by
  rw [ElseFree, List.dropWhile_append_of_pos fun t ht => by simp [hnewlines t ht]]
  exact h

theorem Stop.mono (h : Stop l ts) (hl : l.rank ≤ m.rank) : Stop m ts :=
  ⟨fun _ hjoins => Nat.lt_of_lt_of_le (h.1 _ hjoins) hl, h.2⟩

/-- Tokens that go on with no expression at all. -/
theorem stop_of_joins?_eq_none (h : (nextKind ts).joins? = none) (helse : ElseFree ts) :
    Stop l ts :=
  ⟨fun _ hm => absurd (h.symm.trans hm) nofun, helse⟩

/-- Newlines before a token that goes on with no expression. -/
theorem stop_newlines {kind : Kind} (hnewlines : Newlines newlines) (ht : t.kind = kind)
    (hjoins : kind.joins? = none) (hnewline : kind ≠ .newline)
    (helse : kind ≠ .keyword .elseWord) : Stop l (newlines ++ t :: rest) := by
  subst ht
  refine stop_of_joins?_eq_none ?_ (.after (elseFree_of_ne hnewline helse) hnewlines)
  cases newlines with
  | nil => exact hjoins
  | cons u us =>
    rw [List.cons_append, nextKind_cons, hnewlines u List.mem_cons_self]
    rfl

/-- A token that goes on with no expression. -/
theorem stop_token {kind : Kind} (ht : t.kind = kind) (hjoins : kind.joins? = none)
    (hnewline : kind ≠ .newline) (helse : kind ≠ .keyword .elseWord) : Stop l (t :: rest) := by
  subst ht
  exact stop_of_joins?_eq_none hjoins (elseFree_of_ne hnewline helse)

/-- A token that goes on with an expression only at a looser level. -/
theorem stop_cons (hjoins : t.kind.joins? = some m) (hm : m.rank < l.rank) : Stop l (t :: rest) := by
  refine ⟨fun k hk => ?_, elseFree_of_ne ?_ ?_⟩
  · rw [nextKind_cons, hjoins] at hk
    exact Option.some.inj hk ▸ hm
  · intro h
    rw [nextKind_cons] at h
    rw [h] at hjoins
    cases hjoins
  · intro h
    rw [nextKind_cons] at h
    rw [h] at hjoins
    cases hjoins

theorem joins?_of_operator (o : Operator) : o.token.joins? = some o.level := by
  rcases o with op | _
  · cases op <;> rfl
  · rfl

/-- No operator of the level or a tighter one is next. -/
theorem Stop.operator?_eq_none (h : Stop l ts) (hl : l.rank ≤ m.rank) :
    m.operator? (nextKind ts) = none := by
  cases ho : m.operator? (nextKind ts) with
  | none => rfl
  | some o =>
    obtain ⟨hkind, rfl⟩ := Level.operator?_eq_some.mp ho
    have := h.1 o.level (by rw [hkind, joins?_of_operator])
    omega

/-- No token that goes on at the level or at a tighter one is next. -/
theorem Stop.ne (h : Stop l ts) {kind : Kind} (hkind : kind.joins? = some m) (hl : l.rank ≤ m.rank) :
    nextKind ts ≠ kind := by
  rintro rfl
  have := h.1 m hkind
  omega

/-! ## After other phrases -/

/-- Whether a token ends a statement. -/
def Kind.EndsStatement (kind : Kind) : Prop :=
  kind.isSeparator = true ∨ kind = .eof ∨ kind = .symbol .rightBrace

theorem isSeparator_eq_true {kind : Kind} (h : kind.isSeparator = true) :
    kind = .newline ∨ kind = .symbol .semicolon := by
  rw [Kind.isSeparator.eq_def] at h
  split at h
  · exact .inl rfl
  · exact .inr rfl
  · cases h

/-- Tokens that start with no separator. -/
theorem StartWith.isSeparator_nextKind {p : Kind → Bool} {us : List Token} (h : StartWith p us)
    (hnewline : p .newline = false) (hsemicolon : p (.symbol .semicolon) = false)
    (rest : List Token) : (Token.nextKind (us ++ rest)).isSeparator = false := by
  cases hsep : (Token.nextKind (us ++ rest)).isSeparator with
  | false => rfl
  | true =>
    rcases isSeparator_eq_true hsep with hkind | hkind
    · exact absurd hkind (h.nextKind_ne rest hnewline)
    · exact absurd hkind (h.nextKind_ne rest hsemicolon)

theorem StartWith.isSeparator_nextKind_self {p : Kind → Bool} {us : List Token}
    (h : StartWith p us) (hnewline : p .newline = false)
    (hsemicolon : p (.symbol .semicolon) = false) :
    (Token.nextKind us).isSeparator = false := by
  have hnext := h.isSeparator_nextKind hnewline hsemicolon []
  rwa [List.append_nil] at hnext

/-- Expressions stop where statements end. -/
theorem stop_of_endsStatement (h : (nextKind ts).EndsStatement) (helse : ElseFree ts) :
    Stop l ts := by
  refine stop_of_joins?_eq_none ?_ helse
  rcases h with h | h | h
  · rcases isSeparator_eq_true h with h | h
    · rw [h]
      rfl
    · rw [h]
      rfl
  · rw [h]
    rfl
  · rw [h]
    rfl

/-- Separators end a statement, and no `else` follows them that does not follow at once. -/
theorem elseFree_separators {separators : List Token} (hseparators : Separators separators)
    (hnewline : nextKind ts ≠ .newline) (helse : nextKind ts ≠ .keyword .elseWord) :
    ElseFree (separators ++ ts) := by
  induction separators with
  | nil => exact elseFree_of_ne hnewline helse
  | cons t separators ih =>
    have hrest := ih fun u hu => hseparators u (List.mem_cons_of_mem _ hu)
    rcases isSeparator_eq_true (hseparators t List.mem_cons_self) with ht | ht
    · have hnewlines : Newlines [t] := fun u hu => by rw [List.mem_singleton.mp hu, ht]
      exact hrest.after hnewlines
    · exact elseFree_of_ne (by rw [List.cons_append, nextKind_cons, ht]; nofun)
        (by rw [List.cons_append, nextKind_cons, ht]; nofun)

end Token

/-- Symbols that close a list. -/
def Symbol.IsClosing : Symbol → Prop
  | rightParen | rightBracket | rightBrace => True
  | _ => False

open Token

/-- Tokens that may follow a phrase; a list is followed by its closing symbol. -/
def Phrase.Stops (close : Symbol) : Phrase → List Token → Prop
  | level l, rest | tail l _, rest => Stop l rest
  | suffix _, rest => Stop .suffixed rest
  | item _, rest => Stop .disjunction rest
  | items _, rest | listing _, rest => close.IsClosing ∧ nextKind rest = .symbol close
  | conditional, rest | otherwise, rest => ElseFree rest
  | statement, rest => (nextKind rest).EndsStatement ∧ ElseFree rest
  | statements, rest => nextKind rest = .symbol .rightBrace
  | holes, _ | block, _ => True

namespace Derives

variable {d : Nat} {l : Level} {us rest : List Token} {left object e : Expr}

theorem rank_lt_tighter (hl : l.Chains) : l.rank < l.tighter.rank := by
  cases l <;> first | decide | cases hl

/-- An operand stops before the operators of its chain. -/
theorem stop_tail (h : Derives (.tail l left) d us e) (hl : l.Chains) (hrest : Stop l rest) :
    Stop l.tighter (us ++ rest) := by
  cases h with
  | tailNil => exact hrest.mono (Nat.le_of_lt (rank_lt_tighter hl))
  | tailCons ho ht =>
    exact stop_cons (by rw [ht, joins?_of_operator]) (rank_lt_tighter hl)

/-- An object stops before what goes on with it. -/
theorem stop_suffix (h : Derives (.suffix object) d us e) (hrest : Stop .suffixed rest) :
    Stop .primary (us ++ rest) := by
  have hlt : Level.suffixed.rank < Level.primary.rank := by decide
  cases h with
  | suffixNil => exact hrest.mono (Nat.le_of_lt hlt)
  | member ht | call ht | index ht => exact stop_cons (by rw [ht]; rfl) hlt

/-- No arguments follow what goes on with an object. -/
theorem ne_leftParen_of_suffix (h : Derives (.suffix object) d us e) (hrest : Stop .suffixed rest) :
    nextKind (us ++ rest) ≠ .symbol .leftParen :=
  (stop_suffix h hrest).ne rfl (Nat.le_refl _)

end Derives

end ParseActions
