import ParseActions.Proofs.Body.Follow
import ParseActions.Proofs.Token.Stream

/-!
# What a tree is written as

A tree is written as the tokens that its derivations have in common: a segment that is derived is
that of its tree, but for separators, for the comma after the last item of a list, and for the
places of the tokens. Texts that a string lacks before, between and after its holes are empty.

The operands of a tree bind as tightly as their places ask for. The right operand of an operator
binds more tightly than the operator, so operators of one level associate to the left.

## Main definitions

* `Expr.yield`, `Phrase.yield`: the tokens of a tree
* `Token.significant`: tokens without separators and trailing commas
* `Expr.WellBound`: operands bind as tightly as their places ask for

## Main results

* `Derives.yield_eq`: a segment that is derived is that of its tree
* `Derives.wellBound`: in a tree that is derived, operands bind as tightly as their places ask for
-/

namespace ParseActions

open Token

/-! ## Tokens of names and strings -/

/-- The token of a name after a dot or before a colon. -/
def Token.Kind.ofMemberName (name : String) : Kind :=
  (Keyword.ofWord? name).elim (.identifier name) .keyword

namespace Fragment

/-- Whether a piece of a string is a hole. -/
def isHole : Fragment → Bool
  | text _ => false
  | hole _ => true

/-- The text before the first hole of some pieces. -/
def leading : List Fragment → String
  | text t :: _ => t
  | _ => ""

/-- The token of the text before the next hole, or before the end of the string. -/
def mark (parts : List Fragment) : Token.Kind :=
  if parts.any isHole then .stringPart (leading parts) else .stringEnd (leading parts)

end Fragment

/-- Segments with commas between them. -/
def Token.commaSeparated : List (List Token.Kind) → List Token.Kind
  | [] => []
  | [segment] => segment
  | segment :: next :: segments => segment ++ .symbol .comma :: commaSeparated (next :: segments)

/-! ## Tokens of trees -/

mutual

/-- The tokens that an expression is written as. -/
def Expr.yield : Expr → List Token.Kind
  | .number _ value => [.number value]
  | .string _ text => [.string text]
  | .template _ parts => .stringStart (Fragment.leading parts) :: Fragment.yields parts
  | .bool _ value => [.keyword (if value then .trueWord else .falseWord)]
  | .nil _ => [.keyword .nilWord]
  | .list _ items =>
    .symbol .leftBracket :: (commaSeparated (Expr.yields items) ++ [.symbol .rightBracket])
  | .record _ fields =>
    .symbol .leftBrace :: (commaSeparated (Field.yields fields) ++ [.symbol .rightBrace])
  | .ident _ name => [.identifier name]
  | .member _ object field => object.yield ++ [.symbol .dot, .ofMemberName field.text]
  | .call _ object method args =>
    object.yield ++ .symbol .dot :: .ofMemberName method.text :: .symbol .leftParen ::
      (commaSeparated (Expr.yields args) ++ [.symbol .rightParen])
  | .index _ object key =>
    object.yield ++ .symbol .leftBracket :: (key.yield ++ [.symbol .rightBracket])
  | .binary _ op left right => left.yield ++ op.token :: right.yield
  | .unary _ op operand => op.token :: operand.yield
  | .coalesce _ left right => left.yield ++ .symbol .questionQuestion :: right.yield
  | .conditional branches => branches.yield
  | .paren _ inner => .symbol .leftParen :: (inner.yield ++ [.symbol .rightParen])

/-- The tokens of each of some expressions. -/
def Expr.yields : List Expr → List (List Token.Kind)
  | [] => []
  | e :: es => e.yield :: Expr.yields es

/-- The tokens of the holes of a string and of the texts after them. -/
def Fragment.yields : List Fragment → List Token.Kind
  | [] => []
  | .text _ :: parts => Fragment.yields parts
  | .hole value :: parts =>
    .holeStart :: (value.yield ++ .holeEnd :: Fragment.mark parts :: Fragment.yields parts)

/-- The tokens that a field is written as. -/
def Field.yield : Field → List Token.Kind
  | .mk name value => .ofMemberName name.text :: .symbol .colon :: value.yield

/-- The tokens of each of some fields. -/
def Field.yields : List Field → List (List Token.Kind)
  | [] => []
  | field :: fields => field.yield :: Field.yields fields

/-- The tokens that a conditional is written as. -/
def Conditional.yield : Conditional → List Token.Kind
  | .mk _ condition thenBlock otherwise =>
    .keyword .ifWord :: (condition.yield ++ (thenBlock.yield ++ otherwise.yield))

/-- The tokens of what follows the first block of a conditional. -/
def Otherwise.yield : Otherwise → List Token.Kind
  | .nothing => []
  | .elseIf branches => .keyword .elseWord :: branches.yield
  | .block block => .keyword .elseWord :: block.yield

/-- The tokens that a statement is written as. -/
def Stmt.yield : Stmt → List Token.Kind
  | .bind _ name value =>
    .keyword .letWord :: .identifier name.text :: .symbol .equal :: value.yield
  | .conditional branches => branches.yield
  | .loop _ item index items body =>
    .keyword .forWord :: .identifier item.text ::
      ((index.elim [] fun i => [.symbol .comma, .identifier i.text]) ++
        .keyword .inWord :: (items.yield ++ body.yield))
  | .leave _ => [.keyword .returnWord]
  | .leaveWith _ value => .keyword .returnWord :: value.yield
  | .assert _ condition message =>
    .keyword .assertWord ::
      (condition.yield ++ message.elim [] fun text => [.symbol .comma, .string text])
  | .throw _ value => .keyword .throwWord :: value.yield
  | .expr value => value.yield

/-- The tokens of some statements, one after another. -/
def Stmt.yields : List Stmt → List Token.Kind
  | [] => []
  | stmt :: stmts => stmt.yield ++ Stmt.yields stmts

/-- The tokens that a block is written as. -/
def Block.yield : Block → List Token.Kind
  | .mk _ stmts => .symbol .leftBrace :: (Stmt.yields stmts ++ [.symbol .rightBrace])

end

/-! ## Operands -/

/-- The level of an expression. -/
def Expr.level : Expr → Level
  | .binary _ op _ _ => op.level
  | .coalesce .. => .coalescing
  | .unary .. => .prefixed
  | .member .. | .call .. | .index .. => .suffixed
  | .number .. | .string .. | .template .. | .bool .. | .nil _ | .list .. | .record .. | .ident ..
  | .conditional _ | .paren .. => .primary

/-- The level of the left operand of the operators of a level: what comes before it in a chain is
of that level too. -/
def Level.left : Level → Level
  | .comparison => .sum
  | l => l

/-- An expression binds at least as tightly as a level. -/
def Expr.Binds (e : Expr) (l : Level) : Prop :=
  l.rank ≤ e.level.rank

mutual

/-- Every operand in an expression binds at least as tightly as its place asks for. -/
def Expr.WellBound : Expr → Prop
  | .number .. | .string .. | .bool .. | .nil _ | .ident .. => True
  | .template _ parts => Fragment.AllWellBound parts
  | .list _ items => Expr.AllWellBound items
  | .record _ fields => Field.AllWellBound fields
  | .member _ object _ => object.Binds .suffixed ∧ object.WellBound
  | .call _ object _ args =>
    object.Binds .suffixed ∧ object.WellBound ∧ Expr.AllWellBound args
  | .index _ object key => object.Binds .suffixed ∧ object.WellBound ∧ key.WellBound
  | .binary _ op left right =>
    left.Binds op.level.left ∧ left.WellBound ∧ right.Binds op.level.tighter ∧ right.WellBound
  | .unary _ _ operand => operand.Binds .prefixed ∧ operand.WellBound
  | .coalesce _ left right =>
    left.Binds .coalescing ∧ left.WellBound ∧ right.Binds .comparison ∧ right.WellBound
  | .conditional branches => branches.WellBound
  | .paren _ inner => inner.WellBound

/-- All of some expressions are well-bound. -/
def Expr.AllWellBound : List Expr → Prop
  | [] => True
  | e :: es => e.WellBound ∧ Expr.AllWellBound es

/-- All holes of a string are well-bound. -/
def Fragment.AllWellBound : List Fragment → Prop
  | [] => True
  | .text _ :: parts => Fragment.AllWellBound parts
  | .hole value :: parts => value.WellBound ∧ Fragment.AllWellBound parts

/-- The value of a field is well-bound. -/
def Field.WellBound : Field → Prop
  | .mk _ value => value.WellBound

/-- All of some fields are well-bound. -/
def Field.AllWellBound : List Field → Prop
  | [] => True
  | field :: fields => field.WellBound ∧ Field.AllWellBound fields

/-- The expressions and blocks of a conditional are well-bound. -/
def Conditional.WellBound : Conditional → Prop
  | .mk _ condition thenBlock otherwise =>
    condition.WellBound ∧ thenBlock.WellBound ∧ otherwise.WellBound

/-- What follows a block is well-bound. -/
def Otherwise.WellBound : Otherwise → Prop
  | .nothing => True
  | .elseIf branches => branches.WellBound
  | .block block => block.WellBound

/-- The expressions and blocks of a statement are well-bound. -/
def Stmt.WellBound : Stmt → Prop
  | .bind _ _ value | .leaveWith _ value | .throw _ value | .expr value => value.WellBound
  | .conditional branches => branches.WellBound
  | .loop _ _ _ items body => items.WellBound ∧ body.WellBound
  | .leave _ => True
  | .assert _ condition _ => condition.WellBound

/-- All of some statements are well-bound. -/
def Stmt.AllWellBound : List Stmt → Prop
  | [] => True
  | stmt :: stmts => stmt.WellBound ∧ Stmt.AllWellBound stmts

/-- The statements of a block are well-bound. -/
def Block.WellBound : Block → Prop
  | .mk _ stmts => Stmt.AllWellBound stmts

end

/-! ## Phrases -/

/-- The tokens that an item is written as. -/
def Item.yield : (i : Item) → i.Tree → List Token.Kind
  | expression => Expr.yield
  | field => Field.yield

/-- An item is well-bound. -/
def Item.WellBound : (i : Item) → i.Tree → Prop
  | expression => Expr.WellBound
  | field => Field.WellBound

theorem Expr.yields_eq (es : List Expr) : Expr.yields es = es.map Expr.yield := by
  induction es with
  | nil => rfl
  | cons e es ih => rw [Expr.yields, ih, List.map_cons]

theorem Field.yields_eq (fields : List Field) : Field.yields fields = fields.map Field.yield := by
  induction fields with
  | nil => rfl
  | cons field fields ih => rw [Field.yields, ih, List.map_cons]

theorem Expr.allWellBound_iff {es : List Expr} :
    Expr.AllWellBound es ↔ ∀ e ∈ es, e.WellBound := by
  induction es with
  | nil => simp [Expr.AllWellBound]
  | cons e es ih => simp [Expr.AllWellBound, ih]

theorem Field.allWellBound_iff {fields : List Field} :
    Field.AllWellBound fields ↔ ∀ field ∈ fields, field.WellBound := by
  induction fields with
  | nil => simp [Field.AllWellBound]
  | cons field fields ih => simp [Field.AllWellBound, ih]

namespace Phrase

/-- The tokens that a tree of a phrase is written as. -/
def yield : (g : Phrase) → g.Tree → List Token.Kind
  | level _ | tail _ _ | suffix _ => Expr.yield
  | item i => i.yield
  | items i | listing i => fun as => commaSeparated (as.map i.yield)
  | holes => Fragment.yields
  | conditional => Conditional.yield
  | otherwise => Otherwise.yield
  | statement => Stmt.yield
  | statements => Stmt.yields
  | block => Block.yield

/-- The tokens of the tree that a phrase goes on with. -/
def before : Phrase → List Token.Kind
  | tail _ left => left.yield
  | suffix object => object.yield
  | _ => []

end Phrase

/-! ## Significant tokens -/

namespace Token

/-- Whether a token closes a list. -/
def Kind.closes : Kind → Bool
  | symbol .rightParen | symbol .rightBracket | symbol .rightBrace => true
  | _ => false

/-- A token before others, unless it is a separator, or a comma before the end of a list. -/
def consSignificant : Kind → List Kind → List Kind
  | .newline, kinds | .symbol .semicolon, kinds => kinds
  | .symbol .comma, kinds =>
    if kinds.head?.any Kind.closes then kinds else .symbol .comma :: kinds
  | kind, kinds => kind :: kinds

/-- The kinds of tokens that are no separators and no trailing commas, before others. -/
def significant (tokens : List Token) (rest : List Kind) : List Kind :=
  tokens.foldr (fun t => consSignificant t.kind) rest

variable {t : Token} {ts us : List Token} {kinds : List Kind}

@[simp] theorem significant_nil : significant [] kinds = kinds :=
  rfl

@[simp] theorem significant_cons :
    significant (t :: ts) kinds = consSignificant t.kind (significant ts kinds) :=
  rfl

@[simp] theorem significant_append :
    significant (ts ++ us) kinds = significant ts (significant us kinds) :=
  List.foldr_append

theorem significant_separators (h : Separators ts) : significant ts kinds = kinds := by
  induction ts with
  | nil => rfl
  | cons t ts ih =>
    rw [significant_cons, ih fun u hu => h u (List.mem_cons_of_mem _ hu)]
    rcases isSeparator_eq_true (h t List.mem_cons_self) with ht | ht
    · rw [ht]
      rfl
    · rw [ht]
      rfl

theorem significant_newlines (h : Newlines ts) : significant ts kinds = kinds :=
  significant_separators fun t ht => by rw [h t ht]; rfl

theorem consSignificant_of_ne {kind : Kind} (hnewline : kind ≠ .newline)
    (hsemicolon : kind ≠ .symbol .semicolon) (hcomma : kind ≠ .symbol .comma) :
    consSignificant kind kinds = kind :: kinds := by
  rw [consSignificant.eq_def]
  split
  · exact absurd rfl hnewline
  · exact absurd rfl hsemicolon
  · exact absurd rfl hcomma
  · rfl

theorem consSignificant_operator (o : Operator) :
    consSignificant o.token kinds = o.token :: kinds := by
  rcases o with op | _
  · cases op <;> rfl
  · rfl

theorem consSignificant_unary (op : UnaryOp) :
    consSignificant op.token kinds = op.token :: kinds := by
  cases op <;> rfl

/-- A comma before the end of a list is trailing. -/
theorem consSignificant_comma_of_closes (h : kinds.head?.any Kind.closes = true) :
    consSignificant (.symbol .comma) kinds = kinds := by
  rw [consSignificant, if_pos h]

/-- A comma before an item is not. -/
theorem consSignificant_comma_of_startsItem {i : Item} (h : StartWith (Kind.startsItem i) ts) :
    consSignificant (.symbol .comma) (significant ts kinds) =
      .symbol .comma :: significant ts kinds := by
  obtain ⟨t, ts, rfl, ht⟩ := h
  rw [consSignificant, if_neg]
  rw [significant_cons]
  cases hkind : t.kind with
  | symbol s =>
    rw [hkind] at ht
    cases i <;> cases s <;> first | simp [consSignificant, Kind.closes]; done | cases ht
  | newline =>
    rw [hkind] at ht
    cases i <;> cases ht
  | _ => simp [consSignificant, Kind.closes]

/-- A token is the one of its name. -/
theorem ofMemberName_of_memberName? {name : String} (h : t.kind.memberName? = some name)
    (hreserved : t.Unreserved) : Kind.ofMemberName name = t.kind := by
  cases hkind : t.kind with
  | identifier text =>
    rw [hkind] at h
    obtain rfl : text = name := Option.some.inj h
    rw [Kind.ofMemberName, hreserved text hkind]
    rfl
  | keyword k =>
    rw [hkind] at h
    obtain rfl : k.word = name := Option.some.inj h
    cases k <;> rfl
  | _ =>
    rw [hkind] at h
    cases h

theorem consSignificant_memberName {name : String} (h : t.kind.memberName? = some name)
    (hreserved : t.Unreserved) :
    consSignificant t.kind kinds = .ofMemberName name :: kinds := by
  rw [ofMemberName_of_memberName? h hreserved]
  cases hkind : t.kind with
  | identifier _ | keyword _ => rfl
  | _ =>
    rw [hkind] at h
    cases h

end Token

/-! ## Segments and their trees -/

/-- Lists come before what closes them. -/
def Phrase.Precedes : Phrase → List Token.Kind → Prop
  | items _, kinds | listing _, kinds => kinds.head?.any Kind.closes = true
  | _, _ => True

theorem Operator.yield_apply (o : Operator) (left right : Expr) :
    (o.apply left right).yield = left.yield ++ o.token :: right.yield := by
  rcases o with op | _
  · simp [apply, Expr.yield, token]
  · simp [apply, Expr.yield, token]

namespace Fragment

theorem leading_textPart (text : String) (parts : List Fragment) (h : leading parts = "") :
    leading (Productions.textPart text ++ parts) = text := by
  by_cases htext : text = ""
  · simp [Productions.textPart, htext, h]
  · simp [Productions.textPart, htext, leading]

theorem yields_textPart (text : String) (parts : List Fragment) :
    Fragment.yields (Productions.textPart text ++ parts) = Fragment.yields parts := by
  by_cases htext : text = ""
  · simp [Productions.textPart, htext]
  · simp [Productions.textPart, htext, Fragment.yields]

theorem yields_textPart_nil (text : String) :
    Fragment.yields (Productions.textPart text) = [] := by
  rw [← List.append_nil (Productions.textPart text), yields_textPart, Fragment.yields]

/-- After the last hole comes the end of the string. -/
theorem mark_textPart (text : String) : mark (Productions.textPart text) = .stringEnd text := by
  by_cases htext : text = ""
  · simp [mark, leading, Productions.textPart, htext]
  · simp [mark, leading, isHole, Productions.textPart, htext]

/-- Before another hole comes a part of the string. -/
theorem mark_textPart_hole (text : String) (e : Expr) (rest : List Fragment) :
    mark (Productions.textPart text ++ .hole e :: rest) = .stringPart text := by
  rw [mark, leading_textPart text (.hole e :: rest) rfl]
  simp [isHole]

end Fragment

namespace Derives

variable {g : Phrase} {d : Nat} {ts : List Token} {a : g.Tree} {kinds : List Token.Kind}

/-- The first of the pieces is a hole. -/
theorem exists_hole {parts : List Fragment} (h : Derives .holes d ts parts) :
    ∃ e rest, parts = .hole e :: rest := by
  cases h with
  | holesLast => exact ⟨_, _, rfl⟩
  | holesCons => exact ⟨_, _, rfl⟩

/-- Where there are commas, there is an item. -/
theorem exists_item {i : Item} {as : List i.Tree} (h : Derives (.items i) d ts as) :
    ∃ a rest, as = a :: rest := by
  cases h with
  | itemsLast | itemsTrailing | itemsCons => exact ⟨_, _, rfl⟩

theorem significant_index {is : List Token} {index : Option Ident} (h : DerivesIndex is index) :
    significant is kinds =
      (index.elim [] fun i => [.symbol .comma, .identifier i.text]) ++ kinds := by
  cases h with
  | nothing => rfl
  | name hcomma ht =>
    rw [significant_cons, significant_cons, hcomma, ht]
    rfl

theorem significant_message {ms : List Token} {message : Option String}
    (h : DerivesMessage ms message) :
    significant ms kinds =
      (message.elim [] fun text => [.symbol .comma, .string text]) ++ kinds := by
  cases h with
  | nothing => rfl
  | text hcomma ht =>
    rw [significant_cons, significant_cons, hcomma, ht]
    rfl

/-- **A segment is that of its tree**, but for separators and trailing commas. -/
theorem yield_eq (h : Derives g d ts a) (hreserved : ∀ t ∈ ts, t.Unreserved)
    (hkinds : g.Precedes kinds) : g.before ++ significant ts kinds = g.yield a ++ kinds := by
  -- `kinds` is what comes after: in each case the segments are taken off from the left, the first
  -- one before all the others
  induction h generalizing kinds with
    (try simp only [List.forall_mem_append, List.forall_mem_cons] at hreserved)
  | expression _ ih | uncompared _ ih | plain _ ih | choice _ ih | conditional _ ih
  | evaluation _ _ ih => exact ih hreserved trivial
  | tailNil | suffixNil | nothing | statementsNil => rfl
  | chain _ _ _ ih ih' | suffixed _ _ ih ih' =>
    rw [significant_append]
    exact (ih hreserved.1 trivial).trans (ih' hreserved.2 trivial)
  | @tailCons o d t newlines ts us left right e ho ht hnewlines _ _ ih ih' =>
    have hright (kinds) : significant ts kinds = right.yield ++ kinds := ih hreserved.2.2.1 trivial
    have htail : (o.apply left right).yield ++ significant us kinds = e.yield ++ kinds :=
      ih' hreserved.2.2.2 trivial
    simp [Phrase.before, Phrase.yield, significant_newlines hnewlines, ht,
      consSignificant_operator, hright, ← htail, o.yield_apply]
  | @compared o d t ts newlines us left right ho _ ht hnewlines _ ih ih' =>
    have hleft (kinds) : significant ts kinds = left.yield ++ kinds := ih hreserved.1 trivial
    have hright (kinds) : significant us kinds = right.yield ++ kinds :=
      ih' hreserved.2.2.2 trivial
    simp [Phrase.before, Phrase.yield, significant_newlines hnewlines, ht,
      consSignificant_operator, hleft, hright, o.yield_apply]
  | @unary op d t ts e ht _ ih =>
    have he (kinds) : significant ts kinds = e.yield ++ kinds := ih hreserved.2 trivial
    simp [Phrase.before, Phrase.yield, Expr.yield, ht, consSignificant_unary, he]
  | @member d dot t us name object e hdot ht _ ih =>
    have hsuffix : (object.yield ++ [.symbol .dot, .ofMemberName name]) ++ significant us kinds =
        e.yield ++ kinds := ih hreserved.2.2 trivial
    simp [Phrase.before, Phrase.yield, hdot, consSignificant_of_ne, ← hsuffix,
      consSignificant_memberName ht hreserved.2.1]
  | @call d dot t opening closing ts us name object e args hdot ht hopening _ hclosing _ ih ih' =>
    have hargs (kinds) : significant ts (.symbol .rightParen :: kinds) =
        commaSeparated (args.map Expr.yield) ++ .symbol .rightParen :: kinds :=
      ih hreserved.2.2.2.1 rfl
    have hsuffix : (object.yield ++ .symbol .dot :: .ofMemberName name :: .symbol .leftParen ::
          (commaSeparated (Expr.yields args) ++ [.symbol .rightParen])) ++ significant us kinds =
        e.yield ++ kinds := ih' hreserved.2.2.2.2.2 trivial
    simp [Phrase.before, Phrase.yield, hdot, hopening, hclosing, consSignificant_of_ne, ← hsuffix,
      consSignificant_memberName ht hreserved.2.1, hargs, Expr.yields_eq]
  | @index d opening closing newlines ts newlines' us object key e hopening hnewlines _ hnewlines'
      hclosing _ ih ih' =>
    have hkey (kinds) : significant ts kinds = key.yield ++ kinds := ih hreserved.2.2.1 trivial
    have hsuffix : (object.yield ++ .symbol .leftBracket ::
          (key.yield ++ [.symbol .rightBracket])) ++ significant us kinds =
        e.yield ++ kinds := ih' hreserved.2.2.2.2.2 trivial
    simp [Phrase.before, Phrase.yield, hopening, hclosing, consSignificant_of_ne, ← hsuffix, hkey,
      significant_newlines hnewlines, significant_newlines hnewlines']
  | number ht | string ht | true ht | false ht | nil ht | ident ht | leave ht =>
    rw [significant_cons, ht]
    rfl
  | @template d t text ts parts ht hparts ih =>
    have hholes (kinds) : significant ts kinds = Fragment.yields parts ++ kinds :=
      ih hreserved.2 trivial
    obtain ⟨e, rest, rfl⟩ := hparts.exists_hole
    simp [Phrase.before, Phrase.yield, Expr.yield, ht, consSignificant_of_ne, hholes,
      Fragment.leading_textPart text (.hole e :: rest) rfl, Fragment.yields_textPart]
  | @list d opening closing ts items hopening _ hclosing ih =>
    have hitems (kinds) : significant ts (.symbol .rightBracket :: kinds) =
        commaSeparated (items.map Expr.yield) ++ .symbol .rightBracket :: kinds :=
      ih hreserved.2.1 rfl
    simp [Phrase.before, Phrase.yield, Expr.yield, hopening, hclosing, consSignificant_of_ne, hitems,
      Expr.yields_eq]
  | @record d opening closing ts fields hopening _ hclosing ih =>
    have hfields (kinds) : significant ts (.symbol .rightBrace :: kinds) =
        commaSeparated (fields.map Field.yield) ++ .symbol .rightBrace :: kinds :=
      ih hreserved.2.1 rfl
    simp [Phrase.before, Phrase.yield, Expr.yield, hopening, hclosing, consSignificant_of_ne, hfields,
      Field.yields_eq]
  | @paren d opening closing newlines ts newlines' e hopening hnewlines _ hnewlines' hclosing ih =>
    have he (kinds) : significant ts kinds = e.yield ++ kinds := ih hreserved.2.2.1 trivial
    simp [Phrase.before, Phrase.yield, Expr.yield, hopening, hclosing, consSignificant_of_ne, he,
      significant_newlines hnewlines, significant_newlines hnewlines']
  | @field d t colon newlines ts name e ht hcolon hnewlines _ ih =>
    have he (kinds) : significant ts kinds = e.yield ++ kinds := ih hreserved.2.2.2 trivial
    simp [Phrase.before, Phrase.yield, Item.yield, Field.yield, hcolon, consSignificant_of_ne, he,
      significant_newlines hnewlines, consSignificant_memberName ht hreserved.1]
  | @itemsLast i d ts newlines a _ hnewlines ih =>
    have ha (kinds) : significant ts kinds = i.yield a ++ kinds := ih hreserved.1 trivial
    simp [Phrase.before, Phrase.yield, commaSeparated, ha, significant_newlines hnewlines]
  | @itemsTrailing i d comma ts newlines newlines' a _ hnewlines hcomma hnewlines' ih =>
    have ha (kinds) : significant ts kinds = i.yield a ++ kinds := ih hreserved.1 trivial
    simp [Phrase.before, Phrase.yield, commaSeparated, hcomma, ha,
      significant_newlines hnewlines, significant_newlines hnewlines',
      consSignificant_comma_of_closes hkinds]
  | @itemsCons i d comma ts newlines newlines' us a as _ hnewlines hcomma hnewlines' hitems ih
      ih' =>
    have ha (kinds) : significant ts kinds = i.yield a ++ kinds := ih hreserved.1 trivial
    have has : significant us kinds = commaSeparated (as.map i.yield) ++ kinds :=
      ih' hreserved.2.2.2.2 hkinds
    -- an item follows the comma, so it is not trailing
    have hkept : consSignificant (.symbol .comma) (significant us kinds) =
        .symbol .comma :: significant us kinds :=
      consSignificant_comma_of_startsItem hitems.opens
    rw [has] at hkept
    obtain ⟨b, bs, rfl⟩ := hitems.exists_item
    simp only [Phrase.before, Phrase.yield, significant_append, significant_cons, hcomma, ha,
      significant_newlines hnewlines, significant_newlines hnewlines', has, hkept]
    simp [commaSeparated]
  | listingNil hnewlines => exact significant_newlines hnewlines
  | listing hnewlines _ ih =>
    rw [significant_append, significant_newlines hnewlines]
    exact ih hreserved.2 hkinds
  | @holesLast d opening closing t ts text e hopening _ hclosing ht ih =>
    have he (kinds) : significant ts kinds = e.yield ++ kinds := ih hreserved.2.1 trivial
    simp [Phrase.before, Phrase.yield, Fragment.yields, hopening, hclosing, ht,
      consSignificant_of_ne, he, Fragment.mark_textPart,
      Fragment.yields_textPart_nil]
  | @holesCons d opening closing t ts us text e parts hopening _ hclosing ht hparts ih ih' =>
    have he (kinds) : significant ts kinds = e.yield ++ kinds := ih hreserved.2.1 trivial
    have hholes : significant us kinds = Fragment.yields parts ++ kinds :=
      ih' hreserved.2.2.2.2 trivial
    obtain ⟨e', rest, rfl⟩ := hparts.exists_hole
    simp [Phrase.before, Phrase.yield, Fragment.yields, hopening, hclosing, ht,
      consSignificant_of_ne, he, hholes, Fragment.mark_textPart_hole,
      Fragment.yields_textPart]
  | @branches d t ts us vs condition thenBlock otherwise ht _ _ _ ih ih' ih'' =>
    have hcondition (kinds) : significant ts kinds = condition.yield ++ kinds :=
      ih hreserved.2.1 trivial
    have hthen (kinds) : significant us kinds = thenBlock.yield ++ kinds :=
      ih' hreserved.2.2.1 trivial
    have hotherwise (kinds) : significant vs kinds = otherwise.yield ++ kinds :=
      ih'' hreserved.2.2.2 trivial
    simp [Phrase.before, Phrase.yield, Conditional.yield, ht, consSignificant_of_ne, hcondition, hthen,
      hotherwise]
  | @elseIf d t newlines ts c hnewlines ht _ ih =>
    have hc (kinds) : significant ts kinds = c.yield ++ kinds := ih hreserved.2.2 trivial
    simp [Phrase.before, Phrase.yield, Otherwise.yield, ht, consSignificant_of_ne, hc,
      significant_newlines hnewlines]
  | @elseBlock d t newlines ts b hnewlines ht _ ih =>
    have hb (kinds) : significant ts kinds = b.yield ++ kinds := ih hreserved.2.2 trivial
    simp [Phrase.before, Phrase.yield, Otherwise.yield, ht, consSignificant_of_ne, hb,
      significant_newlines hnewlines]
  | @block d opening closing separators ts stmts hopening hseparators _ hclosing ih =>
    have hstmts (kinds) : significant ts kinds = Stmt.yields stmts ++ kinds :=
      ih hreserved.2.2.1 trivial
    simp [Phrase.before, Phrase.yield, Block.yield, hopening, hclosing, consSignificant_of_ne, hstmts,
      significant_separators hseparators]
  | @statementsCons d ts separators us stmt stmts _ hseparators _ _ ih ih' =>
    have hstmt (kinds) : significant ts kinds = stmt.yield ++ kinds := ih hreserved.1 trivial
    have hstmts (kinds) : significant us kinds = Stmt.yields stmts ++ kinds :=
      ih' hreserved.2.2 trivial
    simp [Phrase.before, Phrase.yield, Stmt.yields, hstmt, hstmts,
      significant_separators hseparators]
  | @bind d t u equal newlines ts name e ht hu hequal hnewlines _ ih =>
    have he (kinds) : significant ts kinds = e.yield ++ kinds := ih hreserved.2.2.2.2 trivial
    simp [Phrase.before, Phrase.yield, Stmt.yield, ht, hu, hequal, consSignificant_of_ne, he,
      significant_newlines hnewlines]
  | @loop d t u inWord is ts us item index e b ht hu hindex hin _ _ ih ih' =>
    have he (kinds) : significant ts kinds = e.yield ++ kinds := ih hreserved.2.2.2.2.1 trivial
    have hb (kinds) : significant us kinds = b.yield ++ kinds := ih' hreserved.2.2.2.2.2 trivial
    simp [Phrase.before, Phrase.yield, Stmt.yield, ht, hu, hin, consSignificant_of_ne, he, hb,
      significant_index hindex]
  | @leaveWith d t ts e ht _ ih | @throwing d t ts e ht _ ih =>
    have he (kinds) : significant ts kinds = e.yield ++ kinds := ih hreserved.2 trivial
    simp [Phrase.before, Phrase.yield, Stmt.yield, ht, consSignificant_of_ne, he]
  | @assertion d t ts ms e message ht _ hmessage ih =>
    have he (kinds) : significant ts kinds = e.yield ++ kinds := ih hreserved.2.1 trivial
    simp [Phrase.before, Phrase.yield, Stmt.yield, ht, consSignificant_of_ne, he,
      significant_message hmessage]

end Derives

/-! ## Operands of derived trees -/

/-- A tree of a phrase binds as its place asks for, and so do the operands in it. -/
def Phrase.WellBound : (g : Phrase) → g.Tree → Prop
  | level l => fun e => e.Binds l ∧ e.WellBound
  | tail l left => fun e => left.Binds l → left.WellBound → e.Binds l ∧ e.WellBound
  | suffix object => fun e =>
    object.Binds .suffixed → object.WellBound → e.Binds .suffixed ∧ e.WellBound
  | item i => i.WellBound
  | items i | listing i => fun as => ∀ a ∈ as, i.WellBound a
  | holes => Fragment.AllWellBound
  | conditional => Conditional.WellBound
  | otherwise => Otherwise.WellBound
  | statement => Stmt.WellBound
  | statements => Stmt.AllWellBound
  | block => Block.WellBound

theorem Expr.Binds.mono {e : Expr} {l m : Level} (h : e.Binds m) (hl : l.rank ≤ m.rank) :
    e.Binds l :=
  Nat.le_trans hl h

namespace Operator

variable {o : Operator} {left right : Expr}

theorem binds_apply : (o.apply left right).Binds o.level := by
  rcases o with op | _ <;> exact Nat.le_refl _

theorem wellBound_apply (hleft : left.Binds o.level.left) (hleft' : left.WellBound)
    (hright : right.Binds o.level.tighter) (hright' : right.WellBound) :
    (o.apply left right).WellBound := by
  rcases o with op | _ <;> exact ⟨hleft, hleft', hright, hright'⟩

end Operator

theorem Level.left_of_chains {l : Level} (hl : l.Chains) : l.left = l := by
  cases l <;> first | rfl | cases hl

theorem Fragment.allWellBound_textPart {text : String} {parts : List Fragment}
    (h : Fragment.AllWellBound parts) :
    Fragment.AllWellBound (Productions.textPart text ++ parts) := by
  by_cases htext : text = ""
  · simpa [Productions.textPart, htext] using h
  · simpa [Productions.textPart, htext, Fragment.AllWellBound] using h

theorem Fragment.allWellBound_textPart_nil (text : String) :
    Fragment.AllWellBound (Productions.textPart text) := by
  rw [← List.append_nil (Productions.textPart text)]
  exact allWellBound_textPart trivial

namespace Derives

variable {g : Phrase} {d : Nat} {ts : List Token} {a : g.Tree}

/-- **Operands bind as tightly as their places ask for.** -/
theorem wellBound (h : Derives g d ts a) : g.WellBound a := by
  induction h with
  | expression _ ih => exact ih.2
  | @chain l d ts us left e hl _ _ ih ih' =>
    exact ih' (ih.1.mono (Nat.le_of_lt (rank_lt_tighter hl))) ih.2
  | tailNil | suffixNil => exact fun hbinds hleft => ⟨hbinds, hleft⟩
  | @tailCons o d t newlines ts us left right e ho _ _ _ _ ih ih' =>
    intro hbinds hleft
    refine ih' Operator.binds_apply (Operator.wellBound_apply ?_ hleft ih.1 ih.2)
    rwa [Level.left_of_chains ho]
  | uncompared _ ih => exact ⟨ih.1.mono (by decide), ih.2⟩
  | @compared o d t ts newlines us left right ho _ _ _ _ ih ih' =>
    have hbinds : (o.apply left right).Binds o.level := Operator.binds_apply
    rw [ho] at hbinds
    refine ⟨hbinds, Operator.wellBound_apply ?_ ih.2 ?_ ih'.2⟩
    · rw [ho]
      exact ih.1
    · rw [ho]
      exact ih'.1
  | unary _ _ ih => exact ⟨Nat.le_refl _, ih⟩
  | plain _ ih => exact ⟨ih.1.mono (by decide), ih.2⟩
  | suffixed _ _ ih ih' => exact ih' (ih.1.mono (by decide)) ih.2
  | member _ _ _ ih => exact fun hbinds hobject => ih (Nat.le_refl _) ⟨hbinds, hobject⟩
  | call _ _ _ _ _ _ ih ih' =>
    exact fun hbinds hobject =>
      ih' (Nat.le_refl _) ⟨hbinds, hobject, Expr.allWellBound_iff.mpr ih⟩
  | index _ _ _ _ _ _ ih ih' =>
    exact fun hbinds hobject => ih' (Nat.le_refl _) ⟨hbinds, hobject, ih⟩
  | number | string | true | false | nil | ident => exact ⟨Nat.le_refl _, trivial⟩
  | template _ _ ih => exact ⟨Nat.le_refl _, Fragment.allWellBound_textPart ih⟩
  | list _ _ _ ih => exact ⟨Nat.le_refl _, Expr.allWellBound_iff.mpr ih⟩
  | record _ _ _ ih => exact ⟨Nat.le_refl _, Field.allWellBound_iff.mpr ih⟩
  | paren _ _ _ _ _ ih => exact ⟨Nat.le_refl _, ih⟩
  | choice _ ih => exact ⟨Nat.le_refl _, ih⟩
  | field _ _ _ _ ih => exact ih
  | itemsLast _ _ ih => exact List.forall_mem_singleton.mpr ih
  | itemsTrailing _ _ _ _ ih => exact List.forall_mem_singleton.mpr ih
  | itemsCons _ _ _ _ _ ih ih' => exact List.forall_mem_cons.mpr ⟨ih, ih'⟩
  | nothing | statementsNil | leave => trivial
  | listingNil => exact List.forall_mem_nil _
  | listing _ _ ih => exact ih
  | holesLast _ _ _ _ ih => exact ⟨ih, Fragment.allWellBound_textPart_nil _⟩
  | holesCons _ _ _ _ _ ih ih' => exact ⟨ih, Fragment.allWellBound_textPart ih'⟩
  | branches _ _ _ _ ih ih' ih'' => exact ⟨ih, ih', ih''⟩
  | elseIf _ _ _ ih | elseBlock _ _ _ ih | block _ _ _ _ ih | bind _ _ _ _ _ ih
  | conditional _ ih | leaveWith _ _ ih | assertion _ _ _ ih | throwing _ _ ih
  | evaluation _ _ ih => exact ih
  | statementsCons _ _ _ _ ih ih' => exact ⟨ih, ih'⟩
  | loop _ _ _ _ _ _ ih ih' => exact ⟨ih, ih'⟩

end Derives

end ParseActions
