import ParseActions.Body.Grammar
import ParseActions.Proofs.Body.Step

/-!
# Derivations of the grammar

What the grammar of action bodies derives, said of segments of a stream and without a reader: a
segment of tokens is derived from a phrase together with its tree. Operators of one level are
read from left to right onto the operand before them; comparisons stand alone. Newlines may stand
after a binary operator, inside of brackets and parentheses, before `else` and after the signs of
bindings and fields, and nowhere else; a comma may follow the last item of a list.

A derivation has a depth: expressions and operands of operators before them nest one in another at
most as deep as it says.

## Main definitions

* `Level`, `Operator`: the levels of expressions and the operators between two operands
* `Phrase`: what a segment can be derived from
* `Derives`: the derivations

## Main results

* `Derives.opens`: the tokens that a segment starts with
* `Derives.closes`: expressions end with a token of their own
-/

namespace ParseActions

open Parse

/-! ## Levels and operators -/

/-- The levels of expressions, from the loosest to the tightest. -/
inductive Level where
  | disjunction
  | conjunction
  | coalescing
  | comparison
  | sum
  | product
  | prefixed
  | suffixed
  | primary
  deriving DecidableEq

namespace Level

/-- The level of the operands of an operator. -/
def tighter : Level → Level
  | disjunction => conjunction
  | conjunction => coalescing
  | coalescing => comparison
  | comparison => sum
  | sum => product
  | product => prefixed
  | prefixed => suffixed
  | suffixed => primary
  | primary => primary

/-- The number of looser levels. -/
def rank : Level → Nat
  | disjunction => 0
  | conjunction => 1
  | coalescing => 2
  | comparison => 3
  | sum => 4
  | product => 5
  | prefixed => 6
  | suffixed => 7
  | primary => 8

/-- Whether operators of a level follow one another. -/
def Chains : Level → Prop
  | disjunction | conjunction | coalescing | sum | product => True
  | _ => False

end Level

namespace BinaryOp

/-- The level of an operator. -/
def level : BinaryOp → Level
  | add | sub => .sum
  | mul | div | mod => .product
  | eq | notEq | less | greater | lessEq | greaterEq => .comparison
  | and => .conjunction
  | or => .disjunction

/-- The token of an operator. -/
def token : BinaryOp → Token.Kind
  | add => .symbol .plus
  | sub => .symbol .minus
  | mul => .symbol .star
  | div => .symbol .slash
  | mod => .symbol .percent
  | eq => .symbol .equalEqual
  | notEq => .symbol .bangEqual
  | less => .symbol .less
  | greater => .symbol .greater
  | lessEq => .symbol .lessEqual
  | greaterEq => .symbol .greaterEqual
  | and => .keyword .andWord
  | or => .keyword .orWord

end BinaryOp

/-- The token of an operator before an operand. -/
def UnaryOp.token : UnaryOp → Token.Kind
  | negate => .symbol .minus
  | not => .keyword .notWord

/-- What stands between two operands. -/
inductive Operator where
  | binary (op : BinaryOp)
  /-- The right operand in place of nil. -/
  | coalesce
  deriving DecidableEq

namespace Operator

/-- The level of an operator. -/
def level : Operator → Level
  | binary op => op.level
  | coalesce => .coalescing

/-- The token of an operator. -/
def token : Operator → Token.Kind
  | binary op => op.token
  | coalesce => .symbol .questionQuestion

/-- An operator between two operands. -/
def apply : Operator → (left right : Expr) → Expr
  | binary op, left, right => .binary (left.span.merge right.span) op left right
  | coalesce, left, right => .coalesce (left.span.merge right.span) left right

end Operator

/-! ## Tokens -/

namespace Token

/-- Tokens that are newlines. -/
def Newlines (tokens : List Token) : Prop :=
  ∀ t ∈ tokens, t.kind = .newline

/-- Tokens that are newlines and semicolons. -/
def Separators (tokens : List Token) : Prop :=
  ∀ t ∈ tokens, t.kind.isSeparator = true

/-- The name that a token is after a dot or before a colon. -/
def Kind.memberName? : Token.Kind → Option String
  | identifier name => some name
  | keyword k => some k.word
  | _ => none

end Token

open Token (Newlines Separators)

/-! ## Phrases -/

/-- What stands between commas. -/
inductive Item where
  | expression
  | field

/-- The trees of items. -/
abbrev Item.Tree : Item → Type
  | expression => Expr
  | field => Field

/-- What a segment can be derived from. -/
inductive Phrase where
  /-- An expression of a level. -/
  | level (l : Level)
  /-- The operators of a level and their right operands, after an expression. -/
  | tail (l : Level) (left : Expr)
  /-- Accesses, calls and indexing after an expression. -/
  | suffix (object : Expr)
  | item (i : Item)
  /-- Items with commas between them, at least one. -/
  | items (i : Item)
  /-- What stands between brackets: items, or nothing. -/
  | listing (i : Item)
  /-- The holes of a string and the text after each. -/
  | holes
  | conditional
  /-- What follows the first block of a conditional. -/
  | otherwise
  | statement
  | statements
  | block

namespace Phrase

/-- Any expression. -/
abbrev expression : Phrase :=
  .item .expression

/-- A field of a record. -/
abbrev field : Phrase :=
  .item .field

/-- The trees of a phrase. -/
abbrev Tree : Phrase → Type
  | level _ | tail _ _ | suffix _ => Expr
  | item i => i.Tree
  | items i | listing i => List i.Tree
  | holes => List Fragment
  | conditional => Conditional
  | otherwise => Otherwise
  | statement => Stmt
  | statements => List Stmt
  | block => Block

end Phrase

/-! ## Derivations -/

/-- The index of a loop: a comma and a name, or nothing. -/
inductive DerivesIndex : List Token → Option Ident → Prop where
  | nothing : DerivesIndex [] none
  | name {comma t : Token} {name : String} (hcomma : comma.kind = .symbol .comma)
      (ht : t.kind = .identifier name) : DerivesIndex [comma, t] (some ⟨name, t.span⟩)

/-- The message of an assertion: a comma and a string, or nothing. -/
inductive DerivesMessage : List Token → Option String → Prop where
  | nothing : DerivesMessage [] none
  | text {comma t : Token} {text : String} (hcomma : comma.kind = .symbol .comma)
      (ht : t.kind = .string text) : DerivesMessage [comma, t] (some text)

/-- A segment is derived from a phrase, with its tree; the number is how deep expressions and
operands may nest in it. -/
inductive Derives : (g : Phrase) → Nat → List Token → g.Tree → Prop where
  -- expressions and their levels
  | expression {d : Nat} {ts : List Token} {e : Expr}
      (h : Derives (.level .disjunction) d ts e) : Derives .expression (d + 1) ts e
  | chain {l : Level} {d : Nat} {ts us : List Token} {left e : Expr} (hl : l.Chains)
      (hleft : Derives (.level l.tighter) d ts left) (htail : Derives (.tail l left) d us e) :
      Derives (.level l) d (ts ++ us) e
  | tailNil {l : Level} {d : Nat} {left : Expr} : Derives (.tail l left) d [] left
  | tailCons {o : Operator} {d : Nat} {t : Token} {newlines ts us : List Token}
      {left right e : Expr} (ho : o.level.Chains) (ht : t.kind = o.token)
      (hnewlines : Newlines newlines)
      (hright : Derives (.level o.level.tighter) d ts right)
      (htail : Derives (.tail o.level (o.apply left right)) d us e) :
      Derives (.tail o.level left) d (t :: (newlines ++ (ts ++ us))) e
  | uncompared {d : Nat} {ts : List Token} {e : Expr} (h : Derives (.level .sum) d ts e) :
      Derives (.level .comparison) d ts e
  | compared {o : Operator} {d : Nat} {t : Token} {ts newlines us : List Token}
      {left right : Expr} (ho : o.level = .comparison) (hleft : Derives (.level .sum) d ts left)
      (ht : t.kind = o.token) (hnewlines : Newlines newlines)
      (hright : Derives (.level .sum) d us right) :
      Derives (.level .comparison) d (ts ++ t :: (newlines ++ us)) (o.apply left right)
  | unary {op : UnaryOp} {d : Nat} {t : Token} {ts : List Token} {e : Expr}
      (ht : t.kind = op.token) (h : Derives (.level .prefixed) d ts e) :
      Derives (.level .prefixed) (d + 1) (t :: ts) (.unary (t.span.merge e.span) op e)
  | plain {d : Nat} {ts : List Token} {e : Expr} (h : Derives (.level .suffixed) d ts e) :
      Derives (.level .prefixed) d ts e
  -- accesses, calls and indexing
  | suffixed {d : Nat} {ts us : List Token} {object e : Expr}
      (hobject : Derives (.level .primary) d ts object) (hsuffix : Derives (.suffix object) d us e) :
      Derives (.level .suffixed) d (ts ++ us) e
  | suffixNil {d : Nat} {object : Expr} : Derives (.suffix object) d [] object
  | member {d : Nat} {dot t : Token} {us : List Token} {name : String} {object e : Expr}
      (hdot : dot.kind = .symbol .dot) (ht : t.kind.memberName? = some name)
      (hsuffix : Derives (.suffix (.member (object.span.merge t.span) object ⟨name, t.span⟩)) d us e) :
      Derives (.suffix object) d (dot :: t :: us) e
  | call {d : Nat} {dot t opening closing : Token} {ts us : List Token} {name : String}
      {object e : Expr} {args : List Expr} (hdot : dot.kind = .symbol .dot)
      (ht : t.kind.memberName? = some name) (hopening : opening.kind = .symbol .leftParen)
      (hargs : Derives (.listing .expression) d ts args)
      (hclosing : closing.kind = .symbol .rightParen)
      (hsuffix : Derives
        (.suffix (.call (object.span.merge closing.span) object ⟨name, t.span⟩ args)) d us e) :
      Derives (.suffix object) d (dot :: t :: opening :: (ts ++ closing :: us)) e
  | index {d : Nat} {opening closing : Token} {newlines ts newlines' us : List Token}
      {object key e : Expr} (hopening : opening.kind = .symbol .leftBracket)
      (hnewlines : Newlines newlines) (hkey : Derives .expression d ts key)
      (hnewlines' : Newlines newlines') (hclosing : closing.kind = .symbol .rightBracket)
      (hsuffix : Derives (.suffix (.index (object.span.merge closing.span) object key)) d us e) :
      Derives (.suffix object) d (opening :: (newlines ++ (ts ++ (newlines' ++ closing :: us)))) e
  -- literals, names, parentheses and conditionals
  | number {d : Nat} {t : Token} {value : Float} (ht : t.kind = .number value) :
      Derives (.level .primary) d [t] (.number t.span value)
  | string {d : Nat} {t : Token} {text : String} (ht : t.kind = .string text) :
      Derives (.level .primary) d [t] (.string t.span text)
  | template {d : Nat} {t : Token} {text : String} {ts : List Token} {parts : List Fragment}
      (ht : t.kind = .stringStart text) (hparts : Derives .holes d ts parts) :
      Derives (.level .primary) d (t :: ts)
        (.template (t.span.merge (lastSpan t.span ts)) (Productions.textPart text ++ parts))
  | true {d : Nat} {t : Token} (ht : t.kind = .keyword .trueWord) :
      Derives (.level .primary) d [t] (.bool t.span Bool.true)
  | false {d : Nat} {t : Token} (ht : t.kind = .keyword .falseWord) :
      Derives (.level .primary) d [t] (.bool t.span Bool.false)
  | nil {d : Nat} {t : Token} (ht : t.kind = .keyword .nilWord) :
      Derives (.level .primary) d [t] (.nil t.span)
  | list {d : Nat} {opening closing : Token} {ts : List Token} {items : List Expr}
      (hopening : opening.kind = .symbol .leftBracket)
      (hitems : Derives (.listing .expression) d ts items)
      (hclosing : closing.kind = .symbol .rightBracket) :
      Derives (.level .primary) d (opening :: (ts ++ [closing]))
        (.list (opening.span.merge closing.span) items)
  | record {d : Nat} {opening closing : Token} {ts : List Token} {fields : List Field}
      (hopening : opening.kind = .symbol .leftBrace)
      (hfields : Derives (.listing .field) d ts fields)
      (hclosing : closing.kind = .symbol .rightBrace) :
      Derives (.level .primary) d (opening :: (ts ++ [closing]))
        (.record (opening.span.merge closing.span) fields)
  | paren {d : Nat} {opening closing : Token} {newlines ts newlines' : List Token} {e : Expr}
      (hopening : opening.kind = .symbol .leftParen) (hnewlines : Newlines newlines)
      (h : Derives .expression d ts e) (hnewlines' : Newlines newlines')
      (hclosing : closing.kind = .symbol .rightParen) :
      Derives (.level .primary) d (opening :: (newlines ++ (ts ++ (newlines' ++ [closing]))))
        (.paren (opening.span.merge closing.span) e)
  | choice {d : Nat} {ts : List Token} {c : Conditional} (h : Derives .conditional d ts c) :
      Derives (.level .primary) d ts (.conditional c)
  | ident {d : Nat} {t : Token} {name : String} (ht : t.kind = .identifier name) :
      Derives (.level .primary) d [t] (.ident t.span name)
  -- lists
  | field {d : Nat} {t colon : Token} {newlines ts : List Token} {name : String} {e : Expr}
      (ht : t.kind.memberName? = some name) (hcolon : colon.kind = .symbol .colon)
      (hnewlines : Newlines newlines) (h : Derives .expression d ts e) :
      Derives .field d (t :: colon :: (newlines ++ ts)) (.mk ⟨name, t.span⟩ e)
  | itemsLast {i : Item} {d : Nat} {ts newlines : List Token} {a : i.Tree}
      (h : Derives (.item i) d ts a) (hnewlines : Newlines newlines) :
      Derives (.items i) d (ts ++ newlines) [a]
  | itemsTrailing {i : Item} {d : Nat} {comma : Token} {ts newlines newlines' : List Token}
      {a : i.Tree} (h : Derives (.item i) d ts a) (hnewlines : Newlines newlines)
      (hcomma : comma.kind = .symbol .comma) (hnewlines' : Newlines newlines') :
      Derives (.items i) d (ts ++ (newlines ++ comma :: newlines')) [a]
  | itemsCons {i : Item} {d : Nat} {comma : Token} {ts newlines newlines' us : List Token}
      {a : i.Tree} {as : List i.Tree} (h : Derives (.item i) d ts a) (hnewlines : Newlines newlines)
      (hcomma : comma.kind = .symbol .comma) (hnewlines' : Newlines newlines')
      (hitems : Derives (.items i) d us as) :
      Derives (.items i) d (ts ++ (newlines ++ comma :: (newlines' ++ us))) (a :: as)
  | listingNil {i : Item} {d : Nat} {newlines : List Token} (hnewlines : Newlines newlines) :
      Derives (.listing i) d newlines []
  | listing {i : Item} {d : Nat} {newlines ts : List Token} {as : List i.Tree}
      (hnewlines : Newlines newlines) (h : Derives (.items i) d ts as) :
      Derives (.listing i) d (newlines ++ ts) as
  | holesLast {d : Nat} {opening closing t : Token} {ts : List Token} {text : String} {e : Expr}
      (hopening : opening.kind = .holeStart) (h : Derives .expression d ts e)
      (hclosing : closing.kind = .holeEnd) (ht : t.kind = .stringEnd text) :
      Derives .holes d (opening :: (ts ++ [closing, t])) (.hole e :: Productions.textPart text)
  | holesCons {d : Nat} {opening closing t : Token} {ts us : List Token} {text : String} {e : Expr}
      {parts : List Fragment} (hopening : opening.kind = .holeStart)
      (h : Derives .expression d ts e) (hclosing : closing.kind = .holeEnd)
      (ht : t.kind = .stringPart text) (hparts : Derives .holes d us parts) :
      Derives .holes d (opening :: (ts ++ closing :: t :: us))
        (.hole e :: Productions.textPart text ++ parts)
  -- conditionals and blocks
  | branches {d : Nat} {t : Token} {ts us vs : List Token} {condition : Expr} {thenBlock : Block}
      {otherwise : Otherwise} (ht : t.kind = .keyword .ifWord)
      (hcondition : Derives .expression d ts condition) (hthen : Derives .block d us thenBlock)
      (hotherwise : Derives .otherwise d vs otherwise) :
      Derives .conditional d (t :: (ts ++ (us ++ vs)))
        (.mk (t.span.merge (lastSpan t.span (us ++ vs))) condition thenBlock otherwise)
  | nothing {d : Nat} : Derives .otherwise d [] .nothing
  | elseIf {d : Nat} {t : Token} {newlines ts : List Token} {c : Conditional}
      (hnewlines : Newlines newlines) (ht : t.kind = .keyword .elseWord)
      (h : Derives .conditional d ts c) : Derives .otherwise d (newlines ++ t :: ts) (.elseIf c)
  | elseBlock {d : Nat} {t : Token} {newlines ts : List Token} {b : Block}
      (hnewlines : Newlines newlines) (ht : t.kind = .keyword .elseWord)
      (h : Derives .block d ts b) : Derives .otherwise d (newlines ++ t :: ts) (.block b)
  | block {d : Nat} {opening closing : Token} {separators ts : List Token} {stmts : List Stmt}
      (hopening : opening.kind = .symbol .leftBrace) (hseparators : Separators separators)
      (hstmts : Derives .statements d ts stmts) (hclosing : closing.kind = .symbol .rightBrace) :
      Derives .block d (opening :: (separators ++ (ts ++ [closing])))
        (.mk (opening.span.merge closing.span) stmts)
  | statementsNil {d : Nat} : Derives .statements d [] []
  | statementsCons {d : Nat} {ts separators us : List Token} {stmt : Stmt} {stmts : List Stmt}
      (h : Derives .statement d ts stmt) (hseparators : Separators separators)
      (hstmts : Derives .statements d us stmts) (hapart : separators ≠ [] ∨ us = []) :
      Derives .statements d (ts ++ (separators ++ us)) (stmt :: stmts)
  -- statements
  | bind {d : Nat} {t u equal : Token} {newlines ts : List Token} {name : String} {e : Expr}
      (ht : t.kind = .keyword .letWord) (hu : u.kind = .identifier name)
      (hequal : equal.kind = .symbol .equal) (hnewlines : Newlines newlines)
      (h : Derives .expression d ts e) :
      Derives .statement d (t :: u :: equal :: (newlines ++ ts))
        (.bind (t.span.merge (lastSpan t.span ts)) ⟨name, u.span⟩ e)
  | conditional {d : Nat} {ts : List Token} {c : Conditional} (h : Derives .conditional d ts c) :
      Derives .statement d ts (.conditional c)
  | loop {d : Nat} {t u inWord : Token} {is ts us : List Token} {item : String}
      {index : Option Ident} {e : Expr} {b : Block} (ht : t.kind = .keyword .forWord)
      (hu : u.kind = .identifier item) (hindex : DerivesIndex is index)
      (hin : inWord.kind = .keyword .inWord) (h : Derives .expression d ts e)
      (hbody : Derives .block d us b) :
      Derives .statement d (t :: u :: (is ++ inWord :: (ts ++ us)))
        (.loop (t.span.merge (lastSpan t.span us)) ⟨item, u.span⟩ index e b)
  | leave {d : Nat} {t : Token} (ht : t.kind = .keyword .returnWord) :
      Derives .statement d [t] (.leave (t.span.merge t.span))
  | leaveWith {d : Nat} {t : Token} {ts : List Token} {e : Expr}
      (ht : t.kind = .keyword .returnWord) (h : Derives .expression d ts e) :
      Derives .statement d (t :: ts) (.leaveWith (t.span.merge (lastSpan t.span ts)) e)
  | assertion {d : Nat} {t : Token} {ts ms : List Token} {e : Expr} {message : Option String}
      (ht : t.kind = .keyword .assertWord) (h : Derives .expression d ts e)
      (hmessage : DerivesMessage ms message) :
      Derives .statement d (t :: (ts ++ ms))
        (.assert (t.span.merge (lastSpan t.span (ts ++ ms))) e message)
  | throwing {d : Nat} {t : Token} {ts : List Token} {e : Expr}
      (ht : t.kind = .keyword .throwWord) (h : Derives .expression d ts e) :
      Derives .statement d (t :: ts) (.throw (t.span.merge (lastSpan t.span ts)) e)
  /-- A conditional at the start of a statement is the statement. -/
  | evaluation {d : Nat} {ts : List Token} {e : Expr} (h : Derives .expression d ts e)
      (hif : ts.head?.map Token.kind ≠ some (.keyword .ifWord)) :
      Derives .statement d ts (.expr e)

/-! ## First tokens -/

namespace Token

/-- Tokens of which the first is of a kind that satisfies `p`. -/
def StartWith (p : Kind → Bool) (tokens : List Token) : Prop :=
  ∃ t rest, tokens = t :: rest ∧ p t.kind = true

theorem StartWith.append {p : Kind → Bool} {ts : List Token} (h : StartWith p ts)
    (us : List Token) : StartWith p (ts ++ us) := by
  obtain ⟨t, rest, rfl, ht⟩ := h
  exact ⟨t, rest ++ us, rfl, ht⟩

theorem StartWith.mono {p q : Kind → Bool} {ts : List Token} (h : StartWith p ts)
    (hpq : ∀ kind, p kind = true → q kind = true) : StartWith q ts := by
  obtain ⟨t, rest, rfl, ht⟩ := h
  exact ⟨t, rest, rfl, hpq _ ht⟩

theorem StartWith.ne_nil {p : Kind → Bool} {ts : List Token} (h : StartWith p ts) : ts ≠ [] := by
  obtain ⟨t, rest, rfl, -⟩ := h
  exact List.cons_ne_nil t rest

theorem StartWith.nextKind {p : Kind → Bool} {ts : List Token} (h : StartWith p ts)
    (us : List Token) : p (nextKind (ts ++ us)) = true := by
  obtain ⟨t, rest, rfl, ht⟩ := h
  exact ht

/-- What follows such tokens is no other token. -/
theorem StartWith.nextKind_ne {p : Kind → Bool} {ts : List Token} (h : StartWith p ts)
    (us : List Token) {kind : Kind} (hkind : p kind = false) : Token.nextKind (ts ++ us) ≠ kind := by
  rintro rfl
  exact Bool.noConfusion ((h.nextKind us).symm.trans hkind)

namespace Kind

/-- Whether an expression without an operator before it can start with a token. -/
def startsPrimary : Kind → Bool
  | number _ | string _ | stringStart _ | identifier _ => true
  | keyword .trueWord | keyword .falseWord | keyword .nilWord | keyword .ifWord => true
  | symbol .leftBracket | symbol .leftBrace | symbol .leftParen => true
  | _ => false

/-- Whether an expression can start with a token. -/
def startsExpression : Kind → Bool
  | keyword .notWord | symbol .minus => true
  | kind => kind.startsPrimary

/-- Whether a statement can start with a token. -/
def startsStatement : Kind → Bool
  | keyword .letWord | keyword .forWord | keyword .returnWord | keyword .assertWord
  | keyword .throwWord => true
  | kind => kind.startsExpression

/-- Whether an item can start with a token. -/
def startsItem : Item → Kind → Bool
  | .expression, kind => kind.startsExpression
  | .field, kind => kind.memberName?.isSome

end Kind

end Token

open Token (StartWith)

/-- A segment starts as segments of a phrase do that are not empty. -/
def Phrase.Opens : Phrase → List Token → Prop
  | level .suffixed, ts | level .primary, ts => StartWith Token.Kind.startsPrimary ts
  | level _, ts => StartWith Token.Kind.startsExpression ts
  | item i, ts | items i, ts => StartWith (Token.Kind.startsItem i) ts
  | holes, ts => StartWith (· == .holeStart) ts
  | conditional, ts => StartWith (· == .keyword .ifWord) ts
  | statement, ts => StartWith Token.Kind.startsStatement ts
  | block, ts => StartWith (· == .symbol .leftBrace) ts
  | tail _ _, _ | suffix _, _ | listing _, _ | otherwise, _ | statements, _ => True

namespace Derives

variable {g : Phrase} {d : Nat} {ts : List Token} {a : g.Tree}

theorem startsExpression_of_unary (op : UnaryOp) : op.token.startsExpression = Bool.true := by
  cases op <;> rfl

theorem startsExpression_of_startsPrimary {kind : Token.Kind}
    (h : kind.startsPrimary = Bool.true) : kind.startsExpression = Bool.true := by
  rw [Token.Kind.startsExpression.eq_def]
  split
  all_goals first | rfl | exact h

/-- An expression of any level starts with a token that expressions start with. -/
theorem startsExpression_of_opens {l : Level} (h : (Phrase.level l).Opens ts) :
    StartWith Token.Kind.startsExpression ts := by
  cases l
  case suffixed | primary =>
    have hprimary : StartWith Token.Kind.startsPrimary ts := h
    exact hprimary.mono fun _ => startsExpression_of_startsPrimary
  all_goals exact h

/-- **What a segment starts with.** -/
theorem opens (h : Derives g d ts a) : g.Opens ts := by
  induction h with
  | expression _ ih | uncompared _ ih => exact ih
  | plain _ ih => exact startsExpression_of_opens ih
  | @chain l _ _ _ _ _ hl _ _ ih _ =>
    cases l <;> first | exact (startsExpression_of_opens ih).append _ | cases hl
  | suffixed _ _ ih _ => exact ih.append _
  | compared _ _ _ _ _ ih _ => exact ih.append _
  | unary ht => exact ⟨_, _, rfl, by rw [ht]; exact startsExpression_of_unary _⟩
  | number ht | string ht | template ht | true ht | false ht | nil ht | list ht | record ht
  | paren ht | ident ht => exact ⟨_, _, rfl, by rw [ht]; rfl⟩
  | choice _ ih =>
    have hif : StartWith (· == .keyword .ifWord) _ := ih
    exact hif.mono fun kind hkind => by rw [eq_of_beq hkind]; rfl
  | field ht => exact ⟨_, _, rfl, by simp [Token.Kind.startsItem, ht]⟩
  | itemsLast _ _ ih => exact ih.append _
  | itemsTrailing _ _ _ _ ih => exact ih.append _
  | itemsCons _ _ _ _ _ ih _ => exact ih.append _
  | holesLast ht | holesCons ht | branches ht | block ht => exact ⟨_, _, rfl, by rw [ht]; rfl⟩
  | bind ht | loop ht | leave ht | leaveWith ht | assertion ht | throwing ht =>
    exact ⟨_, _, rfl, by rw [ht]; rfl⟩
  | conditional _ ih =>
    have hif : StartWith (· == .keyword .ifWord) _ := ih
    exact hif.mono fun kind hkind => by rw [eq_of_beq hkind]; rfl
  | evaluation _ _ ih =>
    refine ih.mono fun kind hkind => ?_
    rw [Token.Kind.startsStatement.eq_def]
    split
    all_goals first | rfl | exact hkind
  | tailNil | tailCons | suffixNil | member | call | index | listingNil | listing | nothing
  | elseIf | elseBlock | statementsNil | statementsCons => trivial

end Derives

/-! ## Last tokens -/

/-- Whether a token is neither a separator nor the end of a stream. -/
def Token.Kind.isContent : Kind → Bool
  | newline | symbol .semicolon | eof => false
  | _ => true

theorem Token.Kind.isSeparator_of_isContent {kind : Kind} (h : kind.isContent = true) :
    kind.isSeparator = false := by
  cases kind with
  | symbol s => cases s <;> first | rfl | cases h
  | newline => cases h
  | _ => rfl

theorem Token.Kind.ne_eof_of_isContent {kind : Kind} (h : kind.isContent = true) : kind ≠ .eof := by
  rintro rfl
  cases h

/-- Tokens of which the last is neither a separator nor the end of a stream. -/
def Token.EndApart (tokens : List Token) : Prop :=
  ∃ rest t, tokens = rest ++ [t] ∧ t.kind.isContent = true

namespace Token.EndApart

theorem singleton {t : Token} (h : t.kind.isContent = true) : EndApart [t] :=
  ⟨[], t, rfl, h⟩

theorem after {us : List Token} (h : EndApart us) (ts : List Token) : EndApart (ts ++ us) := by
  obtain ⟨rest, t, rfl, ht⟩ := h
  exact ⟨ts ++ rest, t, (List.append_assoc ..).symm, ht⟩

theorem cons {us : List Token} (h : EndApart us) (t : Token) : EndApart (t :: us) :=
  h.after [t]

/-- More tokens after the last one end alike, or there are none. -/
theorem append {ts us : List Token} (hts : EndApart ts) (hus : us = [] ∨ EndApart us) :
    EndApart (ts ++ us) := by
  rcases hus with rfl | hus
  · rwa [List.append_nil]
  · exact hus.after ts

end Token.EndApart

open Token (EndApart)

/-- A segment ends as segments of a phrase do that are part of an expression. -/
def Phrase.Closes : Phrase → List Token → Prop
  | level _, ts | item _, ts | holes, ts | conditional, ts | block, ts => EndApart ts
  | tail _ _, ts | suffix _, ts | otherwise, ts => ts = [] ∨ EndApart ts
  | items _, _ | listing _, _ | statement, _ | statements, _ => True

namespace Derives

variable {g : Phrase} {d : Nat} {ts : List Token} {a : g.Tree}

theorem isContent_of_memberName? {kind : Token.Kind} {name : String}
    (h : kind.memberName? = some name) : kind.isContent = Bool.true := by
  cases kind <;> first | rfl | cases h

/-- **Expressions end with a token of their own.** -/
theorem closes (h : Derives g d ts a) : g.Closes ts := by
  induction h with
  | expression _ ih | uncompared _ ih | plain _ ih | choice _ ih => exact ih
  | chain _ _ _ ih ih' | suffixed _ _ ih ih' => exact ih.append ih'
  | tailNil | suffixNil | nothing => exact .inl rfl
  | tailCons _ _ _ _ _ ih ih' => exact .inr (((ih.append ih').after _).cons _)
  | compared _ _ _ _ _ _ ih' => exact ((ih'.after _).cons _).after _
  | unary _ _ ih => exact ih.cons _
  | member _ ht _ ih =>
    have ht : EndApart [_] := .singleton (isContent_of_memberName? ht)
    exact .inr ((ht.append ih).cons _)
  | call _ _ _ _ hclosing _ _ ih =>
    have hend : EndApart [_] := .singleton (by rw [hclosing]; rfl)
    exact .inr (((((hend.append ih).after _).cons _).cons _).cons _)
  | index _ _ _ _ hclosing _ _ ih =>
    have hend : EndApart [_] := .singleton (by rw [hclosing]; rfl)
    exact .inr (((((hend.append ih).after _).after _).after _).cons _)
  | number ht | string ht | true ht | false ht | nil ht | ident ht =>
    exact .singleton (by rw [ht]; rfl)
  | template _ _ ih => exact ih.cons _
  | list _ _ hclosing | record _ _ hclosing =>
    exact ((EndApart.singleton (by rw [hclosing]; rfl)).after _).cons _
  | paren _ _ _ _ hclosing =>
    exact ((((EndApart.singleton (by rw [hclosing]; rfl)).after _).after _).after _).cons _
  | field _ _ _ _ ih => exact ((ih.after _).cons _).cons _
  | holesLast _ _ _ ht => exact (((EndApart.singleton (by rw [ht]; rfl)).cons _).after _).cons _
  | holesCons _ _ _ _ _ _ ih => exact (((ih.cons _).cons _).after _).cons _
  | branches _ _ _ _ _ ih ih' => exact ((ih.append ih').after _).cons _
  | elseIf _ _ _ ih | elseBlock _ _ _ ih => exact .inr ((ih.cons _).after _)
  | block _ _ _ hclosing =>
    exact (((EndApart.singleton (by rw [hclosing]; rfl)).after _).after _).cons _
  | itemsLast | itemsTrailing | itemsCons | listingNil | listing | statementsNil | statementsCons
  | bind | conditional | loop | leave | leaveWith | assertion | throwing | evaluation => trivial

end Derives

end ParseActions
