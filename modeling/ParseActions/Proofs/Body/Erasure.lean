import Mathlib.Tactic.Choose
import ParseActions.Proofs.Body.Derivation

/-!
# Trees without their places

Where tokens stand is seen only in the spans of a tree: tokens of the same kinds at other places derive
the same tree, up to spans. The spans are what the erasure of a tree leaves out.

## Main definitions

* `Expr.bare` … `Block.bare`: a tree without its spans
* `Phrase.bare`: the trees of a phrase without their spans
* `Token.moved`: tokens at other places

## Main results

* `Derives.moved`, `Derives.rederives`: tokens of the same kinds at other places derive the same trees,
  up to spans
-/

namespace ParseActions

open Parse
open Token (Newlines Separators)

/-! ## Erasure -/

/-- The span of a node without a place. -/
def Span.blank : Span :=
  .point 1 1

/-- A name without its span. -/
def Ident.bare (name : Ident) : Ident :=
  ⟨name.text, .blank⟩

mutual

/-- An expression without its spans. -/
def Expr.bare : Expr → Expr
  | .number _ value => .number .blank value
  | .string _ text => .string .blank text
  | .template _ parts => .template .blank (Fragment.bares parts)
  | .bool _ value => .bool .blank value
  | .nil _ => .nil .blank
  | .list _ items => .list .blank (Expr.bares items)
  | .record _ fields => .record .blank (Field.bares fields)
  | .ident _ name => .ident .blank name
  | .member _ object field => .member .blank object.bare field.bare
  | .call _ object method args => .call .blank object.bare method.bare (Expr.bares args)
  | .index _ object key => .index .blank object.bare key.bare
  | .binary _ op left right => .binary .blank op left.bare right.bare
  | .unary _ op operand => .unary .blank op operand.bare
  | .coalesce _ left right => .coalesce .blank left.bare right.bare
  | .conditional branches => .conditional branches.bare
  | .paren _ inner => .paren .blank inner.bare

/-- Expressions without their spans. -/
def Expr.bares : List Expr → List Expr
  | [] => []
  | e :: es => e.bare :: Expr.bares es

/-- A piece of a string without its spans. -/
def Fragment.bare : Fragment → Fragment
  | .text text => .text text
  | .hole value => .hole value.bare

/-- Pieces of a string without their spans. -/
def Fragment.bares : List Fragment → List Fragment
  | [] => []
  | part :: parts => part.bare :: Fragment.bares parts

/-- A field without its spans. -/
def Field.bare : Field → Field
  | .mk name value => .mk name.bare value.bare

/-- Fields without their spans. -/
def Field.bares : List Field → List Field
  | [] => []
  | field :: fields => field.bare :: Field.bares fields

/-- A conditional without its spans. -/
def Conditional.bare : Conditional → Conditional
  | .mk _ condition thenBlock otherwise =>
    .mk .blank condition.bare thenBlock.bare otherwise.bare

/-- What follows the first block of a conditional, without its spans. -/
def Otherwise.bare : Otherwise → Otherwise
  | .nothing => .nothing
  | .elseIf branches => .elseIf branches.bare
  | .block block => .block block.bare

/-- A statement without its spans. -/
def Stmt.bare : Stmt → Stmt
  | .bind _ name value => .bind .blank name.bare value.bare
  | .conditional branches => .conditional branches.bare
  | .loop _ item index items body =>
    .loop .blank item.bare (index.map Ident.bare) items.bare body.bare
  | .leave _ => .leave .blank
  | .leaveWith _ value => .leaveWith .blank value.bare
  | .assert _ condition message => .assert .blank condition.bare message
  | .throw _ value => .throw .blank value.bare
  | .expr value => .expr value.bare

/-- Statements without their spans. -/
def Stmt.bares : List Stmt → List Stmt
  | [] => []
  | stmt :: stmts => stmt.bare :: Stmt.bares stmts

/-- A block without its spans. -/
def Block.bare : Block → Block
  | .mk _ stmts => .mk .blank (Stmt.bares stmts)

end

@[simp] theorem Expr.bares_eq (es : List Expr) : Expr.bares es = es.map Expr.bare := by
  induction es with
  | nil => rfl
  | cons e es ih => rw [Expr.bares, ih, List.map_cons]

@[simp] theorem Fragment.bares_eq (parts : List Fragment) :
    Fragment.bares parts = parts.map Fragment.bare := by
  induction parts with
  | nil => rfl
  | cons part parts ih => rw [Fragment.bares, ih, List.map_cons]

@[simp] theorem Field.bares_eq (fields : List Field) :
    Field.bares fields = fields.map Field.bare := by
  induction fields with
  | nil => rfl
  | cons field fields ih => rw [Field.bares, ih, List.map_cons]

@[simp] theorem Stmt.bares_eq (stmts : List Stmt) : Stmt.bares stmts = stmts.map Stmt.bare := by
  induction stmts with
  | nil => rfl
  | cons stmt stmts ih => rw [Stmt.bares, ih, List.map_cons]

theorem Operator.bare_apply (o : Operator) {left left' right right' : Expr}
    (hleft : left'.bare = left.bare) (hright : right'.bare = right.bare) :
    (o.apply left' right').bare = (o.apply left right).bare := by
  cases o <;> simp only [Operator.apply, Expr.bare, hleft, hright]

/-- An item without its spans. -/
abbrev Item.bare : (i : Item) → i.Tree → i.Tree
  | expression => Expr.bare
  | field => Field.bare

/-- A tree of a phrase without its spans. -/
abbrev Phrase.bare : (g : Phrase) → g.Tree → g.Tree
  | level _ | tail _ _ | suffix _ => Expr.bare
  | item i => i.bare
  | items i | listing i => List.map i.bare
  | holes => List.map Fragment.bare
  | conditional => Conditional.bare
  | otherwise => Otherwise.bare
  | statement => Stmt.bare
  | statements => List.map Stmt.bare
  | block => Block.bare

/-! ## Tokens at other places -/

namespace Token

/-- Tokens at other places: each at that of its number. -/
def moved (places : Nat → Span) (tokens : List Token) : List Token :=
  tokens.mapIdx fun i t => ⟨t.kind, places i⟩

variable {places : Nat → Span} {t : Token} {ts us : List Token}

@[simp] theorem moved_nil : moved places [] = [] :=
  rfl

@[simp] theorem moved_cons :
    moved places (t :: ts) = ⟨t.kind, places 0⟩ :: moved (fun i => places (i + 1)) ts :=
  List.mapIdx_cons

@[simp] theorem moved_append :
    moved places (ts ++ us) = moved places ts ++ moved (fun i => places (i + ts.length)) us :=
  List.mapIdx_append

@[simp] theorem moved_eq_nil : moved places ts = [] ↔ ts = [] :=
  List.mapIdx_eq_nil_iff

theorem map_kind_moved : (moved places ts).map kind = ts.map kind := by
  induction ts generalizing places with
  | nil => rfl
  | cons t ts ih => rw [moved_cons, List.map_cons, ih, List.map_cons]

/-- Tokens of the same kinds are the same at other places. -/
theorem exists_moved (h : us.map kind = ts.map kind) : ∃ places, moved places ts = us := by
  induction ts generalizing us with
  | nil => exact ⟨fun _ => .blank, (List.map_eq_nil_iff.mp h).symm⟩
  | cons t ts ih =>
    obtain ⟨u, us, rfl, hkind, hus⟩ := List.map_eq_cons_iff.mp h
    obtain ⟨places, rfl⟩ := ih hus
    refine ⟨fun i => i.casesOn u.span places, ?_⟩
    rw [moved_cons, ← hkind]
    rfl

theorem exists_of_mem_moved {u : Token} (hu : u ∈ moved places ts) : ∃ t ∈ ts, t.kind = u.kind :=
  List.exists_of_mem_map (map_kind_moved ▸ List.mem_map_of_mem hu)

theorem Newlines.moved (h : Newlines ts) : Newlines (Token.moved places ts) := by
  intro u hu
  obtain ⟨t, ht, hkind⟩ := exists_of_mem_moved hu
  rw [← hkind, h t ht]

theorem Separators.moved (h : Separators ts) : Separators (Token.moved places ts) := by
  intro u hu
  obtain ⟨t, ht, hkind⟩ := exists_of_mem_moved hu
  rw [← hkind, h t ht]

theorem head?_moved : (moved places ts).head?.map kind = ts.head?.map kind := by
  cases ts <;> simp

end Token

/-! ## Derivations at other places -/

theorem DerivesIndex.moved {ts : List Token} {index : Option Ident} (h : DerivesIndex ts index)
    (places : Nat → Span) :
    ∃ index', DerivesIndex (Token.moved places ts) index' ∧
      index'.map Ident.bare = index.map Ident.bare := by
  cases h with
  | nothing => exact ⟨_, .nothing, rfl⟩
  | name hcomma ht => exact ⟨_, .name hcomma ht, rfl⟩

theorem DerivesMessage.moved {ts : List Token} {message : Option String}
    (h : DerivesMessage ts message) (places : Nat → Span) :
    DerivesMessage (Token.moved places ts) message := by
  cases h with
  | nothing => exact .nothing
  | text hcomma ht => exact .text hcomma ht

/-- A segment is derived with a tree that is a given one up to spans, whatever the spans in what
stands before it are. -/
abbrev Phrase.Rederives : (g : Phrase) → Nat → List Token → g.Tree → Prop
  | tail l left, d, ts, e => ∀ left' : Expr, left'.bare = left.bare →
      ∃ e' : Expr, Derives (.tail l left') d ts e' ∧ e'.bare = e.bare
  | suffix object, d, ts, e => ∀ object' : Expr, object'.bare = object.bare →
      ∃ e' : Expr, Derives (.suffix object') d ts e' ∧ e'.bare = e.bare
  | g, d, ts, a => ∃ a', Derives g d ts a' ∧ g.bare a' = g.bare a

namespace Derives

variable {g : Phrase} {d : Nat} {ts : List Token} {a : g.Tree}

/-- **From tokens at other places** the same is derived, up to spans. -/
theorem moved (h : Derives g d ts a) (places : Nat → Span) :
    g.Rederives d (Token.moved places ts) a := by
  -- each part has a tree for every choice of places, so the places of the parts need not be named:
  -- they are what the tokens of the whole ask for
  induction h generalizing places with
  | expression _ ih =>
    choose e he hbare using ih
    exact ⟨_, .expression (he _), hbare _⟩
  | chain hl _ _ ih ih' =>
    choose left hleft hbare using ih
    choose e he hbare' using ih'
    rw [Token.moved_append]
    exact ⟨_, .chain hl (hleft _) (he _ _ (hbare _)), hbare' _ _ _⟩
  | tailNil => exact fun left' hleft => ⟨left', .tailNil, hleft⟩
  | tailCons ho ht hnewlines _ _ ih ih' =>
    choose right hright hbare using ih
    choose e he hbare' using ih'
    simp only [Token.moved_cons, Token.moved_append]
    exact fun left' hleft => ⟨_, .tailCons ho ht hnewlines.moved (hright _)
      (he _ _ (Operator.bare_apply _ hleft (hbare _))), hbare' _ _ _⟩
  | uncompared _ ih =>
    choose e he hbare using ih
    exact ⟨_, .uncompared (he _), hbare _⟩
  | compared ho _ ht hnewlines _ ih ih' =>
    choose left hleft hbare using ih
    choose right hright hbare' using ih'
    simp only [Token.moved_cons, Token.moved_append]
    exact ⟨_, .compared ho (hleft _) ht hnewlines.moved (hright _),
      Operator.bare_apply _ (hbare _) (hbare' _)⟩
  | unary ht _ ih =>
    choose e he hbare using ih
    rw [Token.moved_cons]
    exact ⟨_, .unary ht (he _), by simp only [Expr.bare, hbare]⟩
  | plain _ ih =>
    choose e he hbare using ih
    exact ⟨_, .plain (he _), hbare _⟩
  | suffixed _ _ ih ih' =>
    choose object hobject hbare using ih
    choose e he hbare' using ih'
    rw [Token.moved_append]
    exact ⟨_, .suffixed (hobject _) (he _ _ (hbare _)), hbare' _ _ _⟩
  | suffixNil => exact fun object' hobject => ⟨object', .suffixNil, hobject⟩
  | member hdot ht _ ih =>
    choose e he hbare using ih
    simp only [Token.moved_cons]
    exact fun object' hobject => ⟨_, .member hdot ht
      (he _ _ (by simp only [Expr.bare, Ident.bare, hobject])), hbare _ _ _⟩
  | call hdot ht hopening _ hclosing _ ih ih' =>
    choose args hargs hbare using ih
    choose e he hbare' using ih'
    simp only [Token.moved_cons, Token.moved_append]
    exact fun object' hobject => ⟨_, .call hdot ht hopening (hargs _) hclosing
      (he _ _ (by simp only [Expr.bare, Expr.bares_eq, Ident.bare, hobject, hbare])), hbare' _ _ _⟩
  | index hopening hnewlines _ hnewlines' hclosing _ ih ih' =>
    choose key hkey hbare using ih
    choose e he hbare' using ih'
    simp only [Token.moved_cons, Token.moved_append]
    exact fun object' hobject => ⟨_, .index hopening hnewlines.moved (hkey _) hnewlines'.moved
      hclosing (he _ _ (by simp only [Expr.bare, hobject, hbare])), hbare' _ _ _⟩
  | number ht => exact ⟨_, .number ht, rfl⟩
  | string ht => exact ⟨_, .string ht, rfl⟩
  | template ht _ ih =>
    choose parts hparts hbare using ih
    rw [Token.moved_cons]
    exact ⟨_, .template ht (hparts _), by
      simp only [Expr.bare, Fragment.bares_eq, List.map_append, hbare]⟩
  | true ht => exact ⟨_, .true ht, rfl⟩
  | false ht => exact ⟨_, .false ht, rfl⟩
  | nil ht => exact ⟨_, .nil ht, rfl⟩
  | list hopening _ hclosing ih =>
    choose items hitems hbare using ih
    simp only [Token.moved_cons, Token.moved_append]
    exact ⟨_, .list hopening (hitems _) hclosing, by simp only [Expr.bare, Expr.bares_eq, hbare]⟩
  | record hopening _ hclosing ih =>
    choose fields hfields hbare using ih
    simp only [Token.moved_cons, Token.moved_append]
    exact ⟨_, .record hopening (hfields _) hclosing, by
      simp only [Expr.bare, Field.bares_eq, hbare]⟩
  | paren hopening hnewlines _ hnewlines' hclosing ih =>
    choose e he hbare using ih
    simp only [Token.moved_cons, Token.moved_append]
    exact ⟨_, .paren hopening hnewlines.moved (he _) hnewlines'.moved hclosing, by
      simp only [Expr.bare, hbare]⟩
  | choice _ ih =>
    choose c hc hbare using ih
    exact ⟨_, .choice (hc _), by simp only [Expr.bare, hbare]⟩
  | ident ht => exact ⟨_, .ident ht, rfl⟩
  | field ht hcolon hnewlines _ ih =>
    choose e he hbare using ih
    simp only [Token.moved_cons, Token.moved_append]
    exact ⟨_, .field ht hcolon hnewlines.moved (he _), by
      simp only [Field.bare, Ident.bare, hbare]⟩
  | itemsLast _ hnewlines ih =>
    choose a ha hbare using ih
    rw [Token.moved_append]
    exact ⟨_, .itemsLast (ha _) hnewlines.moved, by simp only [List.map_cons, hbare, List.map_nil]⟩
  | itemsTrailing _ hnewlines hcomma hnewlines' ih =>
    choose a ha hbare using ih
    simp only [Token.moved_cons, Token.moved_append]
    exact ⟨_, .itemsTrailing (ha _) hnewlines.moved hcomma hnewlines'.moved, by
      simp only [List.map_cons, hbare, List.map_nil]⟩
  | itemsCons _ hnewlines hcomma hnewlines' _ ih ih' =>
    choose a ha hbare using ih
    choose as has hbare' using ih'
    simp only [Token.moved_cons, Token.moved_append]
    exact ⟨_, .itemsCons (ha _) hnewlines.moved hcomma hnewlines'.moved (has _), by
      simp only [List.map_cons, hbare, hbare']⟩
  | listingNil hnewlines => exact ⟨_, .listingNil hnewlines.moved, rfl⟩
  | listing hnewlines _ ih =>
    choose as has hbare using ih
    rw [Token.moved_append]
    exact ⟨_, .listing hnewlines.moved (has _), hbare _⟩
  | holesLast hopening _ hclosing ht ih =>
    choose e he hbare using ih
    simp only [Token.moved_cons, Token.moved_append]
    exact ⟨_, .holesLast hopening (he _) hclosing ht, by
      simp only [List.map_cons, Fragment.bare, hbare]⟩
  | holesCons hopening _ hclosing ht _ ih ih' =>
    choose e he hbare using ih
    choose parts hparts hbare' using ih'
    simp only [Token.moved_cons, Token.moved_append]
    exact ⟨_, .holesCons hopening (he _) hclosing ht (hparts _), by
      simp only [List.map_append, List.map_cons, Fragment.bare, hbare, hbare']⟩
  | branches ht _ _ _ ih ih' ih'' =>
    choose condition hcondition hbare using ih
    choose thenBlock hthen hbare' using ih'
    choose otherwise hotherwise hbare'' using ih''
    simp only [Token.moved_cons, Token.moved_append]
    exact ⟨_, .branches ht (hcondition _) (hthen _) (hotherwise _), by
      simp only [Conditional.bare, hbare, hbare', hbare'']⟩
  | nothing => exact ⟨_, .nothing, rfl⟩
  | elseIf hnewlines ht _ ih =>
    choose c hc hbare using ih
    simp only [Token.moved_cons, Token.moved_append]
    exact ⟨_, .elseIf hnewlines.moved ht (hc _), by simp only [Otherwise.bare, hbare]⟩
  | elseBlock hnewlines ht _ ih =>
    choose b hb hbare using ih
    simp only [Token.moved_cons, Token.moved_append]
    exact ⟨_, .elseBlock hnewlines.moved ht (hb _), by simp only [Otherwise.bare, hbare]⟩
  | block hopening hseparators _ hclosing ih =>
    choose stmts hstmts hbare using ih
    simp only [Token.moved_cons, Token.moved_append]
    exact ⟨_, .block hopening hseparators.moved (hstmts _) hclosing, by
      simp only [Block.bare, Stmt.bares_eq, hbare]⟩
  | statementsNil => exact ⟨_, .statementsNil, rfl⟩
  | statementsCons _ hseparators _ hapart ih ih' =>
    choose stmt hstmt hbare using ih
    choose stmts hstmts hbare' using ih'
    simp only [Token.moved_append]
    refine ⟨_, .statementsCons (hstmt _) hseparators.moved (hstmts _) ?_, by
      simp only [List.map_cons, hbare, hbare']⟩
    simpa using hapart
  | bind ht hu hequal hnewlines _ ih =>
    choose e he hbare using ih
    simp only [Token.moved_cons, Token.moved_append]
    exact ⟨_, .bind ht hu hequal hnewlines.moved (he _), by
      simp only [Stmt.bare, Ident.bare, hbare]⟩
  | conditional _ ih =>
    choose c hc hbare using ih
    exact ⟨_, .conditional (hc _), by simp only [Stmt.bare, hbare]⟩
  | loop ht hu hindex hin _ _ ih ih' =>
    choose index hindex hsame using hindex.moved
    choose e he hbare using ih
    choose b hb hbare' using ih'
    simp only [Token.moved_cons, Token.moved_append]
    exact ⟨_, .loop ht hu (hindex _) hin (he _) (hb _), by
      simp only [Stmt.bare, Ident.bare, hsame, hbare, hbare']⟩
  | leave ht => exact ⟨_, .leave ht, rfl⟩
  | leaveWith ht _ ih =>
    choose e he hbare using ih
    rw [Token.moved_cons]
    exact ⟨_, .leaveWith ht (he _), by simp only [Stmt.bare, hbare]⟩
  | assertion ht _ hmessage ih =>
    choose e he hbare using ih
    simp only [Token.moved_cons, Token.moved_append]
    exact ⟨_, .assertion ht (he _) (hmessage.moved _), by simp only [Stmt.bare, hbare]⟩
  | throwing ht _ ih =>
    choose e he hbare using ih
    rw [Token.moved_cons]
    exact ⟨_, .throwing ht (he _), by simp only [Stmt.bare, hbare]⟩
  | evaluation _ hif ih =>
    choose e he hbare using ih
    exact ⟨_, .evaluation (he _) (by rwa [Token.head?_moved]), by simp only [Stmt.bare, hbare]⟩

/-- From tokens of the same kinds the same is derived, up to spans. -/
theorem rederives {us : List Token} (h : Derives g d ts a)
    (hkinds : us.map Token.kind = ts.map Token.kind) : g.Rederives d us a := by
  obtain ⟨places, rfl⟩ := Token.exists_moved hkinds
  exact h.moved places

end Derives

end ParseActions
