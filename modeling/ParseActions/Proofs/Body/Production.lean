import ParseActions.Proofs.Body.Derivation

/-!
# The productions of phrases

Each phrase has a production that reads it. Those of the levels with chains of operators are one
step, by the operators of the level.

## Main definitions

* `Level.parser`, `Level.loop`: the productions of levels, and of the operators after an operand
* `Phrase.parser`: the production of a phrase

## Main results

* `Level.loop_succ`: one operator of a chain
* `Productions.branches_eq`: a conditional by its parts
* `Productions.otherwise_else`, `Productions.otherwise_of_not`: what follows its first block
-/

namespace ParseActions

open Parse

/-! ## Operators by their tokens -/

/-- The operator that a token stands for between two operands. -/
def Operator.ofKind? : Token.Kind → Option Operator
  | .symbol .plus => some (.binary .add)
  | .symbol .minus => some (.binary .sub)
  | .symbol .star => some (.binary .mul)
  | .symbol .slash => some (.binary .div)
  | .symbol .percent => some (.binary .mod)
  | .symbol .equalEqual => some (.binary .eq)
  | .symbol .bangEqual => some (.binary .notEq)
  | .symbol .less => some (.binary .less)
  | .symbol .greater => some (.binary .greater)
  | .symbol .lessEqual => some (.binary .lessEq)
  | .symbol .greaterEqual => some (.binary .greaterEq)
  | .symbol .questionQuestion => some .coalesce
  | .keyword .andWord => some (.binary .and)
  | .keyword .orWord => some (.binary .or)
  | _ => none

theorem Operator.ofKind?_eq_some {kind : Token.Kind} {o : Operator} :
    ofKind? kind = some o ↔ kind = o.token := by
  constructor
  · intro h
    rw [ofKind?.eq_def] at h
    split at h
    all_goals
      first
      | cases h; rfl
      | cases h
  · rintro rfl
    rcases o with op | _
    · cases op <;> rfl
    · rfl

theorem Operator.token_ne_eof (o : Operator) : o.token ≠ .eof := by
  rcases o with op | _
  · cases op <;> nofun
  · nofun

/-- The operator of a level that a token stands for. -/
def Level.operator? (l : Level) (kind : Token.Kind) : Option Operator :=
  (Operator.ofKind? kind).filter fun o => o.level = l

theorem Level.operator?_eq_some {l : Level} {kind : Token.Kind} {o : Operator} :
    l.operator? kind = some o ↔ kind = o.token ∧ o.level = l := by
  simp [operator?, Option.filter_eq_some_iff, Operator.ofKind?_eq_some]

theorem unary?_eq_some {kind : Token.Kind} {op : UnaryOp} :
    Productions.unary? kind = some op ↔ kind = op.token := by
  constructor
  · intro h
    rw [Productions.unary?.eq_def] at h
    split at h
    all_goals
      first
      | cases h; rfl
      | cases h
  · rintro rfl
    cases op <;> rfl

/-! ## Levels -/

namespace Level

open Productions

variable {stream : Stream} {s : State} {sub : Productions}

/-- The production of a level. -/
def parser (sub : Productions) : Level → Parse Expr
  | disjunction => Productions.disjunction sub
  | conjunction => Productions.conjunction sub
  | coalescing => coalesced sub
  | comparison => Productions.comparison sub
  | sum => Productions.sum sub
  | product => Productions.product sub
  | prefixed => Productions.prefixed sub
  | suffixed => do suffixes sub sub.budget (← Productions.primary sub)
  | primary => Productions.primary sub

/-- The production of the operators of a level that are chained after an operand. -/
def loop (sub : Productions) (budget : Nat) (left : Expr) : Level → Parse Expr
  | disjunction =>
    chainFrom (only? (.keyword .orWord) .or) (Productions.conjunction sub) binary budget left
  | conjunction => chainFrom (only? (.keyword .andWord) .and) (coalesced sub) binary budget left
  | coalescing =>
    chainFrom (fun k => if k = .symbol .questionQuestion then some () else none)
      (Productions.comparison sub)
      (fun left _ right => .coalesce (left.span.merge right.span) left right) budget left
  | sum => chainFrom additive? (Productions.product sub) binary budget left
  | product => chainFrom multiplicative? (Productions.prefixed sub) binary budget left
  | _ => return left

theorem parser_eq {l : Level} (hl : l.Chains) :
    l.parser sub = (do l.loop sub sub.budget (← l.tighter.parser sub)) := by
  cases l <;> first | rfl | cases hl

/-- A chain whose operators are those of a level. -/
theorem chainFrom_succ {β : Type} {op? : Token.Kind → Option β} {operand : Parse Expr}
    {combine : Expr → β → Expr → Expr} {budget : Nat} {left : Expr} {l : Level}
    (hop : ∀ kind, (op? kind).map (fun op left right => combine left op right) =
      (l.operator? kind).map Operator.apply) :
    chainFrom op? operand combine (budget + 1) left stream s =
      match l.operator? (s.peek stream).kind with
      | none => (some left, s)
      | some o => (do
          let _ ← advance
          skipNewlines
          let right ← operand
          chainFrom op? operand combine budget (o.apply left right) : Parse Expr) stream s := by
  have hkind := hop (s.peek stream).kind
  rw [chainFrom, peekKind_bind]
  cases hl : l.operator? (s.peek stream).kind with
  | none =>
    rw [hl] at hkind
    have hnone : op? (s.peek stream).kind = none := by simpa using hkind
    rw [hnone]
    rfl
  | some o =>
    rw [hl] at hkind
    obtain ⟨op, hop, happly⟩ := Option.map_eq_some_iff.mp hkind
    rw [hop]
    simp only [← happly]

/-- **One operator of a chain**: it is read with the operand after it, if it is there. -/
theorem loop_succ {l : Level} (hl : l.Chains) (budget : Nat) (left : Expr) :
    l.loop sub (budget + 1) left stream s =
      match l.operator? (s.peek stream).kind with
      | none => (some left, s)
      | some o => (do
          let _ ← advance
          skipNewlines
          let right ← l.tighter.parser sub
          l.loop sub budget (o.apply left right) : Parse Expr) stream s := by
  cases l with
  | disjunction | conjunction | coalescing | sum | product =>
    refine chainFrom_succ fun kind => ?_
    cases kind with
    | keyword k => cases k <;> rfl
    | symbol k => cases k <;> rfl
    | _ => rfl
  | _ => cases hl

/-- Without an operator of its level a chain ends. -/
theorem loop_of_none {l : Level} {budget : Nat} {left : Expr}
    (h : l.operator? (s.peek stream).kind = none) : l.loop sub budget left stream s = (some left, s) := by
  by_cases hl : l.Chains
  · cases budget with
    | zero => cases l <;> rfl
    | succ budget => rw [loop_succ hl, h]
  · cases l <;> first | rfl | exact absurd trivial hl

end Level

namespace Productions

open Token

variable {stream : Stream} {s : State} {sub : Productions}

theorem comparison?_eq (kind : Token.Kind) :
    (comparison? kind).map Operator.binary = Level.comparison.operator? kind := by
  cases kind with
  | keyword k => cases k <;> rfl
  | symbol k => cases k <;> rfl
  | _ => rfl

/-- What follows the first block of a conditional. -/
def otherwise (sub : Productions) : Parse Otherwise := do
  if ← elseFollows then skipNewlines
  if ← eat (.keyword .elseWord) then
    if ← check (.keyword .ifWord) then return .elseIf (← sub.conditional)
    else return .block (← sub.block)
  else return .nothing

theorem elseFollows_bind {β : Type} (f : Bool → Parse β) :
    (elseFollows >>= f) stream s =
      f (decide (nextKind (s.rest.dropWhile fun t => t.kind == .newline) = .keyword .elseWord))
        stream s := by
  have hkind : (s.skipWhile (· == .newline)).kindAt 0 =
      nextKind (s.rest.dropWhile fun t => t.kind == .newline) := by
    rw [State.kindAt, nextKind, ← List.head?_eq_getElem?]
    rfl
  rw [← hkind]
  rfl

/-- Nothing is read, newlines included, where no `else` comes after them. -/
theorem otherwise_of_not (hfinal : stream.final.kind = .eof)
    (h : nextKind (s.rest.dropWhile fun t => t.kind == .newline) ≠ .keyword .elseWord) :
    otherwise sub stream s = (some .nothing, s) := by
  have hnext : nextKind s.rest ≠ .keyword .elseWord := by
    intro helse
    refine h ?_
    cases hrest : s.rest with
    | nil =>
      rw [hrest] at helse
      cases helse
    | cons t rest =>
      rw [hrest, nextKind_cons] at helse
      simp [helse]
  simp only [otherwise, elseFollows_bind, h, decide_false, Bool.false_eq_true, if_false]
  rw [eat_bind, State.kind_peek hfinal, if_neg hnext]
  rfl

/-- After newlines and an `else` comes a conditional or a block. -/
theorem otherwise_else {newlines rest : List Token} {t : Token} {previous : Span} {n : Nat}
    {errors : Diagnostics} (hnewlines : Newlines newlines) (ht : t.kind = .keyword .elseWord) :
    otherwise sub stream ⟨newlines ++ t :: rest, previous, n, errors⟩ =
      (check (.keyword .ifWord) >>= fun isIf =>
        if isIf = true then do return .elseIf (← sub.conditional)
        else do return .block (← sub.block) : Parse Otherwise) stream ⟨rest, t.span, n, errors⟩ := by
  have hskip : ∀ u ∈ newlines, (u.kind == .newline) = true := fun u hu => by simp [hnewlines u hu]
  have hdrop : nextKind ((newlines ++ t :: rest).dropWhile fun t => t.kind == .newline) =
      .keyword .elseWord := by
    rw [List.dropWhile_append_of_pos hskip]
    simp [ht]
  simp only [otherwise, elseFollows_bind, hdrop, decide_true, if_true, skipNewlines_bind]
  rw [State.skipWhile_append hskip (by rw [nextKind_cons, ht]; rfl), eat_bind, State.peek_mk_cons,
    if_pos ht]
  rfl

/-- A conditional is a condition, a block and what follows it. -/
theorem branches_eq (sub : Productions) :
    branches sub = do
      let start ← currentSpan
      let _ ← advance
      let condition ← sub.expression
      let thenBlock ← sub.block
      let rest ← otherwise sub
      return .mk (start.merge (← previousSpan)) condition thenBlock rest := by
  refine bind_congr fun start => bind_congr fun _ => bind_congr fun condition =>
    bind_congr fun thenBlock => ?_
  simp only [otherwise, bind_assoc, ite_bind, pure_bind]

end Productions

/-! ## Phrases -/

/-- The production of an item. -/
def Item.parser (sub : Productions) : (i : Item) → Parse i.Tree
  | expression => sub.expression
  | field => Productions.field sub

/-- The production of a phrase. Those that repeat something are bounded by a budget, and lists go up
to a closing symbol. -/
def Phrase.parser (sub : Productions) (budget : Nat) (close : Symbol) : (g : Phrase) → Parse g.Tree
  | level l => l.parser sub
  | tail l left => l.loop sub budget left
  | suffix object => Productions.suffixes sub budget object
  | item i => i.parser sub
  | items i => commaItems (i.parser sub) close budget
  | listing i => commaList budget (i.parser sub) close
  | holes => Productions.holes sub budget
  | conditional => sub.conditional
  | otherwise => Productions.otherwise sub
  | statement => Productions.statement sub
  | statements => Productions.statements sub budget
  | block => sub.block

@[simp] theorem budget_productions (budget : Nat) : (productions budget).budget = budget := by
  induction budget with
  | zero => rfl
  | succ budget ih => exact congrArg (· + 1) ih

end ParseActions
