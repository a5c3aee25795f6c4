import ParseActions.Body.Parsed
import ParseActions.Proofs.Body.Step
import ParseActions.Proofs.Diagnostic

/-!
# How steps change the state

The state of the parser is only ever changed in four ways: the next token is read, tokens are
skipped, a report is made at the next token, and a step is run one level deeper. A relation between
states that each of these respects is respected by every step, whether it succeeds or not. This is found
by instance search along the way in which a step is put together. One such relation says that no report
is taken back: a step adds to the reports or leaves them as they are.

## Main definitions

* `Parse.StepwiseOn`, `Parse.Stepwise`: a relation that each change of the state respects, on a stream
  or whatever the stream
* `Parse.RespectsOn`, `Parse.Respects`: a step that leads from each state to a related one
* `Productions.RespectOn`, `Productions.Respect`: productions that do
* `Productions.afterHole`, `Productions.afterStatement`: how two of the loops go on
* `Parse.Keeps`, `Productions.Keep`: steps and productions that keep what reports keep

## Main results

* `respect_productions`: all productions do
* `Parse.Keeps.errors`, `Parse.Keeps.hasErrors`: what a step keeps
-/

-- the size of an instance doubles with each step of a sequence
set_option synthInstance.maxSize 100000

namespace ParseActions

namespace Parse

variable {α β : Type}

/-- A relation between the states of a run on a stream that holds along every run, as each change of
the state respects it. -/
class StepwiseOn (R : Stream → State → State → Prop) : Prop where
  refl (stream : Stream) (s : State) : R stream s s
  trans {stream : Stream} {s₁ s₂ s₃ : State} : R stream s₁ s₂ → R stream s₂ s₃ → R stream s₁ s₃
  advance (stream : Stream) (s : State) : R stream s s.advance
  skipWhile (stream : Stream) (p : Token.Kind → Bool) (hp : p .eof = false) (s : State) :
    R stream s (s.skipWhile p)
  report (stream : Stream) (code : Code) (message : String) (advice : Option String) (s : State) :
    R stream s (s.report stream code message (s.peek stream).span advice)
  /-- A step is run one level deeper, and then one level higher again. -/
  nested {stream : Stream} {s s' : State} : R stream { s with depth := s.depth + 1 } s' →
    R stream s { s' with depth := s'.depth - 1 }

/-- A relation between states that holds along every run, whatever the stream. -/
abbrev Stepwise (R : State → State → Prop) : Prop :=
  StepwiseOn fun _ => R

/-- A step that leads from each state to a related one, whether or not it succeeds. -/
class RespectsOn (R : Stream → State → State → Prop) (p : Parse α) : Prop where
  run (stream : Stream) (s : State) : R stream s (p stream s).2

/-- A step that leads from each state to a related one, whatever the stream. -/
abbrev Respects (R : State → State → Prop) (p : Parse α) : Prop :=
  RespectsOn (fun _ => R) p

variable {R : Stream → State → State → Prop} [StepwiseOn R]

/-! ## Sequences -/

/-- A step that leaves the state as it is. -/
theorem respects_of_eq {p : Parse α} (h : ∀ stream s, (p stream s).2 = s) : RespectsOn R p where
  run stream s := by
    rw [h]
    exact StepwiseOn.refl stream s

theorem respects_bind {p : Parse α} {f : α → Parse β} (hp : RespectsOn R p)
    (hf : ∀ a, RespectsOn R (f a)) : RespectsOn R (p >>= f) where
  run stream s := by
    have hfirst := hp.run stream s
    cases hrun : p stream s with
    | mk a after =>
      rw [hrun] at hfirst
      cases a with
      | none => rwa [bind_of_none hrun]
      | some a =>
        rw [bind_of_some hrun]
        exact StepwiseOn.trans hfirst ((hf a).run stream after)

instance {p : Parse α} {f : α → Parse β} [hp : RespectsOn R p] [hf : ∀ a, RespectsOn R (f a)] :
    RespectsOn R (p >>= f) :=
  respects_bind hp hf

instance (a : α) : RespectsOn R (pure a : Parse α) :=
  respects_of_eq fun _ _ => rfl

instance {f : α → β} {p : Parse α} [RespectsOn R p] : RespectsOn R (f <$> p) :=
  inferInstanceAs (RespectsOn R (p >>= fun a => pure (f a)))

instance {c : Prop} [Decidable c] {p q : Parse α} [hp : RespectsOn R p] [hq : RespectsOn R q] :
    RespectsOn R (if c then p else q) := by
  split
  · exact hp
  · exact hq

instance {p : Parse α} [h : RespectsOn R p] : RespectsOn R (attempt p) where
  run := h.run

/-! ## Basic steps -/

instance : RespectsOn R (fail : Parse α) :=
  respects_of_eq fun _ _ => rfl

instance : RespectsOn R advance where
  run stream s := StepwiseOn.advance stream s

instance : RespectsOn R peekKind :=
  respects_of_eq fun _ _ => rfl

instance : RespectsOn R currentSpan :=
  respects_of_eq fun _ _ => rfl

instance : RespectsOn R previousSpan :=
  respects_of_eq fun _ _ => rfl

instance (n : Nat) : RespectsOn R (lookAhead n) :=
  respects_of_eq fun _ _ => rfl

instance (kind : Token.Kind) : RespectsOn R (check kind) :=
  respects_of_eq fun _ _ => rfl

instance : RespectsOn R atEnd :=
  respects_of_eq fun _ _ => rfl

instance : RespectsOn R skipNewlines where
  run stream s := StepwiseOn.skipWhile stream (· == .newline) rfl s

instance : RespectsOn R skipSeparators where
  run stream s := StepwiseOn.skipWhile stream _ rfl s

instance : RespectsOn R synchronize where
  run stream s :=
    StepwiseOn.trans (StepwiseOn.skipWhile stream _ rfl s) (StepwiseOn.skipWhile stream _ rfl _)

instance (code : Code) (message : String) : RespectsOn R (report code message) where
  run stream s := StepwiseOn.report stream code message none s

instance (code : Code) (expected : String) : RespectsOn R (unexpected code expected : Parse α) := by
  unfold unexpected
  infer_instance

instance (kind : Token.Kind) : RespectsOn R (eat kind) := by
  unfold eat
  infer_instance

instance (kind : Token.Kind) : RespectsOn R (expect kind) := by
  unfold expect
  infer_instance

instance : RespectsOn R expectIdentifier :=
  respects_bind inferInstance fun kind => by split <;> infer_instance

instance : RespectsOn R expectMemberName :=
  respects_bind inferInstance fun kind => by split <;> infer_instance

instance : RespectsOn R expectString :=
  respects_bind inferInstance fun kind => by split <;> infer_instance

instance : RespectsOn R expectSeparator :=
  respects_bind inferInstance fun kind => by split <;> infer_instance

instance {p : Parse α} [h : RespectsOn R p] : RespectsOn R (nested p) where
  run stream s := by
    rw [nested]
    dsimp only
    split
    · exact StepwiseOn.nested (StepwiseOn.report stream _ _ _ _)
    · exact StepwiseOn.nested (h.run stream _)

/-! ## Lists and chains -/

instance {item : Parse α} [RespectsOn R item] {close : Symbol} {budget : Nat} :
    RespectsOn R (commaItems item close budget) := by
  induction budget with
  | zero => exact inferInstanceAs (RespectsOn R fail)
  | succ budget ih =>
    unfold commaItems
    infer_instance

instance {item : Parse α} [RespectsOn R item] {close : Symbol} {budget : Nat} :
    RespectsOn R (commaList budget item close) := by
  unfold commaList
  infer_instance

instance {op? : Token.Kind → Option β} {operand : Parse α} [RespectsOn R operand]
    {combine : α → β → α → α} {budget : Nat} {left : α} :
    RespectsOn R (chainFrom op? operand combine budget left) := by
  induction budget generalizing left with
  | zero => exact inferInstanceAs (RespectsOn R (pure left))
  | succ budget ih =>
    unfold chainFrom
    exact respects_bind inferInstance fun kind => by split <;> infer_instance

instance {op? : Token.Kind → Option β} {operand : Parse α} [RespectsOn R operand]
    {combine : α → β → α → α} {budget : Nat} : RespectsOn R (chain budget op? operand combine) := by
  unfold chain
  infer_instance

end Parse

/-! ## Productions -/

namespace Productions

open Parse

variable {R : Stream → State → State → Prop} [StepwiseOn R]

/-- Productions that lead from each state to a related one. -/
class RespectOn (R : Stream → State → State → Prop) (sub : Productions) : Prop where
  expression : RespectsOn R sub.expression
  operand : RespectsOn R sub.operand
  block : RespectsOn R sub.block
  conditional : RespectsOn R sub.conditional

attribute [instance] RespectOn.expression RespectOn.operand RespectOn.block RespectOn.conditional

/-- Productions that lead from each state to a related one, whatever the stream. -/
abbrev Respect (R : State → State → Prop) (sub : Productions) : Prop :=
  RespectOn (fun _ => R) sub

variable {sub : Productions} [sub.RespectOn R]

instance {start : Span} : RespectsOn R (list sub start) := by
  unfold list
  infer_instance

instance : RespectsOn R (field sub) := by
  unfold field
  infer_instance

instance {start : Span} : RespectsOn R (record sub start) := by
  unfold record
  infer_instance

/-- What follows the value of a hole: the text up to the next hole and the holes from there, or the
text up to the end. -/
def afterHole (sub : Productions) (budget : Nat) (value : Expr) : Parse (List Fragment) := do
  match ← peekKind with
  | .stringPart text =>
    let _ ← advance
    return .hole value :: textPart text ++ (← holes sub budget)
  | .stringEnd text =>
    let _ ← advance
    return .hole value :: textPart text
  | _ =>
    report .unterminatedString "unterminated string interpolation"
    fail

theorem holes_succ (sub : Productions) (budget : Nat) :
    holes sub (budget + 1) = (do
      let _ ← expect .holeStart
      let value ← sub.expression
      let _ ← expect .holeEnd
      afterHole sub budget value) :=
  rfl

instance {budget : Nat} {value : Expr} [RespectsOn R (holes sub budget)] :
    RespectsOn R (afterHole sub budget value) :=
  respects_bind inferInstance fun kind => by split <;> infer_instance

instance {budget : Nat} : RespectsOn R (holes sub budget) := by
  induction budget with
  | zero => exact inferInstanceAs (RespectsOn R fail)
  | succ budget ih =>
    rw [holes_succ]
    infer_instance

instance : RespectsOn R elseFollows :=
  respects_of_eq fun _ _ => rfl

instance : RespectsOn R (branches sub) := by
  unfold branches
  infer_instance

/-- A name before a parenthesis is reported where it starts, and nothing has been read by then. -/
instance : RespectsOn R (primary sub) where
  run stream s := by
    rw [primary, currentSpan_bind, peekKind_bind]
    generalize (s.peek stream).kind = kind
    split
    case h_11 name =>
      rw [lookAhead_bind]
      split
      · exact StepwiseOn.report stream _ _ _ s
      · exact RespectsOn.run stream s
    all_goals exact RespectsOn.run stream s

instance {budget : Nat} {object : Expr} : RespectsOn R (suffixes sub budget object) := by
  induction budget generalizing object with
  | zero => exact inferInstanceAs (RespectsOn R (pure object))
  | succ budget ih =>
    refine respects_bind inferInstance fun kind => ?_
    split <;> infer_instance

instance : RespectsOn R (prefixed sub) := by
  refine respects_bind inferInstance fun start => respects_bind inferInstance fun kind => ?_
  split <;> infer_instance

instance : RespectsOn R (product sub) := by
  unfold product
  infer_instance

instance : RespectsOn R (sum sub) := by
  unfold sum
  infer_instance

instance : RespectsOn R (comparison sub) := by
  refine respects_bind inferInstance fun left => respects_bind inferInstance fun kind => ?_
  split <;> infer_instance

instance : RespectsOn R (coalesced sub) := by
  unfold coalesced
  infer_instance

instance : RespectsOn R (conjunction sub) := by
  unfold conjunction
  infer_instance

instance : RespectsOn R (disjunction sub) := by
  unfold disjunction
  infer_instance

/-! ## Statements -/

instance : RespectsOn R (loop sub) := by
  unfold loop
  infer_instance

instance : RespectsOn R (binding sub) := by
  unfold binding
  infer_instance

instance : RespectsOn R (leave sub) := by
  unfold leave
  infer_instance

instance : RespectsOn R (assertion sub) := by
  unfold assertion
  infer_instance

instance : RespectsOn R (throwing sub) := by
  unfold throwing
  infer_instance

instance : RespectsOn R (statement sub) := by
  refine respects_bind inferInstance fun _ => respects_bind inferInstance fun kind => ?_
  split <;> infer_instance

instance : RespectsOn R tooManyReports :=
  respects_of_eq fun _ _ => rfl

/-- What follows a statement that was looked for: the statements after it, or after a failure those
from where the next one can start. -/
def afterStatement (sub : Productions) (budget : Nat) : Option Stmt → Parse (List Stmt)
  | some stmt => do
    skipSeparators
    return stmt :: (← statements sub budget)
  | none => do
    synchronize
    skipSeparators
    statements sub budget

theorem statements_succ (sub : Productions) (budget : Nat) :
    statements sub (budget + 1) = (do
      if (← check (.symbol .rightBrace)) || (← atEnd) || (← tooManyReports) then return []
      else afterStatement sub budget (← attempt (statement sub))) :=
  rfl

instance {budget : Nat} {stmt : Option Stmt} [RespectsOn R (statements sub budget)] :
    RespectsOn R (afterStatement sub budget stmt) := by
  cases stmt <;> unfold afterStatement <;> infer_instance

instance {budget : Nat} : RespectsOn R (statements sub budget) := by
  induction budget with
  | zero => exact inferInstanceAs (RespectsOn R (pure []))
  | succ budget ih =>
    rw [statements_succ]
    infer_instance

instance : RespectsOn R (braces sub) := by
  unfold braces
  infer_instance

instance : RespectOn R (next sub) where
  expression := inferInstanceAs (RespectsOn R (nested (disjunction sub)))
  operand := inferInstanceAs (RespectsOn R (prefixed sub))
  block := inferInstanceAs (RespectsOn R (braces sub))
  conditional := inferInstanceAs (RespectsOn R (branches sub))

end Productions

open Productions in
/-- Every production leads from each state to a related one. -/
instance respect_productions {R : Parse.Stream → Parse.State → Parse.State → Prop}
    [Parse.StepwiseOn R]
    (budget : Nat) : (productions budget).RespectOn R := by
  induction budget with
  | zero =>
    exact ⟨inferInstanceAs (Parse.RespectsOn R Parse.fail), inferInstanceAs (Parse.RespectsOn R Parse.fail),
      inferInstanceAs (Parse.RespectsOn R Parse.fail), inferInstanceAs (Parse.RespectsOn R Parse.fail)⟩
  | succ budget ih => exact inferInstanceAs (RespectOn R (next (productions budget)))

/-! ## Whole bodies -/

namespace Parsed

open Parse

variable {R : Stream → State → State → Prop} [StepwiseOn R]

instance {part : String} {p : Parse Body} [RespectsOn R p] : RespectsOn R (whole part p) := by
  unfold whole
  refine respects_bind inferInstance fun _ => respects_bind inferInstance fun body => ?_
  cases body <;> infer_instance

instance {grammar : Productions} [grammar.RespectOn R] : RespectsOn R (wholeExpression grammar) := by
  unfold wholeExpression
  infer_instance

instance {grammar : Productions} [grammar.RespectOn R] : RespectsOn R (wholeBlock grammar) := by
  unfold wholeBlock
  infer_instance

end Parsed

/-! ## Reports are kept -/

namespace Parse

variable {α β : Type}

/-- No report of the first state is taken back in the second: what one more report keeps still
holds. -/
def ReportsKept (s s' : State) : Prop :=
  ∀ {P : Diagnostics → Prop}, Diagnostics.Lasting P → P s.errors → P s'.errors

instance : Stepwise ReportsKept where
  refl _ _ := fun _ hs => hs
  trans h h' := fun hlasting hs => h' hlasting (h hlasting hs)
  advance _ s := by
    obtain ⟨rest, previous, depth, errors⟩ := s
    cases rest <;> exact fun _ hs => hs
  skipWhile _ _ _ _ := fun _ hs => hs
  report _ _ _ _ _ := fun hlasting hs => hlasting _ _ hs
  nested h := h

/-- A step that takes no report back: what one more report keeps, it keeps. -/
abbrev Keeps (p : Parse α) : Prop :=
  Respects ReportsKept p

theorem Keeps.errors {p : Parse α} (h : Keeps p) {P : Diagnostics → Prop}
    (hlasting : Diagnostics.Lasting P) (stream : Stream) (s : State) (hs : P s.errors) :
    P (p stream s).2.errors :=
  h.run stream s hlasting hs

/-- Where there are reports, there are some after a step. -/
theorem Keeps.hasErrors {p : Parse α} (h : Keeps p) (stream : Stream) (s : State)
    (hs : s.errors.hasErrors = true) : (p stream s).2.errors.hasErrors = true :=
  h.errors Diagnostics.lasting_hasErrors stream s hs

@[simp] theorem hasErrors_report {stream : Stream} {s : State} {code : Code} {message : String}
    {span : Span} {advice : Option String} :
    (s.report stream code message span advice).errors.hasErrors = true := by
  simp [State.report]

end Parse

/-- Productions that take no report back. -/
abbrev Productions.Keep (sub : Productions) : Prop :=
  sub.Respect Parse.ReportsKept

end ParseActions
