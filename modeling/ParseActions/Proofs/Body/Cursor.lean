import ParseActions.Proofs.Body.Ensures

/-!
# The cursor and the nesting

A parser over a list of tokens keeps a cursor into it; here the state holds the tokens from the
cursor on and the span of the one before it. Every step moves the cursor forward or leaves it, never
past the end of the list, so the token before the cursor is always found in the list. Every step
restores the nesting, whether it succeeds or not.

## Main definitions

* `Parse.State.Leads`: a later state of a run
* `Parse.State.At`: the state with the cursor at a place in a list of tokens
* `Productions.Member`: the functions of the parser

## Main results

* `Productions.Member.at_of_at`, `Productions.Member.depth`: where each of them leaves the cursor
  and the nesting
-/

set_option synthInstance.maxSize 100000

namespace ParseActions

namespace Parse

variable {α β : Type} {s s' : State} {tokens ts : List Token} {place : Nat}

/-! ## Later states -/

/-- Some tokens are read between two states, and the nesting is the same. -/
def State.Leads (s s' : State) : Prop :=
  ∃ ts, Taken s ts s'

namespace State

instance : Stepwise Leads where
  refl _ s := ⟨[], .refl s⟩
  trans := fun ⟨_, h⟩ ⟨_, h'⟩ => ⟨_, h.trans h'⟩
  advance _ s := by
    cases hs : s.rest with
    | nil =>
      have hstays : s.advance = s := by rw [State.advance, hs]
      rw [hstays]
      exact ⟨[], .refl s⟩
    | cons t rest => exact ⟨[t], .advance hs⟩
  skipWhile _ _ hp s := (Taken.skipWhile hp s).imp fun _ h => h.2.1
  report _ _ _ _ s := ⟨[], rfl, rfl, rfl⟩
  nested := fun ⟨ts, h⟩ => ⟨ts, h.rest, h.previous, by simp only [h.depth, Nat.add_sub_cancel]⟩

/-- A report reads no token, at whatever span it is made. -/
instance (code : Code) (message : String) (span : Span) (advice : Option String) :
    Respects Leads (reportAt code message span advice) where
  run _ _ := ⟨[], rfl, rfl, rfl⟩

/-- No step puts tokens back. -/
theorem Leads.length_le (h : s.Leads s') : s'.rest.length ≤ s.rest.length := by
  obtain ⟨ts, h⟩ := h
  rw [h.rest, List.length_append]
  exact Nat.le_add_left ..

/-- Where as many tokens are left, the same are. -/
theorem Leads.rest_eq (h : s.Leads s') (hlength : s.rest.length ≤ s'.rest.length) :
    s'.rest = s.rest := by
  obtain ⟨ts, h⟩ := h
  have hsum := congrArg List.length h.rest
  rw [List.length_append] at hsum
  have hnone : ts = [] := List.length_eq_zero_iff.mp (by omega)
  rw [h.rest, hnone, List.nil_append]

/-! ## The cursor -/

/-- The span of the token before a place in a list, which is looked up in the list; before the first
token stands the start of the text. -/
def spanBefore? (tokens : List Token) (place : Nat) : Option Span :=
  if 0 < place then tokens[place - 1]?.map Token.span else some (.point 1 1)

/-- The state with the cursor at a place in a list of tokens. -/
structure At (tokens : List Token) (place : Nat) (s : State) : Prop where
  place_le : place ≤ tokens.length
  rest : s.rest = tokens.drop place
  previous : spanBefore? tokens place = some s.previous

theorem at_start (tokens : List Token) : (State.start tokens).At tokens 0 where
  place_le := Nat.zero_le _
  rest := rfl
  previous := rfl

/-- The last of some tokens that were read is the one before the place that they lead to. -/
theorem At.previous_taken (h : s.At tokens place) (htaken : Taken s ts s') :
    spanBefore? tokens (place + ts.length) = some s'.previous := by
  rcases List.eq_nil_or_concat ts with rfl | ⟨ts, t, rfl⟩
  · rw [htaken.previous]
    exact h.previous
  · rw [List.concat_eq_append] at htaken ⊢
    have hdrop : tokens.drop place = ts ++ t :: s'.rest := by
      rw [← h.rest, htaken.rest, List.append_assoc]
      rfl
    have ht : tokens[place + ts.length]? = some t := by
      rw [← List.getElem?_drop, hdrop, List.getElem?_append_right (Nat.le_refl _), Nat.sub_self]
      rfl
    have hlast : s'.previous = t.span := by
      rw [htaken.previous, lastSpan_append]
      rfl
    rw [spanBefore?, List.length_append, List.length_singleton, if_pos (by omega),
      show place + (ts.length + 1) - 1 = place + ts.length by omega, ht, hlast]
    rfl

/-- Tokens that are read move the cursor over them. -/
theorem At.taken (h : s.At tokens place) (htaken : Taken s ts s') :
    s'.At tokens (place + ts.length) where
  place_le := by
    have hlength := congrArg List.length (h.rest.symm.trans htaken.rest)
    have hplace := h.place_le
    rw [List.length_drop, List.length_append] at hlength
    omega
  rest := by
    have hdrop : tokens.drop place = ts ++ s'.rest := h.rest.symm.trans htaken.rest
    rw [← List.drop_drop, hdrop, List.drop_left]
  previous := h.previous_taken htaken

end State

end Parse

/-! ## The functions of the parser -/

open Parse

/-- The functions that the parser is made of: those that move the cursor, and those that read a part
of a body. -/
inductive Productions.Member (sub : Productions) : {α : Type} → Parse α → Prop
  | advance : Member sub advance
  | eat (kind : Token.Kind) : Member sub (eat kind)
  | expect (kind : Token.Kind) : Member sub (expect kind)
  | expectIdentifier : Member sub expectIdentifier
  | expectMemberName : Member sub expectMemberName
  | expectString : Member sub expectString
  | skipNewlines : Member sub skipNewlines
  | skipSeparators : Member sub skipSeparators
  | expectSeparator : Member sub expectSeparator
  | synchronize : Member sub synchronize
  | list (start : Span) : Member sub (list sub start)
  | record (start : Span) : Member sub (record sub start)
  | field : Member sub (field sub)
  | holes (budget : Nat) : Member sub (holes sub budget)
  | items (budget : Nat) (close : Symbol) : Member sub (commaList budget sub.expression close)
  | fields (budget : Nat) (close : Symbol) : Member sub (commaList budget sub.field close)
  | branches : Member sub (branches sub)
  | primary : Member sub (primary sub)
  | suffixes (budget : Nat) (object : Expr) : Member sub (suffixes sub budget object)
  | prefixed : Member sub (prefixed sub)
  | product : Member sub (product sub)
  | sum : Member sub (sum sub)
  | comparison : Member sub (comparison sub)
  | coalesced : Member sub (coalesced sub)
  | conjunction : Member sub (conjunction sub)
  | disjunction : Member sub (disjunction sub)
  | loop : Member sub (loop sub)
  | binding : Member sub (binding sub)
  | leave : Member sub (leave sub)
  | assertion : Member sub (assertion sub)
  | throwing : Member sub (throwing sub)
  | statement : Member sub (statement sub)
  | statements (budget : Nat) : Member sub (statements sub budget)
  | braces : Member sub (braces sub)
  | expression : Member sub sub.expression
  | operand : Member sub sub.operand
  | block : Member sub sub.block
  | conditional : Member sub sub.conditional
  | wholeExpression : Member sub (Parsed.wholeExpression sub)
  | wholeBlock : Member sub (Parsed.wholeBlock sub)

namespace Productions.Member

variable {sub : Productions} [sub.Respect State.Leads] {α : Type} {p : Parse α} {s : State}
  {tokens : List Token} {place : Nat}

theorem respects (h : sub.Member p) : Respects State.Leads p := by
  cases h <;> infer_instance

/-- A function of the parser leaves the cursor where it is or moves it forward, not past the end. -/
theorem at_of_at (h : sub.Member p) (hs : s.At tokens place) (stream : Stream) :
    ∃ place' ≥ place, (p stream s).2.At tokens place' := by
  obtain ⟨ts, htaken⟩ := h.respects.run stream s
  exact ⟨place + ts.length, Nat.le_add_right .., hs.taken htaken⟩

/-- A function of the parser restores the nesting. -/
theorem depth (h : sub.Member p) (stream : Stream) (s : State) :
    (p stream s).2.depth = s.depth := by
  obtain ⟨ts, htaken⟩ := h.respects.run stream s
  exact htaken.depth

end Productions.Member

end ParseActions
