import ParseActions.Body.Parse

/-!
# Running steps

A step is run on a state by taking it apart: a basic step before the rest of a step is replaced by
what it gives and the state it leaves.

## Main definitions

* `Token.nextKind`: the kind of the first of some tokens
* `Parse.lastSpan`: the span of the last of some tokens

## Main results

* `Parse.State.skipWhile_append`: what is skipped
* `Parse.expect_of_kind`, `Parse.expect_of_ne`: reading a token of a given kind
* `Parse.nested_of_lt`: nesting
-/

namespace ParseActions

/-- The kind of the first of the tokens that are left. -/
def Token.nextKind (tokens : List Token) : Kind :=
  tokens.head?.elim .eof Token.kind

@[simp] theorem Token.nextKind_cons (t : Token) (rest : List Token) :
    nextKind (t :: rest) = t.kind :=
  rfl

namespace Parse

variable {α β : Type} {stream : Stream} {s s' : State}

/-! ## States -/

/-- The span of the last of some tokens that follow one with the given span. -/
def lastSpan (previous : Span) (tokens : List Token) : Span :=
  (tokens.getLast?.map Token.span).getD previous

@[simp] theorem lastSpan_nil (previous : Span) : lastSpan previous [] = previous :=
  rfl

@[simp] theorem lastSpan_cons (previous : Span) (t : Token) (ts : List Token) :
    lastSpan previous (t :: ts) = lastSpan t.span ts := by
  rw [lastSpan, lastSpan, List.getLast?_cons]
  cases ts.getLast? <;> rfl

@[simp] theorem lastSpan_append (previous : Span) (ts us : List Token) :
    lastSpan previous (ts ++ us) = lastSpan (lastSpan previous ts) us := by
  induction ts generalizing previous with
  | nil => rfl
  | cons t ts ih => rw [List.cons_append, lastSpan_cons, lastSpan_cons, ih]

/-- What stands before some tokens does not matter if there are any. -/
theorem lastSpan_congr {ts : List Token} (h : ts ≠ []) (previous previous' : Span) :
    lastSpan previous ts = lastSpan previous' ts := by
  cases ts with
  | nil => exact absurd rfl h
  | cons t ts => rw [lastSpan_cons, lastSpan_cons]

namespace State

@[simp] theorem peek_mk_cons (t : Token) (rest : List Token) (previous : Span) (depth : Nat)
    (errors : Diagnostics) : (⟨t :: rest, previous, depth, errors⟩ : State).peek stream = t :=
  rfl

@[simp] theorem advance_mk_cons (t : Token) (rest : List Token) (previous : Span) (depth : Nat)
    (errors : Diagnostics) :
    (⟨t :: rest, previous, depth, errors⟩ : State).advance = ⟨rest, t.span, depth, errors⟩ :=
  rfl

/-- The kind of the next token, in a stream that ends as such. -/
theorem kind_peek (hfinal : stream.final.kind = .eof) (s : State) :
    (s.peek stream).kind = Token.nextKind s.rest := by
  obtain ⟨rest, previous, depth, errors⟩ := s
  cases rest with
  | nil => exact hfinal
  | cons t rest => rfl

/-- Skipping reads the tokens that are skipped. -/
theorem skipWhile_append {p : Token.Kind → Bool} {ts us : List Token}
    (hts : ∀ t ∈ ts, p t.kind = true) (hus : p (Token.nextKind us) = false) (previous : Span)
    (depth : Nat) (errors : Diagnostics) :
    (⟨ts ++ us, previous, depth, errors⟩ : State).skipWhile p =
      ⟨us, lastSpan previous ts, depth, errors⟩ := by
  have htake : us.takeWhile (fun t => p t.kind) = [] ∧ us.dropWhile (fun t => p t.kind) = us := by
    cases us with
    | nil => exact ⟨rfl, rfl⟩
    | cons u us =>
      have hu : p u.kind = false := hus
      simp [hu]
  rw [skipWhile, List.takeWhile_append_of_pos hts, List.dropWhile_append_of_pos hts, htake.1,
    htake.2, List.append_nil]
  rfl

/-- Nothing is skipped before a token that is not skipped. -/
theorem skipWhile_of_nextKind {p : Token.Kind → Bool} (h : p (Token.nextKind s.rest) = false) :
    s.skipWhile p = s :=
  have hnone : ∀ t ∈ ([] : List Token), p t.kind = true := nofun
  skipWhile_append hnone h s.previous s.depth s.errors

end State

/-! ## Sequences -/

theorem bind_of_some {p : Parse α} {f : α → Parse β} {a : α} (h : p stream s = (some a, s')) :
    (p >>= f) stream s = f a stream s' := by
  simp only [bind, h]

theorem bind_of_none {p : Parse α} {f : α → Parse β} (h : p stream s = (none, s')) :
    (p >>= f) stream s = (none, s') := by
  simp only [bind, h]

/-- A sequence that succeeds is made of two steps that succeed. -/
theorem exists_of_run_bind {p : Parse α} {f : α → Parse β} {b : β}
    (h : (p >>= f) stream s = (some b, s')) :
    ∃ a after, p stream s = (some a, after) ∧ f a stream after = (some b, s') := by
  cases hfirst : p stream s with
  | mk a after =>
    cases a with
    | none =>
      rw [bind_of_none hfirst] at h
      cases h
    | some a => exact ⟨a, after, rfl, (bind_of_some hfirst).symm.trans h⟩

@[simp] theorem pure_run (a : α) : (pure a : Parse α) stream s = (some a, s) :=
  rfl

theorem map_id_eq (p : Parse α) : id <$> p = p := by
  funext stream s
  change (p >>= pure) stream s = p stream s
  cases hp : p stream s with
  | mk a after =>
    cases a with
    | none => exact bind_of_none hp
    | some a => exact bind_of_some hp

theorem bind_bind {γ : Type} (p : Parse α) (f : α → Parse β) (g : β → Parse γ) :
    p >>= f >>= g = p >>= fun a => f a >>= g := by
  funext stream s
  cases hp : p stream s with
  | mk a after =>
    cases a with
    | none => rw [bind_of_none hp, bind_of_none (bind_of_none hp)]
    | some a =>
      rw [bind_of_some hp]
      cases hf : f a stream after with
      | mk b last =>
        cases b with
        | none => rw [bind_of_none hf, bind_of_none ((bind_of_some hp).trans hf)]
        | some b => rw [bind_of_some hf, bind_of_some ((bind_of_some hp).trans hf)]

instance : LawfulMonad Parse :=
  LawfulMonad.mk' Parse map_id_eq (fun _ _ => rfl) bind_bind

theorem ite_bind {c : Prop} [Decidable c] (p q : Parse α) (f : α → Parse β) :
    (if c then p else q) >>= f = if c then p >>= f else q >>= f := by
  split <;> rfl

/-! ## Basic steps -/

@[simp] theorem fail_run : (fail : Parse α) stream s = (none, s) :=
  rfl

@[simp] theorem peekKind_bind (f : Token.Kind → Parse β) :
    (peekKind >>= f) stream s = f (s.peek stream).kind stream s :=
  rfl

@[simp] theorem currentSpan_bind (f : Span → Parse β) :
    (currentSpan >>= f) stream s = f (s.peek stream).span stream s :=
  rfl

@[simp] theorem previousSpan_bind (f : Span → Parse β) :
    (previousSpan >>= f) stream s = f s.previous stream s :=
  rfl

@[simp] theorem lookAhead_bind (n : Nat) (f : Token.Kind → Parse β) :
    (lookAhead n >>= f) stream s = f (s.kindAt n) stream s :=
  rfl

@[simp] theorem advance_bind (f : Token → Parse β) :
    (advance >>= f) stream s = f (s.peek stream) stream s.advance :=
  rfl

@[simp] theorem check_bind (kind : Token.Kind) (f : Bool → Parse β) :
    (check kind >>= f) stream s = f (decide ((s.peek stream).kind = kind)) stream s :=
  rfl

@[simp] theorem atEnd_bind (f : Bool → Parse β) :
    (atEnd >>= f) stream s = f (decide ((s.peek stream).kind = .eof)) stream s :=
  rfl

@[simp] theorem skipNewlines_bind (f : Unit → Parse β) :
    (skipNewlines >>= f) stream s = f () stream (s.skipWhile (· == .newline)) :=
  rfl

@[simp] theorem skipSeparators_bind (f : Unit → Parse β) :
    (skipSeparators >>= f) stream s = f () stream (s.skipWhile Token.Kind.isSeparator) :=
  rfl

@[simp] theorem attempt_bind (p : Parse α) (f : Option α → Parse β) :
    (attempt p >>= f) stream s = f (p stream s).1 stream (p stream s).2 :=
  rfl

@[simp] theorem eat_bind (kind : Token.Kind) (f : Bool → Parse β) :
    (eat kind >>= f) stream s =
      if (s.peek stream).kind = kind then f true stream s.advance else f false stream s := by
  rw [eat, bind_assoc, check_bind]
  by_cases h : (s.peek stream).kind = kind
  · simp only [h, decide_true, if_true, bind_assoc, advance_bind, pure_bind]
  · simp only [h, decide_false, Bool.false_eq_true, if_false, pure_bind]

theorem unexpected_run (code : Code) (expected : String) :
    (unexpected code expected : Parse α) stream s =
      (none, s.report stream code
        ("expected " ++ expected ++ ", got '" ++ (s.peek stream).kind.display ++ "'")
        (s.peek stream).span none) :=
  rfl

/-- A token of the given kind is read. -/
theorem expect_of_kind {kind : Token.Kind} (h : (s.peek stream).kind = kind) :
    expect kind stream s = (some (s.peek stream), s.advance) := by
  simp only [expect, check_bind, h, decide_true, if_true]
  rfl

theorem expect_bind_of_kind {kind : Token.Kind} {t : Token} (h : t.kind = kind)
    (f : Token → Parse β) (rest : List Token) (previous : Span) (depth : Nat)
    (errors : Diagnostics) :
    (expect kind >>= f) stream ⟨t :: rest, previous, depth, errors⟩ =
      f t stream ⟨rest, t.span, depth, errors⟩ :=
  bind_of_some (expect_of_kind (s := ⟨t :: rest, previous, depth, errors⟩) h)

/-- Another token is reported. -/
theorem expect_of_ne {kind : Token.Kind} (h : (s.peek stream).kind ≠ kind) :
    ∃ code message,
      expect kind stream s = (none, s.report stream code message (s.peek stream).span none) := by
  simp only [expect, check_bind, h, decide_false, Bool.false_eq_true, if_false]
  exact ⟨_, _, unexpected_run _ _⟩

/-- A step that is run one level deeper, where that is not too deep. -/
theorem nested_of_lt {p : Parse α} {a : α} {ts rest : List Token} {previous previous' : Span}
    {n : Nat} {errors errors' : Diagnostics} (hn : n < maxDepth)
    (h : p stream ⟨ts, previous, n + 1, errors⟩ = (some a, ⟨rest, previous', n + 1, errors'⟩)) :
    nested p stream ⟨ts, previous, n, errors⟩ = (some a, ⟨rest, previous', n, errors'⟩) := by
  simp [nested, Nat.not_lt.mpr (Nat.succ_le_of_lt hn), h]

end Parse

end ParseActions
