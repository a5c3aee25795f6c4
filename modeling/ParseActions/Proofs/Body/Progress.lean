import ParseActions.Proofs.Body.Cursor

/-!
# Progress of the parser

A production that succeeds has read a token, as has one that starts with a token of its own, whether
or not it succeeds. So each round of the loop over the statements of a block that goes on has read a
token: after a failure without progress the next token is none that a statement starts with, and the
search for the next statement skips it.

## Main definitions

* `Parse.Advances`: a step that reads a token if it succeeds
* `Parse.Starts`: a step that reads a token if there is one
* `Productions.round`: one round of the loop over the statements of a block

## Main results

* `Productions.statements_succ_eq_round`: the loop by its rounds
* `Productions.length_lt_of_round`: a round that goes on leaves fewer tokens
-/

set_option synthInstance.maxSize 100000

namespace ParseActions

namespace Parse

open State

variable {α β γ : Type} {stream : Stream} {s s' : State}

theorem leads_of_run {p : Parse α} [h : Respects Leads p] {a : Option α}
    (hrun : p stream s = (a, s')) : s.Leads s' := by
  have hleads := h.run stream s
  rwa [hrun] at hleads

theorem length_run_le (p : Parse α) [h : Respects Leads p] :
    (p stream s).2.rest.length ≤ s.rest.length :=
  (h.run stream s).length_le

theorem length_le_of_run {p : Parse α} [Respects Leads p] {a : Option α}
    (hrun : p stream s = (a, s')) : s'.rest.length ≤ s.rest.length :=
  (leads_of_run hrun).length_le

theorem rest_ne_nil {kind : Token.Kind} (h : Token.nextKind s.rest = kind) (hkind : kind ≠ .eof) :
    s.rest ≠ [] := by
  obtain ⟨t, rest, hs, -⟩ := exists_rest h hkind
  rw [hs]
  exact List.cons_ne_nil t rest

/-! ## Steps that start with a token of their own -/

/-- A step that reads a token if there is one, whether or not it succeeds. -/
class Starts (p : Parse α) : Prop where
  lt (stream : Stream) (s : State) : s.rest ≠ [] → (p stream s).2.rest.length < s.rest.length

theorem Starts.lt_of_run {p : Parse α} [h : Starts p] {a : Option α} (hs : s.rest ≠ [])
    (hrun : p stream s = (a, s')) : s'.rest.length < s.rest.length := by
  have hlt := h.lt stream s hs
  rwa [hrun] at hlt

instance : Starts advance where
  lt stream s hs := by
    obtain ⟨t, rest, hrest⟩ := List.exists_cons_of_ne_nil hs
    have htaken := (Taken.advance hrest).rest
    rw [htaken, List.length_append]
    exact Nat.lt_add_of_pos_left Nat.one_pos

instance {p : Parse α} {f : α → Parse β} [hp : Starts p] [∀ a, Respects Leads (f a)] :
    Starts (p >>= f) where
  lt stream s hs := by
    have hfirst := hp.lt stream s hs
    cases hrun : p stream s with
    | mk a after =>
      rw [hrun] at hfirst
      cases a with
      | none => rwa [bind_of_none hrun]
      | some a =>
        rw [bind_of_some hrun]
        exact (length_run_le (f a)).trans_lt hfirst

instance {f : Span → Parse β} [h : ∀ span, Starts (f span)] : Starts (currentSpan >>= f) where
  lt stream s hs := (h _).lt stream s hs

/-! ## Steps that read a token if they succeed -/

/-- A step that reads a token if it succeeds. -/
class Advances (p : Parse α) : Prop where
  lt {stream : Stream} {s s' : State} {a : α} : stream.final.kind = .eof →
    p stream s = (some a, s') → s'.rest.length < s.rest.length

/-- A step that fails. -/
theorem advances_of_fails {p : Parse α} (h : ∀ stream s, (p stream s).1 = none) : Advances p where
  lt {stream s} _ _ _ hrun := by
    have hnone := h stream s
    rw [hrun] at hnone
    cases hnone

instance : Advances (fail : Parse α) :=
  advances_of_fails fun _ _ => rfl

instance {code : Code} {expected : String} : Advances (unexpected code expected : Parse α) :=
  advances_of_fails fun _ _ => rfl

theorem advances_bind {p : Parse α} {f : α → Parse β} (hp : Advances p)
    (hf : ∀ a, Respects Leads (f a)) : Advances (p >>= f) where
  lt hfinal hrun := by
    obtain ⟨a, after, hfirst, hsecond⟩ := exists_of_run_bind hrun
    exact (length_le_of_run hsecond).trans_lt (hp.lt hfinal hfirst)

instance {p : Parse α} {f : α → Parse β} [hp : Advances p] [hf : ∀ a, Respects Leads (f a)] :
    Advances (p >>= f) :=
  advances_bind hp hf

theorem advances_of_second {p : Parse α} {f : α → Parse β} (hp : Respects Leads p)
    (hf : ∀ a, Advances (f a)) : Advances (p >>= f) where
  lt hfinal hrun := by
    obtain ⟨a, after, hfirst, hsecond⟩ := exists_of_run_bind hrun
    exact ((hf a).lt hfinal hsecond).trans_le (length_le_of_run hfirst)

instance {p : Parse α} {f : α → Parse β} [hp : Respects Leads p] [hf : ∀ a, Advances (f a)] :
    Advances (p >>= f) :=
  advances_of_second hp hf

/-- A step that reads a token if there is one and it succeeds. -/
class Opens (p : Parse α) : Prop where
  lt {stream : Stream} {s s' : State} {a : α} : stream.final.kind = .eof → s.rest ≠ [] →
    p stream s = (some a, s') → s'.rest.length < s.rest.length

instance {p : Parse α} [h : Starts p] : Opens p where
  lt _ hs hrun := h.lt_of_run hs hrun

instance {p : Parse α} [h : Advances p] : Opens p where
  lt hfinal _ hrun := h.lt hfinal hrun

instance {c : Prop} [Decidable c] {p q : Parse α} [hp : Opens p] [hq : Opens q] :
    Opens (if c then p else q) := by
  split
  · exact hp
  · exact hq

instance {n : Nat} {f : Token.Kind → Parse β} [h : ∀ kind, Opens (f kind)] :
    Opens (lookAhead n >>= f) where
  lt hfinal hs hrun := (h _).lt hfinal hs hrun

/-- A choice by the kind of the next token, where each branch reads it if it succeeds. -/
theorem advances_peekKind {f : Token.Kind → Parse β}
    (h : ∀ kind, kind ≠ .eof ∧ Opens (f kind) ∨ Advances (f kind)) :
    Advances (peekKind >>= f) where
  lt {stream s s' b} hfinal hrun := by
    rw [peekKind_bind, kind_peek hfinal] at hrun
    rcases h (Token.nextKind s.rest) with ⟨hkind, hopens⟩ | hadvances
    · exact hopens.lt hfinal (rest_ne_nil rfl hkind) hrun
    · exact hadvances.lt hfinal hrun

theorem advances_currentSpan {f : Span → Parse β} (h : ∀ span, Advances (f span)) :
    Advances (currentSpan >>= f) where
  lt hfinal hrun := (h _).lt hfinal hrun

instance {p : Parse α} [h : Advances p] : Advances (nested p) where
  lt {stream s s' a} hfinal hrun := by
    rw [nested] at hrun
    dsimp only at hrun
    split at hrun
    · cases hrun
    · obtain ⟨hsome, rfl⟩ := Prod.mk.inj hrun
      have hinner : p stream { s with depth := s.depth + 1 } =
          (some a, (p stream { s with depth := s.depth + 1 }).2) := Prod.ext hsome rfl
      have hlt := h.lt hfinal hinner
      exact hlt

theorem advances_expect {kind : Token.Kind} (hkind : kind ≠ .eof) : Advances (expect kind) where
  lt {stream s s' t} hfinal hrun := by
    by_cases h : (s.peek stream).kind = kind
    · have hne := rest_ne_nil ((kind_peek hfinal s).symm.trans h) hkind
      rw [expect_of_kind h] at hrun
      cases hrun
      exact Starts.lt (p := advance) stream s hne
    · obtain ⟨code, message, hreport⟩ := expect_of_ne h
      rw [hreport] at hrun
      cases hrun

instance {op? : Token.Kind → Option β} {operand : Parse α} [hadvances : Advances operand]
    [Respects Leads operand] {combine : α → β → α → α} {budget : Nat} :
    Advances (chain budget op? operand combine) :=
  advances_bind hadvances inferInstance

end Parse

/-! ## Productions -/

namespace Productions

open Parse State

variable {sub : Productions} [sub.Respect Leads] {stream : Stream} {s s' : State}

instance {start : Span} : Starts (list sub start) := by
  unfold list
  infer_instance

instance {start : Span} : Starts (record sub start) := by
  unfold record
  infer_instance

instance : Starts (branches sub) := by
  unfold branches
  infer_instance

instance : Starts (loop sub) := by
  unfold loop
  infer_instance

instance : Starts (binding sub) := by
  unfold binding
  infer_instance

instance : Starts (leave sub) := by
  unfold leave
  infer_instance

instance : Starts (assertion sub) := by
  unfold assertion
  infer_instance

instance : Starts (throwing sub) := by
  unfold throwing
  infer_instance

instance : Advances (primary sub) := by
  refine advances_currentSpan fun start => advances_peekKind fun kind => ?_
  split
  case h_12 => exact .inr inferInstance
  all_goals exact .inl ⟨by simp, inferInstance⟩

instance : Advances (prefixed sub) := by
  refine advances_currentSpan fun start => advances_peekKind fun kind => ?_
  split
  · next op hop =>
    refine .inl ⟨?_, inferInstance⟩
    rintro rfl
    simp [unary?] at hop
  · exact .inr inferInstance

instance : Advances (product sub) := by
  unfold product
  infer_instance

instance : Advances (sum sub) := by
  unfold sum
  infer_instance

instance : Advances (comparison sub) :=
  advances_bind inferInstance fun left => respects_bind inferInstance fun kind => by
    split <;> infer_instance

instance : Advances (coalesced sub) := by
  unfold coalesced
  infer_instance

instance : Advances (conjunction sub) := by
  unfold conjunction
  infer_instance

instance : Advances (disjunction sub) := by
  unfold disjunction
  infer_instance

/-- An expression that is read has a token. -/
instance advances_expression (n : Nat) : Advances (productions n).expression := by
  cases n with
  | zero => exact inferInstanceAs (Advances fail)
  | succ n => exact inferInstanceAs (Advances (nested (disjunction (productions n))))

/-! ## Rounds of the loop over statements -/

/-- One round of the loop over the statements of a block: the loop ends, or it goes on after a
statement or after a failure. -/
def round (sub : Productions) : Parse (Option (Option Stmt)) := do
  if (← check (.symbol .rightBrace)) || (← atEnd) || (← tooManyReports) then return none
  else
    let found ← attempt (statement sub)
    if found.isNone then synchronize
    skipSeparators
    return some found

instance : Respects Leads (round sub) := by
  unfold round
  infer_instance

theorem tooManyReports_bind {α : Type} (f : Bool → Parse α) :
    (tooManyReports >>= f) stream s = f s.errors.isFull stream s :=
  rfl

/-- The loop over statements by its rounds. -/
theorem statements_succ_eq_round (sub : Productions) (budget : Nat) :
    statements sub (budget + 1) = (do
      match ← round sub with
      | none => return []
      | some stmt => (stmt.toList ++ ·) <$> statements sub budget) := by
  simp only [statements_succ, round, bind_assoc, ite_bind, pure_bind]
  refine bind_congr fun closes => bind_congr fun ends => bind_congr fun full => ?_
  split
  · rfl
  · refine bind_congr fun stmt => ?_
    cases stmt with
    | none =>
      have hid : (fun stmts => ([] : List Stmt) ++ stmts) <$> statements sub budget =
        statements sub budget := id_map _
      simp only [afterStatement, Option.toList_none, hid]
      rfl
    | some stmt => rfl

instance [Advances sub.expression] : Advances (statement sub) := by
  refine advances_of_second inferInstance fun _ => advances_peekKind fun kind => ?_
  split
  case h_9 => exact .inr inferInstance
  case h_1 | h_2 => exact .inr inferInstance
  all_goals exact .inl ⟨by simp, inferInstance⟩

/-- What is skipped before the next statement is left for good. -/
theorem length_skipWhile_lt {p : Token.Kind → Bool} (hp : p .eof = false)
    (h : p (Token.nextKind s.rest) = true) : (s.skipWhile p).rest.length < s.rest.length := by
  obtain ⟨ts, -, htaken, hnext⟩ := Taken.skipWhile hp s
  rcases ts with _ | ⟨t, ts⟩
  · rw [htaken.rest] at h
    exact absurd (h.symm.trans hnext) (by simp)
  · rw [htaken.rest, List.length_append, List.length_cons]
    omega

/-- The search for the next statement skips a token that no statement starts with. -/
theorem length_synchronize_lt (hend : Token.nextKind s.rest ≠ .eof)
    (hseparator : (Token.nextKind s.rest).isSeparator = false)
    (hstart : startsStatement (Token.nextKind s.rest) = false) :
    (synchronize stream s).2.rest.length < s.rest.length := by
  let skipped := s.skipWhile fun k => !(k == .eof || k.isSeparator || startsStatement k)
  have hle : (skipSeparators stream skipped).2.rest.length ≤ skipped.rest.length :=
    length_run_le skipSeparators
  refine hle.trans_lt (length_skipWhile_lt rfl ?_)
  simp [hend, hseparator, hstart]

/-- A statement that fails without progress is none of those with a keyword, and does not start with
a separator. -/
theorem nextKind_of_statement_fails {after : State} (hfinal : stream.final.kind = .eof)
    (hrun : statement sub stream s = (none, after)) (hlength : s.rest.length ≤ after.rest.length)
    (hend : Token.nextKind s.rest ≠ .eof) (hclose : Token.nextKind s.rest ≠ .symbol .rightBrace) :
    after.rest = s.rest ∧ (Token.nextKind s.rest).isSeparator = false ∧
      startsStatement (Token.nextKind s.rest) = false := by
  have hafter := (leads_of_run hrun).rest_eq hlength
  rw [statement, skipSeparators_bind, peekKind_bind, kind_peek hfinal] at hrun
  obtain ⟨separators, -, htaken, hnext⟩ := Taken.skipWhile (p := Token.Kind.isSeparator) rfl s
  have hskip : s.Leads (s.skipWhile Token.Kind.isSeparator) := ⟨separators, htaken⟩
  have hle := hskip.length_le
  generalize hkind : Token.nextKind (s.skipWhile Token.Kind.isSeparator).rest = kind at hrun hnext
  split at hrun
  -- at the end and at a closing brace nothing was skipped, so the loop had ended
  case h_1 | h_2 =>
    have hsame := hskip.rest_eq (hlength.trans (length_le_of_run hrun))
    rw [hsame] at hkind
    contradiction
  -- what does not start with a keyword is an expression
  case h_9 =>
    have hsame := hskip.rest_eq (hlength.trans (length_le_of_run hrun))
    rw [← hsame, hkind]
    refine ⟨hafter.trans hsame.symm, hnext, ?_⟩
    rw [startsStatement.eq_def]
    split
    all_goals first | rfl | contradiction
  -- the other statements read their keyword before they can fail
  all_goals
    have hlt := Starts.lt_of_run (rest_ne_nil hkind (by simp)) hrun
    omega

/-- A round that goes on has read a token. -/
theorem length_lt_of_round [Advances sub.expression] (hfinal : stream.final.kind = .eof)
    {stmt : Option Stmt} (hrun : round sub stream s = (some (some stmt), s')) :
    s'.rest.length < s.rest.length := by
  rw [round, check_bind, atEnd_bind, tooManyReports_bind] at hrun
  split at hrun
  · cases hrun
  · next hgoes =>
    simp only [kind_peek hfinal, Bool.or_eq_true, decide_eq_true_eq, not_or] at hgoes
    obtain ⟨⟨hclose, hend⟩, -⟩ := hgoes
    rw [attempt_bind] at hrun
    cases hstmt : statement sub stream s with
    | mk stmt? after =>
      rw [hstmt] at hrun
      cases stmt? with
      | some found =>
        have hlt := Advances.lt hfinal hstmt
        exact (length_le_of_run hrun).trans_lt hlt
      | none =>
        -- the statement read a token before it failed, or the search for the next one reads it
        have hnext : (synchronize stream after).2.rest.length < s.rest.length := by
          have hle := length_le_of_run hstmt
          rcases hle.lt_or_eq with hlt | hsame
          · exact (length_run_le synchronize).trans_lt hlt
          · obtain ⟨hrest, hseparator, hstart⟩ :=
              nextKind_of_statement_fails hfinal hstmt hsame.ge hend hclose
            rw [← hrest] at hend hseparator hstart ⊢
            exact length_synchronize_lt hend hseparator hstart
        have hlast := length_le_of_run (p := skipSeparators >>= fun _ => pure (some none)) hrun
        exact hlast.trans_lt hnext

/-- A round does not fail. -/
theorem exists_round (sub : Productions) (stream : Stream) (s : State) :
    ∃ found s', round sub stream s = (some found, s') := by
  rw [round, check_bind, atEnd_bind, tooManyReports_bind]
  split
  · exact ⟨none, s, rfl⟩
  · rw [attempt_bind]
    cases (statement sub stream s).1 <;> exact ⟨_, _, rfl⟩

/-- A round moves the cursor forward, or the loop ends. -/
theorem round_at [Advances sub.expression] (hfinal : stream.final.kind = .eof)
    {tokens : List Token} {place : Nat} (hs : s.At tokens place) :
    ∃ found s', round sub stream s = (some found, s') ∧
      (found.isSome → ∃ place' > place, s'.At tokens place') := by
  obtain ⟨found, s', hrun⟩ := exists_round sub stream s
  refine ⟨found, s', hrun, fun hfound => ?_⟩
  obtain ⟨stmt, rfl⟩ := Option.isSome_iff_exists.mp hfound
  obtain ⟨ts, htaken⟩ := leads_of_run hrun
  have hlt := length_lt_of_round hfinal hrun
  rw [htaken.rest, List.length_append] at hlt
  exact ⟨place + ts.length, by omega, hs.taken htaken⟩

end Productions

end ParseActions
