import Mathlib.Data.List.TakeWhile
import ParseActions.Proofs.Body.Changes
import ParseActions.Proofs.Body.Follow

/-!
# Steps without reports

What holds after a step is said for the case that no report was made. Then the steps before it made
none either, so a sequence is gone through one step at a time; each basic step says which tokens it
takes.

## Main definitions

* `Parse.Ensures`: what holds after a step, unless there are reports
* `Parse.Taken`: the tokens between two states
* `Parse.Within`: few enough tokens are left, at some nesting

## Main results

* `Parse.Ensures.bind`: sequences
* `Parse.ensures_expect` and the like: what the basic steps take
-/

namespace ParseActions

namespace Parse

open Token

variable {α β : Type} {stream : Stream} {s s₁ s₂ : State}

/-- A step that makes no report succeeds, and then `Q` holds. -/
def Ensures (stream : Stream) (p : Parse α) (s : State) (Q : α → State → Prop) : Prop :=
  (p stream s).2.errors.hasErrors = false → ∃ a s', p stream s = (some a, s') ∧ Q a s'

namespace Ensures

variable {p : Parse α} {f : α → Parse β} {R R' : α → State → Prop} {Q : β → State → Prop}

theorem pure {a : α} (h : R a s) : Ensures stream (pure a) s R :=
  fun _ => ⟨a, s, rfl, h⟩

/-- Of a step that makes a report nothing is said. -/
theorem of_hasErrors (h : (p stream s).2.errors.hasErrors = true) : Ensures stream p s R :=
  fun hclean => Bool.noConfusion (h.symm.trans hclean)

theorem mono (h : Ensures stream p s R) (himp : ∀ a s', R a s' → R' a s') :
    Ensures stream p s R' := by
  intro hclean
  obtain ⟨a, s', hrun, ha⟩ := h hclean
  exact ⟨a, s', hrun, himp a s' ha⟩

/-- A sequence that makes no report made none in its first step, as its second step keeps them. -/
theorem bind_of_keeps (hkeeps : ∀ a, Keeps (f a)) (h : Ensures stream p s R)
    (hf : ∀ a s', R a s' → Ensures stream (f a) s' Q) : Ensures stream (p >>= f) s Q := by
  intro hclean
  have hfirst : (p stream s).2.errors.hasErrors = false := by
    rw [← Bool.not_eq_true]
    intro hdirty
    cases hrun : p stream s with
    | mk a s' =>
      rw [hrun] at hdirty
      cases a with
      | none =>
        rw [bind_of_none hrun] at hclean
        exact Bool.noConfusion (hdirty.symm.trans hclean)
      | some a =>
        rw [bind_of_some hrun] at hclean
        exact Bool.noConfusion (((hkeeps a).hasErrors _ _ hdirty).symm.trans hclean)
  obtain ⟨a, s', hrun, ha⟩ := h hfirst
  rw [bind_of_some hrun] at hclean ⊢
  exact hf a s' ha hclean

theorem bind [hkeeps : ∀ a, Keeps (f a)] (h : Ensures stream p s R)
    (hf : ∀ a s', R a s' → Ensures stream (f a) s' Q) : Ensures stream (p >>= f) s Q :=
  bind_of_keeps hkeeps h hf

theorem map {g : α → β} (h : Ensures stream p s R) :
    Ensures stream (g <$> p) s fun b s' => ∃ a, b = g a ∧ R a s' :=
  have hbind : Ensures stream (p >>= fun a => Pure.pure (g a)) s _ :=
    bind h fun a _ ha => pure ⟨a, rfl, ha⟩
  hbind

/-- A step that makes no report does not fail. -/
theorem attempt (h : Ensures stream p s R) :
    Ensures stream (attempt p) s fun r s' => ∃ a, r = some a ∧ R a s' := by
  intro hclean
  obtain ⟨a, s', hrun, ha⟩ := h hclean
  refine ⟨some a, s', ?_, a, rfl, ha⟩
  simp only [Parse.attempt, hrun]

end Ensures

/-! ## Tokens that are taken -/

/-- The tokens between a state and a later one. -/
structure Taken (s : State) (ts : List Token) (s' : State) : Prop where
  rest : s.rest = ts ++ s'.rest
  previous : s'.previous = lastSpan s.previous ts
  depth : s'.depth = s.depth

namespace Taken

variable {ts us rest : List Token} {t : Token}

theorem refl (s : State) : Taken s [] s :=
  ⟨rfl, rfl, rfl⟩

theorem trans (h : Taken s ts s₁) (h' : Taken s₁ us s₂) : Taken s (ts ++ us) s₂ where
  rest := by rw [h.rest, h'.rest, List.append_assoc]
  previous := by rw [h'.previous, h.previous, lastSpan_append]
  depth := h'.depth.trans h.depth

theorem cons (h : Taken s [t] s₁) (h' : Taken s₁ ts s₂) : Taken s (t :: ts) s₂ :=
  h.trans h'

theorem advance (hs : s.rest = t :: rest) : Taken s [t] s.advance := by
  obtain ⟨tokens, previous, depth, errors⟩ := s
  obtain rfl : tokens = t :: rest := hs
  exact ⟨rfl, rfl, rfl⟩

/-- The last token that was taken, where it was taken alone. -/
theorem previous_singleton (h : Taken s [t] s₁) : s₁.previous = t.span :=
  h.previous

/-- The last token that was taken, by the tokens after the first. -/
theorem previous_cons (h : Taken s (t :: ts) s₁) : s₁.previous = lastSpan t.span ts := by
  rw [h.previous, lastSpan_cons]

/-- The last token that was taken, where some were. -/
theorem previous_of_ne_nil (h : Taken s ts s₁) (hne : ts ≠ []) (previous : Span) :
    s₁.previous = lastSpan previous ts := by
  rw [h.previous, lastSpan_congr hne]

/-- What is skipped is taken, up to a token that is not skipped. -/
theorem skipWhile {p : Token.Kind → Bool} (hp : p .eof = false) (s : State) :
    ∃ ts, (∀ t ∈ ts, p t.kind = true) ∧ Taken s ts (s.skipWhile p) ∧
      p (nextKind (s.skipWhile p).rest) = false := by
  have hsplit : s.rest = s.rest.takeWhile (fun t => p t.kind) ++ (s.skipWhile p).rest :=
    List.takeWhile_append_dropWhile.symm
  refine ⟨s.rest.takeWhile fun t => p t.kind, fun t ht => ?_, ⟨hsplit, rfl, rfl⟩, ?_⟩
  · exact List.mem_takeWhile_imp (p := fun t : Token => p t.kind) ht
  · have hhead := List.head?_dropWhile_not (fun t : Token => p t.kind) s.rest
    change p (nextKind (s.rest.dropWhile fun t => p t.kind)) = false
    cases hrest : s.rest.dropWhile fun t => p t.kind with
    | nil => exact hp
    | cons t rest =>
      rw [hrest] at hhead
      simpa using hhead

end Taken

/-- There are fewer tokens left than a bound says, at some nesting. -/
def Within (bound n : Nat) (s : State) : Prop :=
  s.rest.length < bound ∧ s.depth = n

namespace Within

variable {bound n : Nat} {ts : List Token}

theorem taken (h : Within bound n s) (hts : Taken s ts s₁) : Within bound n s₁ := by
  have hlength := congrArg List.length hts.rest
  rw [List.length_append] at hlength
  exact ⟨by have := h.1; omega, hts.depth.trans h.2⟩

/-- Fewer tokens are left after one was taken. -/
theorem taken_of_ne_nil (h : Within (bound + 1) n s) (hts : Taken s ts s₁) (hne : ts ≠ []) :
    Within bound n s₁ := by
  have hlength := congrArg List.length hts.rest
  have hpos := List.length_pos_iff.mpr hne
  rw [List.length_append] at hlength
  exact ⟨by have := h.1; omega, hts.depth.trans h.2⟩

end Within

/-! ## Basic steps -/

/-- The next token is there unless it is the end. -/
theorem exists_rest {kind : Token.Kind} (h : nextKind s.rest = kind)
    (hkind : kind ≠ .eof) :
    ∃ t rest, s.rest = t :: rest ∧ t.kind = kind := by
  obtain ⟨tokens, previous, depth, errors⟩ := s
  cases tokens with
  | nil => exact absurd h.symm hkind
  | cons t rest => exact ⟨t, rest, rfl, h⟩

theorem peek_of_rest {t : Token} {rest : List Token} (h : s.rest = t :: rest) :
    s.peek stream = t := by
  rw [State.peek, h]
  rfl

namespace Ensures

variable {Q : β → State → Prop} {kind : Token.Kind}

theorem peekKind (hfinal : stream.final.kind = .eof) {f : Token.Kind → Parse β}
    (h : Ensures stream (f (nextKind s.rest)) s Q) : Ensures stream (peekKind >>= f) s Q := by
  rw [← State.kind_peek hfinal] at h
  exact h

theorem advance {f : Token → Parse β} {t : Token} {rest : List Token} (hs : s.rest = t :: rest)
    (h : Taken s [t] s.advance → Ensures stream (f t) s.advance Q) :
    Ensures stream (advance >>= f) s Q := by
  have hf := h (.advance hs)
  rw [← peek_of_rest hs] at hf
  exact hf

theorem currentSpan {f : Span → Parse β} (h : Ensures stream (f (s.peek stream).span) s Q) :
    Ensures stream (currentSpan >>= f) s Q :=
  h

/-- A production that starts with a token of its own. -/
theorem start {f : Span → Parse β} {t : Token} {rest : List Token} (hs : s.rest = t :: rest)
    (h : Taken s [t] s.advance → Ensures stream (f t.span) s.advance Q) :
    Ensures stream (Parse.currentSpan >>= fun start => Parse.advance >>= fun _ => f start) s Q := by
  refine .currentSpan ?_
  rw [peek_of_rest hs]
  exact .advance hs h

theorem previousSpan {f : Span → Parse β} (h : Ensures stream (f s.previous) s Q) :
    Ensures stream (previousSpan >>= f) s Q :=
  h

theorem skipNewlines {f : Unit → Parse β}
    (h : ∀ newlines s', Newlines newlines → Taken s newlines s' → nextKind s'.rest ≠ .newline →
      Ensures stream (f ()) s' Q) : Ensures stream (skipNewlines >>= f) s Q := by
  obtain ⟨newlines, hnewlines, htaken, hnext⟩ := Taken.skipWhile (p := (· == .newline)) rfl s
  exact h newlines _ (fun t ht => eq_of_beq (hnewlines t ht)) htaken (by simpa using hnext)

theorem skipNewlines_of_ne {f : Unit → Parse β} (hs : nextKind s.rest ≠ .newline)
    (h : Ensures stream (f ()) s Q) : Ensures stream (Parse.skipNewlines >>= f) s Q := by
  rw [Ensures, skipNewlines_bind, State.skipWhile_of_nextKind (by simpa using hs)]
  exact h

theorem skipSeparators {f : Unit → Parse β}
    (h : ∀ separators s', Separators separators → Taken s separators s' →
      (nextKind s'.rest).isSeparator = false → Ensures stream (f ()) s' Q) :
    Ensures stream (skipSeparators >>= f) s Q := by
  obtain ⟨separators, hseparators, htaken, hnext⟩ := Taken.skipWhile (p := Kind.isSeparator) rfl s
  exact h separators _ hseparators htaken hnext

theorem skipSeparators_of_not {f : Unit → Parse β} (hs : (nextKind s.rest).isSeparator = false)
    (h : Ensures stream (f ()) s Q) : Ensures stream (Parse.skipSeparators >>= f) s Q := by
  rw [Ensures, skipSeparators_bind, State.skipWhile_of_nextKind hs]
  exact h

/-- A choice by the kind of the next token. -/
theorem check (hfinal : stream.final.kind = .eof) {p q : Parse β}
    (hp : nextKind s.rest = kind → Ensures stream p s Q)
    (hq : nextKind s.rest ≠ kind → Ensures stream q s Q) :
    Ensures stream (check kind >>= fun b => if b = true then p else q) s Q := by
  rw [Ensures, check_bind, State.kind_peek hfinal]
  by_cases hkind : nextKind s.rest = kind
  · rw [if_pos (decide_eq_true hkind)]
    exact hp hkind
  · rw [if_neg (by simp [hkind])]
    exact hq hkind

/-- A choice by the kind of the next token, which is read if it is of the kind. -/
theorem eat (hfinal : stream.final.kind = .eof) {p q : Parse β} (hkind : kind ≠ .eof)
    (hp : ∀ t s', t.kind = kind → Taken s [t] s' → Ensures stream p s' Q)
    (hq : nextKind s.rest ≠ kind → Ensures stream q s Q) :
    Ensures stream (eat kind >>= fun b => if b = true then p else q) s Q := by
  rw [Ensures, eat_bind, State.kind_peek hfinal]
  by_cases h : nextKind s.rest = kind
  · obtain ⟨t, rest, hs, ht⟩ := exists_rest h hkind
    rw [if_pos h, if_pos rfl]
    exact hp t s.advance ht (.advance hs)
  · rw [if_neg h, if_neg Bool.false_ne_true]
    exact hq h

/-- A step one level deeper is run at that depth, and the depth is restored. -/
theorem nested {p : Parse β} {n : Nat} (hs : s.depth = n)
    (h : n < maxDepth → Ensures stream p { s with depth := n + 1 } fun a s' =>
      Q a { s' with depth := s'.depth - 1 }) : Ensures stream (nested p) s Q := by
  subst hs
  intro hclean
  by_cases hn : s.depth < maxDepth
  · have hdepth : ¬ maxDepth < s.depth + 1 := Nat.not_lt.mpr (Nat.succ_le_of_lt hn)
    simp only [Parse.nested, if_neg hdepth] at hclean ⊢
    obtain ⟨a, s', hrun, ha⟩ := h hn hclean
    exact ⟨a, { s' with depth := s'.depth - 1 }, by rw [hrun], ha⟩
  · have hdepth : maxDepth < s.depth + 1 := Nat.lt_succ_of_le (Nat.le_of_not_lt hn)
    simp only [Parse.nested, if_pos hdepth] at hclean
    exact Bool.noConfusion (hasErrors_report.symm.trans hclean)

end Ensures

theorem ensures_expect (hfinal : stream.final.kind = .eof) {kind : Token.Kind}
    (hkind : kind ≠ .eof) :
    Ensures stream (expect kind) s fun t s' => t.kind = kind ∧ Taken s [t] s' := by
  by_cases h : (s.peek stream).kind = kind
  · obtain ⟨t, rest, hs, ht⟩ := exists_rest ((State.kind_peek hfinal s).symm.trans h) hkind
    exact fun _ => ⟨t, s.advance, by rw [expect_of_kind h, peek_of_rest hs], ht, .advance hs⟩
  · obtain ⟨code, message, hrun⟩ := expect_of_ne h
    exact .of_hasErrors (by rw [hrun]; exact hasErrors_report)

theorem ensures_unexpected {code : Code} {expected : String} {R : α → State → Prop} :
    Ensures stream (unexpected code expected) s R :=
  .of_hasErrors (by rw [unexpected_run]; exact hasErrors_report)

theorem ensures_expectIdentifier (hfinal : stream.final.kind = .eof) :
    Ensures stream expectIdentifier s fun name s' =>
      ∃ t text, t.kind = .identifier text ∧ name = ⟨text, t.span⟩ ∧ Taken s [t] s' := by
  refine .peekKind hfinal ?_
  split
  · next text hkind =>
    obtain ⟨t, rest, hs, ht⟩ := exists_rest hkind (by simp)
    exact .advance hs fun htaken => .pure ⟨t, text, ht, rfl, htaken⟩
  · exact ensures_unexpected

theorem ensures_expectMemberName (hfinal : stream.final.kind = .eof) :
    Ensures stream expectMemberName s fun name s' =>
      ∃ t text, t.kind.memberName? = some text ∧ name = ⟨text, t.span⟩ ∧ Taken s [t] s' := by
  refine .peekKind hfinal ?_
  split
  · next text hkind =>
    obtain ⟨t, rest, hs, ht⟩ := exists_rest hkind (by simp)
    exact .advance hs fun htaken => .pure ⟨t, text, by rw [ht]; rfl, rfl, htaken⟩
  · next word hkind =>
    obtain ⟨t, rest, hs, ht⟩ := exists_rest hkind (by simp)
    exact .advance hs fun htaken => .pure ⟨t, word.word, by rw [ht]; rfl, rfl, htaken⟩
  · exact ensures_unexpected

theorem ensures_expectString (hfinal : stream.final.kind = .eof) :
    Ensures stream expectString s fun text s' => ∃ t, t.kind = .string text ∧ Taken s [t] s' := by
  refine .peekKind hfinal ?_
  split
  · next text hkind =>
    obtain ⟨t, rest, hs, ht⟩ := exists_rest hkind (by simp)
    exact .advance hs fun htaken => .pure ⟨t, ht, htaken⟩
  · exact ensures_unexpected

/-- A statement ends with separators, or where its block ends. -/
theorem ensures_expectSeparator (hfinal : stream.final.kind = .eof) :
    Ensures stream expectSeparator s fun _ s' => ∃ separators, Separators separators ∧
      Taken s separators s' ∧ (nextKind s'.rest).isSeparator = false ∧
      (separators = [] → nextKind s'.rest = .eof ∨ nextKind s'.rest = .symbol .rightBrace) := by
  refine .peekKind hfinal ?_
  split
  · next hkind =>
    have hnext : (nextKind s.rest).isSeparator = false := by rw [hkind]; rfl
    exact .pure ⟨[], List.forall_mem_nil _, .refl s, hnext, fun _ => .inl hkind⟩
  · next hkind =>
    have hnext : (nextKind s.rest).isSeparator = false := by rw [hkind]; rfl
    exact .pure ⟨[], List.forall_mem_nil _, .refl s, hnext, fun _ => .inr hkind⟩
  · split
    · next hseparator =>
      obtain ⟨separators, hseparators, htaken, hnext⟩ :=
        Taken.skipWhile (p := Kind.isSeparator) rfl s
      refine fun _ => ⟨(), _, rfl, separators, hseparators, htaken, hnext, ?_⟩
      rintro rfl
      rw [htaken.rest, List.nil_append] at hseparator
      exact Bool.noConfusion (hseparator.symm.trans hnext)
    · exact .of_hasErrors hasErrors_report

end Parse

end ParseActions
