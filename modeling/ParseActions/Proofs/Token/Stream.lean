import ParseActions.Proofs.Token.Identifier

/-!
# Streams of tokens

What the lexer makes of a text ends with the token of the end and has no such token before it, and
its identifiers are no reserved words.

## Main definitions

* `Token.IsStream`: streams as the lexer makes them

## Main results

* `Token.isStream_lex`: the tokens of a text are a stream
-/

namespace ParseActions

namespace Token

/-- A token is no identifier that is a reserved word. -/
def Unreserved (t : Token) : Prop :=
  ∀ name, t.kind = .identifier name → Keyword.ofWord? name = none

/-- A stream ends with the token of the end, which stands nowhere else, and its identifiers are no
reserved words. -/
def IsStream (tokens : List Token) : Prop :=
  ∃ inner last, tokens = inner ++ [last] ∧ last.kind = .eof ∧
    ∀ t ∈ inner, t.kind ≠ .eof ∧ t.Unreserved

theorem isStream_singleton {t : Token} (ht : t.kind = .eof) : IsStream [t] :=
  ⟨[], t, rfl, ht, List.forall_mem_nil _⟩

theorem IsStream.cons {t : Token} {tokens : List Token} (h : IsStream tokens) (ht : t.kind ≠ .eof)
    (hname : t.Unreserved) : IsStream (t :: tokens) := by
  obtain ⟨inner, last, rfl, hlast, hinner⟩ := h
  exact ⟨t :: inner, last, rfl, hlast, List.forall_mem_cons.mpr ⟨⟨ht, hname⟩, hinner⟩⟩

end Token

namespace Scanner

open Token

variable {source : SourceText} {s : Scanner}

/-- Only the mark of a hole is held back. -/
def HoldsMark (s : Scanner) : Prop :=
  ∀ t, s.pending = some t → t.kind = .holeStart

theorem pending_advance (n : Nat) : (s.advance n).pending = s.pending := by
  induction n generalizing s with
  | zero => rfl
  | succ n ih =>
    rw [advance]
    split
    · rfl
    · rw [ih]

theorem pending_skip : (s.skip source).pending = s.pending := by
  rw [skip]
  dsimp only
  split <;> rfl

theorem holdsMark_scanText {opened : Position} {outer : List Mode}
    {whole part : String → Token.Kind} (h : s.HoldsMark) :
    (scanText source opened outer whole part s).2.HoldsMark := by
  rw [scanText]
  dsimp only
  split
  · exact h
  · exact h
  · rintro t ht
    obtain rfl := Option.some.inj ht
    rfl

theorem pending_scanSymbol {kind : Token.Kind} {length : Nat} :
    (scanSymbol kind length s).2.pending = s.pending := by
  rw [scanSymbol.eq_def]
  dsimp only
  split
  · exact pending_advance length
  · exact pending_advance length
  · exact pending_advance length
  · exact pending_advance length

theorem holdsMark_scanNormal {fuel : Nat} (h : s.HoldsMark) :
    (scanNormal source fuel s).2.HoldsMark := by
  induction fuel generalizing s with
  | zero => exact h
  | succ fuel ih =>
    have hskip : (s.skip source).HoldsMark := by rwa [HoldsMark, pending_skip]
    rw [scanNormal]
    dsimp only
    split
    · exact hskip
    · split
      · split
        · exact hskip
        · exact hskip
      · next c after _ =>
        split
        · exact holdsMark_scanText (by rwa [HoldsMark, pending_advance])
        · split
          · exact hskip
          · split
            · exact hskip
            · split
              · rwa [HoldsMark, pending_scanSymbol]
              · refine ih ?_
                rwa [HoldsMark, report, pending_advance]

theorem holdsMark_scan (h : s.HoldsMark) : (s.scan source).2.HoldsMark := by
  rw [scan]
  split
  · exact holdsMark_scanText h
  · exact holdsMark_scanNormal h

theorem unreserved_scan : (s.scan source).1.Unreserved := by
  intro name hname
  rw [scan] at hname
  split at hname
  · exact absurd hname (ne_identifier_of_scanText (by simp) (by simp))
  · exact ofWord?_of_scanNormal hname

/-- The tokens that are scanned from a state on are a stream. -/
theorem isStream_run {fuel : Nat} (h : s.HoldsMark) : IsStream (run source fuel s).1 := by
  induction fuel generalizing s with
  | zero => exact isStream_singleton rfl
  | succ fuel ih =>
    rw [run]
    split
    · exact isStream_singleton rfl
    · split
      · next token hpending =>
        have htoken := h token hpending
        have hnone : HoldsMark { s with pending := none } := by simp [HoldsMark]
        exact (ih hnone).cons (by simp [htoken]) (by simp [Unreserved, htoken])
      · have hholds : (s.scan source).2.HoldsMark := holdsMark_scan h
        have hname : (s.scan source).1.Unreserved := unreserved_scan
        generalize s.scan source = scanned at hholds hname
        obtain ⟨token, s'⟩ := scanned
        dsimp only
        split
        · next heof => exact isStream_singleton heof
        · next heof => exact (ih hholds).cons heof hname

end Scanner

/-- **The tokens of a text are a stream.** -/
theorem Token.isStream_lex (source : SourceText) : IsStream (Token.lex source).1 :=
  Scanner.isStream_run (by simp [Scanner.HoldsMark, Scanner.start])

end ParseActions
