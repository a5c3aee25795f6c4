import ParseActions.Proofs.Token.Reading
import ParseActions.Proofs.Token.Stream

/-!
# Lexing without reports

The tokens of a text are scanned one after another up to its end. Each of them takes a character,
and owes at most one more token that takes none: the mark of a hole that it opens, or the text after
one that it closes. So there are fewer tokens than the fuel of a run allows for, and where nothing is
reported the fuel can be left out.

## Main definitions

* `Scanner.weight`: what the fuel of a run has to exceed
* `Scanner.Lexes`: the tokens of the text that is left, without fuel and without reports

## Main results

* `Scanner.weight_scan_lt`: a token takes a character and owes at most one, or is owed
* `Token.lexes_lex`, `Token.lex_of_lexes`: the tokens of a text
-/

namespace ParseActions

namespace Scanner

open Relation

variable {source : SourceText} {s s' : Scanner} {t : Token} {ts : List Token}

/-! ## What a token takes -/

/-- The tokens to come that may take no character: texts after holes, and the mark of a hole. -/
def owed (s : Scanner) : Nat :=
  s.modes.count .text + s.pending.toList.length

/-- A character is taken, and at most one token more is owed. -/
structure Onward (s s' : Scanner) : Prop where
  passes : Passes s.text s'.text
  owed : s'.owed ≤ s.owed + 1

/-- What the fuel of a run has to exceed. -/
def weight (s : Scanner) : Nat :=
  3 * s.rest.length + s.owed

theorem Onward.weight_lt (h : Onward s s') : s'.weight < s.weight := by
  have hlength : s'.rest.length < s.rest.length := length_lt_of_passes h.passes
  have howed := h.owed
  rw [weight, weight]
  omega

theorem reaches_scanText {opened : Position} {outer : List Mode}
    {whole part : String → Token.Kind} :
    Reaches s.text (scanText source opened outer whole part s).2.text := by
  have hread := reaches_stringText source [] s.errors s.place s.rest
  rw [scanText]
  dsimp only
  split <;> exact hread

/-- A hole owes its mark, and takes characters. -/
theorem weight_scanText_le {opened : Position} {outer : List Mode}
    {whole part : String → Token.Kind} (hpending : s.pending = none) :
    (scanText source opened outer whole part s).2.weight ≤
      3 * s.rest.length + outer.count .text := by
  have hlength := length_le_of_reaches (reaches_stringText source [] s.errors s.place s.rest)
  have hread := passes_stringText source [] s.errors s.place s.rest
  rw [scanText]
  dsimp only at hlength ⊢
  generalize stringText source [] s.errors s.place s.rest = text at hlength hread ⊢
  cases hstop : text.stop with
  | unterminated | quote =>
    simp only [weight, owed, report, hpending, Option.toList_none, List.length_nil]
    omega
  | hole =>
    obtain ⟨rest, hreach, hpass⟩ := hread (by simp [hstop])
    have hpasses := length_lt_of_passes (hpass.trans_right hreach)
    simp only [weight, owed, List.count_cons_of_ne, ne_eq, reduceCtorEq, not_false_eq_true,
      Option.toList_some, List.length_cons, List.length_nil] at hpasses ⊢
    omega

theorem owed_scanText_le {opened : Position} {outer : List Mode}
    {whole part : String → Token.Kind} (hpending : s.pending = none) :
    (scanText source opened outer whole part s).2.owed ≤ outer.count .text + 1 := by
  rw [scanText]
  dsimp only
  split <;> simp [owed, report, hpending]

/-- A closed hole owes the text after it. -/
theorem owed_scanSymbol (kind : Token.Kind) (n : Nat) (s : Scanner) :
    (scanSymbol kind n s).2.owed ≤ s.owed + 1 := by
  have hmodes : (s.advance n).modes = s.modes := modes_advance n s
  have hpending : (s.advance n).pending = s.pending := pending_advance n
  rw [scanSymbol.eq_def]
  dsimp only
  generalize s.advance n = s' at hmodes hpending
  rw [owed, owed, ← hmodes, ← hpending]
  split
  · next hhole => simp [hhole]
  · next hhole =>
    -- the brace that closes a hole: the only symbol that makes a mode of text
    simp only [hhole, List.count_cons_self, List.count_cons_of_ne, ne_eq, reduceCtorEq,
      not_false_eq_true]
    omega
  · next hhole => simp [hhole]
  · exact Nat.le_succ _

/-- A token that is found takes a character, and owes at most one more token. -/
theorem onward_find? {r : Token × Scanner} (hpending : s.pending = none)
    (h : s.find? source = some r) : Onward s r.2 := by
  cases hrest : s.rest with
  | nil => cases (find?_of_nil source hrest).symm.trans h
  | cons c rest =>
    rw [find?_of_rest source hrest] at h
    split at h
    · obtain rfl := Option.some.inj h
      have hquote : Passes s.text (s.advance 1).text := passes_advance 0 hrest
      refine ⟨hquote.trans_left reaches_scanText, ?_⟩
      have hmodes : s.owed = s.modes.count .text := by simp [owed, hpending]
      rw [hmodes]
      exact owed_scanText_le ((pending_advance 1).trans hpending)
    · split at h
      · next hdigit =>
        obtain rfl := Option.some.inj h
        exact ⟨passes_scanNumber hrest hdigit, Nat.le_succ _⟩
      · split at h
        · obtain rfl := Option.some.inj h
          exact ⟨passes_scanName hrest, Nat.le_succ _⟩
        · obtain ⟨⟨kind, n⟩, hsymbol, rfl⟩ := Option.map_eq_some_iff.mp h
          obtain ⟨m, rfl⟩ := Nat.exists_eq_add_one.mpr (length_pos_of_symbol? hsymbol)
          exact ⟨by simpa using passes_advance m hrest, owed_scanSymbol kind (m + 1) s⟩

theorem weight_skip_le : (s.skip source).weight ≤ s.weight := by
  have hlength : (s.skip source).rest.length ≤ s.rest.length := length_le_of_reaches reaches_skip
  rw [weight, weight, owed, owed, modes_skip, pending_skip]
  omega

theorem rest_passOver_lt (hrest : s.rest ≠ []) :
    (s.passOver source).rest.length < s.rest.length := by
  obtain ⟨c, rest, hrest⟩ := List.exists_cons_of_ne_nil hrest
  have hpos : 0 < (unexpected s.rest).1 := by
    rw [hrest, unexpected.eq_def]
    split <;> simp at *
  obtain ⟨m, hm⟩ := Nat.exists_eq_add_one.mpr hpos
  have hpasses : Passes s.text (s.advance (m + 1)).text := passes_advance m hrest
  rw [← hm] at hpasses
  exact length_lt_of_passes hpasses

theorem weight_passOver_lt (hrest : s.rest ≠ []) : (s.passOver source).weight < s.weight := by
  have hlength : (s.passOver source).rest.length < s.rest.length := rest_passOver_lt hrest
  have howed : (s.passOver source).owed = s.owed := by
    simp [owed, passOver, report, pending_advance]
  rw [weight, weight, howed]
  omega

/-- A token outside the text of strings. -/
theorem weight_scanNormal_lt (fuel : Nat) (hpending : s.pending = none)
    (hkind : (scanNormal source fuel s).1.kind ≠ .eof) :
    (scanNormal source fuel s).2.weight < s.weight := by
  revert hpending hkind
  refine scanNormal_induction
    (Q := fun s r => s.pending = none → r.1.kind ≠ .eof → r.2.weight < s.weight)
    (fun _ _ h => absurd rfl h) (fun s r ih hpending hkind => ?skips)
    (fun _ _ _ h => absurd rfl h) (fun s r h hpending _ => (onward_find? hpending h).weight_lt)
    (fun s r hrest ih hpending hkind => ?passes) fuel s
  case skips =>
    exact Nat.lt_of_lt_of_le (ih (pending_skip.trans hpending) hkind) weight_skip_le
  case passes =>
    have hpassed : (s.passOver source).pending = none := (pending_advance _).trans hpending
    exact Nat.lt_trans (ih hpassed hkind) (weight_passOver_lt hrest)

/-- **A token takes from the weight**: a character, for which at most one more token is owed, or what
was owed before. -/
theorem weight_scan_lt (hpending : s.pending = none) (hkind : (s.scan source).1.kind ≠ .eof) :
    (s.scan source).2.weight < s.weight := by
  by_cases htext : ∃ outer, s.modes = .text :: outer
  · obtain ⟨outer, hmodes⟩ := htext
    have hweight : s.weight = 3 * s.rest.length + outer.count .text + 1 := by
      simp [weight, owed, hmodes, hpending, Nat.add_assoc]
    rw [scan_of_text hmodes, hweight]
    exact Nat.lt_succ_of_le (weight_scanText_le hpending)
  · rw [scan_of_ne_text fun outer hmodes => htext ⟨outer, hmodes⟩] at hkind ⊢
    exact weight_scanNormal_lt _ hpending hkind

/-! ## Lexing without fuel -/

/-- The tokens of the text that is left, where nothing is reported. -/
inductive Lexes (source : SourceText) : Scanner → List Token → Prop where
  | ends {s : Scanner} (hpending : s.pending = none) (hclean : (s.scan source).2.Clean)
      (hkind : (s.scan source).1.kind = .eof) : Lexes source s [(s.scan source).1]
  | token {s : Scanner} {ts : List Token} (hpending : s.pending = none)
      (hkind : (s.scan source).1.kind ≠ .eof) (h : Lexes source (s.scan source).2 ts) :
      Lexes source s ((s.scan source).1 :: ts)
  | mark {s : Scanner} {t : Token} {ts : List Token} (hpending : s.pending = some t)
      (h : Lexes source { s with pending := none } ts) : Lexes source s (t :: ts)

theorem Lexes.clean (h : Lexes source s ts) : s.Clean := by
  induction h with
  | ends _ hclean => exact hclean.of_scan
  | token _ _ _ ih => exact ih.of_scan
  | mark _ _ ih => exact ih

theorem weight_mark (hpending : s.pending = some t) :
    Scanner.weight { s with pending := none } < s.weight := by
  simp [weight, owed, hpending]

theorem isFull_of_clean (h : s.Clean) : s.errors.isFull = false := by
  rw [← Bool.not_eq_true]
  exact fun hfull => Bool.noConfusion (h.symm.trans (Diagnostics.hasErrors_of_isFull hfull))

theorem run_succ_of_mark {fuel : Nat} (hfull : s.errors.isFull = false)
    (hpending : s.pending = some t) :
    run source (fuel + 1) s =
      (t :: (run source fuel { s with pending := none }).1,
        (run source fuel { s with pending := none }).2) := by
  rw [run, hfull]
  simp [hpending]

theorem run_succ_of_scan {fuel : Nat} (hfull : s.errors.isFull = false)
    (hpending : s.pending = none) :
    run source (fuel + 1) s =
      if (s.scan source).1.kind = .eof then ([(s.scan source).1], (s.scan source).2.errors)
      else ((s.scan source).1 :: (run source fuel (s.scan source).2).1,
        (run source fuel (s.scan source).2).2) := by
  rw [run, hfull]
  simp [hpending]

/-- Where reports are made, there are some at the end of the text. -/
theorem clean_of_run {fuel : Nat} (h : (run source fuel s).2.hasErrors = false) : s.Clean := by
  rw [Clean, ← Bool.not_eq_true]
  intro hdirty
  exact Bool.noConfusion (h.symm.trans (lasting_run Diagnostics.lasting_hasErrors hdirty))

/-- A run with enough fuel that makes no report goes to the end of the text. -/
theorem lexes_run {fuel : Nat} (hfuel : s.weight < fuel)
    (h : (run source fuel s).2.hasErrors = false) : Lexes source s (run source fuel s).1 := by
  -- every round takes from the weight, so it stays below the fuel and never meets zero
  induction fuel generalizing s with
  | zero => exact absurd hfuel (Nat.not_lt_zero _)
  | succ fuel ih =>
    have hfull := isFull_of_clean (clean_of_run h)
    cases hpending : s.pending with
    | some t =>
      rw [run_succ_of_mark hfull hpending] at h ⊢
      have hweight := weight_mark hpending
      exact .mark hpending (ih (by omega) h)
    | none =>
      rw [run_succ_of_scan hfull hpending] at h ⊢
      by_cases hkind : (s.scan source).1.kind = .eof
      · rw [if_pos hkind] at h ⊢
        exact .ends hpending h hkind
      · rw [if_neg hkind] at h ⊢
        have hweight := weight_scan_lt hpending hkind
        exact .token hpending hkind (ih (by omega) h)

/-- With enough fuel a run finds the tokens that are left. -/
theorem run_of_lexes {fuel : Nat} (h : Lexes source s ts) (hfuel : s.weight < fuel) :
    (run source fuel s).1 = ts ∧ (run source fuel s).2.hasErrors = false := by
  induction h generalizing fuel with
  | @ends s hpending hclean hkind =>
    obtain ⟨m, rfl⟩ := Nat.exists_eq_add_one.mpr (Nat.zero_lt_of_lt hfuel)
    rw [run_succ_of_scan (isFull_of_clean hclean.of_scan) hpending, if_pos hkind]
    exact ⟨rfl, hclean⟩
  | @token s ts hpending hkind h ih =>
    obtain ⟨m, rfl⟩ := Nat.exists_eq_add_one.mpr (Nat.zero_lt_of_lt hfuel)
    have hweight := weight_scan_lt hpending hkind
    obtain ⟨htokens, hreports⟩ := ih (by omega : _ < m)
    rw [run_succ_of_scan (isFull_of_clean h.clean.of_scan) hpending, if_neg hkind, htokens]
    exact ⟨rfl, hreports⟩
  | @mark s t ts hpending h ih =>
    obtain ⟨m, rfl⟩ := Nat.exists_eq_add_one.mpr (Nat.zero_lt_of_lt hfuel)
    have hweight := weight_mark hpending
    obtain ⟨htokens, hreports⟩ := ih (by omega : _ < m)
    rw [run_succ_of_mark (isFull_of_clean (s := s) h.clean) hpending, htokens]
    exact ⟨rfl, hreports⟩

end Scanner

/-! ## Texts -/

namespace Token

open Scanner

variable {source : SourceText} {ts : List Token}

theorem weight_start (source : SourceText) :
    (Scanner.start source).weight < 3 * source.text.length + 2 := by
  have hlength : source.text.toList.length = source.text.length := String.length_toList
  simp [weight, owed, Scanner.start, hlength]

/-- **The tokens of a text** on which there is no report are scanned up to its end. -/
theorem lexes_lex (h : (lex source).2.hasErrors = false) :
    Lexes source (.start source) (lex source).1 :=
  lexes_run (weight_start source) h

/-- Tokens that are scanned up to the end of a text are its tokens. -/
theorem lex_of_lexes (h : Lexes source (.start source) ts) :
    (lex source).1 = ts ∧ (lex source).2.hasErrors = false :=
  run_of_lexes h (weight_start source)

end Token

end ParseActions
