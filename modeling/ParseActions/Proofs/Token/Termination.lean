import ParseActions.Proofs.Token.Lexing

/-!
# Lexing comes to an end

Tokens are scanned in a loop, and outside the text of strings each of them in rounds. Both stop of
their own accord: a round that gives no token takes a character, and a token takes from the weight of
what is left. So the fuel is never used up, and without it there is exactly one result.

## Main definitions

* `Scanner.Rounds`: a token after any number of rounds
* `Scanner.Runs`: the tokens that are left and the reports, without fuel

## Main results

* `Scanner.rounds_iff`, `Scanner.runs_iff`: with enough fuel the one result is found
* `Token.runs_lex_iff`: the tokens of a text
-/

namespace ParseActions

namespace Scanner

variable {source : SourceText} {s : Scanner} {r : Token × Scanner}

/-! ## Rounds -/

/-- A token after any number of rounds. -/
inductive Rounds (source : SourceText) : Scanner → Token × Scanner → Prop where
  | gives {s : Scanner} {r : Token × Scanner} (h : (s.skip source).round? source = some r) :
      Rounds source s r
  | passes {s : Scanner} {r : Token × Scanner} (h : (s.skip source).round? source = none)
      (hmore : Rounds source ((s.skip source).passOver source) r) : Rounds source s r

/-- Characters that start no token are left. -/
theorem rest_ne_nil_of_round? (h : s.round? source = none) : s.rest ≠ [] := by
  intro hrest
  simp only [round?, hrest, List.isEmpty_nil, if_true] at h
  split at h <;> cases h

/-- A round without a token takes a character. -/
theorem rest_lt_of_round? (h : (s.skip source).round? source = none) :
    ((s.skip source).passOver source).rest.length < s.rest.length :=
  Nat.lt_of_lt_of_le (rest_passOver_lt (rest_ne_nil_of_round? h))
    (length_le_of_reaches reaches_skip)

/-- **Rounds come to an end**, with the token that is scanned. -/
theorem rounds_iff {fuel : Nat} (hfuel : s.rest.length < fuel) :
    Rounds source s r ↔ r = scanNormal source fuel s := by
  constructor
  · intro h
    induction h generalizing fuel with
    | gives h =>
      obtain ⟨n, rfl⟩ := Nat.exists_eq_add_one.mpr (Nat.zero_lt_of_lt hfuel)
      rw [scanNormal_eq, h, Option.getD_some]
    | passes h _ ih =>
      obtain ⟨n, rfl⟩ := Nat.exists_eq_add_one.mpr (Nat.zero_lt_of_lt hfuel)
      rw [scanNormal_eq, h, Option.getD_none]
      exact ih (Nat.lt_of_lt_of_le (rest_lt_of_round? h) (Nat.le_of_lt_succ hfuel))
  · rintro rfl
    induction fuel generalizing s with
    | zero => exact absurd hfuel (Nat.not_lt_zero _)
    | succ fuel ih =>
      rw [scanNormal_eq]
      cases h : (s.skip source).round? source with
      | some r => exact .gives h
      | none =>
        refine .passes h (ih ?_)
        exact Nat.lt_of_lt_of_le (rest_lt_of_round? h) (Nat.le_of_lt_succ hfuel)

/-- The next token: the text of a string, or what rounds give. -/
def Gives (source : SourceText) (s : Scanner) (r : Token × Scanner) : Prop :=
  match s.modes with
  | .text :: outer => r = s.scanText source s.place outer .stringEnd .stringPart
  | _ => Rounds source s r

theorem gives_iff : Gives source s r ↔ r = s.scan source := by
  rw [Gives]
  split
  · next outer hmodes => rw [scan_of_text hmodes]
  · next hmodes =>
    rw [scan_of_ne_text hmodes]
    exact rounds_iff (Nat.lt_succ_self _)

/-! ## Runs -/

/-- The tokens that are left and all reports. The loop is left when no more reports are kept, or after
the token of the end. -/
inductive Runs (source : SourceText) : Scanner → List Token × Diagnostics → Prop where
  | full {s : Scanner} (hfull : s.errors.isFull = true) :
      Runs source s ([⟨.eof, s.place.span⟩], s.errors)
  | mark {s : Scanner} {t : Token} {result : List Token × Diagnostics}
      (hfull : s.errors.isFull = false) (hpending : s.pending = some t)
      (h : Runs source { s with pending := none } result) : Runs source s (t :: result.1, result.2)
  | ends {s s' : Scanner} {t : Token} (hfull : s.errors.isFull = false) (hpending : s.pending = none)
      (hscan : Gives source s (t, s')) (hkind : t.kind = .eof) : Runs source s ([t], s'.errors)
  | token {s s' : Scanner} {t : Token} {result : List Token × Diagnostics}
      (hfull : s.errors.isFull = false) (hpending : s.pending = none)
      (hscan : Gives source s (t, s')) (hkind : t.kind ≠ .eof) (h : Runs source s' result) :
      Runs source s (t :: result.1, result.2)

theorem run_of_full {fuel : Nat} (hfull : s.errors.isFull = true) :
    run source (fuel + 1) s = ([⟨.eof, s.place.span⟩], s.errors) := by
  rw [run, if_pos hfull]

/-- **A run comes to an end**: with enough fuel it is the only one. -/
theorem runs_iff {fuel : Nat} (hfuel : s.weight < fuel) {result : List Token × Diagnostics} :
    Runs source s result ↔ result = run source fuel s := by
  constructor
  · -- along the loop: every turn takes from the weight, so there is fuel for the next one
    intro h
    induction h generalizing fuel with
    | full hfull =>
      obtain ⟨n, rfl⟩ := Nat.exists_eq_add_one.mpr (Nat.zero_lt_of_lt hfuel)
      exact (run_of_full hfull).symm
    | @mark s t result hfull hpending _ ih =>
      obtain ⟨n, rfl⟩ := Nat.exists_eq_add_one.mpr (Nat.zero_lt_of_lt hfuel)
      have hweight := weight_mark hpending
      rw [run_succ_of_mark hfull hpending, ← ih (by omega)]
    | @ends s s' t hfull hpending hscan hkind =>
      obtain ⟨n, rfl⟩ := Nat.exists_eq_add_one.mpr (Nat.zero_lt_of_lt hfuel)
      rw [run_succ_of_scan hfull hpending, ← gives_iff.mp hscan, if_pos hkind]
    | @token s s' t result hfull hpending hscan hkind _ ih =>
      obtain ⟨n, rfl⟩ := Nat.exists_eq_add_one.mpr (Nat.zero_lt_of_lt hfuel)
      have hscan : (t, s') = s.scan source := gives_iff.mp hscan
      have hweight : s'.weight < s.weight := by
        have hlt : (s.scan source).2.weight < s.weight :=
          weight_scan_lt hpending (by rwa [← hscan])
        rwa [← hscan] at hlt
      rw [run_succ_of_scan hfull hpending, ← hscan, if_neg hkind, ← ih (by omega)]
  · -- along the fuel, which never meets zero
    rintro rfl
    induction fuel generalizing s with
    | zero => exact absurd hfuel (Nat.not_lt_zero _)
    | succ fuel ih =>
      by_cases hfull : s.errors.isFull = true
      · rw [run_of_full hfull]
        exact .full hfull
      · rw [Bool.not_eq_true] at hfull
        cases hpending : s.pending with
        | some t =>
          have hweight := weight_mark hpending
          rw [run_succ_of_mark hfull hpending]
          exact .mark hfull hpending (ih (by omega))
        | none =>
          have hscan : Gives source s ((s.scan source).1, (s.scan source).2) := gives_iff.mpr rfl
          rw [run_succ_of_scan hfull hpending]
          by_cases hkind : (s.scan source).1.kind = .eof
          · rw [if_pos hkind]
            exact .ends hfull hpending hscan hkind
          · have hweight := weight_scan_lt hpending hkind
            rw [if_neg hkind]
            exact .token hfull hpending hscan hkind (ih (by omega))

end Scanner

/-- **Lexing a text comes to an end**, with the tokens that are found with fuel. -/
theorem Token.runs_lex_iff {source : SourceText} {result : List Token × Diagnostics} :
    Scanner.Runs source (.start source) result ↔ result = lex source :=
  Scanner.runs_iff (weight_start source)

end ParseActions
