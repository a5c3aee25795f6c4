import ParseActions.Proofs.Diagnostic
import ParseActions.Token.Lexer

/-!
# Scanning a token

Outside the text of strings a token is scanned in rounds: blanks are skipped, and then a token is
found, or the text ends, or characters that start no token are reported and skipped. A round without
a report is the last one.

## Main definitions

* `Scanner.find?`: the token at the start of the text
* `Scanner.round?`, `Scanner.Round`: what one round does

## Main results

* `Scanner.scanNormal_eq`, `Scanner.scanNormal_succ`: scanning is a round, and more of them after
  characters that start none
* `Scanner.scanNormal_induction`: what every round keeps, scanning a token keeps
* `Scanner.lasting_run`: reports are only added
* `Scanner.scans_of_clean`: scanning without a report takes a single round
-/

namespace ParseActions

namespace Scanner

variable {source : SourceText} {s : Scanner}

/-! ## Rounds -/

/-- The token at the start of the text, unless its characters start none. -/
def find? (source : SourceText) (s : Scanner) : Option (Token × Scanner) :=
  match s.rest with
  | [] => none
  | c :: after =>
    if c = '"' then
      some ((s.advance 1).scanText source s.place s.modes .string .stringStart)
    else if c.isDigit then some s.scanNumber
    else if isNameStart c || (c == '$' && after.head?.any isNameChar) then some (s.scanName c)
    else (symbol? s.rest).map fun symbol => s.scanSymbol symbol.1 symbol.2

/-- The state after characters that start no token. -/
def passOver (source : SourceText) (s : Scanner) : Scanner :=
  let (length, message, advice) := unexpected s.rest
  let next := s.advance length
  let d := complaint source .unexpectedToken message (s.place.spanTo next.place)
  next.report (advice.elim d d.suggesting)

/-- The state at the end of a text, where a string or a hole may be open. -/
def close (source : SourceText) (s : Scanner) : Scanner :=
  if s.modes.isEmpty then s
  else s.report (complaint source .unterminatedString "unterminated string literal" s.place.span)

/-- What a round does after blanks; `more` says what the rounds after it do. -/
inductive Round (source : SourceText) (s : Scanner) (more : Scanner → Token × Scanner) :
    Token × Scanner → Prop where
  | full (h : s.errors.isFull = true) : Round source s more (⟨.eof, s.place.span⟩, s)
  | ends (h : s.rest = []) : Round source s more (⟨.eof, s.place.span⟩, s.close source)
  | finds {r : Token × Scanner} (h : s.find? source = some r) : Round source s more r
  | passes (hrest : s.rest ≠ []) (h : s.find? source = none) :
      Round source s more (more (s.passOver source))

theorem find?_of_rest (source : SourceText) {c : Char} {rest : List Char} (h : s.rest = c :: rest) :
    s.find? source =
      if c = '"' then some ((s.advance 1).scanText source s.place s.modes .string .stringStart)
      else if c.isDigit then some s.scanNumber
      else if isNameStart c || (c == '$' && rest.head?.any isNameChar) then some (s.scanName c)
      else (symbol? s.rest).map fun symbol => s.scanSymbol symbol.1 symbol.2 := by
  rw [find?]
  split
  · next hnil => cases hnil.symm.trans h
  · next hcons =>
    obtain ⟨rfl, rfl⟩ := List.cons.inj (hcons.symm.trans h)
    rfl

theorem find?_of_nil (source : SourceText) (h : s.rest = []) : s.find? source = none := by
  rw [find?]
  simp only [h]

/-- What a round gives after blanks, unless its characters start no token. -/
def round? (source : SourceText) (s : Scanner) : Option (Token × Scanner) :=
  if s.errors.isFull then some (⟨.eof, s.place.span⟩, s)
  else if s.rest.isEmpty then some (⟨.eof, s.place.span⟩, s.close source)
  else s.find? source

/-- **A round is the last one** unless its characters start no token. -/
theorem scanNormal_eq (source : SourceText) (fuel : Nat) (s : Scanner) :
    scanNormal source (fuel + 1) s =
      ((s.skip source).round? source).getD
        (scanNormal source fuel ((s.skip source).passOver source)) := by
  rw [scanNormal, round?]
  dsimp only
  generalize s.skip source = s
  split
  · rfl
  · split
    · next hrest =>
      rw [hrest]
      rfl
    · next c rest hrest =>
      rw [find?_of_rest source hrest, hrest]
      simp only [List.isEmpty_cons, Bool.false_eq_true, if_false]
      split
      · rfl
      · split
        · rfl
        · split
          · rfl
          · rw [← hrest, passOver]
            cases symbol? s.rest <;> rfl

/-- What one round does. -/
theorem scanNormal_succ (source : SourceText) (fuel : Nat) (s : Scanner) :
    Round source (s.skip source) (scanNormal source fuel) (scanNormal source (fuel + 1) s) := by
  rw [scanNormal_eq, round?]
  generalize s.skip source = s
  split
  · next hfull => exact .full hfull
  · split
    · next hrest => exact .ends (List.isEmpty_iff.mp hrest)
    · next hrest =>
      cases hfind : s.find? source with
      | none => exact .passes (mt List.isEmpty_iff.mpr hrest) hfind
      | some r => exact .finds hfind

/-- **What every round keeps**, scanning a token keeps. -/
theorem scanNormal_induction {Q : Scanner → Token × Scanner → Prop}
    (stops : ∀ s, Q s (⟨.eof, s.place.span⟩, s))
    (skips : ∀ s r, Q (s.skip source) r → Q s r)
    (ends : ∀ s, s.rest = [] → Q s (⟨.eof, s.place.span⟩, s.close source))
    (finds : ∀ s r, s.find? source = some r → Q s r)
    (passes : ∀ s r, s.rest ≠ [] → Q (s.passOver source) r → Q s r)
    (fuel : Nat) (s : Scanner) : Q s (scanNormal source fuel s) := by
  induction fuel generalizing s with
  | zero => exact stops s
  | succ fuel ih =>
    refine skips s _ ?_
    have hround := scanNormal_succ source fuel s
    generalize scanNormal source (fuel + 1) s = r at hround
    cases hround with
    | full => exact stops _
    | ends h => exact ends _ h
    | finds h => exact finds _ _ h
    | passes hrest => exact passes _ _ hrest (ih _)

/-! ## Reports -/

/-- Stepping over characters changes the text that is left and its place. -/
theorem advance_eq (n : Nat) (s : Scanner) :
    s.advance n = { s with
      rest := s.rest.drop n
      place := (s.rest.take n).foldl Position.after s.place } := by
  induction n generalizing s with
  | zero => rfl
  | succ n ih =>
    obtain ⟨rest, place, modes, pending, errors⟩ := s
    cases rest with
    | nil => rfl
    | cons c rest =>
      rw [advance]
      exact ih ⟨rest, place.after c, modes, pending, errors⟩

@[simp] theorem errors_advance (n : Nat) (s : Scanner) : (s.advance n).errors = s.errors := by
  rw [advance_eq]

@[simp] theorem modes_advance (n : Nat) (s : Scanner) : (s.advance n).modes = s.modes := by
  rw [advance_eq]

@[simp] theorem errors_scanSymbol (kind : Token.Kind) (length : Nat) (s : Scanner) :
    (scanSymbol kind length s).2.errors = s.errors := by
  rw [scanSymbol.eq_def]
  dsimp only
  split <;> exact errors_advance length s

section

variable {P : Diagnostics → Prop} (hP : Diagnostics.Lasting P)

include hP

theorem lasting_skip (h : P s.errors) : P (s.skip source).errors := by
  rw [skip]
  dsimp only
  split
  · exact h
  · exact hP _ _ h

theorem lasting_stringText {out cs : List Char} {errors : Diagnostics} {place : Position}
    (h : P errors) : P (stringText source out errors place cs).errors := by
  fun_induction stringText source out errors place cs with
  | case1 | case2 | case3 | case7 => exact h
  | case4 => exact hP _ _ h
  | case5 _ _ _ _ _ _ _ _ ih => exact ih h
  | case6 _ _ _ _ _ _ _ _ ih => exact ih (hP _ _ h)
  | case8 _ _ _ _ _ _ _ _ _ _ ih => exact ih h

theorem lasting_scanText {opened : Position} {outer : List Mode}
    {whole part : String → Token.Kind} (h : P s.errors) :
    P (scanText source opened outer whole part s).2.errors := by
  have htext : P (stringText source [] s.errors s.place s.rest).errors := lasting_stringText hP h
  rw [scanText]
  dsimp only
  split
  · exact hP _ _ htext
  · exact htext
  · exact htext

theorem lasting_find? {r : Token × Scanner} (hfind : s.find? source = some r) (h : P s.errors) :
    P r.2.errors := by
  rw [find?] at hfind
  split at hfind
  · cases hfind
  · split at hfind
    · obtain rfl := Option.some.inj hfind
      exact lasting_scanText hP (by rwa [errors_advance])
    · split at hfind
      · obtain rfl := Option.some.inj hfind
        exact h
      · split at hfind
        · obtain rfl := Option.some.inj hfind
          exact h
        · obtain ⟨symbol, -, rfl⟩ := Option.map_eq_some_iff.mp hfind
          rwa [errors_scanSymbol]

theorem lasting_close (h : P s.errors) : P (s.close source).errors := by
  rw [close]
  split
  · exact h
  · exact hP _ _ h

theorem lasting_passOver (h : P s.errors) : P (s.passOver source).errors :=
  hP _ _ (by rwa [errors_advance])

theorem lasting_scanNormal {fuel : Nat} (h : P s.errors) :
    P (scanNormal source fuel s).2.errors := by
  revert h
  refine scanNormal_induction (Q := fun s r => P s.errors → P r.2.errors) (fun _ => id)
    (fun _ _ ih h => ih (lasting_skip hP h)) (fun _ _ => lasting_close hP)
    (fun _ _ => lasting_find? hP)
    (fun _ _ _ ih h => ih (lasting_passOver hP h)) fuel s

theorem lasting_scan (h : P s.errors) : P (s.scan source).2.errors := by
  rw [scan]
  split
  · exact lasting_scanText hP h
  · exact lasting_scanNormal hP h

/-- **What further reports keep** is kept to the end of a text. -/
theorem lasting_run {fuel : Nat} (h : P s.errors) : P (run source fuel s).2 := by
  induction fuel generalizing s with
  | zero => exact h
  | succ fuel ih =>
    rw [run]
    split
    · exact h
    · split
      · exact ih h
      · have hscan : P (s.scan source).2.errors := lasting_scan hP h
        generalize s.scan source = scanned at hscan
        obtain ⟨token, s'⟩ := scanned
        dsimp only
        split
        · exact hscan
        · exact ih hscan

end

/-! ## Scanning without reports -/

/-- No reports so far. -/
def Clean (s : Scanner) : Prop :=
  s.errors.hasErrors = false

@[simp] theorem not_clean_report (d : Diagnostic) : ¬ (s.report d).Clean := by
  simp [Clean, report]

theorem not_clean_passOver : ¬ (s.passOver source).Clean :=
  not_clean_report _

/-- Where there are reports, there are some after a token. -/
theorem Clean.of_scan (h : (s.scan source).2.Clean) : s.Clean := by
  rw [Clean, ← Bool.not_eq_true] at h ⊢
  exact fun hdirty => h (lasting_scan Diagnostics.lasting_hasErrors hdirty)

/-- What scanning a token does that makes no report: the text ends, where nothing is open; or a token
is found; or the text of a string is scanned. -/
inductive Scans (source : SourceText) (s : Scanner) : Token × Scanner → Prop where
  | ends (hskip : (s.skip source).Clean) (h : (s.skip source).rest = []) (hmodes : s.modes = []) :
      Scans source s (⟨.eof, (s.skip source).place.span⟩, s.skip source)
  | finds {r : Token × Scanner} (hmodes : ∀ outer, s.modes ≠ .text :: outer)
      (hskip : (s.skip source).Clean) (h : (s.skip source).find? source = some r) :
      Scans source s r
  | text {outer : List Mode} (hmodes : s.modes = .text :: outer) :
      Scans source s (s.scanText source s.place outer .stringEnd .stringPart)

@[simp] theorem modes_skip : (s.skip source).modes = s.modes := by
  rw [skip]
  dsimp only
  split <;> rfl

theorem scan_of_text {outer : List Mode} (h : s.modes = .text :: outer) :
    s.scan source = s.scanText source s.place outer .stringEnd .stringPart := by
  rw [scan]
  simp only [h]

theorem scan_of_ne_text (h : ∀ outer, s.modes ≠ .text :: outer) :
    s.scan source = s.scanNormal source (s.rest.length + 1) := by
  rw [scan]
  split
  · next outer hmodes => exact absurd hmodes (h outer)
  · rfl

/-- **Scanning a token without a report** takes a single round. -/
theorem scans_of_clean (h : (s.scan source).2.Clean) : Scans source s (s.scan source) := by
  by_cases htext : ∃ outer, s.modes = .text :: outer
  · obtain ⟨outer, hmodes⟩ := htext
    rw [scan_of_text hmodes]
    exact .text hmodes
  · have hmodes : ∀ outer, s.modes ≠ .text :: outer := fun outer hmodes => htext ⟨outer, hmodes⟩
    rw [scan_of_ne_text hmodes] at h ⊢
    have hround := scanNormal_succ source s.rest.length s
    generalize scanNormal source (s.rest.length + 1) s = r at h hround
    cases hround with
    | full hfull => exact Bool.noConfusion (h.symm.trans (Diagnostics.hasErrors_of_isFull hfull))
    | ends hrest =>
      rw [close] at h ⊢
      split at h
      · next hempty =>
        rw [if_pos hempty]
        exact .ends h hrest (by simpa using hempty)
      · exact absurd h (not_clean_report _)
    | finds hfind =>
      refine .finds hmodes ?_ hfind
      rw [Clean, ← Bool.not_eq_true] at h ⊢
      exact fun hdirty => h (lasting_find? Diagnostics.lasting_hasErrors hfind hdirty)
    | passes =>
      -- what was passed over has been reported
      refine absurd h ?_
      rw [Clean, Bool.not_eq_false]
      refine lasting_scanNormal Diagnostics.lasting_hasErrors ?_
      simpa [Clean] using not_clean_passOver

/-- A token that is found is scanned. -/
theorem scan_of_find? {r : Token × Scanner} (hmodes : ∀ outer, s.modes ≠ .text :: outer)
    (hskip : (s.skip source).Clean) (h : (s.skip source).find? source = some r) :
    s.scan source = r := by
  rw [scan_of_ne_text hmodes]
  have hround := scanNormal_succ source s.rest.length s
  generalize scanNormal source (s.rest.length + 1) s = scanned at hround
  cases hround with
  | full hfull => exact Bool.noConfusion (hskip.symm.trans (Diagnostics.hasErrors_of_isFull hfull))
  | ends hrest => cases (find?_of_nil source hrest).symm.trans h
  | finds hfind => exact Option.some.inj (hfind.symm.trans h)
  | passes _ hfind => cases hfind.symm.trans h

end Scanner

end ParseActions
