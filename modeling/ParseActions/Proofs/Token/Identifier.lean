import ParseActions.Token.Lexer

/-!
# Names that are scanned

An identifier is scanned as a character that may start a name, or a dollar sign, and characters that
may stand in one.

## Main definitions

* `Token.NameShaped`: the texts of identifiers

## Main results

* `Scanner.exists_scanName_of_scanNormal`: an identifier that is scanned is scanned as a name
* `Scanner.ofWord?_of_scanNormal`: it is no reserved word
* `Scanner.scanNormal_of_run`: an identifier that a text starts with is scanned first
-/

namespace ParseActions

/-- A text has the shape of an identifier. -/
def Token.NameShaped (text : String) : Prop :=
  ∃ c more, text = String.ofList (c :: more) ∧ (Scanner.isNameStart c = true ∨ c = '$') ∧
    ∀ d ∈ more, Scanner.isNameChar d = true

namespace Scanner

variable {source : SourceText} {s : Scanner} {text : String}

/-- What is taken satisfies the test. -/
theorem of_mem_spanWhile {p : Char → Bool} {place : Position} {cs : List Char} {c : Char}
    (h : c ∈ (spanWhile p place cs).1) : p c = true := by
  induction cs generalizing place with
  | nil => cases h
  | cons d rest ih =>
    rw [spanWhile] at h
    split at h
    · next hd =>
      rcases List.mem_cons.mp h with rfl | hrest
      · exact hd
      · exact ih hrest
    · cases h

/-- Something is taken if the first character satisfies the test. -/
theorem spanWhile_ne_nil {p : Char → Bool} {place : Position} {cs : List Char}
    (h : cs.head?.any p = true) : (spanWhile p place cs).1 ≠ [] := by
  cases cs with
  | nil => cases h
  | cons c rest =>
    have hc : p c = true := h
    rw [spanWhile, if_pos hc]
    exact List.cons_ne_nil _ _

/-- The kinds of tokens of symbols and separators. -/
theorem ne_identifier_of_symbol? {cs : List Char} {kind : Token.Kind} {length : Nat}
    (h : symbol? cs = some (kind, length)) : kind ≠ .identifier text := by
  rw [symbol?.eq_def] at h
  split at h
  all_goals
    cases h
    try exact nofun

theorem ne_identifier_of_scanText {opened : Position} {outer : List Mode}
    {whole part : String → Token.Kind} (hwhole : ∀ t, whole t ≠ .identifier text)
    (hpart : ∀ t, part t ≠ .identifier text) :
    (scanText source opened outer whole part s).1.kind ≠ .identifier text := by
  rw [scanText]
  split
  · exact hwhole _
  · exact hwhole _
  · exact hpart _

theorem ne_identifier_of_scanSymbol {kind : Token.Kind} {length : Nat}
    (h : kind ≠ .identifier text) : (scanSymbol kind length s).1.kind ≠ .identifier text := by
  rw [scanSymbol.eq_def]
  dsimp only
  split
  · exact nofun
  · exact nofun
  · exact nofun
  · exact h

/-- A name goes on with characters of names; an identifier is no reserved word. -/
theorem of_scanName {c : Char} (h : (scanName c s).1.kind = .identifier text) :
    ∃ more, text = String.ofList (c :: more) ∧ (∀ d ∈ more, isNameChar d = true) ∧
      ((s.rest.drop 1).head?.any isNameChar = true → more ≠ []) ∧
      Keyword.ofWord? text = none := by
  rw [scanName] at h
  generalize hspan : spanWhile isNameChar (s.place.after c) (s.rest.drop 1) = span at h
  obtain ⟨more, rest, place⟩ := span
  have hkind : (Keyword.ofWord? (String.ofList (c :: more))).elim
      (.identifier (String.ofList (c :: more))) .keyword = Token.Kind.identifier text := h
  have hmore : ∀ d ∈ more, isNameChar d = true := by
    intro d hd
    have hmem : d ∈ (spanWhile isNameChar (s.place.after c) (s.rest.drop 1)).1 := by
      rw [hspan]
      exact hd
    exact of_mem_spanWhile hmem
  have hne : (s.rest.drop 1).head?.any isNameChar = true → more ≠ [] := by
    intro hnext
    have htaken : (spanWhile isNameChar (s.place.after c) (s.rest.drop 1)).1 ≠ [] :=
      spanWhile_ne_nil hnext
    rwa [hspan] at htaken
  cases hword : Keyword.ofWord? (String.ofList (c :: more)) with
  | none =>
    rw [hword] at hkind
    obtain rfl : String.ofList (c :: more) = text := Token.Kind.identifier.inj hkind
    exact ⟨more, rfl, hmore, hne, hword⟩
  | some k =>
    rw [hword] at hkind
    cases hkind

/-- An identifier that is scanned is scanned as a name; a dollar sign is not the whole of one. -/
theorem exists_scanName_of_scanNormal {fuel : Nat}
    (h : (scanNormal source fuel s).1.kind = .identifier text) :
    ∃ c s', (isNameStart c = true ∨ c = '$' ∧ (s'.rest.drop 1).head?.any isNameChar = true) ∧
      (scanName c s').1.kind = .identifier text := by
  induction fuel generalizing s with
  | zero => cases h
  | succ fuel ih =>
    rw [scanNormal] at h
    split at h
    · cases h
    · split at h
      · cases h
      · next c after hrest =>
        split at h
        · exact absurd h (ne_identifier_of_scanText nofun nofun)
        · split at h
          · cases h
          · split at h
            · next hstart =>
              refine ⟨c, _, ?_, h⟩
              simp only [Bool.or_eq_true, Bool.and_eq_true, beq_iff_eq] at hstart
              rw [hrest]
              exact hstart
            · split at h
              · next hsymbol =>
                exact absurd h (ne_identifier_of_scanSymbol (ne_identifier_of_symbol? hsymbol))
              · exact ih h

/-- **An identifier that is scanned** is no reserved word. -/
theorem ofWord?_of_scanNormal {fuel : Nat}
    (h : (scanNormal source fuel s).1.kind = .identifier text) : Keyword.ofWord? text = none := by
  obtain ⟨c, s', -, hname⟩ := exists_scanName_of_scanNormal h
  obtain ⟨more, -, -, -, hword⟩ := of_scanName hname
  exact hword

/-- A text that starts with an identifier starts with what is scanned first. -/
theorem scanNormal_of_run {fuel : Nat} {token : Token} {tokens : List Token} (hs : s.modes = [])
    (hpending : s.pending = none) (hrun : (run source fuel s).1 = token :: tokens)
    (hkind : token.kind = .identifier text) :
    (scanNormal source (s.rest.length + 1) s).1.kind = .identifier text := by
  cases fuel with
  | zero =>
    obtain ⟨rfl, -⟩ := List.cons.inj hrun
    cases hkind
  | succ fuel =>
    rw [run] at hrun
    split at hrun
    · obtain ⟨rfl, -⟩ := List.cons.inj hrun
      cases hkind
    · simp only [hpending, scan, hs] at hrun
      have hfirst : (scanNormal source (s.rest.length + 1) s).1 = token := by
        split at hrun
        · exact (List.cons.inj hrun).1
        · exact (List.cons.inj hrun).1
      rw [hfirst, hkind]

end Scanner

end ParseActions
