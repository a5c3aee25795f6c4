import ParseActions.Proofs.Token.Symbols

/-!
# Texts between braces

A text between braces on lines of their own is scanned as the text alone is, with the tokens of the
braces and of the two newlines around. What the newline and the brace after the text could be joined to
is reported with them and without them: a string, a hole or a comment that is not closed.

## Main definitions

* `Scanner.closing`: the newline and the closing brace
* `Scanner.Alike`: two scanners with the same text, but for the closing characters of the second
* `SourceText.inBraces`: a text between braces

## Main results

* `Scanner.symbol?_append` and the like: what is scanned does not look past the newline
* `Scanner.scan_alike`: scanners that are alike find alike tokens, or the end of the text
* `Token.lex_inBraces`: the tokens of a text between braces
-/

namespace ParseActions

namespace Scanner

/-- The characters after a text between braces. -/
def closing : List Char :=
  ['\n', '\x7d']

variable {c : Char} {cs rest more : List Char}

theorem eq_cons_of_append (hc : c ≠ '\n') (h : rest ++ closing = c :: more) :
    ∃ more', rest = c :: more' := by
  cases rest with
  | nil => exact absurd (List.cons.inj h).1.symm hc
  | cons d rest => exact ⟨rest, by rw [(List.cons.inj h).1]⟩

/-- What does not start with a character does not with the closing characters after it. -/
theorem append_ne_cons (hc : c ≠ '\n') (h : ∀ more, rest = c :: more → False) :
    ∀ more, rest ++ closing = c :: more → False := by
  rintro more hmore
  obtain ⟨more', hrest⟩ := eq_cons_of_append hc hmore
  exact h more' hrest

/-! ## Blanks -/

/-- What is being skipped, with a comment from another place on. -/
def Blank.at (start : Position) : Blank → Blank
  | .blockComment _ => .blockComment start
  | b => b

/-- Blanks that end at the same point, or do not end. -/
structure BlanksAlike (r r' : List Char × Position × Option Position) : Prop where
  isSome : r'.2.2.isSome = r.2.2.isSome
  rest : r.2.2 = none → r'.1 = r.1 ++ closing

theorem skipBlanks_append (b : Blank) (start' place place' : Position) (cs : List Char) :
    BlanksAlike (skipBlanks b place cs) (skipBlanks (b.at start') place' (cs ++ closing)) := by
  fun_induction skipBlanks b place cs generalizing start' place'
  case case1 => exact ⟨rfl, by simp⟩
  case case2 b _ h =>
    cases b with
    | spaces => exact ⟨rfl, fun _ => rfl⟩
    | lineComment => exact ⟨rfl, fun _ => rfl⟩
    | blockComment start => exact absurd rfl (h start)
  case case3 ih | case9 ih => exact ih start' _
  case case4 ih => exact ih place' _
  case case5 c rest _ _ hblank ih =>
    have hslash : c ≠ '/' := by
      rintro rfl
      simp at hblank
    rw [Blank.at, List.cons_append, skipBlanks, if_pos hblank]
    · exact ih start' _
    · exact fun _ h => absurd h hslash
    · exact fun _ h => absurd h hslash
    · simp
  case case6 c rest hline hblock hblank =>
    rw [Blank.at, List.cons_append, skipBlanks, if_neg hblank]
    · exact ⟨rfl, fun _ => rfl⟩
    · exact fun more hc => append_ne_cons (by decide) (fun _ => hline _ hc) more
    · exact fun more hc => append_ne_cons (by decide) (fun _ => hblock _ hc) more
    · simp
  case case7 => exact ⟨rfl, fun _ => rfl⟩
  case case8 c rest hc ih =>
    rw [Blank.at, List.cons_append, skipBlanks, if_neg hc]
    · exact ih start' _
    · simp
  case case10 c rest hend ih =>
    rw [Blank.at, List.cons_append, skipBlanks]
    · exact ih start' _
    · exact fun more hc => append_ne_cons (by decide) (fun _ => hend _ hc) more

/-! ## Strings -/

/-- The text of a string ends with a quote or a hole, and nothing is reported. -/
def StringText.Fine (t : StringText) : Prop :=
  t.errors.hasErrors = false ∧ t.stop ≠ .unterminated

/-- Texts of strings that are both fine, and then the same, or both not. -/
structure TextsAlike (t t' : StringText) : Prop where
  fine : t'.Fine ↔ t.Fine
  same : t.Fine → t'.text = t.text ∧ t'.stop = t.stop ∧ t'.rest = t.rest ++ closing

theorem textsAlike_of_eq {t t' : StringText} (h : t'.errors.hasErrors = t.errors.hasErrors)
    (htext : t'.text = t.text) (hstop : t'.stop = t.stop) (hrest : t'.rest = t.rest ++ closing) :
    TextsAlike t t' :=
  ⟨by rw [StringText.Fine, StringText.Fine, h, hstop], fun _ => ⟨htext, hstop, hrest⟩⟩

theorem textsAlike_of_not_fine {t t' : StringText} (h : ¬ t.Fine) (h' : ¬ t'.Fine) :
    TextsAlike t t' :=
  ⟨⟨fun hfine => absurd hfine h', fun hfine => absurd hfine h⟩, fun hfine => absurd hfine h⟩

theorem stringText_append (source source' : SourceText) (out : List Char)
    (errors errors' : Diagnostics) (place place' : Position) (cs : List Char)
    (h : errors'.hasErrors = errors.hasErrors) :
    TextsAlike (stringText source out errors place cs)
      (stringText source' out errors' place' (cs ++ closing)) := by
  fun_induction stringText source out errors place cs generalizing errors' place'
  case case1 | case7 => exact textsAlike_of_not_fine (fun h => h.2 rfl) (fun h => h.2 rfl)
  case case2 => exact textsAlike_of_eq h rfl rfl rfl
  case case3 => exact textsAlike_of_eq h rfl rfl rfl
  case case4 =>
    refine textsAlike_of_not_fine (fun h => h.2 rfl) fun h => ?_
    exact h.2 rfl
  case case5 hplain ih =>
    rw [List.cons_append, List.cons_append, stringText]
    simp only [hplain]
    exact ih errors' _ h
  case case6 hplain _ ih =>
    rw [List.cons_append, List.cons_append, stringText]
    simp only [hplain]
    exact ih _ _ (by simp)
  case case8 c rest hquote hhole hend hescape hc ih =>
    have hbackslash : c ≠ '\\' := by
      rintro rfl
      cases rest with
      | nil => exact hend rfl rfl
      | cons d rest => exact hescape d rest rfl rfl
    rw [List.cons_append, stringText, if_neg hc]
    · exact ih errors' _ h
    · exact hquote
    · exact fun more hc => append_ne_cons (by decide) (fun _ => hhole _ hc) more
    · exact fun h => absurd h hbackslash
    · exact fun _ _ h => absurd h hbackslash

/-! ## Symbols, numbers and names -/

theorem symbol?_append (c : Char) (rest : List Char) :
    symbol? (c :: (rest ++ closing)) = symbol? (c :: rest) := by
  rw [symbol?.eq_def (c :: rest)]
  split
  -- symbols that another character may continue
  case h_9 htail heq | h_12 htail heq =>
    obtain ⟨rfl, rfl⟩ := List.cons.inj heq
    rw [List.cons_append, symbol?]
    exact append_ne_cons (by decide) htail
  case h_10 htail htail' heq =>
    obtain ⟨rfl, rfl⟩ := List.cons.inj heq
    rw [symbol?]
    · exact fun more => append_ne_cons (by decide) htail' _
    · exact append_ne_cons (by decide) htail'
  case h_14 htail heq | h_16 htail heq =>
    obtain ⟨rfl, rfl⟩ := List.cons.inj heq
    rw [symbol?]
    exact append_ne_cons (by decide) htail
  -- characters that start no symbol, of which two may be the first of one
  case h_27 =>
    rw [symbol?]
    all_goals
      intro more h
      obtain ⟨rfl, hmore⟩ := List.cons.inj h
      simp only [List.cons.injEq, true_and, forall_eq', Char.reduceEq, false_and, imp_false,
        forall_const] at *
    all_goals
      obtain ⟨_, rfl⟩ := eq_cons_of_append (by decide) hmore
      simp_all only [List.cons.injEq, true_and, forall_eq']
  all_goals
    next heq =>
      obtain ⟨rfl, rfl⟩ := List.cons.inj heq
      rfl

theorem length_le_of_symbol? {kind : Token.Kind} {n : Nat} (h : symbol? cs = some (kind, n)) :
    n ≤ cs.length := by
  rw [symbol?.eq_def] at h
  split at h <;> cases h <;> simp

theorem ne_eof_of_symbol? {kind : Token.Kind} {n : Nat} (h : symbol? cs = some (kind, n)) :
    kind ≠ .eof := by
  rw [symbol?.eq_def] at h
  split at h <;> cases h <;> simp

theorem spanWhile_append {p : Char → Bool} (hp : p '\n' = false) (place place' : Position)
    (cs : List Char) :
    (spanWhile p place' (cs ++ closing)).1 = (spanWhile p place cs).1 ∧
      (spanWhile p place' (cs ++ closing)).2.1 = (spanWhile p place cs).2.1 ++ closing := by
  induction cs generalizing place place' with
  | nil => simp [closing, spanWhile, hp]
  | cons c cs ih =>
    rw [List.cons_append, spanWhile, spanWhile]
    split
    · obtain ⟨htaken, hrest⟩ := ih (place.after c) (place'.after c)
      exact ⟨congrArg (c :: ·) htaken, hrest⟩
    · exact ⟨rfl, rfl⟩

/-! ## Scanners -/

variable {source source' : SourceText} {s s' : Scanner}

/-- Scanners with the same text, but for the closing characters of the second. -/
structure Alike (s s' : Scanner) : Prop where
  rest : s'.rest = s.rest ++ closing
  modes : s'.modes = s.modes
  pending : s'.pending.map Token.kind = s.pending.map Token.kind

/-- Tokens of one kind that are found without a report by scanners that are alike and stay so, or a
report by both. -/
structure ScansAlike (r r' : Token × Scanner) : Prop where
  clean : r'.2.Clean ↔ r.2.Clean
  kind : r.2.Clean → r'.1.kind = r.1.kind ∧ r.1.kind ≠ .eof
  alike : r.2.Clean → Alike r.2 r'.2

theorem skip_alike (source source' : SourceText) (h : Alike s s') (hclean : s'.Clean ↔ s.Clean) :
    ((s'.skip source').Clean ↔ (s.skip source).Clean) ∧
      ((s.skip source).Clean → Alike (s.skip source) (s'.skip source')) := by
  have hblanks : BlanksAlike (skipBlanks .spaces s.place s.rest)
      (skipBlanks .spaces s'.place (s.rest ++ closing)) :=
    skipBlanks_append .spaces .first s.place s'.place s.rest
  rw [skip, skip, h.rest]
  dsimp only
  generalize skipBlanks .spaces s.place s.rest = r at hblanks
  generalize skipBlanks .spaces s'.place (s.rest ++ closing) = r' at hblanks
  obtain ⟨rest, place, unclosed⟩ := r
  obtain ⟨rest', place', unclosed'⟩ := r'
  cases unclosed with
  | none =>
    obtain rfl : unclosed' = none := by simpa using hblanks.isSome
    exact ⟨hclean, fun _ => ⟨hblanks.rest rfl, h.modes, h.pending⟩⟩
  | some start =>
    obtain ⟨start', rfl⟩ := Option.isSome_iff_exists.mp hblanks.isSome
    exact ⟨by simp, fun hdirty => absurd hdirty (not_clean_report _)⟩

/-- A string is scanned without a report if its text is fine. -/
theorem clean_scanText {opened : Position} {outer : List Mode} {whole part : String → Token.Kind} :
    (scanText source opened outer whole part s).2.Clean ↔
      (stringText source [] s.errors s.place s.rest).Fine := by
  rw [scanText]
  dsimp only
  generalize stringText source [] s.errors s.place s.rest = t
  cases hstop : t.stop with
  | unterminated => simp [StringText.Fine, hstop]
  | quote => simp [StringText.Fine, hstop, Clean]
  | hole => simp [StringText.Fine, hstop, Clean]

theorem scanText_alike {opened opened' : Position} {outer : List Mode}
    {whole part : String → Token.Kind} (hwhole : ∀ text, whole text ≠ .eof)
    (hpart : ∀ text, part text ≠ .eof) (h : Alike s s') (hclean : s'.Clean ↔ s.Clean) :
    ScansAlike (scanText source opened outer whole part s)
      (scanText source' opened' outer whole part s') := by
  have herrors : s'.errors.hasErrors = s.errors.hasErrors := by
    rw [Clean, Clean] at hclean
    exact Bool.eq_iff_iff.mpr (by simpa using not_congr hclean)
  have htext :=
    stringText_append source source' [] s.errors s'.errors s.place s'.place s.rest herrors
  have hfound : (stringText source [] s.errors s.place s.rest).Fine →
      ((scanText source' opened' outer whole part s').1.kind =
          (scanText source opened outer whole part s).1.kind ∧
        (scanText source opened outer whole part s).1.kind ≠ .eof) ∧
      Alike (scanText source opened outer whole part s).2
        (scanText source' opened' outer whole part s').2 := by
    intro hfine
    obtain ⟨htext, hstop', hrest⟩ := htext.same hfine
    rw [scanText, scanText, h.rest]
    dsimp only
    generalize stringText source [] s.errors s.place s.rest = t at *
    generalize stringText source' [] s'.errors s'.place (s.rest ++ closing) = t' at *
    cases hstop : t.stop with
    | unterminated => exact absurd hstop hfine.2
    | quote =>
      rw [hstop', hstop, htext]
      exact ⟨⟨rfl, hwhole _⟩, hrest, rfl, h.pending⟩
    | hole =>
      rw [hstop', hstop, htext]
      exact ⟨⟨rfl, hpart _⟩, hrest, rfl, rfl⟩
  refine ⟨?_, fun hfine => (hfound (clean_scanText.mp hfine)).1,
    fun hfine => (hfound (clean_scanText.mp hfine)).2⟩
  rw [clean_scanText, clean_scanText, h.rest]
  exact htext.fine

/-- The digits after the point of a number, if there are any. -/
def scanFraction (place : Position) (cs : List Char) : List Char × List Char × Position :=
  match cs with
  | '.' :: d :: more =>
    if d.isDigit then spanWhile Char.isDigit (place.after '.') (d :: more) else ([], cs, place)
  | _ => ([], cs, place)

theorem scanFraction_append (place place' : Position) (cs : List Char) :
    (scanFraction place' (cs ++ closing)).1 = (scanFraction place cs).1 ∧
      (scanFraction place' (cs ++ closing)).2.1 = (scanFraction place cs).2.1 ++ closing := by
  rw [scanFraction.eq_def place cs]
  split
  · next d more =>
    rw [List.cons_append, List.cons_append, scanFraction]
    split
    · exact spanWhile_append rfl (place.after '.') (place'.after '.') (d :: more)
    · exact ⟨rfl, rfl⟩
  · next hpoint =>
    rcases cs with _ | ⟨c, _ | ⟨d, more⟩⟩
    · exact ⟨rfl, rfl⟩
    · -- a point at the end of the text has a newline after it
      by_cases hc : c = '.'
      · subst hc
        exact ⟨rfl, rfl⟩
      · rw [scanFraction.eq_def]
        split
        · next heq => exact absurd (List.cons.inj heq).1 hc
        · exact ⟨rfl, rfl⟩
    · rw [scanFraction.eq_def]
      split
      · next heq =>
        obtain ⟨rfl, heq⟩ := List.cons.inj heq
        exact absurd rfl (hpoint d more)
      · exact ⟨rfl, rfl⟩

theorem scanNumber_alike (h : Alike s s') (hclean : s'.Clean ↔ s.Clean) :
    ScansAlike s.scanNumber s'.scanNumber := by
  obtain ⟨hwhole, hrest⟩ :=
    spanWhile_append (p := Char.isDigit) rfl s.place s'.place s.rest
  obtain ⟨hfraction, hrest'⟩ := scanFraction_append (spanWhile Char.isDigit s.place s.rest).2.2
    (spanWhile Char.isDigit s'.place s'.rest).2.2 (spanWhile Char.isDigit s.place s.rest).2.1
  rw [← h.rest] at hwhole hrest
  rw [← hrest] at hfraction hrest'
  refine ⟨hclean, fun _ => ⟨?_, nofun⟩, fun _ => ⟨hrest', h.modes, h.pending⟩⟩
  change Token.Kind.number (Double.ofDecimal (Double.digitsValue (_ ++ (scanFraction _ _).1))
    (-((scanFraction _ _).1.length : Int))) = _
  rw [hwhole, hfraction]
  rfl

theorem scanName_alike (hrest : s.rest = c :: rest) (h : Alike s s') (hclean : s'.Clean ↔ s.Clean) :
    ScansAlike (s.scanName c) (s'.scanName c) := by
  have hrest' : s'.rest = c :: (rest ++ closing) := by rw [h.rest, hrest, List.cons_append]
  obtain ⟨hmore, hafter⟩ := spanWhile_append (p := isNameChar) (by decide) (s.place.after c)
    (s'.place.after c) rest
  refine ⟨hclean, fun _ => ⟨?_, ?_⟩, fun _ => ⟨?_, h.modes, h.pending⟩⟩
  · simp only [scanName, hrest, hrest', List.drop_one, List.tail_cons, hmore]
  · simp only [scanName]
    cases Keyword.ofWord? _ <;> simp
  · simp only [scanName, hrest, hrest', List.drop_one, List.tail_cons, hafter]

theorem advance_alike {n : Nat} (hn : n ≤ s.rest.length) (h : Alike s s') :
    Alike (s.advance n) (s'.advance n) := by
  rw [advance_eq, advance_eq]
  refine ⟨?_, h.modes, h.pending⟩
  rw [h.rest]
  exact List.drop_append_of_le_length hn

theorem scanSymbol_alike {kind : Token.Kind} {n : Nat} (hkind : kind ≠ .eof)
    (hn : n ≤ s.rest.length) (h : Alike s s') (hclean : s'.Clean ↔ s.Clean) :
    ScansAlike (scanSymbol kind n s) (scanSymbol kind n s') := by
  have hafter : Alike (s.advance n) (s'.advance n) := advance_alike hn h
  have hclean' : (s'.advance n).Clean ↔ (s.advance n).Clean := by
    rwa [Clean, Clean, errors_advance, errors_advance]
  rw [scanSymbol.eq_def, scanSymbol.eq_def]
  dsimp only
  generalize s.advance n = a at hafter hclean'
  generalize s'.advance n = a' at hafter hclean'
  rw [hafter.modes]
  split
  case h_4 => exact ⟨hclean', fun _ => ⟨rfl, hkind⟩, fun _ => hafter⟩
  all_goals exact ⟨hclean', fun _ => ⟨rfl, by simp⟩, fun _ => ⟨hafter.rest, rfl, hafter.pending⟩⟩

/-- Scanners that are alike find alike tokens, or none, unless the text of the first has ended. -/
theorem find?_alike (source source' : SourceText) (hrest : s.rest = c :: rest) (h : Alike s s')
    (hclean : s'.Clean ↔ s.Clean) :
    Option.Rel ScansAlike (s.find? source) (s'.find? source') := by
  have hrest' : s'.rest = c :: (rest ++ closing) := by rw [h.rest, hrest, List.cons_append]
  have hname : (rest ++ closing).head?.any isNameChar = rest.head?.any isNameChar := by
    cases rest <;> rfl
  have hsymbol : symbol? s'.rest = symbol? s.rest := by rw [hrest', hrest, symbol?_append]
  rw [find?_of_rest source hrest, find?_of_rest source' hrest', hname, hsymbol]
  split
  · have hafter : Alike (s.advance 1) (s'.advance 1) := advance_alike (by simp [hrest]) h
    rw [h.modes]
    have hclean' : (s'.advance 1).Clean ↔ (s.advance 1).Clean := by
      rwa [Clean, Clean, errors_advance, errors_advance]
    exact .some (scanText_alike (by simp) (by simp) hafter hclean')
  · split
    · exact .some (scanNumber_alike h hclean)
    · split
      · exact .some (scanName_alike hrest h hclean)
      · cases hfound : symbol? s.rest with
        | none => exact .none
        | some symbol =>
          exact .some (scanSymbol_alike (ne_eof_of_symbol? hfound) (length_le_of_symbol? hfound) h
            hclean)

theorem scansAlike_of_not_clean {r r' : Token × Scanner} (h : ¬ r.2.Clean) (h' : ¬ r'.2.Clean) :
    ScansAlike r r' :=
  ⟨⟨fun hclean => absurd hclean h', fun hclean => absurd hclean h⟩,
    fun hclean => absurd hclean h, fun hclean => absurd hclean h⟩

/-- Blanks with a report, or characters that start no token, are not scanned without one. -/
theorem not_clean_scan (hmodes : ∀ outer, s.modes ≠ .text :: outer)
    (h : (s.skip source).Clean → (s.skip source).rest ≠ [] ∧ (s.skip source).find? source = none) :
    ¬ (s.scan source).2.Clean := by
  intro hclean
  have hscans := scans_of_clean hclean
  generalize s.scan source = r at hscans
  cases hscans with
  | ends hskip hrest => exact (h hskip).1 hrest
  | finds _ hskip hfind => cases (h hskip).2.symm.trans hfind
  | text htext => exact hmodes _ htext

/-- **Scanners that are alike** find alike tokens, unless the text of the first has ended. -/
theorem scan_alike (source source' : SourceText) (h : Alike s s') (hclean : s'.Clean ↔ s.Clean) :
    ScansAlike (s.scan source) (s'.scan source') ∨
      ((s.skip source).Clean ∧ (s.skip source).rest = [] ∧ ∀ outer, s.modes ≠ .text :: outer) := by
  by_cases htext : ∃ outer, s.modes = .text :: outer
  · obtain ⟨outer, hmodes⟩ := htext
    rw [scan_of_text hmodes, scan_of_text (h.modes.trans hmodes)]
    exact .inl (scanText_alike nofun nofun h hclean)
  · have hmodes : ∀ outer, s.modes ≠ .text :: outer := fun outer hmodes => htext ⟨outer, hmodes⟩
    have hmodes' : ∀ outer, s'.modes ≠ .text :: outer := by rwa [h.modes]
    obtain ⟨hskip, halike⟩ := skip_alike source source' h hclean
    by_cases hs : (s.skip source).Clean
    · cases hrest : (s.skip source).rest with
      | nil => exact .inr ⟨hs, rfl, hmodes⟩
      | cons c rest =>
        refine .inl ?_
        have hrest' := (halike hs).rest
        rw [hrest] at hrest'
        have hfind := find?_alike source source' hrest (halike hs) hskip
        generalize hfound : (s.skip source).find? source = found at hfind
        generalize hfound' : (s'.skip source').find? source' = found' at hfind
        cases hfind with
        | none =>
          exact scansAlike_of_not_clean
            (not_clean_scan hmodes fun _ => ⟨by rw [hrest]; nofun, hfound⟩)
            (not_clean_scan hmodes' fun _ => ⟨by rw [hrest']; nofun, hfound'⟩)
        | some hfind =>
          rwa [scan_of_find? hmodes hs hfound, scan_of_find? hmodes' (hskip.mpr hs) hfound']
    · exact .inl (scansAlike_of_not_clean (not_clean_scan hmodes fun hclean => absurd hclean hs)
        (not_clean_scan hmodes' fun hclean => absurd (hskip.mp hclean) hs))

/-! ## The ends of texts -/

variable {ts ts' : List Token} {outer : List Mode}

theorem Lexes.clean_scan (h : Lexes source s ts) (hpending : s.pending = none) :
    (s.scan source).2.Clean := by
  cases h with
  | ends _ hclean => exact hclean
  | token _ _ h => exact h.clean
  | mark hmark => cases hpending.symm.trans hmark

/-- What is open where the text ends is reported. -/
theorem not_lexes_of_nil (hrest : s.rest = []) (hmodes : s.modes ≠ [])
    (hpending : s.pending = none) : ¬ Lexes source s ts := by
  intro h
  have hclean := h.clean_scan hpending
  have hscans := scans_of_clean hclean
  generalize s.scan source = r at hclean hscans
  cases hscans with
  | ends _ _ hnone => exact hmodes hnone
  | finds _ _ hfind =>
    rw [skip_of_nil source hrest] at hfind
    cases (find?_of_nil source hrest).symm.trans hfind
  | text =>
    rw [clean_scanText, hrest] at hclean
    exact hclean.2 rfl

/-- Where the text has ended without a report, nothing is open, and there is no token. -/
theorem scan_of_skip_nil (hmodes : ∀ outer, s.modes ≠ .text :: outer)
    (hrest : (s.skip source).rest = []) (h : (s.scan source).2.Clean) :
    s.modes = [] ∧ (s.scan source).1.kind = .eof := by
  have hscans := scans_of_clean h
  generalize s.scan source = r at hscans
  cases hscans with
  | ends _ _ hnone => exact ⟨hnone, rfl⟩
  | finds _ _ hfind => cases (find?_of_nil source hrest).symm.trans hfind
  | text htext => exact absurd htext (hmodes _)

theorem kind_scanSymbol_ne_eof (kind : Token.Kind) (n : Nat) (s : Scanner) (hkind : kind ≠ .eof) :
    (scanSymbol kind n s).1.kind ≠ .eof := by
  rw [scanSymbol.eq_def]
  dsimp only
  split
  · simp
  · simp
  · simp
  · exact hkind

theorem modes_scanSymbol_ne_nil (h : s.modes ≠ []) (kind : Token.Kind) (n : Nat) :
    (scanSymbol kind n s).2.modes ≠ [] := by
  rw [scanSymbol.eq_def]
  dsimp only
  split
  · simp
  · simp
  · simp
  · rwa [modes_advance]

theorem rest_scanSymbol (kind : Token.Kind) (n : Nat) (s : Scanner) :
    (scanSymbol kind n s).2.rest = s.rest.drop n := by
  have htext : (scanSymbol kind n s).2.rest = (s.advance n).rest :=
    congrArg Prod.snd (text_scanSymbol kind n s)
  rw [htext, advance_eq]

theorem scanSymbol_newline (s : Scanner) :
    scanSymbol .newline 1 s = (⟨.newline, s.place.spanTo (s.advance 1).place⟩, s.advance 1) :=
  rfl

/-- Where nothing is open the closing characters are a newline and a brace. -/
theorem exists_lexes_closing (hskip : (s.skip source).Clean)
    (hrest : (s.skip source).rest = closing) (hmodes : s.modes = []) (hpending : s.pending = none) :
    ∃ ts, Lexes source s ts ∧ ts.map Token.kind = [.newline, .symbol .rightBrace, .eof] := by
  have hfind := marks_newline.find?_eq source (s.skip source) _ hrest
  rw [scanSymbol_newline] at hfind
  have hbrace : ((s.skip source).advance 1).rest =
      [('\x7d', Token.Kind.symbol .rightBrace)].map Prod.fst := by
    rw [advance_eq, hrest]
    rfl
  obtain ⟨ts, hts, hkinds⟩ : ∃ ts, Lexes source ((s.skip source).advance 1) ts ∧ _ :=
    exists_lexes_of_marks (List.forall_mem_singleton.mpr marks_rightBrace) hbrace
      ((modes_advance 1 _).trans (modes_skip.trans hmodes))
      ((pending_advance 1).trans (pending_skip.trans hpending)) (by rwa [Clean, errors_advance])
  have hlexes := (lexes_iff_of_find? (by simp [hmodes]) hskip hfind (by simp) hpending).mpr
    ⟨ts, rfl, hts⟩
  exact ⟨_, hlexes, by rw [List.map_cons, hkinds]; rfl⟩

/-- Where a hole is open they do not close the string. -/
theorem not_lexes_closing (hskip : (s.skip source).Clean)
    (hrest : (s.skip source).rest = closing) (hmodes : s.modes ≠ []) (htext : ∀ outer, s.modes ≠ .text :: outer)
    (hpending : s.pending = none) : ¬ Lexes source s ts := by
  have hfind := marks_newline.find?_eq source (s.skip source) _ hrest
  rw [scanSymbol_newline] at hfind
  rw [lexes_iff_of_find? htext hskip hfind nofun hpending]
  rintro ⟨ts', -, h⟩
  have hmodes' : ((s.skip source).advance 1).modes = s.modes := (modes_advance 1 _).trans modes_skip
  have hpending' : ((s.skip source).advance 1).pending = none :=
    (pending_advance 1).trans (pending_skip.trans hpending)
  have hbrace : ((s.skip source).advance 1).rest = ['\x7d'] := by
    rw [advance_eq, hrest]
    rfl
  dsimp only at h
  generalize (s.skip source).advance 1 = s₁ at h hmodes' hpending' hbrace
  have hskip₁ : s₁.skip source = s₁ := marks_rightBrace.skip_eq source s₁ _ hbrace
  have hfind₁ := marks_rightBrace.find?_eq source s₁ _ hbrace
  rw [lexes_iff_of_find? (by rwa [hmodes']) (by rw [hskip₁]; exact h.clean) (by rwa [hskip₁])
    (kind_scanSymbol_ne_eof (.symbol .rightBrace) 1 _ nofun) hpending'] at h
  obtain ⟨ts'', -, h⟩ := h
  refine not_lexes_of_nil ?_ (modes_scanSymbol_ne_nil (by rwa [hmodes']) _ 1)
    (pending_scanSymbol.trans hpending') h
  rw [rest_scanSymbol, hbrace]
  rfl

/-! ## Texts -/

theorem Alike.pending_eq_none (h : Alike s s') : s'.pending = none ↔ s.pending = none := by
  rw [← Option.map_eq_none_iff (f := Token.kind), h.pending, Option.map_eq_none_iff]

/-- A scanner that is alike has the closing characters left where the text has ended. -/
theorem Alike.rest_skip (source' : SourceText) (h : Alike s s') (hclean : s'.Clean ↔ s.Clean)
    (hskip : (s.skip source).Clean) (hrest : (s.skip source).rest = []) :
    (s'.skip source').Clean ∧ (s'.skip source').rest = closing := by
  obtain ⟨hskip', halike⟩ := skip_alike source source' h hclean
  exact ⟨hskip'.mpr hskip, by rw [(halike hskip).rest, hrest, List.nil_append]⟩

theorem Lexes.ne_nil (h : Lexes source s ts) : ts ≠ [] := by
  cases h <;> nofun

/-- **The tokens of a text** with the closing characters after it are those of the text, a newline
and a brace. -/
theorem Lexes.append (h : Lexes source s ts) (halike : Alike s s') (hclean : s'.Clean) :
    ∃ ts', Lexes source' s' ts' ∧ ts'.map Token.kind =
      ts.dropLast.map Token.kind ++ [.newline, .symbol .rightBrace, .eof] := by
  -- both scanners go round by round and stay alike; only the last token of the first is replaced
  induction h generalizing s' with
  | @ends s hpending hscan hkind =>
    have hboth : s'.Clean ↔ s.Clean := iff_of_true hclean hscan.of_scan
    rcases scan_alike source source' halike hboth with hfound | ⟨hskip, hrest, htext⟩
    · exact absurd hkind (hfound.kind hscan).2
    · obtain ⟨hmodes, -⟩ := scan_of_skip_nil htext hrest hscan
      obtain ⟨hskip', hrest'⟩ := halike.rest_skip source' hboth hskip hrest
      exact exists_lexes_closing hskip' hrest' (halike.modes.trans hmodes)
        (halike.pending_eq_none.mpr hpending)
  | @token s ts hpending hkind h ih =>
    have hscan := h.clean
    have hboth : s'.Clean ↔ s.Clean := iff_of_true hclean hscan.of_scan
    rcases scan_alike source source' halike hboth with hfound | ⟨-, hrest, htext⟩
    · obtain ⟨hsame, -⟩ := hfound.kind hscan
      obtain ⟨ts', hts', hkinds⟩ := ih (hfound.alike hscan) (hfound.clean.mpr hscan)
      refine ⟨_, .token (halike.pending_eq_none.mpr hpending) (hsame ▸ hkind) hts', ?_⟩
      rw [List.map_cons, hkinds, hsame, List.dropLast_cons_of_ne_nil h.ne_nil]
      rfl
    · exact absurd (scan_of_skip_nil htext hrest hscan).2 hkind
  | @mark s t ts hpending h ih =>
    have hmark := halike.pending
    rw [hpending] at hmark
    obtain ⟨t', hpending', hsame⟩ := Option.map_eq_some_iff.mp hmark
    have hafter : Alike { s with pending := none } { s' with pending := none } :=
      ⟨halike.rest, halike.modes, rfl⟩
    obtain ⟨ts', hts', hkinds⟩ := ih hafter hclean
    refine ⟨_, .mark hpending' hts', ?_⟩
    rw [List.map_cons, hkinds, hsame, List.dropLast_cons_of_ne_nil h.ne_nil]
    rfl

/-- Where there is no report on a text with the closing characters, there is none on the text. -/
theorem Lexes.exists_of_append (h : Lexes source' s' ts') (halike : Alike s s') (hclean : s.Clean) :
    ∃ ts, Lexes source s ts := by
  induction h generalizing s with
  | @ends s' hpending hscan hkind =>
    have hboth : s'.Clean ↔ s.Clean := iff_of_true hscan.of_scan hclean
    rcases scan_alike source source' halike hboth with hfound | ⟨hskip, hrest, htext⟩
    · obtain ⟨hsame, hne⟩ := hfound.kind (hfound.clean.mp hscan)
      exact absurd (hsame.symm.trans hkind) hne
    · -- the newline is still to come, so this is not the end of the longer text
      obtain ⟨hskip', hrest'⟩ := halike.rest_skip source' hboth hskip hrest
      rw [scan_of_find? (by rwa [halike.modes]) hskip'
        (marks_newline.find?_eq source' _ _ hrest')] at hkind
      cases hkind
  | @token s' ts' hpending hkind h ih =>
    have hscan := h.clean
    have hpending' : s.pending = none := halike.pending_eq_none.mp hpending
    have hboth : s'.Clean ↔ s.Clean := iff_of_true hscan.of_scan hclean
    rcases scan_alike source source' halike hboth with hfound | ⟨hskip, hrest, htext⟩
    · have hscan' := hfound.clean.mp hscan
      obtain ⟨ts, hts⟩ := ih (hfound.alike hscan') hscan'
      exact ⟨_, .token hpending' (hfound.kind hscan').2 hts⟩
    · obtain ⟨hskip', hrest'⟩ := halike.rest_skip source' hboth hskip hrest
      by_cases hmodes : s.modes = []
      · have hend := scan_of_modes_nil hrest hmodes
        exact ⟨_, .ends hpending' (by rwa [hend]) (by rw [hend])⟩
      · -- the closing characters are tokens of the hole, which stays open
        have hlexes := Lexes.token hpending hkind h
        exact absurd hlexes (not_lexes_closing hskip' hrest' (by rwa [halike.modes])
          (by rwa [halike.modes]) hpending)
  | @mark s' t' ts' hpending h ih =>
    have hmark := halike.pending
    rw [hpending] at hmark
    obtain ⟨t, hpending', -⟩ := Option.map_eq_some_iff.mp hmark.symm
    have hafter : Alike { s with pending := none } { s' with pending := none } :=
      ⟨halike.rest, halike.modes, rfl⟩
    obtain ⟨ts, hts⟩ := ih hafter hclean
    exact ⟨_, .mark hpending' hts⟩

/-! ## Texts between braces -/

/-- A brace and a newline at the start of a text where nothing is open. -/
theorem exists_opened (source : SourceText) (hrest : s.rest = '\x7b' :: '\n' :: rest)
    (hmodes : s.modes = []) (hpending : s.pending = none) (hclean : s.Clean) :
    ∃ opening newline s', opening.kind = .symbol .leftBrace ∧ newline.kind = .newline ∧
      s'.rest = rest ∧ s'.modes = [] ∧ s'.pending = none ∧ s'.Clean ∧
      ∀ ts, Lexes source s ts ↔ ∃ ts', ts = opening :: newline :: ts' ∧ Lexes source s' ts' := by
  have hrest₁ : (s.advance 1).rest = '\n' :: rest := by
    rw [advance_eq, hrest]
    rfl
  have hmodes₁ : (s.advance 1).modes = [] := (modes_advance 1 s).trans hmodes
  have hpending₁ : (s.advance 1).pending = none := (pending_advance 1).trans hpending
  have hclean₁ : (s.advance 1).Clean := by rwa [Clean, errors_advance]
  let opening : Token := ⟨.symbol .leftBrace, s.place.spanTo (s.advance 1).place⟩
  let newline : Token :=
    ⟨.newline, (s.advance 1).place.spanTo ((s.advance 1).advance 1).place⟩
  refine ⟨opening, newline, (s.advance 1).advance 1, rfl, rfl, ?_,
    (modes_advance 1 _).trans hmodes₁, (pending_advance 1).trans hpending₁,
    by rwa [Clean, errors_advance], fun ts => ?_⟩
  · rw [advance_eq, hrest₁]
    rfl
  · rw [marks_leftBrace.lexes_iff hrest hmodes hpending hclean]
    simp only [marks_newline.lexes_iff hrest₁ hmodes₁ hpending₁ hclean₁]
    constructor
    · rintro ⟨_, rfl, ts', rfl, h⟩
      exact ⟨ts', rfl, h⟩
    · rintro ⟨ts', rfl, h⟩
      exact ⟨_, rfl, ts', rfl, h⟩

end Scanner

/-- A text between braces on lines of their own. -/
def SourceText.inBraces (source : SourceText) : SourceText :=
  { source with text := "\x7b\n" ++ source.text ++ "\n\x7d" }

namespace Token

open Scanner

variable {source : SourceText}

/-- **The tokens of a text between braces** are those of the text, with a brace and a newline before
them and a newline and a brace after them; there are reports on it just if there are on the text. -/
theorem lex_inBraces (source : SourceText) :
    ((lex source.inBraces).2.hasErrors = false ↔ (lex source).2.hasErrors = false) ∧
      ((lex source).2.hasErrors = false →
        (lex source.inBraces).1.map Token.kind = .symbol .leftBrace :: .newline ::
          ((lex source).1.dropLast.map Token.kind ++ [.newline, .symbol .rightBrace, .eof])) := by
  have hrest : (Scanner.start source.inBraces).rest =
      '\x7b' :: '\n' :: ((Scanner.start source).rest ++ closing) := by
    simp [Scanner.start, SourceText.inBraces, closing]
  obtain ⟨opening, newline, s', hopening, hnewline, hrest', hmodes, hpending, hclean, hlexes⟩ :=
    exists_opened source.inBraces hrest rfl rfl rfl
  have halike : Alike (.start source) s' := ⟨hrest', hmodes, by rw [hpending]; rfl⟩
  have hlex : (lex source).2.hasErrors = false →
      (lex source.inBraces).2.hasErrors = false ∧
        (lex source.inBraces).1.map Token.kind = .symbol .leftBrace :: .newline ::
          ((lex source).1.dropLast.map Token.kind ++ [.newline, .symbol .rightBrace, .eof]) := by
    intro h
    obtain ⟨ts, hts, hkinds⟩ := (lexes_lex h).append halike hclean
    obtain ⟨htokens, hreports⟩ := lex_of_lexes ((hlexes _).mpr ⟨ts, rfl, hts⟩)
    refine ⟨hreports, ?_⟩
    rw [htokens, List.map_cons, List.map_cons, hopening, hnewline, hkinds]
  refine ⟨⟨fun h => ?_, fun h => (hlex h).1⟩, fun h => (hlex h).2⟩
  obtain ⟨ts, -, hts⟩ := (hlexes _).mp (lexes_lex h)
  obtain ⟨ts', hts'⟩ := hts.exists_of_append halike rfl
  exact (lex_of_lexes hts').2

end Token

end ParseActions
