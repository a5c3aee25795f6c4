import ParseActions.Proofs.Token.Identifier
import ParseActions.Proofs.Token.Symbols

/-!
# Names that are read back

A text that is written like an identifier and is no reserved word is read as that identifier: the
scan of its first character goes on to its end, and nothing else is found.

## Main definitions

* `Token.IsName`: the texts that are read as identifiers

## Main results

* `Scanner.isName_of_scanNormal`: an identifier that is scanned is such a text
* `Token.lex_of_isName`: the tokens of such a text
-/

namespace ParseActions

open Scanner (isNameStart isNameChar)

/-- A text is written like an identifier: a letter or an underscore, or a dollar sign that is not
alone, and after it letters, digits and underscores. It is no reserved word. -/
structure Token.IsName (text : String) : Prop where
  written : ∃ c more, text = String.ofList (c :: more) ∧
    (isNameStart c = true ∨ c = '$' ∧ more ≠ []) ∧ ∀ d ∈ more, isNameChar d = true
  free : Keyword.ofWord? text = none

theorem Token.IsName.nameShaped {text : String} (h : IsName text) : NameShaped text := by
  obtain ⟨⟨c, more, htext, hc, hmore⟩, -⟩ := h
  exact ⟨c, more, htext, hc.imp_right And.left, hmore⟩

namespace Scanner

variable {source : SourceText} {s : Scanner} {c : Char} {more : List Char}

/-- **An identifier that is scanned** is written like one. -/
theorem isName_of_scanNormal {text : String} {fuel : Nat}
    (h : (scanNormal source fuel s).1.kind = .identifier text) : Token.IsName text := by
  obtain ⟨c, s', hc, hname⟩ := exists_scanName_of_scanNormal h
  obtain ⟨more, htext, hmore, hne, hfree⟩ := of_scanName hname
  exact ⟨⟨c, more, htext, hc.imp_right (And.imp_right hne), hmore⟩, hfree⟩

/-- Characters that all satisfy the test are all taken. -/
theorem spanWhile_of_forall {p : Char → Bool} {cs : List Char} (h : ∀ c ∈ cs, p c = true)
    (place : Position) : ∃ stop, spanWhile p place cs = (cs, [], stop) := by
  induction cs generalizing place with
  | nil => exact ⟨place, rfl⟩
  | cons c cs ih =>
    obtain ⟨hc, hcs⟩ := List.forall_mem_cons.mp h
    obtain ⟨stop, hspan⟩ := ih hcs (place.after c)
    refine ⟨stop, ?_⟩
    rw [spanWhile, if_pos hc, hspan]

/-- A character that starts a name is no blank, and starts no comment, string or number. -/
theorem ne_of_startsName (hc : isNameStart c = true ∨ c = '$') :
    (c ≠ '/' ∧ c ≠ ' ' ∧ c ≠ '\t' ∧ c ≠ '\r') ∧ c ≠ '"' ∧ c.isDigit = false := by
  have hnot (d : Char) (hstart : isNameStart d = false) (hdollar : d ≠ '$') : c ≠ d := by
    rintro rfl
    rcases hc with hc | hc
    · exact Bool.noConfusion (hc.symm.trans hstart)
    · exact hdollar hc
  have hdigits : ∀ k < 58, 48 ≤ k → isNameStart (Char.ofNat k) = false ∧ Char.ofNat k ≠ '$' := by
    decide
  refine ⟨⟨hnot _ rfl (by decide), hnot _ rfl (by decide), hnot _ rfl (by decide),
    hnot _ rfl (by decide)⟩, hnot _ rfl (by decide), Bool.eq_false_iff.mpr fun hdigit => ?_⟩
  obtain ⟨hlow, hhigh⟩ := Char.isDigit_iff_toNat.mp hdigit
  obtain ⟨hstart, hdollar⟩ := hdigits c.toNat (Nat.lt_succ_of_le hhigh) hlow
  exact hnot _ hstart hdollar (Char.ofNat_toNat c).symm

theorem skip_of_startsName (source : SourceText) (hrest : s.rest = c :: more)
    (hc : isNameStart c = true ∨ c = '$') : s.skip source = s := by
  obtain ⟨⟨hslash, hspace, htab, hreturn⟩, -⟩ := ne_of_startsName hc
  obtain ⟨chars, place, modes, pending, errors⟩ := s
  obtain rfl : chars = c :: more := hrest
  have hblanks : skipBlanks .spaces place (c :: more) = (c :: more, place, none) := by
    rw [skipBlanks]
    · simp [hspace, htab, hreturn]
    · exact fun _ h _ => hslash h
    · exact fun _ h _ => hslash h
  rw [skip, hblanks]

/-- The token of a name that goes on to the end of the text. -/
theorem scanName_of_forall (hrest : s.rest = c :: more) (hmore : ∀ d ∈ more, isNameChar d = true)
    (hfree : Keyword.ofWord? (String.ofList (c :: more)) = none) :
    ∃ span stop, s.scanName c = (⟨.identifier (String.ofList (c :: more)), span⟩,
      { s with rest := [], place := stop }) := by
  obtain ⟨stop, hspan⟩ := spanWhile_of_forall hmore (s.place.after c)
  refine ⟨s.place.spanTo stop, stop, ?_⟩
  rw [scanName, hrest, List.drop_one, List.tail_cons, hspan]
  simp only [hfree, Option.elim_none]

theorem find?_of_startsName (source : SourceText) (hrest : s.rest = c :: more)
    (hc : isNameStart c = true ∨ c = '$' ∧ more ≠ []) (hmore : ∀ d ∈ more, isNameChar d = true) :
    s.find? source = some (s.scanName c) := by
  obtain ⟨-, hquote, hdigit⟩ := ne_of_startsName (hc.imp_right And.left)
  have hname : (isNameStart c || (c == '$' && more.head?.any isNameChar)) = true := by
    rcases hc with hc | ⟨rfl, hne⟩
    · simp [hc]
    · obtain ⟨d, more, rfl⟩ := List.exists_cons_of_ne_nil hne
      simp [hmore d List.mem_cons_self]
  rw [find?_of_rest source hrest, if_neg hquote, hdigit, hname]
  rfl

end Scanner

open Scanner

/-- **A name is read as itself**, and nothing else is read. -/
theorem Token.lex_of_isName {source : SourceText} (h : IsName source.text) :
    ∃ span stop, (lex source).1 = [⟨.identifier source.text, span⟩, ⟨.eof, stop⟩] ∧
      (lex source).2.hasErrors = false := by
  obtain ⟨⟨c, more, htext, hc, hmore⟩, hfree⟩ := h
  have hrest : (Scanner.start source).rest = c :: more := by
    rw [Scanner.start, htext, String.toList_ofList]
  have hskip := skip_of_startsName source hrest (hc.imp_right And.left)
  obtain ⟨span, stop, hname⟩ := scanName_of_forall hrest hmore (htext ▸ hfree)
  have hfind : ((Scanner.start source).skip source).find? source =
      some ((Scanner.start source).scanName c) := by
    rw [hskip]
    exact find?_of_startsName source hrest hc hmore
  have hmodes : ∀ outer, (Scanner.start source).modes ≠ .text :: outer :=
    fun outer h => by cases h
  have hclean : ((Scanner.start source).skip source).Clean := hskip.symm ▸ rfl
  -- nothing is left after the name
  let after : Scanner := { Scanner.start source with rest := [], place := stop }
  have hskipped : after.skip source = after := skip_of_nil source rfl
  have hend : after.scan source = (⟨.eof, stop.span⟩, after) := by
    rw [scan_of_modes_nil (congrArg rest hskipped) rfl, hskipped]
  have hlast : Lexes source after [⟨.eof, stop.span⟩] := by
    have hends : Lexes source after [(after.scan source).1] :=
      Lexes.ends rfl (hend ▸ rfl) (hend ▸ rfl)
    rwa [hend] at hends
  have hkind : ((Scanner.start source).scanName c).1.kind ≠ .eof := by
    rw [hname]
    exact fun h => by cases h
  have hlexes := (lexes_iff_of_find? hmodes hclean hfind hkind rfl).mpr
    ⟨_, rfl, by rw [hname]; exact hlast⟩
  rw [hname, ← htext] at hlexes
  exact ⟨span, stop.span, lex_of_lexes hlexes⟩

end ParseActions
