import ParseActions.Proofs.Body.Block
import ParseActions.Proofs.Body.Erasure
import ParseActions.Proofs.Token.Braces

/-!
# Braces around statements

To read a text as the statements of a block is to read it as a block with braces around it that stand
on lines of their own. The newlines next to the braces are separators, before the first statement and
after the last, so the statements are the same; only their places differ.

## Main definitions

* `Fills`: statements that fill the room between a pair of braces

## Main results

* `Fills.cons_iff`, `Fills.concat_iff`: separators next to the braces make no difference
* `Parsed.statements_iff_block_inBraces`: statements are those of the block in braces
-/

namespace ParseActions

open Parse
open Token (Separators StartWith EndApart content nextKind IsStream)

variable {d : Nat} {inner ts us separators : List Token}
  {opening closing newline newline' t : Token} {stmt : Stmt} {stmts : List Stmt} {b : Block}

/-! ## Separators after statements -/

namespace Derives

/-- A statement ends with a token of its own. -/
theorem endApart_of_statement (h : Derives .statement d ts stmt) : EndApart ts := by
  cases h with
  | bind _ _ _ _ h =>
    have hend : EndApart _ := h.closes
    exact (((hend.after _).cons _).cons _).cons _
  | conditional h => exact h.closes
  | evaluation h => exact h.closes
  | loop _ _ _ _ _ h =>
    have hend : EndApart _ := h.closes
    exact ((((hend.after _).cons _).after _).cons _).cons _
  | leave ht => exact .singleton (by rw [ht]; rfl)
  | leaveWith _ h | throwing _ h =>
    have hend : EndApart _ := h.closes
    exact hend.cons _
  | assertion _ h hmessage =>
    have hend : EndApart _ := h.closes
    refine (hend.append ?_).cons _
    cases hmessage with
    | nothing => exact .inl rfl
    | text _ ht => exact .inr ((EndApart.singleton (by rw [ht]; rfl)).cons _)

/-- More separators may follow the last statement. -/
theorem statements_append (h : Derives .statements d ts (stmt :: stmts))
    (hseparators : Separators separators) :
    Derives .statements d (ts ++ separators) (stmt :: stmts) := by
  induction stmts generalizing stmt ts with
  | nil =>
    cases h with
    | @statementsCons _ ts between us _ _ hstmt hbetween hrest =>
      -- nothing follows the last statement but separators, and there may be more of them
      obtain rfl : us = [] := by cases hrest; rfl
      have hmore : Separators (between ++ separators) :=
        List.forall_mem_append.mpr ⟨hbetween, hseparators⟩
      simpa using statementsCons hstmt hmore statementsNil (.inr rfl)
  | cons next stmts ih =>
    cases h with
    | @statementsCons _ ts between us _ _ hstmt hbetween hrest hapart =>
      have hus : us ≠ [] := by
        -- the next statement has a token
        rintro rfl
        generalize hnil : ([] : List Token) = tokens at hrest
        cases hrest with
        | statementsCons h =>
          obtain ⟨front, last, rfl, -⟩ := h.endApart_of_statement
          simp at hnil
      have hapart' : between ≠ [] ∨ us ++ separators = [] := .inl (hapart.resolve_right hus)
      simpa using statementsCons hstmt hbetween (ih hrest) hapart'

/-- The last of the separators after statements may be left out. -/
theorem statements_of_concat (h : Derives .statements d (ts ++ [t]) stmts)
    (ht : t.kind.isSeparator = Bool.true) : Derives .statements d ts stmts := by
  induction stmts generalizing ts with
  | nil =>
    generalize htokens : ts ++ [t] = tokens at h
    cases h
    simp at htokens
  | cons stmt stmts ih =>
    generalize htokens : ts ++ [t] = tokens at h
    cases h with
    | @statementsCons _ front between us _ _ hstmt hbetween hrest hapart =>
      -- the token is the last of the other statements, or else of the separators before them
      rcases List.eq_nil_or_concat us with rfl | ⟨us, u, rfl⟩
      · rcases List.eq_nil_or_concat between with rfl | ⟨between, u, rfl⟩
        · obtain ⟨own, last, rfl, hlast⟩ := hstmt.endApart_of_statement
          have hsplit : ts ++ [t] = own ++ [last] := by simpa using htokens
          obtain rfl : t = last := List.singleton_inj.mp (List.append_inj' hsplit rfl).2
          exact Bool.noConfusion (ht.symm.trans (Token.Kind.isSeparator_of_isContent hlast))
        · have hsplit : ts ++ [t] = (front ++ between) ++ [u] := by simpa using htokens
          obtain rfl : ts = front ++ between := (List.append_inj' hsplit rfl).1
          rw [List.concat_eq_append] at hbetween
          have hfewer : Separators between := (List.forall_mem_append.mp hbetween).1
          simpa using statementsCons hstmt hfewer hrest (.inr rfl)
      · have hsplit : ts ++ [t] = (front ++ (between ++ us)) ++ [u] := by simpa using htokens
        obtain ⟨rfl, hlast⟩ := List.append_inj' hsplit rfl
        obtain rfl : t = u := List.singleton_inj.mp hlast
        have hapart' : between ≠ [] := hapart.resolve_right (by simp)
        exact statementsCons hstmt hbetween (ih (by simpa using hrest)) (.inl hapart')

end Derives

/-! ## Blocks -/

/-- Statements fill the room between a pair of braces, up to separators before and after them. -/
def Fills (d : Nat) (inner : List Token) (stmts : List Stmt) : Prop :=
  ∃ before ts, inner = before ++ ts ∧ Separators before ∧ Derives .statements d ts stmts

namespace Fills

/-- A separator after the opening brace makes no difference. -/
theorem cons_iff (ht : t.kind.isSeparator = true) :
    Fills d (t :: inner) stmts ↔ Fills d inner stmts := by
  constructor
  · rintro ⟨before, ts, hinner, hbefore, hts⟩
    cases before with
    | nil =>
      -- statements do not start with a separator
      obtain rfl : t :: inner = ts := hinner
      rcases hts.startsStatement_or_nil with hnil | hstart
      · cases hnil
      · have hfalse := hstart.isSeparator_nextKind_self rfl rfl
        exact Bool.noConfusion (ht.symm.trans hfalse)
    | cons u before =>
      obtain ⟨-, rfl⟩ := List.cons.inj hinner
      exact ⟨before, ts, rfl, (List.forall_mem_cons.mp hbefore).2, hts⟩
  · rintro ⟨before, ts, rfl, hbefore, hts⟩
    exact ⟨t :: before, ts, rfl, List.forall_mem_cons.mpr ⟨ht, hbefore⟩, hts⟩

/-- A separator before the closing brace makes no difference. -/
theorem concat_iff (ht : t.kind.isSeparator = true) :
    Fills d (inner ++ [t]) stmts ↔ Fills d inner stmts := by
  constructor
  · rintro ⟨before, ts, hinner, hbefore, hts⟩
    rcases List.eq_nil_or_concat ts with rfl | ⟨ts, u, rfl⟩
    · obtain rfl : inner ++ [t] = before := by simpa using hinner
      exact ⟨inner, [], by simp, (List.forall_mem_append.mp hbefore).1, hts⟩
    · have hsplit : inner ++ [t] = (before ++ ts) ++ [u] := by simpa using hinner
      obtain ⟨rfl, hlast⟩ := List.append_inj' hsplit rfl
      obtain rfl : t = u := List.singleton_inj.mp hlast
      exact ⟨before, ts, rfl, hbefore, Derives.statements_of_concat (by simpa using hts) ht⟩
  · rintro ⟨before, ts, rfl, hbefore, hts⟩
    have hafter : Separators [t] := List.forall_mem_singleton.mpr ht
    -- without statements the separator is one of those after the opening brace
    cases stmts with
    | nil =>
      obtain rfl : ts = [] := by cases hts; rfl
      have hmore : Separators (before ++ [t]) := List.forall_mem_append.mpr ⟨hbefore, hafter⟩
      exact ⟨before ++ [t], [], by simp, hmore, hts⟩
    | cons stmt stmts =>
      exact ⟨before, ts ++ [t], by simp, hbefore, hts.statements_append hafter⟩

end Fills

namespace Derives

/-- A block is a pair of braces around what statements fill. -/
theorem block_iff :
    Derives .block d (opening :: (inner ++ [closing])) b ↔
      opening.kind = .symbol .leftBrace ∧ closing.kind = .symbol .rightBrace ∧
        ∃ stmts, b = .mk (opening.span.merge closing.span) stmts ∧ Fills d inner stmts := by
  constructor
  · intro h
    generalize htokens : opening :: (inner ++ [closing]) = tokens at h
    cases h with
    | @block _ left right separators ts stmts hopening hseparators hstmts hclosing =>
      obtain ⟨rfl, hinner⟩ := List.cons.inj htokens
      have hsplit : inner ++ [closing] = (separators ++ ts) ++ [right] := by simpa using hinner
      obtain ⟨rfl, hlast⟩ := List.append_inj' hsplit rfl
      obtain rfl : closing = right := List.singleton_inj.mp hlast
      exact ⟨hopening, hclosing, stmts, rfl, separators, ts, rfl, hseparators, hstmts⟩
  · rintro ⟨hopening, hclosing, stmts, rfl, before, ts, rfl, hbefore, hstmts⟩
    simpa using block hopening hbefore hstmts hclosing

/-- Newlines next to the braces of a block make no difference. -/
theorem block_newlines_iff (hnewline : newline.kind = .newline)
    (hnewline' : newline'.kind = .newline) :
    Derives .block d (opening :: (newline :: (inner ++ [newline']) ++ [closing])) b ↔
      Derives .block d (opening :: (inner ++ [closing])) b := by
  rw [block_iff, block_iff]
  simp only [Fills.cons_iff (t := newline) (by rw [hnewline]; rfl),
    Fills.concat_iff (t := newline') (by rw [hnewline']; rfl)]

end Derives

/-! ## Texts between braces -/

namespace Parsed

variable {source : SourceText} {last : Token}

/-- The content of a text between braces is that of the text, with a newline next to each brace. -/
theorem exists_content_lex_inBraces (hclean : (Token.lex source).2.hasErrors = false)
    (htokens : (Token.lex source).1 = inner ++ [last]) :
    ∃ opening newline inner' newline' closing,
      content (Token.lex source.inBraces).1 =
        opening :: (newline :: (inner' ++ [newline']) ++ [closing]) ∧
      opening.kind = .symbol .leftBrace ∧ newline.kind = .newline ∧
      inner'.map Token.kind = inner.map Token.kind ∧ newline'.kind = .newline ∧
      closing.kind = .symbol .rightBrace := by
  have hkinds := (Token.lex_inBraces source).2 hclean
  rw [htokens, List.dropLast_concat] at hkinds
  obtain ⟨opening, us, hstream, hopening, hus⟩ := List.map_eq_cons_iff.mp hkinds
  obtain ⟨newline, us, rfl, hnewline, hus⟩ := List.map_eq_cons_iff.mp hus
  obtain ⟨inner', us, rfl, hinner, hus⟩ := List.map_eq_append_iff.mp hus
  obtain ⟨newline', us, rfl, hnewline', hus⟩ := List.map_eq_cons_iff.mp hus
  obtain ⟨closing, us, rfl, hclosing, hus⟩ := List.map_eq_cons_iff.mp hus
  obtain ⟨last', us, rfl, -, hus⟩ := List.map_eq_cons_iff.mp hus
  obtain rfl : us = [] := List.map_eq_nil_iff.mp hus
  refine ⟨opening, newline, inner', newline', closing, ?_, hopening, hnewline, hinner, hnewline',
    hclosing⟩
  let block := opening :: (newline :: (inner' ++ [newline']) ++ [closing])
  have hstart : (nextKind block).isSeparator = false := by
    rw [Token.nextKind_cons, hopening]
    rfl
  have hend : EndApart block := ((EndApart.singleton (by rw [hclosing]; rfl)).after _).cons _
  have hcontent : content (block ++ [last']) = block := Token.content_concat hstart hend
  rw [hstream]
  simpa [block] using hcontent

/-- A text between braces derives the same blocks as its tokens do between braces, up to spans. -/
theorem derives_inBraces (hclean : (Token.lex source).2.hasErrors = false) :
    (∀ b, Derives .block d (content (inBraces (Token.lex source).1)) b →
      ∃ b', Derives .block d (content (Token.lex source.inBraces).1) b' ∧ b'.bare = b.bare) ∧
    ∀ b', Derives .block d (content (Token.lex source.inBraces).1) b' →
      ∃ b, Derives .block d (content (inBraces (Token.lex source).1)) b ∧ b.bare = b'.bare := by
  obtain ⟨inner, last, htokens, -, -⟩ := Token.isStream_lex source
  obtain ⟨opening, newline, inner', newline', closing, hcontent, hopening, hnewline, hinner,
    hnewline', hclosing⟩ := exists_content_lex_inBraces hclean htokens
  rw [htokens, content_inBraces, hcontent]
  -- the newlines are put next to the braces of the one block, which then has the kinds of the other
  have hkinds : (opening :: (newline :: (inner' ++ [newline']) ++ [closing])).map Token.kind =
      ((⟨.symbol .leftBrace, .point 1 1⟩ : Token) :: (newline :: (inner ++ [newline']) ++
        [⟨.symbol .rightBrace, last.span⟩])).map Token.kind := by
    simp [hopening, hinner, hclosing]
  constructor
  · intro b hb
    exact ((Derives.block_newlines_iff hnewline hnewline').mpr hb).rederives hkinds
  · intro b' hb'
    obtain ⟨b, hb, hbare⟩ := hb'.rederives hkinds.symm
    exact ⟨b, (Derives.block_newlines_iff hnewline hnewline').mp hb, hbare⟩

theorem map_bare_stmts {b b' : Block} (h : b.bare = b'.bare) :
    b.stmts.map Stmt.bare = b'.stmts.map Stmt.bare := by
  cases b
  cases b'
  simpa [Block.bare, Block.stmts] using h

/-- **To read a text as statements** is to read it as a block with braces around it that stand on
lines of their own: both give a body or none does, and the statements are the same up to their places.
-/
theorem statements_iff_block_inBraces (source : SourceText) :
    ((statements source).body.isSome ↔ (block source.inBraces).body.isSome) ∧
      ∀ body body', (statements source).body = some body →
        (block source.inBraces).body = some body' →
        ∃ b b', body = .block b ∧ body' = .block b' ∧
          b.stmts.map Stmt.bare = b'.stmts.map Stmt.bare := by
  have hreports := (Token.lex_inBraces source).1
  have hinto : ∀ body, (statements source).body = some body → ∃ b b', body = .block b ∧
      (block source.inBraces).body = some (.block b') ∧ b'.bare = b.bare := by
    intro body hbody
    obtain ⟨hclean, b, rfl, hb⟩ := (statements_body_iff source body).mp hbody
    obtain ⟨b', hb', hbare⟩ := (derives_inBraces hclean).1 b hb
    exact ⟨b, b', rfl, (block_body_iff _ _).mpr ⟨hreports.mpr hclean, b', rfl, hb'⟩, hbare⟩
  have hfrom : ∀ body', (block source.inBraces).body = some body' →
      ∃ b, (statements source).body = some (.block b) := by
    intro body' hbody'
    obtain ⟨hclean, b', rfl, hb'⟩ := (block_body_iff source.inBraces body').mp hbody'
    obtain ⟨b, hb, -⟩ := (derives_inBraces (hreports.mp hclean)).2 b' hb'
    exact ⟨b, (statements_body_iff _ _).mpr ⟨hreports.mp hclean, b, rfl, hb⟩⟩
  refine ⟨?_, fun body body' hbody hbody' => ?_⟩
  · simp only [Option.isSome_iff_exists]
    constructor
    · rintro ⟨body, hbody⟩
      obtain ⟨-, b', -, hb', -⟩ := hinto body hbody
      exact ⟨_, hb'⟩
    · rintro ⟨body', hbody'⟩
      obtain ⟨b, hb⟩ := hfrom body' hbody'
      exact ⟨_, hb⟩
  · obtain ⟨b, b', rfl, hb', hbare⟩ := hinto body hbody
    exact ⟨b, b', rfl, Option.some.inj (hbody'.symm.trans hb'), (map_bare_stmts hbare).symm⟩

/-- Statements with a semicolon after the last, and a comment at the end of the text. -/
theorem statements_iff_block_inBraces_comment :
    let source : SourceText := ⟨"Num.value", "let a = 1\nreturn a; // done"⟩
    ∃ b b', (statements source).body = some (.block b) ∧
      (block source.inBraces).body = some (.block b') ∧
      b.stmts.map Stmt.bare = b'.stmts.map Stmt.bare := by
  intro source
  have hread : (statements source).body.isSome := by decide +kernel
  obtain ⟨heither, hboth⟩ := statements_iff_block_inBraces source
  obtain ⟨body, hbody⟩ := Option.isSome_iff_exists.mp hread
  obtain ⟨body', hbody'⟩ := Option.isSome_iff_exists.mp (heither.mp hread)
  obtain ⟨b, b', rfl, rfl, hstmts⟩ := hboth body body' hbody hbody'
  exact ⟨b, b', hbody, hbody', hstmts⟩

end Parsed

end ParseActions
