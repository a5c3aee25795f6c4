import ParseActions.Diagnostic
import ParseActions.Number.Reading
import ParseActions.Text.Source
import ParseActions.Token.Basic

/-!
# Lexing action bodies

A body is scanned from left to right. Blanks and comments separate tokens; a newline is a token.
A string with holes is scanned in modes: inside a hole the tokens of an expression are scanned, and
the brace that closes the hole brings back the text of the string. Characters that start no token
are reported and skipped, until as many errors have been reported as are kept.

## Main definitions

* `Position`: the place of the next character
* `Scanner`: what is left to scan, the open modes and the reports so far
* `Scanner.scan`: the next token
* `Token.lex`: the tokens of a source text, which end with `eof`
-/

namespace ParseActions

/-- The place of a character: line and column, both from one. -/
structure Position where
  line : Nat
  column : Nat
  deriving DecidableEq, Inhabited

namespace Position

/-- The place of the first character. -/
def first : Position :=
  ⟨1, 1⟩

/-- The place after a character. -/
def after (p : Position) (c : Char) : Position :=
  if c = '\n' then ⟨p.line + 1, 1⟩ else ⟨p.line, p.column + 1⟩

/-- The span of the position alone. -/
def span (p : Position) : Span :=
  .point p.line p.column

/-- The span from a position to the character before another. -/
def spanTo (start p : Position) : Span :=
  ⟨start.line, start.column, p.line, max (p.column - 1) 1⟩

end Position

/-- What encloses the text that is scanned. -/
inductive Mode where
  /-- The text of a string, after one of its holes. -/
  | text
  /-- A hole of a string, with the number of braces open in it. -/
  | hole (braces : Nat)
  deriving DecidableEq

/-- The state of a scan. -/
structure Scanner where
  rest : List Char
  place : Position
  /-- The enclosing strings and holes, innermost first. -/
  modes : List Mode
  /-- A token that has been scanned and not been given out. -/
  pending : Option Token
  errors : Diagnostics

namespace Scanner

/-- The start of a scan. -/
def start (source : SourceText) : Scanner :=
  ⟨source.text.toList, .first, [], none, .empty⟩

/-- The report of a code at a span, with the source line there. -/
def complaint (source : SourceText) (code : Code) (message : String) (span : Span) : Diagnostic :=
  .make source.name code message span ((source.line? span.startLine).getD "")

/-- The state after a report. -/
def report (s : Scanner) (d : Diagnostic) : Scanner :=
  { s with errors := s.errors.push d }

/-- Steps over as many characters. -/
def advance : Nat → Scanner → Scanner
  | 0, s => s
  | n + 1, s =>
    match s.rest with
    | [] => s
    | c :: rest => advance n { s with rest, place := s.place.after c }

/-- The characters from the start of the text that satisfy `p`, the rest, and its place. -/
def spanWhile (p : Char → Bool) (place : Position) : List Char → List Char × List Char × Position
  | [] => ([], [], place)
  | c :: rest =>
    if p c then
      let (taken, rest, place) := spanWhile p (place.after c) rest
      (c :: taken, rest, place)
    else ([], c :: rest, place)

/-! ## Blanks and comments -/

/-- What is being skipped. -/
inductive Blank where
  | spaces
  | lineComment
  | blockComment (start : Position)

/-- The text after blanks and comments, its place, and the start of a comment that does not end. -/
def skipBlanks : Blank → Position → List Char → List Char × Position × Option Position
  | .blockComment start, place, [] => ([], place, some start)
  | _, place, [] => ([], place, none)
  | .spaces, place, '/' :: '/' :: rest =>
    skipBlanks .lineComment ((place.after '/').after '/') rest
  | .spaces, place, '/' :: '*' :: rest =>
    skipBlanks (.blockComment place) ((place.after '/').after '*') rest
  | .spaces, place, c :: rest =>
    if c = ' ' ∨ c = '\t' ∨ c = '\r' then skipBlanks .spaces (place.after c) rest
    else (c :: rest, place, none)
  | .lineComment, place, c :: rest =>
    if c = '\n' then (c :: rest, place, none)
    else skipBlanks .lineComment (place.after c) rest
  | .blockComment _, place, '*' :: '/' :: rest =>
    skipBlanks .spaces ((place.after '*').after '/') rest
  | .blockComment start, place, c :: rest =>
    skipBlanks (.blockComment start) (place.after c) rest

/-- Skips blanks and comments. -/
def skip (source : SourceText) (s : Scanner) : Scanner :=
  let (rest, place, unclosed) := skipBlanks .spaces s.place s.rest
  let s := { s with rest, place }
  match unclosed with
  | none => s
  | some opened =>
    s.report (complaint source .unclosedDelimiter "unterminated block comment"
      (opened.spanTo place))

/-! ## Strings -/

/-- How the text of a string ends. -/
inductive StringStop where
  | unterminated
  | quote
  | hole

/-- The text of a string up to a quote or a hole. -/
structure StringText where
  text : List Char
  stop : StringStop
  rest : List Char
  /-- The place of the stop. -/
  stopPlace : Position
  /-- The place after the stop. -/
  place : Position
  errors : Diagnostics

/-- The character that a backslash and a letter stand for. -/
def escaped? : Char → Option Char
  | '"' => some '"'
  | '\\' => some '\\'
  | 'n' => some '\n'
  | 't' => some '\t'
  | 'r' => some '\r'
  | '$' => some '$'
  | '\'' => some '\''
  | _ => none

/-- Scans the text of a string; `out` is the text so far in reverse. An unknown escape is reported
and stands for its letter. -/
def stringText (source : SourceText) (out : List Char) (errors : Diagnostics) (place : Position) :
    List Char → StringText
  | [] => ⟨out.reverse, .unterminated, [], place, place, errors⟩
  | '"' :: rest => ⟨out.reverse, .quote, rest, place, place.after '"', errors⟩
  | '$' :: '\x7b' :: rest =>
    ⟨out.reverse, .hole, rest, place, (place.after '$').after '\x7b', errors⟩
  | ['\\'] =>
    let next := place.after '\\'
    let d := complaint source .unterminatedString "unexpected end of input in escape sequence"
      (place.spanTo next)
    ⟨out.reverse, .unterminated, [], next, next, errors.push d⟩
  | '\\' :: c :: rest =>
    let next := (place.after '\\').after c
    match escaped? c with
    | some plain => stringText source (plain :: out) errors next rest
    | none =>
      let d := complaint source .invalidEscape ("invalid escape sequence '\\" ++ c.toString ++ "'")
        (place.spanTo next)
      stringText source (c :: out) (errors.push d) next rest
  | c :: rest =>
    if c = '\n' then ⟨out.reverse, .unterminated, c :: rest, place, place, errors⟩
    else stringText source (c :: out) errors (place.after c) rest

/-- Scans the text of a string that starts at `opened`; the modes around it are `outer`. -/
def scanText (source : SourceText) (opened : Position) (outer : List Mode)
    (whole : String → Token.Kind) (part : String → Token.Kind) (s : Scanner) : Token × Scanner :=
  let t := stringText source [] s.errors s.place s.rest
  let text := String.ofList t.text
  let s := { s with rest := t.rest, place := t.place, errors := t.errors }
  match t.stop with
  | .unterminated =>
    let span := opened.spanTo t.place
    (⟨whole text, span⟩, { s with modes := outer }.report
      (complaint source .unterminatedString "unterminated string literal" span))
  | .quote => (⟨whole text, opened.spanTo t.place⟩, { s with modes := outer })
  | .hole =>
    (⟨part text, ⟨opened.line, opened.column, t.stopPlace.line, t.stopPlace.column⟩⟩,
      { s with
        modes := .hole 0 :: outer
        pending := some ⟨.holeStart, t.stopPlace.spanTo t.place⟩ })

/-! ## Tokens of expressions -/

/-- Whether a character may stand in a name. -/
def isNameChar (c : Char) : Bool :=
  c.isAlphanum || c == '_'

/-- Whether a character may start a name that has no dollar sign. -/
def isNameStart (c : Char) : Bool :=
  c.isAlpha || c == '_'

/-- The symbol or separator at the start of the text, and its length; the longest one is taken. -/
def symbol? : List Char → Option (Token.Kind × Nat)
  | '\n' :: _ => some (.newline, 1)
  | ';' :: _ => some (.symbol .semicolon, 1)
  | '+' :: _ => some (.symbol .plus, 1)
  | '-' :: _ => some (.symbol .minus, 1)
  | '*' :: _ => some (.symbol .star, 1)
  | '/' :: _ => some (.symbol .slash, 1)
  | '%' :: _ => some (.symbol .percent, 1)
  | '=' :: '=' :: '=' :: _ => some (.symbol .equalEqual, 3)
  | '=' :: '=' :: _ => some (.symbol .equalEqual, 2)
  | '=' :: _ => some (.symbol .equal, 1)
  | '!' :: '=' :: '=' :: _ => some (.symbol .bangEqual, 3)
  | '!' :: '=' :: _ => some (.symbol .bangEqual, 2)
  | '<' :: '=' :: _ => some (.symbol .lessEqual, 2)
  | '<' :: _ => some (.symbol .less, 1)
  | '>' :: '=' :: _ => some (.symbol .greaterEqual, 2)
  | '>' :: _ => some (.symbol .greater, 1)
  | '?' :: '?' :: _ => some (.symbol .questionQuestion, 2)
  | '.' :: _ => some (.symbol .dot, 1)
  | '(' :: _ => some (.symbol .leftParen, 1)
  | ')' :: _ => some (.symbol .rightParen, 1)
  | '[' :: _ => some (.symbol .leftBracket, 1)
  | ']' :: _ => some (.symbol .rightBracket, 1)
  | ',' :: _ => some (.symbol .comma, 1)
  | ':' :: _ => some (.symbol .colon, 1)
  | '\x7b' :: _ => some (.symbol .leftBrace, 1)
  | '\x7d' :: _ => some (.symbol .rightBrace, 1)
  | _ => none

/-- What is wrong with text that starts no token: the number of characters to skip, the message and
the advice. -/
def unexpected : List Char → Nat × String × Option String
  | '&' :: '&' :: _ => (2, "unexpected operator '&&'", some "use 'and'")
  | '&' :: _ => (1, "unexpected operator '&'", some "use 'and'")
  | '|' :: '|' :: _ => (2, "unexpected operator '||'", some "use 'or'")
  | '|' :: _ => (1, "unexpected operator '|'", some "use 'or'")
  | '$' :: _ =>
    (1, "unexpected character '$'",
      some "interpolation '$\x7b...\x7d' is only valid inside a string")
  | '!' :: _ =>
    (1, "unexpected character '!'",
      some "use 'not' for boolean negation, or '!=' for inequality")
  | '?' :: _ =>
    (1, "unexpected character '?'",
      some "use 'if cond \x7b a \x7d else \x7b b \x7d' or the '??' operator")
  | c :: _ => (1, "unexpected character '" ++ c.toString ++ "'", none)
  | [] => (0, "", none)

/-- Scans a number: digits, with a point and more digits. -/
def scanNumber (s : Scanner) : Token × Scanner :=
  let (whole, rest, place) := spanWhile Char.isDigit s.place s.rest
  let (fraction, rest, place) :=
    match rest with
    | '.' :: d :: more =>
      if d.isDigit then spanWhile Char.isDigit (place.after '.') (d :: more) else ([], rest, place)
    | _ => ([], rest, place)
  let value := Double.ofDecimal (Double.digitsValue (whole ++ fraction)) (-(fraction.length : Int))
  (⟨.number value, s.place.spanTo place⟩, { s with rest, place })

/-- Scans a name or a reserved word, whose first character is `c`. -/
def scanName (c : Char) (s : Scanner) : Token × Scanner :=
  let opened := s.place
  let (more, rest, place) := spanWhile isNameChar (opened.after c) (s.rest.drop 1)
  let name := String.ofList (c :: more)
  let kind := (Keyword.ofWord? name).elim (.identifier name) .keyword
  (⟨kind, opened.spanTo place⟩, { s with rest, place })

/-- A brace inside a hole opens or closes a pair there, or closes the hole. -/
def scanSymbol (kind : Token.Kind) (length : Nat) (s : Scanner) : Token × Scanner :=
  let opened := s.place
  let s := s.advance length
  let span := opened.spanTo s.place
  match kind, s.modes with
  | .symbol .leftBrace, .hole braces :: outer =>
    (⟨kind, span⟩, { s with modes := .hole (braces + 1) :: outer })
  | .symbol .rightBrace, .hole 0 :: outer => (⟨.holeEnd, span⟩, { s with modes := .text :: outer })
  | .symbol .rightBrace, .hole (braces + 1) :: outer =>
    (⟨kind, span⟩, { s with modes := .hole braces :: outer })
  | _, _ => (⟨kind, span⟩, s)

/-- Scans a token outside the text of strings. Unexpected characters are reported and skipped, at
most `fuel` of them. -/
def scanNormal (source : SourceText) : (fuel : Nat) → Scanner → Token × Scanner
  | 0, s => (⟨.eof, s.place.span⟩, s)
  | fuel + 1, s =>
    let s := s.skip source
    if s.errors.isFull then (⟨.eof, s.place.span⟩, s)
    else
      match s.rest with
      | [] =>
        let span := s.place.span
        (⟨.eof, span⟩,
          if s.modes.isEmpty then s
          else s.report (complaint source .unterminatedString "unterminated string literal" span))
      | c :: after =>
        if c = '"' then
          (s.advance 1).scanText source s.place s.modes .string .stringStart
        else if c.isDigit then s.scanNumber
        else if isNameStart c || (c == '$' && after.head?.any isNameChar) then s.scanName c
        else
          match symbol? s.rest with
          | some (kind, length) => s.scanSymbol kind length
          | none =>
            let (length, message, advice) := unexpected s.rest
            let next := s.advance length
            let d := complaint source .unexpectedToken message (s.place.spanTo next.place)
            scanNormal source fuel (next.report (advice.elim d d.suggesting))

/-- Scans the next token. -/
def scan (source : SourceText) (s : Scanner) : Token × Scanner :=
  match s.modes with
  | .text :: outer => s.scanText source s.place outer .stringEnd .stringPart
  | _ => s.scanNormal source (s.rest.length + 1)

/-- All tokens that are left, with the reports; `fuel` bounds their number. -/
def run (source : SourceText) : (fuel : Nat) → Scanner → List Token × Diagnostics
  | 0, s => ([⟨.eof, s.place.span⟩], s.errors)
  | fuel + 1, s =>
    if s.errors.isFull then ([⟨.eof, s.place.span⟩], s.errors)
    else
      match s.pending with
      | some token =>
        let (tokens, errors) := run source fuel { s with pending := none }
        (token :: tokens, errors)
      | none =>
        let (token, s) := s.scan source
        if token.kind = .eof then ([token], s.errors)
        else
          let (tokens, errors) := run source fuel s
          (token :: tokens, errors)

end Scanner

/-- The tokens of a source text and the reports on it. A token takes a character, a closed hole
adds the text after it, and an opened hole its mark. -/
def Token.lex (source : SourceText) : List Token × Diagnostics :=
  Scanner.run source (3 * source.text.length + 2) (Scanner.start source)

end ParseActions
