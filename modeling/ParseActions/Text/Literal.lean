import ParseActions.Text.EscapeTable

/-!
# Literals

Characters and texts as they are written in a literal. A character stands between apostrophes, with an
escape if it would not be seen as itself there. A text stands between double quotes, with an escape for
each character that could not stand there as itself: the quote, the backslash and the control
characters.

## Main definitions

* `Text.charLiteral`: the literal of a character
* `Text.escape`: the escape of one character inside double quotes, or the character
* `Text.quoted`: a text between double quotes
-/

namespace ParseActions.Text

/-! ## Characters -/

/-- Whether a character is shown by its number. -/
def shownByNumber (c : Char) : Bool :=
  EscapeTable.escaped.any fun (first, last) => first ≤ c.toNat && c.toNat ≤ last

/-- How a character is written between apostrophes. -/
def charEscape (c : Char) : List Char :=
  match c with
  | '\x00' => ['\\', '0']
  | '\t' => ['\\', 't']
  | '\r' => ['\\', 'r']
  | '\n' => ['\\', 'n']
  | '\\' => ['\\', '\\']
  | '\'' => ['\\', '\'']
  | c =>
    if shownByNumber c then
      '\\' :: 'u' :: '\x7b' :: (Nat.toDigits 16 c.toNat ++ ['\x7d'])
    else [c]

/-- The character between apostrophes. -/
def charLiteral (c : Char) : String :=
  String.ofList ('\'' :: charEscape c ++ ['\''])

/-! ## Texts -/

/-- A hexadecimal digit in lower case. -/
def hexDigit (n : Nat) : Char :=
  Nat.digitChar (n % 16)

/-- How a character is written inside double quotes. -/
def escape (c : Char) : List Char :=
  match c with
  | '"' => ['\\', '"']
  | '\\' => ['\\', '\\']
  | '\x08' => ['\\', 'b']
  | '\x0c' => ['\\', 'f']
  | '\n' => ['\\', 'n']
  | '\r' => ['\\', 'r']
  | '\t' => ['\\', 't']
  | c =>
    if c.toNat < 0x20 then ['\\', 'u', '0', '0', hexDigit (c.toNat / 16), hexDigit c.toNat]
    else [c]

/-- The text between double quotes. -/
def quoted (text : String) : String :=
  String.ofList ('"' :: text.toList.flatMap escape ++ ['"'])

end ParseActions.Text
