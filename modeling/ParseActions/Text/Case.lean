import ParseActions.Text.CaseTable

/-!
# Upper and lower case

A text is put into upper or lower case by the mappings of its characters, some of which give several
characters. The one mapping that depends on the text around is that of the capital sigma, which has
a lower-case form of its own at the end of a word.

## Main definitions

* `Text.upperChar`, `Text.lowerChar`: the mappings of a character
* `Text.upper`, `Text.lower`: the mappings of a text
-/

namespace ParseActions.Text

open CaseTable

/-- The image of a character under the runs of a table. -/
def shifted? (table : List Shift) (n : Nat) : Option Nat :=
  (table.find? fun s => s.first ≤ n && n ≤ s.last && (n - s.first) % s.step == 0).map fun s =>
    ((n : Int) + s.offset).toNat

/-- The image of a character above the ASCII range: itself unless a table has another. -/
def mapped (table : List Shift) (long : List (Nat × List Nat)) (c : Char) : List Char :=
  match long.lookup c.toNat with
  | some image => image.map Char.ofNat
  | none => [(shifted? table c.toNat).elim c Char.ofNat]

/-- A character in upper case. -/
def upperChar (c : Char) : List Char :=
  if c.toNat < 0x80 then [c.toUpper] else mapped CaseTable.upper upperLong c

/-- A character in lower case. -/
def lowerChar (c : Char) : List Char :=
  if c.toNat < 0x80 then [c.toLower] else mapped CaseTable.lower lowerLong c

/-- The text in upper case. -/
def upper (text : String) : String :=
  String.ofList (text.toList.flatMap upperChar)

/-- Whether a character lies in one of the ranges. -/
def inRanges (ranges : List (Nat × Nat)) (c : Char) : Bool :=
  ranges.any fun (first, last) => first ≤ c.toNat && c.toNat ≤ last

/-- Whether the first character that is not passed over is a cased letter. -/
def casedFirst (cs : List Char) : Bool :=
  (cs.dropWhile (inRanges ignorable)).head?.any (inRanges cased)

/-- A character in lower case between the characters `before`, in reverse, and `rest`. A capital
sigma after a letter and not before one ends a word. -/
def lowerBetween (before : List Char) (c : Char) (rest : List Char) : List Char :=
  if c = 'Σ' then if casedFirst before && !casedFirst rest then ['ς'] else ['σ']
  else lowerChar c

/-- Writes the characters in lower case after `out`; both `before`, the characters that came before,
and `out` are in reverse. -/
def lowerAfter (before out : List Char) : List Char → List Char
  | [] => out.reverse
  | c :: rest => lowerAfter (c :: before) (lowerBetween before c rest |>.reverseAux out) rest

/-- The text in lower case. -/
def lower (text : String) : String :=
  String.ofList (lowerAfter [] [] text.toList)

end ParseActions.Text
