/-!
# Text

Places in a text are counted in bytes of its UTF-8 encoding. A part of the text can only be taken
between two places that do not lie inside a character. Blanks are white space in the sense of Unicode.
Occurrences of a pattern are found from left to right and do not overlap.

## Main definitions

* `Text.dropBytes?`, `Text.takeBytes?`, `Text.slice?`: the characters after, before or between byte
  offsets
* `Text.isBlank`, `Text.trim`: white space, and a text without white space at its ends
* `Text.splitAt`: the pieces of a text between the occurrences of a pattern
* `Text.indexOf?`, `Text.isInfix`: the place of the first occurrence, and whether there is one
* `Text.replaceAll`: the text with another text for each occurrence
-/

namespace ParseActions.Text

/-! ## Byte offsets -/

/-- The characters after the first `n` bytes. -/
def dropBytes? : (n : Nat) → List Char → Option (List Char)
  | 0, cs => some cs
  | _ + 1, [] => none
  | n + 1, c :: cs => if c.utf8Size ≤ n + 1 then dropBytes? (n + 1 - c.utf8Size) cs else none

/-- The characters that make up the first `n` bytes. -/
def takeBytes? : (n : Nat) → List Char → Option (List Char)
  | 0, _ => some []
  | _ + 1, [] => none
  | n + 1, c :: cs =>
    if c.utf8Size ≤ n + 1 then (takeBytes? (n + 1 - c.utf8Size) cs).map (c :: ·) else none

/-- The characters between two byte offsets. -/
def slice? (cs : List Char) (start stop : Nat) : Option (List Char) :=
  if start ≤ stop then (dropBytes? start cs).bind (takeBytes? (stop - start)) else none

/-! ## Blanks -/

/-- Whether a character has the Unicode property `White_Space`. -/
def isBlank (c : Char) : Bool :=
  let n := c.toNat
  (0x09 ≤ n && n ≤ 0x0D) || n == 0x20 || n == 0x85 || n == 0xA0 || n == 0x1680
    || (0x2000 ≤ n && n ≤ 0x200A) || n == 0x2028 || n == 0x2029 || n == 0x202F || n == 0x205F
    || n == 0x3000

/-- The characters without the blanks at both ends. -/
def trimChars (cs : List Char) : List Char :=
  ((cs.dropWhile isBlank).reverse.dropWhile isBlank).reverse

/-- The text without the blanks at both ends. -/
def trim (text : String) : String :=
  String.ofList (trimChars text.toList)

/-! ## Occurrences -/

/-- The pieces between the occurrences of `pattern`, which is not empty. The first `skip` characters
belong to an occurrence; `done` holds the pieces so far, and `piece` the current one, both in
reverse. -/
def piecesFrom (pattern : List Char) : (skip : Nat) → (done : List (List Char)) →
    (piece : List Char) → List Char → List (List Char)
  | _, done, piece, [] => (piece.reverse :: done).reverse
  | skip + 1, done, piece, _ :: rest => piecesFrom pattern skip done piece rest
  | 0, done, piece, c :: rest =>
    if pattern.isPrefixOf (c :: rest) then
      piecesFrom pattern (pattern.length - 1) (piece.reverse :: done) [] rest
    else piecesFrom pattern 0 done (c :: piece) rest

/-- The pieces of a text between the occurrences of a pattern that is not empty. -/
def splitAt (pattern text : List Char) : List (List Char) :=
  piecesFrom pattern 0 [] [] text

/-- The number of occurrences. An empty pattern occurs before each character and at the end. -/
def occurrences (pattern text : List Char) : Nat :=
  if pattern.isEmpty then text.length + 1 else (splitAt pattern text).length - 1

/-- The place of the first occurrence in a text that starts at place `n`. -/
def indexFrom? (pattern : List Char) (n : Nat) : List Char → Option Nat
  | [] => if pattern.isEmpty then some n else none
  | c :: rest =>
    if pattern.isPrefixOf (c :: rest) then some n else indexFrom? pattern (n + 1) rest

/-- The number of characters before the first occurrence. -/
def indexOf? (pattern text : List Char) : Option Nat :=
  indexFrom? pattern 0 text

/-- Whether a pattern occurs in a text. -/
def isInfix (pattern text : List Char) : Bool :=
  (indexOf? pattern text).isSome

/-- The text with `replacement` in place of every occurrence of `pattern`. -/
def replaceAll (pattern replacement text : List Char) : List Char :=
  if pattern.isEmpty then replacement ++ text.flatMap fun c => c :: replacement
  else replacement.intercalate (splitAt pattern text)

end ParseActions.Text
