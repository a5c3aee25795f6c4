import ParseActions.Hash.Sha256
import ParseActions.Json.Decode
import ParseActions.Text.Basic

/-!
# Action sources

What an author writes for a rule is kept beside the body that was read from it, so that it can be
shown again. A source is known by its fingerprint, the digest of an encoding of its parts.

## Main definitions

* `ActionSource`: the names of the arguments and the text of the body
* `ActionSource.encoding`: the bytes that are hashed
* `Fingerprint`, `ActionSource.fingerprint`
-/

namespace ParseActions

/-- What was written for a rule. -/
structure ActionSource where
  /-- The names of the arguments. -/
  args : List String
  /-- The text of the body. -/
  body : String
  deriving DecidableEq

/-- The digest of a source. -/
structure Fingerprint where
  bytes : List UInt8
  deriving DecidableEq

/-- A fingerprint is shown with two digits for each byte. -/
def Fingerprint.display (f : Fingerprint) : String :=
  String.ofList <|
    f.bytes.flatMap fun b => [Nat.digitChar (b.toNat / 16), Nat.digitChar (b.toNat % 16)]

namespace ActionSource

/-- Nothing was written. -/
def empty : ActionSource :=
  ⟨[], ""⟩

instance : Inhabited ActionSource := ⟨empty⟩

/-- Whether there are no arguments, and the body is blank. -/
def isEmpty (source : ActionSource) : Bool :=
  source.args.isEmpty && (Text.trimChars source.body.toList).isEmpty

/-- The bytes of a text. -/
def bytesOf (text : String) : List UInt8 :=
  text.toUTF8.data.toList

/-- The bytes of a source: each argument with a zero after it, a one, and the body. -/
def encoding (source : ActionSource) : List UInt8 :=
  source.args.flatMap (fun arg => bytesOf arg ++ [0]) ++ 1 :: bytesOf source.body

/-- The digest by which a source is known. -/
def fingerprint (source : ActionSource) : Fingerprint :=
  ⟨Sha256.digest source.encoding⟩

/-- A source as an object. -/
def toJson (source : ActionSource) : Json :=
  .object [("args", .list .string source.args), ("body", .string source.body)]

end ActionSource

end ParseActions
