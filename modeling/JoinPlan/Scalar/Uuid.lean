import JoinPlan.Text.Digits
import JoinPlan.Text.Split

/-!
# Universally unique identifiers

An identifier is thirty-two hexadecimal digits. It is read from its digits alone,
from the form with hyphens, and from the latter in braces or after `urn:uuid:`, in
either case of letters. It is written in small letters with hyphens.
-/

namespace JoinPlan

/-- An identifier of 128 bits, as the values of its hexadecimal digits. -/
structure Uuid where
  digits : List Nat
deriving DecidableEq, Repr

namespace Uuid

/-- The lengths of the groups between the hyphens. -/
def groups : List Nat := [8, 4, 4, 4, 12]

/-- The number that the digits stand for. -/
def value (u : Uuid) : Nat := u.digits.foldl (fun acc d => 16 * acc + d) 0

/-- Thirty-two digits. -/
def ofPlain? (cs : List Char) : Option Uuid :=
  if cs.length = 32 then (cs.mapM Text.hexDigit?).map Uuid.mk else none

/-- Five groups of digits with hyphens between them. -/
def ofHyphenated? (cs : List Char) : Option Uuid :=
  let parts := Text.pieces '-' cs
  if parts.map List.length = groups then ofPlain? parts.flatten else none

/-- What stands between braces. -/
def unbrace? : List Char → Option (List Char)
  | '\x7b' :: rest => if rest.getLast? = some '\x7d' then some rest.dropLast else none
  | _ => none

/-- What stands after `urn:uuid:`. The letters of this prefix may be of either case, like the
digits behind it: it names a scheme, and `URN:UUID:` names the same one. -/
def afterUrn? (cs : List Char) : Option (List Char) :=
  if (cs.take 9).map Char.toLower = "urn:uuid:".toList then some (cs.drop 9) else none

/-- An identifier in any of its forms. -/
def read (text : String) : Option Uuid :=
  let cs := text.toList
  match unbrace? cs, afterUrn? cs with
  | some inner, _ => ofHyphenated? inner
  | none, some rest => ofHyphenated? rest
  | none, none => (ofPlain? cs).orElse fun _ => ofHyphenated? cs

/-- Digits with a hyphen after each group but the last. -/
def hyphenate : List Nat → List Char → List Char
  | [], cs => cs
  | [_], cs => cs
  | n :: rest, cs => cs.take n ++ '-' :: hyphenate rest (cs.drop n)

/-- The identifier in small letters with hyphens. -/
def text (u : Uuid) : String :=
  String.ofList (hyphenate groups (u.digits.map Nat.digitChar))

end Uuid

end JoinPlan
