import JoinPlan.Binary64.Shortest
import JoinPlan.Json.Basic

/-!
# JSON text of a value

`Value.compact` writes a value without blanks, `Value.pretty` with one member
or item on a line and two blanks of indent for each level. Both write members in
their order, escape only what JSON requires, and write doubles with the fewest
digits that read back.
-/

namespace JoinPlan

/-- Digits with the decimal point after the first `count` of them; a zero fills
an empty side. -/
def withPoint (digits : List Char) (count : Nat) : List Char :=
  let whole := digits.take count
  let fraction := digits.drop count
  (if whole.isEmpty then ['0'] else whole) ++ '.' :: (if fraction.isEmpty then ['0'] else fraction)

/-- The text of a double. From `10 ^ -5` up to `10 ^ 16` it is positional and has
a fraction, `.0` if need be. Outside it has one digit before the point, no
point where that is the only digit, and an exponent with its sign. -/
def Binary64.text (x : Binary64) : String :=
  let shortest := Binary64.shortest x.magnitude
  let digits := Nat.toDigits 10 shortest.digits
  let place : Int := shortest.exponent + digits.length - 1
  let body : List Char :=
    if -5 ≤ place ∧ place < 16 then
      if 0 ≤ place then
        withPoint (digits ++ List.replicate shortest.exponent.toNat '0') (place.toNat + 1)
      else withPoint (List.replicate (-place - 1).toNat '0' ++ digits) 0
    else
      digits.take 1 ++ (if digits.length = 1 then [] else '.' :: digits.drop 1)
        ++ 'e' :: (if place < 0 then '-' else '+') :: Nat.toDigits 10 place.natAbs
  String.ofList (if x.negative then '-' :: body else body)

/-- The text of a number. -/
def Number.text : Number → String
  | .int n => toString n
  | .float x => x.text

/-- How a character stands inside a JSON string. -/
def escapeChar (c : Char) : List Char :=
  match c with
  | '"' => ['\\', '"']
  | '\\' => ['\\', '\\']
  | '\n' => ['\\', 'n']
  | '\r' => ['\\', 'r']
  | '\t' => ['\\', 't']
  | '\x08' => ['\\', 'b']
  | '\x0c' => ['\\', 'f']
  | c =>
    if c.toNat < 0x20 then
      ['\\', 'u', '0', '0', Nat.digitChar (c.toNat / 16), Nat.digitChar (c.toNat % 16)]
    else [c]

/-- A text as a JSON string, quotes included. -/
def quoted (s : String) : String :=
  String.ofList ('"' :: s.toList.flatMap escapeChar ++ ['"'])

mutual

/-- The text of a value without blanks. -/
def Value.compact : Value → String
  | .null => "null"
  | .bool b => if b then "true" else "false"
  | .number n => n.text
  | .string s => quoted s
  | .array items => "[" ++ ",".intercalate (Value.compactItems items) ++ "]"
  | .object members => "\x7b" ++ ",".intercalate (Value.compactMembers members) ++ "\x7d"

/-- The texts of the items. -/
def Value.compactItems : List Value → List String
  | [] => []
  | item :: rest => item.compact :: Value.compactItems rest

/-- The texts of the members. -/
def Value.compactMembers : List (String × Value) → List String
  | [] => []
  | (name, value) :: rest => (quoted name ++ ":" ++ value.compact) :: Value.compactMembers rest

end

/-- Entries between brackets, each on a line of its own; an empty list stays closed. -/
def bracketLines (opening closing : String) (indent : Nat) (entries : List String) : String :=
  if entries.isEmpty then opening ++ closing
  else
    let margin (level : Nat) := "\n" ++ String.ofList (List.replicate (2 * level) ' ')
    opening ++ margin (indent + 1) ++ ("," ++ margin (indent + 1)).intercalate entries
      ++ margin indent ++ closing

mutual

/-- The text of a value over several lines, at a level of indent. -/
def Value.prettyAt (indent : Nat) : Value → String
  | .array items => bracketLines "[" "]" indent (Value.prettyItems (indent + 1) items)
  | .object members =>
    bracketLines "\x7b" "\x7d" indent (Value.prettyMembers (indent + 1) members)
  | value => value.compact

/-- The texts of the items at a level of indent. -/
def Value.prettyItems (indent : Nat) : List Value → List String
  | [] => []
  | item :: rest => item.prettyAt indent :: Value.prettyItems indent rest

/-- The texts of the members at a level of indent. -/
def Value.prettyMembers (indent : Nat) : List (String × Value) → List String
  | [] => []
  | (name, value) :: rest =>
    (quoted name ++ ": " ++ value.prettyAt indent) :: Value.prettyMembers indent rest

end

/-- The text of a value over several lines. -/
def Value.pretty (value : Value) : String := value.prettyAt 0

end JoinPlan
