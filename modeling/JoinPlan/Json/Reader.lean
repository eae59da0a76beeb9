import JoinPlan.Binary64.Decimal
import JoinPlan.Json.Basic
import JoinPlan.Text.Digits

/-!
# Reading JSON text

Reading has two steps. `Node.read` checks the grammar and keeps what was written:
repeated names, numbers that no double can hold, strings with half a surrogate
pair. `Node.toValue?` then makes the value and refuses those numbers and strings
and a nesting of more than `127` levels. A reader of typed data works on the node,
so that a part it skips may hold what no value can.

Numbers: an integer of at most 64 bits stays an integer; anything with a
fraction or an exponent, any longer integer and `-0` is a double. A double is
read from at most the first nineteen or twenty digits, those that fit in 64 bits;
digits after these only count as places.
-/

namespace JoinPlan

/-- What a JSON text says, before it is made a value. A number is missing where
it is out of range, a text where a surrogate stands alone. -/
inductive Node where
  | null
  | bool (b : Bool)
  | number (n : Option Number)
  | string (s : Option String)
  | array (items : List Node)
  | object (members : List (Option String × Node))

instance : Inhabited Node := ⟨.null⟩

namespace Json

/-- Blank characters between JSON tokens. -/
def isGap (c : Char) : Bool := c == ' ' || c == '\t' || c == '\n' || c == '\r'

/-- The text after its leading blanks. -/
def skipGap (cs : List Char) : List Char := cs.dropWhile isGap

/-! ## Numbers -/

/-- A number as written: its parts as digits. -/
structure NumberText where
  negative : Bool
  whole : List Char
  fraction : Option (List Char)
  exponent : Option Int

/-- The largest significand that digits are gathered into. -/
def significandLimit : Nat := UInt64.size - 1

/-- Takes digits into a significand as long as it fits in 64 bits, and gives it
with the digits that were left. -/
def gather (significand : Nat) : List Char → Nat × List Char
  | [] => (significand, [])
  | c :: cs =>
    let next := 10 * significand + (c.toNat - '0'.toNat)
    if next ≤ significandLimit then gather next cs else (significand, c :: cs)

/-- The double that a number text stands for, if it is finite. -/
def NumberText.double? (t : NumberText) : Option Binary64 :=
  let (significand, left) := gather 0 t.whole
  let fraction := t.fraction.getD []
  let (significand, lost) := gather significand fraction
  let exponent : Int :=
    left.length - (fraction.length - lost.length : Nat) + t.exponent.getD 0
  Binary64.scaled t.negative ⟨significand, exponent⟩

/-- The number that a number text stands for, if it is in range. -/
def NumberText.number? (t : NumberText) : Option Number :=
  let value := Nat.ofDigitChars 10 t.whole 0
  if t.fraction.isSome || t.exponent.isSome then t.double?.map .float
  else if !t.negative && value < UInt64.size then some (.int value)
  else if t.negative && 0 < value && value ≤ 0x8000000000000000 then some (.int (-(value : Int)))
  else t.double?.map .float

/-- A run of digits, at least one. -/
def readDigits (cs : List Char) : Option (List Char × List Char) :=
  match cs.takeWhile Char.isDigit with
  | [] => none
  | digits => some (digits, cs.dropWhile Char.isDigit)

/-- The digits before the point: a zero alone, or a run that starts otherwise. -/
def readWhole : List Char → Option (List Char × List Char)
  | '0' :: rest => some (['0'], rest)
  | cs => readDigits cs

/-- The digits after the point, if there is one. -/
def readFraction : List Char → Option (Option (List Char) × List Char)
  | '.' :: rest => (readDigits rest).map fun (digits, after) => (some digits, after)
  | cs => some (none, cs)

/-- The exponent, if there is one. -/
def readExponent : List Char → Option (Option Int × List Char)
  | [] => some (none, [])
  | c :: rest =>
    if c = 'e' ∨ c = 'E' then
      let (negative, digitsAt) :=
        match rest with
        | '-' :: after => (true, after)
        | '+' :: after => (false, after)
        | _ => (false, rest)
      (readDigits digitsAt).map fun (digits, after) =>
        let size : Int := Nat.ofDigitChars 10 digits 0
        (some (if negative then -size else size), after)
    else some (none, c :: rest)

/-- A number at the start of the text. -/
def readNumber (cs : List Char) : Option (NumberText × List Char) := do
  let (negative, cs) :=
    match cs with
    | '-' :: rest => (true, rest)
    | _ => (false, cs)
  let (whole, cs) ← readWhole cs
  let (fraction, cs) ← readFraction cs
  let (exponent, cs) ← readExponent cs
  return (⟨negative, whole, fraction, exponent⟩, cs)

/-! ## Strings -/

/-- A piece of a string as written: a character, or a 16-bit code. -/
inductive TextUnit where
  | char (c : Char)
  | code (n : Nat)

/-- The character that a short escape stands for. -/
def shortEscape? : Char → Option Char
  | '"' => some '"'
  | '\\' => some '\\'
  | '/' => some '/'
  | 'b' => some '\x08'
  | 'f' => some '\x0c'
  | 'n' => some '\n'
  | 'r' => some '\r'
  | 't' => some '\t'
  | _ => none

/-- The pieces of a string up to its closing quote. -/
def readUnits : List Char → Option (List TextUnit × List Char)
  | [] => none
  | '"' :: rest => some ([], rest)
  | '\\' :: 'u' :: a :: b :: c :: d :: rest => do
    let n ← Text.hexValue? [a, b, c, d]
    let (units, after) ← readUnits rest
    return (.code n :: units, after)
  | '\\' :: e :: rest => do
    let c ← shortEscape? e
    let (units, after) ← readUnits rest
    return (.char c :: units, after)
  | c :: rest =>
    if c.toNat < 0x20 then none
    else (readUnits rest).map fun (units, after) => (.char c :: units, after)

/-- The characters that pieces stand for: a leading and a trailing surrogate are
one character together, and a surrogate alone is none. -/
def decodeUnits : List TextUnit → Option (List Char)
  | [] => some []
  | .char c :: rest => (decodeUnits rest).map (c :: ·)
  | .code high :: .code low :: rest =>
    if 0xD800 ≤ high ∧ high < 0xDC00 then
      if 0xDC00 ≤ low ∧ low < 0xE000 then
        (decodeUnits rest).map
          (Char.ofNat (0x10000 + (high - 0xD800) * 0x400 + (low - 0xDC00)) :: ·)
      else none
    else if 0xDC00 ≤ high ∧ high < 0xE000 then none
    else (decodeUnits (.code low :: rest)).map (Char.ofNat high :: ·)
  | .code n :: rest =>
    if 0xD800 ≤ n ∧ n < 0xE000 then none else (decodeUnits rest).map (Char.ofNat n :: ·)

/-- A string after its opening quote. -/
def readString (cs : List Char) : Option (Option String × List Char) :=
  (readUnits cs).map fun (units, after) => ((decodeUnits units).map String.ofList, after)

/-! ## Values -/

mutual

/-- A value at the start of the text. Every step takes at least one character,
so twice the length of the text is fuel enough. -/
def readNode : Nat → List Char → Option (Node × List Char)
  | 0, _ => none
  | fuel + 1, cs =>
    match skipGap cs with
    | [] => none
    | '"' :: rest => (readString rest).map fun (s, after) => (.string s, after)
    | '[' :: rest =>
      match skipGap rest with
      | ']' :: after => some (.array [], after)
      | _ => (readItems fuel rest).map fun (items, after) => (.array items, after)
    | '\x7b' :: rest =>
      match skipGap rest with
      | '\x7d' :: after => some (.object [], after)
      | _ => (readMembers fuel rest).map fun (members, after) => (.object members, after)
    | 'n' :: 'u' :: 'l' :: 'l' :: after => some (.null, after)
    | 't' :: 'r' :: 'u' :: 'e' :: after => some (.bool true, after)
    | 'f' :: 'a' :: 'l' :: 's' :: 'e' :: after => some (.bool false, after)
    | cs => (readNumber cs).map fun (number, after) => (.number number.number?, after)

/-- Items up to the closing bracket, at least one. -/
def readItems : Nat → List Char → Option (List Node × List Char)
  | 0, _ => none
  | fuel + 1, cs => do
    let (item, rest) ← readNode fuel cs
    match skipGap rest with
    | ',' :: rest =>
      let (items, after) ← readItems fuel rest
      return (item :: items, after)
    | ']' :: after => return ([item], after)
    | _ => none

/-- Members up to the closing brace, at least one. -/
def readMembers : Nat → List Char → Option (List (Option String × Node) × List Char)
  | 0, _ => none
  | fuel + 1, cs => do
    let .some ('"' :: rest) := some (skipGap cs) | none
    let (name, rest) ← readString rest
    let .some (':' :: rest) := some (skipGap rest) | none
    let (node, rest) ← readNode fuel rest
    match skipGap rest with
    | ',' :: rest =>
      let (members, after) ← readMembers fuel rest
      return ((name, node) :: members, after)
    | '\x7d' :: after => return ([(name, node)], after)
    | _ => none

end

end Json

namespace Node

/-- The node at the start of a text, and the text after it. -/
def readStart (text : String) : Option (Node × List Char) :=
  let cs := text.toList
  Json.readNode (2 * cs.length + 2) cs

/-- How deep arrays and objects may nest, the innermost included. -/
def nestingLimit : Nat := 127

mutual

/-- The value of a node in which at most `depth` arrays and objects nest. -/
def toValueWithin (depth : Nat) : Node → Option Value
  | .null => some .null
  | .bool b => some (.bool b)
  | .number n => n.map .number
  | .string s => s.map .string
  | .array items =>
    match depth with
    | 0 => none
    | depth + 1 => (toItemsWithin depth items).map .array
  | .object members =>
    match depth with
    | 0 => none
    | depth + 1 =>
      (toMembersWithin depth members).map fun entries => .object (Members.ofList entries)

/-- The values of items. -/
def toItemsWithin (depth : Nat) : List Node → Option (List Value)
  | [] => some []
  | item :: rest => do
    let value ← toValueWithin depth item
    let values ← toItemsWithin depth rest
    return value :: values

/-- The names and values of members. -/
def toMembersWithin (depth : Nat) : List (Option String × Node) → Option (List (String × Value))
  | [] => some []
  | (name, node) :: rest => do
    let name ← name
    let value ← toValueWithin depth node
    let entries ← toMembersWithin depth rest
    return (name, value) :: entries

end

/-- The value of a node. -/
def toValue? (node : Node) : Option Value := node.toValueWithin nestingLimit

end Node

mutual

/-- How deep arrays and objects nest in a value, the innermost included. -/
def Value.depth : Value → Nat
  | .array items => Value.depthItems items + 1
  | .object members => Value.depthMembers members + 1
  | _ => 0

/-- The depth of the deepest item. -/
def Value.depthItems : List Value → Nat
  | [] => 0
  | item :: rest => max item.depth (Value.depthItems rest)

/-- The depth of the deepest member. -/
def Value.depthMembers : List (String × Value) → Nat
  | [] => 0
  | (_, value) :: rest => max value.depth (Value.depthMembers rest)

end

mutual

/-- A value as a node. -/
def Value.toNode : Value → Node
  | .null => .null
  | .bool b => .bool b
  | .number n => .number (some n)
  | .string s => .string (some s)
  | .array items => .array (Value.toNodes items)
  | .object members => .object (Value.toNodeMembers members)

/-- Items as nodes. -/
def Value.toNodes : List Value → List Node
  | [] => []
  | item :: rest => item.toNode :: Value.toNodes rest

/-- Members as nodes. -/
def Value.toNodeMembers : List (String × Value) → List (Option String × Node)
  | [] => []
  | (name, value) :: rest => (some name, value.toNode) :: Value.toNodeMembers rest

end

/-- The node of a whole text: one value with nothing but blanks around it. -/
def Node.read (text : String) : Option Node :=
  match Node.readStart text with
  | some (node, rest) => if (Json.skipGap rest).isEmpty then some node else none
  | none => none

/-- The value of a whole text. -/
def Value.read (text : String) : Option Value :=
  (Node.read text).bind Node.toValue?

end JoinPlan
