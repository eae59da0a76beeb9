import JoinPlan.Text.Hidden

/-!
# Quoted text

Text in quotes for diagnostics. A quote, a backslash, a line break, a tab and the null
character are written with a backslash and a letter, other hidden characters by their
number in hexadecimal, and all else as it is.
-/

namespace JoinPlan.Text

/-- How a character stands inside quotes. -/
def escaped (c : Char) : List Char :=
  match c with
  | '"' => ['\\', '"']
  | '\\' => ['\\', '\\']
  | '\n' => ['\\', 'n']
  | '\r' => ['\\', 'r']
  | '\t' => ['\\', 't']
  | '\x00' => ['\\', '0']
  | c =>
    if isHidden c then ['\\', 'u', '\x7b'] ++ Nat.toDigits 16 c.toNat ++ ['\x7d']
    else [c]

/-- A text in quotes. -/
def quoted (s : String) : String :=
  String.ofList ('"' :: s.toList.flatMap escaped ++ ['"'])

end JoinPlan.Text
