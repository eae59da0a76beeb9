/-!
# Blank characters

White space in the sense of the Unicode property `White_Space`, and trimming
by it. `trim` cuts blanks from both ends and keeps everything between;
`isBlankText` says that nothing would be left.
-/

namespace JoinPlan.Text

/-- White space: the twenty-five code points with the property `White_Space`. -/
def isBlank (c : Char) : Bool :=
  let n := c.toNat
  (9 ≤ n && n ≤ 13) || n == 0x20 || n == 0x85 || n == 0xA0 || n == 0x1680
    || (0x2000 ≤ n && n ≤ 0x200A) || n == 0x2028 || n == 0x2029 || n == 0x202F
    || n == 0x205F || n == 0x3000

/-- The characters without the blanks at either end. -/
def trimChars (cs : List Char) : List Char :=
  ((cs.dropWhile isBlank).reverse.dropWhile isBlank).reverse

/-- The text without the blanks at either end. -/
def trim (s : String) : String :=
  String.ofList (trimChars s.toList)

/-- Whether every character is blank; the empty text is. -/
def isBlankText (s : String) : Bool :=
  s.toList.all isBlank

end JoinPlan.Text
