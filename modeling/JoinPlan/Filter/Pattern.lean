import JoinPlan.Text.CaseFolding

/-!
# Literal patterns

A pattern finds a text literally, whatever marks the text holds, and without
regard to case: characters agree when their simple case foldings do. An exact
pattern must meet the whole of a string, a substring pattern some part of it.

`source` is the pattern as a regular expression, the form in which document
stores take it: every mark with a backslash in front, and anchors around an
exact one. The matcher that compiles expressions limits their size, and a
pattern whose expression exceeds the limit meets nothing.
-/

namespace JoinPlan

/-- How much of a string a pattern must meet. -/
inductive PatternKind where
  | exact
  | substring
deriving DecidableEq, Repr

/-- The limit that a matcher sets to the size of an expression in compiled form. How
large a compiled expression is, only the matcher knows. -/
class PatternLimit where
  /-- Whether the compiled form of an expression stays within the limit. -/
  admits : String → Bool

/-- No limit. -/
@[reducible]
def PatternLimit.unbounded : PatternLimit := ⟨fun _ => true⟩

namespace Pattern

/-- Whether a character has a meaning of its own in regular expressions. -/
def isMark (c : Char) : Bool :=
  "\\.+*?()|[]\x7b\x7d^$#&-~".toList.contains c

/-- The text as a regular expression that stands for itself. -/
def escape (text : List Char) : List Char :=
  text.flatMap fun c => if isMark c then ['\\', c] else [c]

/-- The pattern as a regular expression. -/
def source (kind : PatternKind) (text : String) : String :=
  let body := escape text.toList
  match kind with
  | .exact => String.ofList ('^' :: body ++ ['$'])
  | .substring => String.ofList body

/-! ## Matching -/

/-- Whether a list occurs in another as a run of neighbours. -/
def occursIn (part : List Char) : List Char → Bool
  | [] => part.isEmpty
  | c :: cs => part.isPrefixOf (c :: cs) || occursIn part cs

/-- Whether the folded characters of a string meet those of a pattern. -/
def meetsFolded (kind : PatternKind) (text found : List Char) : Bool :=
  match kind with
  | .exact => text == found
  | .substring => occursIn text found

/-- Whether a pattern meets a string: its expression is within the limit, and what it
stands for is found. -/
def meets [PatternLimit] (kind : PatternKind) (text found : String) : Bool :=
  PatternLimit.admits (source kind text)
    && meetsFolded kind (Text.folded text) (Text.folded found)

end Pattern

end JoinPlan
