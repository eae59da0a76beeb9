import JoinPlan.Files.Path

/-!
# Access to files

`Files m` is access to files by computations in `m`: real files in `IO`, or a tree
of files held as a value. A file that is missing, that cannot be read or that is not
text has no text.
-/

namespace JoinPlan

/-- What listing a directory gives: nothing is there, it is no directory that can be
read, or the names in it, in no order. -/
inductive Listing where
  | missing
  | unreadable
  | names (names : List String)
deriving DecidableEq, Repr

/-- Access to files by their paths. -/
structure Files (m : Type → Type) where
  text? : String → m (Option String)
  list : String → m Listing

end JoinPlan
