import JoinPlan.Store.Sorting

/-!
# What stages do to documents

A filter keeps documents, a join puts the matching documents of another collection
under its alias, a flattening replaces a document by one for each item under the
alias. A join changes objects only, and a flattening drops everything that is no
object.

A join compares as documents: an integer and a double never match. The values at
its local field count one by one, and an array found there counts by its items.
-/

namespace JoinPlan

namespace Join

/-- The items of an array, or the value itself. -/
def opened : Value → List Value
  | .array items => items
  | value => [value]

/-- The values of a document that the join looks for. -/
def localValues (join : Join) (document : Value) : List Value :=
  (document.lookup join.localField).flatMap opened

/-- Whether a document of the other collection holds one of the values. -/
def accepts (join : Join) (values : List Value) (foreign : Value) : Bool :=
  (foreign.lookup join.foreignField).any values.contains

/-- The documents of the other collection that a document is joined with. -/
def partners (join : Join) (others : List Value) (document : Value) : List Value :=
  let values := join.localValues document
  others.filter (join.accepts values)

/-- A document with its partners under the alias. -/
def attach (join : Join) (others : List Value) (document : Value) : Value :=
  match document with
  | .object members =>
    .object (Members.insert members join.asName (.array (join.partners others document)))
  | other => other

end Join

namespace Flatten

/-- The members with a position, when the flattening records positions. -/
def withPosition (f : Flatten) (position : Value) (members : Members) : Members :=
  match f.indexField with
  | some field => members.insert field position
  | none => members

/-- The document of one item. The alias goes last, its position behind it. -/
def itemDocument (f : Flatten) (rest : Members) (item : Value) (position : Value) : Value :=
  .object (f.withPosition position (rest.insert f.asName item))

/-- The documents that replace an object without items. -/
def withoutItems (f : Flatten) (rest : Members) : List Value :=
  if f.preserve then [.object (f.withPosition .null rest)] else []

/-- The documents that replace a document. -/
def apply (f : Flatten) (document : Value) : List Value :=
  match document with
  | .object members =>
    let rest := Members.remove members f.asName
    match Members.get? members f.asName with
    | none | some .null | some (.array []) => f.withoutItems rest
    | some (.array items) =>
      items.zipIdx.map fun (item, position) => f.itemDocument rest item (.ofInt position)
    | some single => [f.itemDocument rest single .null]
  | _ => []

end Flatten

/-- The documents after one stage; `collection` gives the documents of a collection
by its name. -/
def Stage.run [PatternLimit] (collection : String → List Value) (documents : List Value) :
    Stage → List Value
  | .filter condition => documents.filter condition.holds
  | .join j => documents.map (j.attach (collection j.source))
  | .flatten f => documents.flatMap f.apply
  | .sort keys => sortDocuments keys documents
  | .skip count => documents.drop count
  | .limit count => documents.take count

/-- The documents after all stages of a pipeline. -/
def runStages [PatternLimit] (collection : String → List Value) (documents : List Value)
    (pipeline : List Stage) : List Value :=
  pipeline.foldl (Stage.run collection) documents

theorem runStages_append [PatternLimit] (collection : String → List Value) (documents : List Value)
    (first second : List Stage) :
    runStages collection documents (first ++ second)
      = runStages collection (runStages collection documents first) second :=
  List.foldl_append

end JoinPlan
