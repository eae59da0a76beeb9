import JoinPlan.Pipeline.Stage

/-!
# Building a pipeline

A builder collects stages in order. A join comes with its flattening and is taken
once: a second join of the same source, local field and alias is refused. A filter
on joined documents is placed after the flattening of its alias and after the
filters that already stand there.
-/

namespace JoinPlan

/-- What makes two joins the same: source, local field and alias. -/
abbrev JoinKey := String × String × String

/-- The key of a join. -/
def Join.key (join : Join) : JoinKey := (join.source, join.localField, join.asName)

/-- Stages collected so far, and the keys of the joins taken. -/
structure Builder where
  stages : List Stage
  taken : List JoinKey

namespace Builder

/-- The builder without stages. -/
def empty : Builder := ⟨[], []⟩

/-- The builder with a join and its flattening at the end, unless the join was taken. -/
def pushJoin (b : Builder) (join : Join) (flatten : Flatten) : Builder :=
  if b.taken.contains join.key then b
  else ⟨b.stages ++ [.join join, .flatten flatten], b.taken ++ [join.key]⟩

/-- Whether a join would be taken. -/
def accepts (b : Builder) (join : Join) : Bool := !b.taken.contains join.key

/-- The builder with a stage at the end. -/
def push (b : Builder) (stage : Stage) : Builder := { b with stages := b.stages ++ [stage] }

/-- Stages with one more behind the filters at their start. -/
def insertAfterFilters (stage : Stage) : List Stage → List Stage
  | [] => [stage]
  | s :: rest => if s.isFilter then s :: insertAfterFilters stage rest else stage :: s :: rest

/-- Stages with one more behind the first flattening of the alias and the filters
there; at the end where nothing flattens the alias. -/
def insertAfter (asName : String) (stage : Stage) : List Stage → List Stage
  | [] => [stage]
  | s :: rest =>
    if s.flattens asName then s :: insertAfterFilters stage rest
    else s :: insertAfter asName stage rest

/-- The builder with a stage behind the flattening of an alias. -/
def insertAfterFlatten (b : Builder) (asName : String) (stage : Stage) : Builder :=
  { b with stages := insertAfter asName stage b.stages }

/-- Whether a stage joins under the alias. -/
def hasAlias (b : Builder) (asName : String) : Bool := b.stages.any (·.joinsAs asName)

end Builder

end JoinPlan
