/-!
# Planning options

What a deployment may choose about planning: how a path refers to the parent of a
document, which resource types are never joined as relations, and whether compiled
pipelines are logged.
-/

namespace JoinPlan

/-- The options of planning. -/
structure Options where
  uplinkMarker : String
  parentField : String
  excludedTargets : List String
  logPipelines : Bool
deriving DecidableEq, Repr

namespace Options

/-- The options where nothing is chosen. -/
def standard : Options where
  uplinkMarker := "~"
  parentField := "parentID"
  excludedTargets := ["formtype"]
  logPipelines := false

/-- Whether relations to a resource type are not expanded. -/
def excludes (options : Options) (target : String) : Bool :=
  options.excludedTargets.contains target

/-- The attribute that a path segment names: the marker stands for the parent. -/
def fieldOf (options : Options) (segment : String) : String :=
  if segment = options.uplinkMarker then options.parentField else segment

end Options

end JoinPlan
