/-!
# Events

The events that the log names. Each has a name in capitals and a level: a failed
operation is an error, a degraded request a warning, all else is information.
-/

namespace JoinPlan.Log

/-- How serious a record is. -/
inductive Level where
  | debug
  | info
  | warn
  | error
deriving DecidableEq, Repr

/-- The name of a level. -/
def Level.name : Level → String
  | .debug => "DEBUG"
  | .info => "INFO"
  | .warn => "WARN"
  | .error => "ERROR"

/-- What can happen. -/
inductive Event where
  | configLoaded
  | schemasLoaded
  | danglingRelation
  | searchPlanned
  | searchExecuted
  | searchRejected
  | searchFailed
  | pathDropped
  | relationSkipped
  | pipelineCompiled
  | writeRejected
  | writeCommitted
deriving DecidableEq, Repr

namespace Event

/-- The name of an event. -/
def name : Event → String
  | .configLoaded => "CONFIG_LOADED"
  | .schemasLoaded => "SCHEMAS_LOADED"
  | .danglingRelation => "DANGLING_RELATION"
  | .searchPlanned => "SEARCH_PLANNED"
  | .searchExecuted => "SEARCH_EXECUTED"
  | .searchRejected => "SEARCH_REJECTED"
  | .searchFailed => "SEARCH_FAILED"
  | .pathDropped => "PATH_DROPPED"
  | .relationSkipped => "RELATION_SKIPPED"
  | .pipelineCompiled => "PIPELINE_COMPILED"
  | .writeRejected => "WRITE_REJECTED"
  | .writeCommitted => "WRITE_COMMITTED"

/-- Whether the event says that an operation failed. -/
def isError : Event → Bool
  | .searchFailed => true
  | _ => false

/-- Whether the event says that a request was degraded or refused. -/
def isWarning : Event → Bool
  | .danglingRelation | .pathDropped | .relationSkipped | .searchRejected | .writeRejected => true
  | _ => false

/-- The level of an event. -/
def level (event : Event) : Level :=
  if event.isError then .error else if event.isWarning then .warn else .info

end Event

end JoinPlan.Log
