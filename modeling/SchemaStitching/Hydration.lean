import SchemaStitching.Argument

/-! Hydrations: a field whose value is found by calling a top-level field of another service. -/

namespace SchemaStitching

/-- How many objects share one call: at least one. -/
structure BatchSize where
  count : UInt32
  count_ne_zero : count ≠ 0
  deriving DecidableEq, Hashable

/-- The call that finds a field's value. -/
structure Hydration where
  /-- The service that is called. -/
  service : String
  /-- The field of the service, at its top level. -/
  field : String
  /-- The arguments of the call, in the order in which they are declared. -/
  arguments : List Argument := []
  /-- The field by which the results of a batched call are matched to the objects. -/
  identifier : Option String := none
  batchSize : Option BatchSize := none
  deriving DecidableEq, Hashable

namespace Hydration

/-- The hydration with one more argument, after those that it has. -/
def addArgument (hydration : Hydration) (argument : Argument) : Hydration :=
  { hydration with arguments := hydration.arguments ++ [argument] }

/-- The hydration with the given field in place of any by which results are matched. -/
def identifyBy (hydration : Hydration) (identifier : String) : Hydration :=
  { hydration with identifier := some identifier }

/-- The hydration with its call batched in groups of `count`, which must not be zero. -/
def batchBy (hydration : Hydration) (count : UInt32) : Except Fault Hydration :=
  if nonzero : count ≠ 0 then .ok { hydration with batchSize := some ⟨count, nonzero⟩ }
  else .error (.zeroBatchSize hydration.service hydration.field)

/-- The first argument of the given name. -/
def argument? (hydration : Hydration) (name : String) : Option Argument :=
  hydration.arguments.find? (·.name == name)

/-- Whether objects share calls. -/
def isBatched (hydration : Hydration) : Bool :=
  hydration.batchSize.isSome

/-- The paths of the hydrated object that the call reads, which have to be fetched before it. -/
def objectPaths (hydration : Hydration) : List Path :=
  (hydration.arguments.filter (·.source.origin == .objectField)).map (·.source.path)

/-- What is called: the service and its field, joined with a dot. -/
def target (hydration : Hydration) : String :=
  hydration.service ++ "." ++ hydration.field

end Hydration

end SchemaStitching
