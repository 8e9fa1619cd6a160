import SchemaStitching.Path

/-! Arguments of a hydration's call, and the sources of their values. -/

namespace SchemaStitching

/-- What the path of an argument's source starts from. -/
inductive Origin where
  /-- The object that is being hydrated. -/
  | objectField
  /-- The arguments of the hydrated field. -/
  | fieldArgument
  /-- The context of the execution. -/
  | context
  deriving DecidableEq, Hashable

/-- The variable that stands for an origin in a document. -/
def Origin.variableName : Origin → String
  | .objectField => "$source"
  | .fieldArgument => "$argument"
  | .context => "$context"

/-- Where the value of an argument comes from. -/
structure Source where
  origin : Origin
  path : Path
  deriving DecidableEq, Hashable

namespace Source

def ofSegments (origin : Origin) (segments : List String) : Except Fault Source :=
  (Path.ofSegments segments).map (Source.mk origin)

/-- A value of the hydrated object, given by its dotted path. -/
def objectField (text : String) : Except Fault Source :=
  (Path.parse text).map (Source.mk .objectField)

/-- An argument of the hydrated field, given by its name. -/
def fieldArgument (name : String) : Except Fault Source :=
  (Path.ofName name).map (Source.mk .fieldArgument)

/-- A value of the context, given by its name. -/
def context (name : String) : Except Fault Source :=
  (Path.ofName name).map (Source.mk .context)

instance : ToString Source where
  toString source := source.origin.variableName ++ "." ++ source.path.dotted

end Source

/-- A named argument and the source of its value. -/
structure Argument where
  name : String
  source : Source
  deriving DecidableEq, Hashable

instance : ToString Argument where
  toString argument := argument.name ++ ": " ++ toString argument.source

end SchemaStitching
