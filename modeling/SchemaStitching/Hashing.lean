import SchemaStitching.Hydration
import SchemaStitching.Mapping

/-! What values feed to a hash function: their parts, in the order of their declaration. -/

namespace SchemaStitching

/-- One part of a value, as a hash function gets it. -/
inductive Datum where
  /-- Which of several alternatives the value is. -/
  | index (index : Nat)
  /-- How many items follow. -/
  | length (length : Nat)
  | text (text : String)
  | word32 (word : UInt32)
  deriving DecidableEq, Hashable

namespace Datum

/-- The data of a list: its length, and then the data of its items. -/
def ofList {α : Type} (item : α → List Datum) (items : List α) : List Datum :=
  .length items.length :: items.flatMap item

def ofOption {α : Type} (value : α → List Datum) : Option α → List Datum
  | none => [.index 0]
  | some a => .index 1 :: value a

end Datum

def Path.data (path : Path) : List Datum :=
  Datum.ofList (fun segment => [.text segment]) path.segments

def Mapping.data (mapping : Mapping) : List Datum :=
  mapping.path.data

def Origin.data : Origin → List Datum
  | .objectField => [.index 0]
  | .fieldArgument => [.index 1]
  | .context => [.index 2]

def Source.data (source : Source) : List Datum :=
  source.origin.data ++ source.path.data

def Argument.data (argument : Argument) : List Datum :=
  .text argument.name :: argument.source.data

def BatchSize.data (size : BatchSize) : List Datum :=
  [.word32 size.count]

def Hydration.data (hydration : Hydration) : List Datum :=
  .text hydration.service :: .text hydration.field ::
    (Datum.ofList Argument.data hydration.arguments ++
      (Datum.ofOption (fun identifier => [.text identifier]) hydration.identifier ++
        Datum.ofOption BatchSize.data hydration.batchSize))

end SchemaStitching
