import Std.Data.HashSet.Basic

/-! Which items of a list are the first of their kind. -/

namespace SchemaStitching

/-- Puts items into a set, one after the other.  Says of each whether the set had no equal one
before it. -/
def insertAll {α : Type} [BEq α] [Hashable α] (set : Std.HashSet α) :
    List α → List Bool × Std.HashSet α
  | [] => ([], set)
  | item :: items =>
    let inserted := set.containsThenInsert item
    let rest := insertAll inserted.2 items
    ((!inserted.1) :: rest.1, rest.2)

end SchemaStitching
