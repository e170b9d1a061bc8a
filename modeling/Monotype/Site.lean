/-! Places in a program text: one-based positions, spans between two of them, and the
node of the tree that a report or a symbol points at. -/
namespace Monotype

/-- A line and a column, both counted from one; zero stands for an unknown place. -/
structure Position where
  line : Nat := 0
  column : Nat := 0
  deriving DecidableEq, Repr, Inhabited

structure Span where
  start : Position := {}
  stop : Position := {}
  deriving DecidableEq, Repr, Inhabited

/-- The number that a tree gives to a node. -/
abbrev NodeId := Nat

/-- A node together with the text that it covers. -/
structure Site where
  node : NodeId := 0
  span : Span := {}
  deriving DecidableEq, Repr, Inhabited

end Monotype
