/-! Settings of a checking run. -/
namespace Monotype

structure Config where
  /-- The tag of diagnostics that are handed to an editor. -/
  language : String := "chicory"
  /-- An imported name agrees with every type, not only with the same import. -/
  dynamicImports : Bool := false
  /-- Elements with a lowercase name belong to the host and are not looked up. -/
  intrinsicElements : Bool := true
  /-- Report a match on a sum type that leaves out a constructor. -/
  exhaustiveness : Bool := false
  /-- Report a second declaration of a name in one scope and a constructor name of two sum types. -/
  strictRedeclaration : Bool := false
  deriving DecidableEq, Repr, Inhabited

end Monotype
