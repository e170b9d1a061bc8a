import Monotype.Check.Infer
import Monotype.Proofs.Tree.Survey

/-! Names by lexical scoping, without types: which names of a program are not in sight where they
are used, and which are declared where they already are. Scopes hold names only, and constructors
are in one table for the whole program. -/
namespace Monotype

/-- A complaint about a name. -/
structure Naming where
  code : String
  node : NodeId
  name : String
  deriving DecidableEq, Repr

/-- What is known of names at a point of a program. -/
structure Resolver where
  /-- The names of each open scope, innermost first. -/
  scopes : List (String → Bool) := [fun _ => false]
  /-- The sum type that last declared a constructor of a name. -/
  constructors : String → Option String := fun _ => none
  /-- The complaints so far. -/
  found : List Naming := []

namespace Resolver

/-- Whether a name is in sight, in a scope or as a constructor. -/
def knows (r : Resolver) (name : String) : Bool :=
  r.scopes.any (· name) || (r.constructors name).isSome

/-- Whether the innermost scope has a name. -/
def hasHere (r : Resolver) (name : String) : Bool := r.scopes.head?.any (· name)

def complain (code : String) (name : Ident) (r : Resolver) : Resolver :=
  { r with found := r.found ++ [⟨code, name.site.node, name.name⟩] }

/-- Adds a name to the innermost scope. -/
def bind (name : Ident) (r : Resolver) : Resolver :=
  { r with scopes := r.scopes.modifyHead fun scope n => n = name.name || scope n }

/-- A name that has to be in sight. -/
def require (code : String) (name : Ident) (r : Resolver) : Resolver :=
  if r.knows name.name then r else r.complain code name

/-- An assigned name is bound in any case. -/
def assign (strict : Bool) (name : Ident) (r : Resolver) : Resolver :=
  (if strict && r.hasHere name.name then r.complain "E3020" name else r).bind name

/-- An imported name is bound unless the scope has it. -/
def bringIn (name : Ident) (r : Resolver) : Resolver :=
  if r.hasHere name.name then r.complain "E3002" name else r.bind name

/-- Enters a constructor of the sum type `adt`. -/
def enter (adt : String) (name : Ident) (r : Resolver) : Resolver :=
  { r with constructors := fun n => if n = name.name then some adt else r.constructors n }

/-- Strictly, a constructor must not have the name of one of another sum type. -/
def construct (strict : Bool) (adt : String) (name : Ident) (r : Resolver) : Resolver :=
  if strict && (r.constructors name.name).any (· ≠ adt) then
    (r.enter adt name).complain "E3020" name
  else r.enter adt name

/-- A type declaration enters the constructors of a sum type, whatever scope it stands in. -/
def declare (strict : Bool) (name : Ident) : TypeExpr → Resolver → Resolver
  | .adt _ options, r =>
    options.foldl (fun r option => r.construct strict name.name option.name) r
  | _, r => r

/-- A pattern binds the one name that is the whole argument of a constructor. -/
def matching : Pattern → Resolver → Resolver
  | .constructor _ _ [.binding _ name], r => r.bind name
  | _, r => r

/-- A scope is gone at its end; complaints and constructors stay. -/
def inScope (body : Resolver → Resolver) (r : Resolver) : Resolver :=
  { body { r with scopes := (fun _ => false) :: r.scopes } with scopes := r.scopes }

/-- What each place of a program does to the names in sight. -/
def survey (cfg : Config) : Survey (Resolver → Resolver) where
  nothing := id
  andThen f g := g ∘ f
  nothing_andThen _ := rfl
  andThen_nothing _ := rfl
  used := require "E3001"
  param := bind
  assigned := assign cfg.strictRedeclaration
  imported := bringIn
  exported := require "E3021"
  declared := declare cfg.strictRedeclaration
  pattern := matching
  component name := if Check.isIntrinsic cfg name.name then id else require "E3015" name
  inScope := inScope

end Resolver

/-- The complaints about names in a program, in the order of evaluation. -/
def namings (cfg : Config) (p : Program) : List Naming :=
  (Stmt.surveyAll (Resolver.survey cfg) p {}).found

end Monotype
