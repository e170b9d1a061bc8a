import Monotype.Check.Infer
import Monotype.Proofs.Tree.Survey

/-! Names that are declared once more, with the declarations that they collide with. Here the places
of declarations are kept as well as their names, so that it can be said of a redeclaration which one
is the earlier. -/
namespace Monotype

/-- A declaration, `again`, whose name is taken by an `earlier` one. -/
inductive Redeclaration where
  /-- An imported name, in a scope that has it. -/
  | imported (earlier again : Ident)
  /-- An assigned name, in a scope that has it. -/
  | assigned (earlier again : Ident)
  /-- A constructor of a name that last belonged to another sum type. -/
  | constructor (earlier again : Ident)
  deriving DecidableEq, Repr

namespace Redeclaration

def earlier : Redeclaration → Ident
  | imported earlier _ | assigned earlier _ | constructor earlier _ => earlier

def again : Redeclaration → Ident
  | imported _ again | assigned _ again | constructor _ again => again

def isConstructor : Redeclaration → Bool
  | constructor _ _ => true
  | _ => false

/-- A note that points back to the earlier declaration. -/
def note (d : Redeclaration) : Label :=
  ⟨TypeError.quote d.again.name ++ " first declared here", d.earlier.site.span⟩

/-- The complaint about a redeclaration. That about a constructor has no note. -/
def report (d : Redeclaration) : Report Ty where
  error :=
    match d with
    | imported _ again => .duplicateImport again.name
    | assigned _ again | constructor _ again => .redeclared again.name
  site := d.again.site
  labels := if d.isConstructor then [] else [d.note]

end Redeclaration

/-- The declarations that a later one can collide with, the latest first. -/
structure Known where
  /-- The names of the innermost scope. -/
  scope : List Ident := []
  /-- All constructors, with their sum types. -/
  constructors : List (String × Ident) := []

namespace Known

def inScope? (k : Known) (name : String) : Option Ident := k.scope.find? (·.name = name)

def constructor? (k : Known) (name : String) : Option (String × Ident) :=
  k.constructors.find? (·.2.name = name)

def bind (name : Ident) (k : Known) : Known := { k with scope := name :: k.scope }

/-- An assigned name is bound in any case. -/
def assign (strict : Bool) (name : Ident) (k : Known) : Known × List Redeclaration :=
  (k.bind name, match k.inScope? name.name with
    | some earlier => if strict then [.assigned earlier name] else []
    | none => [])

/-- An imported name is bound unless the scope has it. -/
def bringIn (name : Ident) (k : Known) : Known × List Redeclaration :=
  match k.inScope? name.name with
  | some earlier => (k, [.imported earlier name])
  | none => (k.bind name, [])

def enter (adt : String) (option : Ident) (k : Known) : Known :=
  { k with constructors := (adt, option) :: k.constructors }

theorem constructor?_enter (adt : String) (option : Ident) (k : Known) (name : String) :
    (k.enter adt option).constructor? name =
      if option.name = name then some (adt, option) else k.constructor? name := by
  rw [constructor?, enter, List.find?_cons]
  by_cases h : option.name = name
  · simp [h]
  · simp [h, constructor?]

/-- A constructor always takes over its name. -/
def construct (strict : Bool) (adt : String) (option : Ident) (k : Known) :
    Known × List Redeclaration :=
  (k.enter adt option, match k.constructor? option.name with
    | some (other, earlier) => if strict && other ≠ adt then [.constructor earlier option] else []
    | none => [])

/-- The constructors of a declaration, one after the other. -/
def constructAll (strict : Bool) (adt : String) :
    List AdtOption → Known → Known × List Redeclaration
  | [], k => (k, [])
  | option :: options, k =>
    let (middle, first) := k.construct strict adt option.name
    let (after, rest) := constructAll strict adt options middle
    (after, first ++ rest)

def declare (strict : Bool) (name : Ident) : TypeExpr → Known → Known × List Redeclaration
  | .adt _ options, k => constructAll strict name.name options k
  | _, k => (k, [])

end Known

namespace Redeclaration

/-- What can be found on a way through a part of a program, given what is known before and after. -/
abbrev Way := Known → Known → List Redeclaration → Prop

/-- The way on which `f` says what comes to be known and what is found. -/
def Way.of (f : Known → Known × List Redeclaration) : Way :=
  fun before after found => (after, found) = f before

def Way.andThen (m n : Way) : Way := fun before after found =>
  ∃ middle first rest, m before middle first ∧ n middle after rest ∧ found = first ++ rest

theorem Way.of_andThen (m : Way) : (Way.of (·, [])).andThen m = m := by
  funext before after found
  refine propext ⟨?_, fun h => ⟨before, [], found, rfl, h, rfl⟩⟩
  rintro ⟨middle, first, rest, hfirst, hrest, rfl⟩
  cases hfirst
  exact hrest

theorem Way.andThen_of (m : Way) : m.andThen (Way.of (·, [])) = m := by
  funext before after found
  refine propext ⟨?_, fun h => ⟨after, found, [], h, rfl, (List.append_nil found).symm⟩⟩
  rintro ⟨middle, first, rest, hfirst, hrest, rfl⟩
  cases hrest
  rwa [List.append_nil]

/-- Redeclarations on a walk over a program. Whether a pattern binds its name, and whether the arms
of a match are walked through at all, depends on types, and is left open. -/
def survey (cfg : Config) : Survey Way where
  nothing := .of (·, [])
  andThen := Way.andThen
  nothing_andThen := Way.of_andThen
  andThen_nothing := Way.andThen_of
  param name := .of fun k => (k.bind name, [])
  assigned name := .of (Known.assign cfg.strictRedeclaration name)
  imported name := .of (Known.bringIn name)
  declared name ty := .of (Known.declare cfg.strictRedeclaration name ty)
  pattern p before after found := (after, found) = (before, []) ∨
    ∃ name, p.binder? = some name ∧ (after, found) = (before.bind name, [])
  inScope m before after found := ∃ inner,
    m { before with scope := [] } inner found ∧ after = { inner with scope := before.scope }
  arms m before after found := m before after found ∨ (after, found) = (before, [])

end Redeclaration

/-- `found` are redeclarations of the program, in the order of evaluation. -/
def Redeclared (cfg : Config) (p : Program) (found : List Redeclaration) : Prop :=
  ∃ after, Stmt.surveyAll (Redeclaration.survey cfg) p {} after found

end Monotype
