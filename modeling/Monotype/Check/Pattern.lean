import Monotype.Check.Run

/-! Patterns of match arms: the names that they bind, what they require of the matched value, and
which constructors they leave out. -/
namespace Monotype

def Literal.ty (l : Literal) : Ty :=
  match l.value with
  | .string _ => .string
  | .number _ => .number
  | .boolean _ => .boolean

namespace Pattern

def isWildcard : Pattern → Bool
  | wildcard _ => true
  | _ => false

/-- Whether a pattern asks nothing of a value's constructor. -/
def isPlain : Pattern → Bool
  | literal _ _ | wildcard _ => true
  | _ => false

/-- The constructor all of whose values a pattern catches. -/
def covered? : Pattern → Option String
  | constructor _ name [] => some name.name
  | constructor _ name [binding _ _] => some name.name
  | constructor _ name [wildcard _] => some name.name
  | _ => none

/-- The names of those constructors that no pattern covers, in the order of their declaration. -/
def uncovered (patterns : List Pattern) (constructors : List Constructor) : List String :=
  (constructors.map (·.name)).filter fun name =>
    !patterns.any fun pattern => pattern.covered? = some name

end Pattern

/-- How a match can be checked. -/
inductive MatchForm where
  /-- By the constructors of a sum type. -/
  | onSum (adt : String)
  /-- By comparing with literals. -/
  | onLiterals
  | unsupported
  deriving DecidableEq, Repr, Inhabited

/-- The form of a match on a value of the resolved type `t`. -/
def MatchForm.of (registry : Registry) (t : Ty) (patterns : List Pattern) : MatchForm :=
  match t with
  | .adt name => if (registry.constructorsOf? name).isSome then onSum name else unsupported
  | _ => if !patterns.isEmpty && patterns.all (·.isPlain) then onLiterals else unsupported

namespace Check

/-- Checks the argument of a constructor pattern against the constructor's parameter. -/
def acceptPayload (param : Ty) : Pattern → Check Unit
  | .wildcard _ => pure ()
  | .literal site l => unify param l.ty site
  | .binding _ name => declare name param .var
  | .constructor site _ _ => report site .unsupportedPattern

/-- Checks the arguments of a pattern for the constructor `name`. When their number is wrong a
single binder is bound all the same, so that the body of the arm can use it. -/
def acceptArgs (site : Site) (name : String) (params : List Ty) : List Pattern → Check Unit
  | [] =>
    if params.isEmpty then pure () else report site (.constructorArity name params.length)
  | [arg] =>
    match params with
    | [param] => acceptPayload param arg
    | _ => do
      report site (.constructorArity name params.length)
      match arg with
      | .binding _ binder => bindLocal binder (← fresh)
      | _ => pure ()
  | _ => report site .unsupportedPattern

/-- Checks the pattern of an arm in a match on the sum type `adt`. -/
def acceptSum (adt : String) (scrutinee : Ty) : Pattern → Check Unit
  | .wildcard _ => pure ()
  | .literal site l => unify l.ty scrutinee site
  | .binding site _ => report site .unsupportedPattern
  | .constructor site name args => do
    match (← state).registry.constructorOf? adt name.name with
    | some c => acceptArgs site name.name c.params args
    | none => report name.site (.foreignConstructor name.name adt)

/-- Checks the pattern of an arm in a match on literals. -/
def acceptLiteral (scrutinee : Ty) : Pattern → Check Unit
  | .literal site l => unify l.ty scrutinee site
  | _ => pure ()

/-- Reports the constructors of `adt` that a match leaves out. -/
def checkExhaustive (site : Site) (adt : String) (patterns : List Pattern) : Check Unit := do
  if patterns.any (·.isWildcard) then return
  match (← state).registry.constructorsOf? adt with
  | none => pure ()
  | some constructors =>
    let missing := Pattern.uncovered patterns constructors
    if missing.isEmpty then pure () else report site (.nonExhaustive adt missing)

end Check

end Monotype
