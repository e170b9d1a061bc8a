import Monotype.Check.Run

/-! Type declarations: what a written type means, and how the types and constructors of a program
are entered. -/
namespace Monotype.Check

/-- The type of a written type name. A declared type comes first; the sum type that is just being
declared, `self`, may also be named. -/
def lookupType (self : Option String) (name : Ident) : Check Ty := do
  match (← state).registry.type? name.name with
  | some declared => return declared.definition.toTy name.name
  | none =>
    if self = some name.name then return .adt name.name
    else recover name.site (.undefinedType name.name)

mutual
/-- The meaning of a written type. A sum type has none outside the head of a declaration. -/
def lower (self : Option String) : TypeExpr → Check Ty
  | .prim _ p => return .prim p
  | .named _ name => lookupType self name
  | .record _ fields => return .record (Fields.ofList (← lowerFields self fields))
  | .tuple _ items => return .tuple (← lowerList self items)
  | .fn _ params result => do
    let params ← lowerList self params
    let result ← lower self result
    return .fn params result
  | .adt site _ => recover site .adtContext

def lowerList (self : Option String) : List TypeExpr → Check (List Ty)
  | [] => return []
  | t :: ts => do
    let t ← lower self t
    let ts ← lowerList self ts
    return t :: ts

def lowerFields (self : Option String) : List TypeField → Check (List (String × Ty))
  | [] => return []
  | ⟨name, t⟩ :: fields => do
    let t ← lower self t
    let fields ← lowerFields self fields
    return (name.name, t) :: fields
end

/-- The parameters of a constructor of the sum type `adt`: none or one. -/
def lowerPayload (adt : String) : Payload → Check (List Ty)
  | .none => return []
  | .prim p => return [.prim p]
  | .named name => return [← lookupType (some adt) name]
  | .record fields => return [.record (Fields.ofList (← lowerFields (some adt) fields))]

def lowerOptions (adt : String) : List AdtOption → Check (List Constructor)
  | [] => return []
  | option :: options => do
    let params ← lowerPayload adt option.payload
    let constructors ← lowerOptions adt options
    return .ofParams adt option.name.name params option.name.site.node :: constructors

/-- What a declaration under `name` says. -/
def lowerDef (name : String) : TypeExpr → Check TypeDef
  | .adt _ options => return .adt (← lowerOptions name options)
  | .prim _ p => return .prim p
  | .named _ other => return .synonym (← lookupType none other)
  | .record _ fields => return .record (Fields.ofList (← lowerFields none fields))
  | .tuple _ items => return .tuple (← lowerList none items)
  | .fn _ params result => do
    let params ← lowerList none params
    let result ← lower none result
    return .fn params result

/-- Enters one constructor of the sum type `adt`. Strictly, a name that another sum type had is a
redeclaration. -/
def declareConstructor (adt : String) (option : Ident) (c : Constructor) : Check Unit := do
  let displaced ← act (.register c)
  if (← config).strictRedeclaration then
    match displaced with
    | some previous =>
      if previous.adtName ≠ adt then report option.site (.redeclared previous.name)
    | none => pure ()
  addSymbol option c.ty .constructor

def declareConstructors (adt : String) : List AdtOption → List Constructor → Check Unit
  | option :: options, c :: cs => do
    declareConstructor adt option.name c
    declareConstructors adt options cs
  | _, _ => pure ()

def declareType (name : Ident) (ty : TypeExpr) : Check Unit := do
  let definition ← lowerDef name.name ty
  act (.declareType name.name definition name.site.node)
  addSymbol name (definition.toTy name.name) .type
  match ty, definition with
  | .adt _ options, .adt constructors => declareConstructors name.name options constructors
  | _, _ => pure ()

end Monotype.Check
