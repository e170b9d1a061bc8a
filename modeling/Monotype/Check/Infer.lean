import Monotype.Check.Pattern
import Monotype.Check.TypeDecl

/-! Inference: the walk over a program that gives every expression a type. -/
namespace Monotype

/-- What an operator works on. -/
inductive OperatorClass where
  | arithmetic
  | comparison
  | equality
  | logical
  deriving DecidableEq, Repr, Inhabited

def OperatorClass.ofText? (op : String) : Option OperatorClass :=
  if op ∈ ["+", "-", "*", "/"] then some arithmetic
  else if op ∈ ["<", ">", "<=", ">="] then some comparison
  else if op ∈ ["==", "!="] then some equality
  else if op ∈ ["&&", "||"] then some logical
  else none

namespace Check

def inferIdent (name : Ident) : Check Ty := do
  match ← lookupValue name.name with
  | some t => return t
  | none => recover name.site (.undefinedIdentifier name.name)

/-- The type of a member of a record. -/
def inferMember (site : Site) (current : Ty) (member : String) : Check Ty := do
  match ← resolve current with
  | .record fields =>
    match fields.lookup member with
    | some t => return t
    | none => recover site (.unknownMember member)
  | other =>
    if other.isExternal && (← config).dynamicImports then fresh
    else recover site (.nonRecordMember member (← apply other))

/-- The type of an element of a tuple. It is not known which element an index picks. -/
def inferElement (site : Site) (current : Ty) : Check Ty := do
  match ← resolve current with
  | .tuple _ => fresh
  | other =>
    if other.isExternal && (← config).dynamicImports then fresh
    else recover site (.nonTupleIndex (← apply other))

/-- The type of an operation. Complaints about the left operand are placed at the operation,
complaints about the right one at that operand. -/
def inferOperation (site rhs : Site) (op : String) (left right : Ty) : Check Ty := do
  match OperatorClass.ofText? op with
  | some .arithmetic =>
    unify .number left site
    unify .number right rhs
    return .number
  | some .comparison =>
    unify .number left site
    unify .number right rhs
    return .boolean
  | some .equality =>
    unify left right rhs
    return .boolean
  | some .logical =>
    unify .boolean left site
    unify .boolean right rhs
    return .boolean
  | none => recover site (.unsupportedOperator op)

/-- Declares the parameters of a function, each with a type of its own. -/
def declareParams : List Ident → Check (List Ty)
  | [] => return []
  | param :: params => do
    let t ← fresh
    declare param t .param
    let ts ← declareParams params
    return t :: ts

/-- Declares an imported name, unless the scope has it. -/
def declareImport (path : String) (name : Ident) : Check Unit := do
  if ← declaredHere name.name then
    reportWith (← earlierBinding name.name) name.site (.duplicateImport name.name)
  else
    declare name (.external path) .imported

def checkExport (name : Ident) : Check Unit := do
  if (← lookupValue name.name).isNone then
    report name.site (.undefinedExport name.name)

/-- Declares an assigned name. A second assignment to a name in one scope replaces the first. -/
def declareAssigned (name : Ident) (t : Ty) : Check Unit := do
  if (← config).strictRedeclaration && (← declaredHere name.name) then
    reportWith (← earlierBinding name.name) name.site (.redeclared name.name)
  declare name t .var

/-- An element must be closed under the name that opened it. -/
def checkClosing (site : Site) (name : Ident) : Option Ident → Check Unit
  | some closing =>
    if closing.name = name.name then pure ()
    else throw (.closingTag site.node closing.name name.name)
  | none => pure ()

/-- Whether an element belongs to the host. -/
def isIntrinsic (config : Config) (name : String) : Bool :=
  config.intrinsicElements && name.toList.head?.any Char.isLower

/-- Components are functions from their attributes to markup. -/
def checkComponent (name : Ident) (props : Ty) : Check Unit := do
  if isIntrinsic (← config) name.name then return
  match ← lookupValue name.name with
  | some component => unify component (.fn [props] .jsx) name.site
  | none => report name.site (.undefinedComponent name.name)

mutual
def inferExpr : Expr → Check Ty
  | ⟨site, primary, tails⟩ => do
    let t ← inferPrimary primary
    recordType primary.site.node t
    let t ← inferTails t tails
    recordType site.node t
    return t

def inferExprs : List Expr → Check (List Ty)
  | [] => return []
  | e :: es => do
    let t ← inferExpr e
    let ts ← inferExprs es
    return t :: ts

def inferPrimary : Primary → Check Ty
  | .ident _ name => inferIdent name
  | .literal _ l => return l.ty
  | .paren _ inner => inferExpr inner
  | .block _ body => inferBlock body
  | .record _ entries => return .record (Fields.ofList (← inferEntries entries))
  | .array _ items => return .tuple (← inferExprs items)
  | .function _ params body => inScope do
    let params ← declareParams params
    let result ← inferExpr body
    return .fn params result
  | .ifChain site branches otherwise => do
    if branches.isEmpty then throw (.noBranches site.node)
    let result ← fresh
    inferBranches result branches
    inferOtherwise result otherwise
    return result
  | .matchOn site scrutinee arms => do
    let t ← inferExpr scrutinee
    let resolved ← resolve t
    let patterns := arms.map (·.pattern)
    match MatchForm.of (← state).registry resolved patterns with
    | .onSum adt =>
      let result ← fresh
      inferArms (acceptSum adt t) result arms
      if (← config).exhaustiveness then checkExhaustive site adt patterns
      apply result
    | .onLiterals =>
      let result ← fresh
      inferArms (acceptLiteral t) result arms
      apply result
    | .unsupported => recover scrutinee.site (.nonAdtMatch (← apply resolved))
  | .markup _ element => inferMarkup element

/-- A block without a result can have any type. -/
def inferBlock : Block → Check Ty
  | ⟨_, statements, result⟩ => inScope do
    checkStmts statements
    inferResult result

def inferResult : Option Expr → Check Ty
  | some e => inferExpr e
  | none => fresh

def inferEntries : List Entry → Check (List (String × Ty))
  | [] => return []
  | ⟨name, value⟩ :: entries => do
    let t ← inferExpr value
    let fields ← inferEntries entries
    return (name.name, t) :: fields

def inferBranches (result : Ty) : List Branch → Check Unit
  | [] => pure ()
  | ⟨_, condition, body⟩ :: branches => do
    let t ← inferExpr condition
    unify .boolean t condition.site
    let t ← inferExpr body
    unify result t body.site
    inferBranches result branches

def inferOtherwise (result : Ty) : Option Expr → Check Unit
  | some body => do
    let t ← inferExpr body
    unify result t body.site
  | none => pure ()

/-- The arms of a match, each in a scope of its own; `accept` treats their patterns. -/
def inferArms (accept : Pattern → Check Unit) (result : Ty) : List Arm → Check Unit
  | [] => pure ()
  | ⟨_, pattern, body⟩ :: arms => do
    inScope do
      accept pattern
      let t ← inferExpr body
      unify result t body.site
    inferArms accept result arms

def inferTails (current : Ty) : List Tail → Check Ty
  | [] => return current
  | tail :: tails => do
    let t ← inferTail current tail
    recordType tail.site.node t
    inferTails t tails

def inferTail (current : Ty) : Tail → Check Ty
  | .member site name => inferMember site current name.name
  | .index site index => do
    let t ← inferExpr index
    unify .number t index.site
    inferElement site current
  | .call site args => do
    let params ← inferExprs args
    let result ← fresh
    unify current (.fn params result) site
    return result
  | .operation site op rhs => do
    let right ← inferExpr rhs
    inferOperation site rhs.site op current right

def inferMarkup : Markup → Check Ty
  | ⟨site, name, attributes, children, closing⟩ => do
    checkClosing site name closing
    let props ← inferAttributes attributes
    checkComponent name (.record (Fields.ofList props))
    checkChildren children
    return .jsx

def inferAttributes : List Attribute → Check (List (String × Ty))
  | [] => return []
  | attr :: attrs => do
    let field ← inferAttribute attr
    let fields ← inferAttributes attrs
    return field :: fields

def inferAttribute : Attribute → Check (String × Ty)
  | .string name _ => return (name.name, .string)
  | .number name _ => return (name.name, .number)
  | .expr name value => return (name.name, ← inferExpr value)

def checkChildren : List Child → Check Unit
  | [] => pure ()
  | child :: children => do
    checkChild child
    checkChildren children

def checkChild : Child → Check Unit
  | .text _ => pure ()
  | .expr value => do
    let _ ← inferExpr value
  | .element value => do
    let _ ← inferMarkup value

def checkStmts : List Stmt → Check Unit
  | [] => pure ()
  | stmt :: stmts => do
    checkStmt stmt
    checkStmts stmts

def checkStmt : Stmt → Check Unit
  | .assign _ _ name value => do
    let t ← inferExpr value
    declareAssigned name t
  | .typeDecl _ name ty => declareType name ty
  | .importFrom _ default names path => do
    default.forM (declareImport path)
    names.forM (declareImport path)
  | .exportNames _ names => names.forM checkExport
  | .expr _ value => do
    let _ ← inferExpr value
end

end Check

end Monotype
