import Monotype.Tree.Basic

/-! Sketches: programs without numbers and places. Numbering a sketch gives a tree whose nodes and
names are numbered 0, 1, 2, … in a fixed order: first all expressions, types, patterns and elements
nested in a node, from left to right, then the names that the node writes down, and the node last.
Where a node consists of several (the branches of an `if`, an option of a sum type, an element with
its names), these follow each other after all that is nested in them. -/
namespace Monotype.Sketch

inductive Pattern where
  | wildcard
  | literal (value : LiteralValue)
  | binding (name : String)
  | constructor (name : String) (args : List Pattern)

mutual
inductive TypeExpr where
  | prim (p : Prim)
  | named (name : String)
  | record (fields : List (String × TypeExpr))
  | tuple (items : List TypeExpr)
  | fn (params : List TypeExpr) (result : TypeExpr)
  | adt (options : List AdtOption)

inductive AdtOption where
  | bare (name : String)
  | prim (name : String) (p : Prim)
  | named (name type : String)
  | record (name : String) (fields : List (String × TypeExpr))
end

mutual
inductive Stmt where
  | assign (keyword : Keyword) (name : String) (value : Expr)
  | typeDecl (name : String) (ty : TypeExpr)
  | importFrom (default : Option String) (names : List String) (path : String)
  | exportNames (names : List String)
  | expr (value : Expr)

inductive Expr where
  | literal (value : LiteralValue)
  | ident (name : String)
  | paren (inner : Expr)
  | block (statements : List Stmt) (result : Option Expr)
  | record (entries : List (String × Expr))
  | array (items : List Expr)
  | function (params : List String) (body : Expr)
  | ifChain (branches : List (Expr × Expr)) (otherwise : Option Expr)
  | matchOn (scrutinee : Expr) (arms : List (Pattern × Expr))
  | markup (element : Markup)
  | member (target : Expr) (name : String)
  | index (target index : Expr)
  | call (target : Expr) (args : List Expr)
  | operation (left : Expr) (op : String) (right : Expr)

inductive Markup where
  /-- An element that is closed under its own name. -/
  | element (name : String) (attributes : List Attribute) (children : List Child)
  | selfClosing (name : String) (attributes : List Attribute)
  /-- The same element, closed under another name. -/
  | close (element : Markup) (closing : String)

inductive Attribute where
  | string (name value : String)
  | number (name : String) (value : Float)
  | expr (name : String) (value : Expr)

inductive Child where
  | text (value : String)
  | expr (value : Expr)
  | element (value : Markup)
end

/-- Steps that hand out numbers; the state is the next one. -/
abbrev Numbering := StateM NodeId

/-- The site of the next number. Sketches cover no text. -/
def next : Numbering Site := modifyGet fun n => ({ node := n }, n + 1)

def ident (name : String) : Numbering Ident := return ⟨name, ← next⟩

def idents : List String → Numbering (List Ident)
  | [] => return []
  | name :: names => do
    let name ← ident name
    let names ← idents names
    return name :: names

def ident? : Option String → Numbering (Option Ident)
  | none => return none
  | some name => return some (← ident name)

def literal (value : LiteralValue) : Numbering Literal := return ⟨← next, value⟩

mutual
def numberPattern : Pattern → Numbering Monotype.Pattern
  | .wildcard => return .wildcard (← next)
  | .literal value => do
    let l ← literal value
    return .literal (← next) l
  | .binding name => do
    let name ← ident name
    return .binding (← next) name
  | .constructor name args => do
    let args ← numberPatterns args
    let name ← ident name
    return .constructor (← next) name args

def numberPatterns : List Pattern → Numbering (List Monotype.Pattern)
  | [] => return []
  | p :: ps => do
    let p ← numberPattern p
    let ps ← numberPatterns ps
    return p :: ps
end

def typeFields : List (String × Monotype.TypeExpr) → Numbering (List TypeField)
  | [] => return []
  | (name, ty) :: fields => do
    let name ← ident name
    let fields ← typeFields fields
    return ⟨name, ty⟩ :: fields

def adtOption (name : String) (payload : Payload) : Numbering Monotype.AdtOption := do
  let site ← next
  let name ← ident name
  return ⟨site, name, payload⟩

mutual
def numberType : TypeExpr → Numbering Monotype.TypeExpr
  | .prim p => return .prim (← next) p
  | .named name => do
    let name ← ident name
    return .named (← next) name
  | .record fields => do
    let fields ← typeFields (← numberFieldTypes fields)
    return .record (← next) fields
  | .tuple items => do
    let items ← numberTypes items
    return .tuple (← next) items
  | .fn params result => do
    let params ← numberTypes params
    let result ← numberType result
    return .fn (← next) params result
  | .adt options => do
    let options ← numberOptions options
    return .adt (← next) options

def numberTypes : List TypeExpr → Numbering (List Monotype.TypeExpr)
  | [] => return []
  | t :: ts => do
    let t ← numberType t
    let ts ← numberTypes ts
    return t :: ts

def numberFieldTypes :
    List (String × TypeExpr) → Numbering (List (String × Monotype.TypeExpr))
  | [] => return []
  | (name, t) :: fields => do
    let t ← numberType t
    let fields ← numberFieldTypes fields
    return (name, t) :: fields

def numberOptions : List AdtOption → Numbering (List Monotype.AdtOption)
  | [] => return []
  | option :: options => do
    let option ← numberOption option
    let options ← numberOptions options
    return option :: options

def numberOption : AdtOption → Numbering Monotype.AdtOption
  | .bare name => adtOption name .none
  | .prim name p => adtOption name (.prim p)
  | .named name type => do
    let type ← ident type
    adtOption name (.named type)
  | .record name fields => do
    let fields ← typeFields (← numberFieldTypes fields)
    adtOption name (.record fields)
end

/-- An expression without tails. -/
def wrap (primary : Site → Primary) : Numbering Monotype.Expr := do
  let site ← next
  let inner ← next
  return ⟨site, primary inner, []⟩

/-- An expression with one more tail. -/
def addTail (target : Monotype.Expr) (tail : Site → Tail) : Numbering Monotype.Expr := do
  let site ← next
  return { target with tails := target.tails ++ [tail site] }

def nameEntries : List (String × Monotype.Expr) → Numbering (List Entry)
  | [] => return []
  | (name, value) :: entries => do
    let name ← ident name
    let entries ← nameEntries entries
    return ⟨name, value⟩ :: entries

def siteBranches : List (Monotype.Expr × Monotype.Expr) → Numbering (List Branch)
  | [] => return []
  | (condition, body) :: branches => do
    let site ← next
    let branches ← siteBranches branches
    return ⟨site, condition, body⟩ :: branches

def siteArms : List (Monotype.Pattern × Monotype.Expr) → Numbering (List Arm)
  | [] => return []
  | (pattern, body) :: arms => do
    let site ← next
    let arms ← siteArms arms
    return ⟨site, pattern, body⟩ :: arms

mutual
def numberStmt : Stmt → Numbering Monotype.Stmt
  | .assign keyword name value => do
    let value ← numberExpr value
    let name ← ident name
    return .assign (← next) keyword name value
  | .typeDecl name ty => do
    let ty ← numberType ty
    let name ← ident name
    return .typeDecl (← next) name ty
  | .importFrom default names path => do
    let default ← ident? default
    let names ← idents names
    return .importFrom (← next) default names path
  | .exportNames names => do
    let names ← idents names
    return .exportNames (← next) names
  | .expr value => do
    let value ← numberExpr value
    return .expr (← next) value

def numberStmts : List Stmt → Numbering (List Monotype.Stmt)
  | [] => return []
  | stmt :: stmts => do
    let stmt ← numberStmt stmt
    let stmts ← numberStmts stmts
    return stmt :: stmts

def numberExpr : Expr → Numbering Monotype.Expr
  | .literal value => do
    let l ← literal value
    wrap (.literal · l)
  | .ident name => do
    let name ← ident name
    wrap (.ident · name)
  | .paren inner => do
    let inner ← numberExpr inner
    wrap (.paren · inner)
  | .block statements result => do
    let statements ← numberStmts statements
    let result ← numberExpr? result
    let site ← next
    wrap (.block · ⟨site, statements, result⟩)
  | .record entries => do
    let entries ← nameEntries (← numberEntries entries)
    wrap (.record · entries)
  | .array items => do
    let items ← numberExprs items
    wrap (.array · items)
  | .function params body => do
    let body ← numberExpr body
    let params ← idents params
    wrap (.function · params body)
  | .ifChain branches otherwise => do
    let branches ← numberBranches branches
    let otherwise ← numberExpr? otherwise
    let branches ← siteBranches branches
    wrap (.ifChain · branches otherwise)
  | .matchOn scrutinee arms => do
    let scrutinee ← numberExpr scrutinee
    let arms ← siteArms (← numberArms arms)
    wrap (.matchOn · scrutinee arms)
  | .markup element => do
    let element ← numberMarkup element
    wrap (.markup · element)
  | .member target name => do
    let target ← numberExpr target
    let name ← ident name
    addTail target (.member · name)
  | .index target index => do
    let target ← numberExpr target
    let index ← numberExpr index
    addTail target (.index · index)
  | .call target args => do
    let target ← numberExpr target
    let args ← numberExprs args
    addTail target (.call · args)
  | .operation left op right => do
    let left ← numberExpr left
    let right ← numberExpr right
    addTail left (.operation · op right)

def numberExprs : List Expr → Numbering (List Monotype.Expr)
  | [] => return []
  | e :: es => do
    let e ← numberExpr e
    let es ← numberExprs es
    return e :: es

def numberExpr? : Option Expr → Numbering (Option Monotype.Expr)
  | none => return none
  | some e => return some (← numberExpr e)

def numberEntries : List (String × Expr) → Numbering (List (String × Monotype.Expr))
  | [] => return []
  | (name, value) :: entries => do
    let value ← numberExpr value
    let entries ← numberEntries entries
    return (name, value) :: entries

def numberBranches :
    List (Expr × Expr) → Numbering (List (Monotype.Expr × Monotype.Expr))
  | [] => return []
  | (condition, body) :: branches => do
    let condition ← numberExpr condition
    let body ← numberExpr body
    let branches ← numberBranches branches
    return (condition, body) :: branches

def numberArms :
    List (Pattern × Expr) → Numbering (List (Monotype.Pattern × Monotype.Expr))
  | [] => return []
  | (pattern, body) :: arms => do
    let pattern ← numberPattern pattern
    let body ← numberExpr body
    let arms ← numberArms arms
    return (pattern, body) :: arms

def numberMarkup : Markup → Numbering Monotype.Markup
  | .element name attributes children => do
    let attributes ← numberAttributes attributes
    let children ← numberChildren children
    let site ← next
    let opening ← ident name
    let closing ← ident name
    return ⟨site, opening, attributes, children, some closing⟩
  | .selfClosing name attributes => do
    let attributes ← numberAttributes attributes
    let site ← next
    let name ← ident name
    return ⟨site, name, attributes, [], none⟩
  | .close element closing => do
    let element ← numberMarkup element
    let closing ← ident closing
    return { element with closing := some closing }

def numberAttributes : List Attribute → Numbering (List Monotype.Attribute)
  | [] => return []
  | a :: as => do
    let a ← numberAttribute a
    let as ← numberAttributes as
    return a :: as

def numberAttribute : Attribute → Numbering Monotype.Attribute
  | .string name value => return .string (← ident name) value
  | .number name value => return .number (← ident name) value
  | .expr name value => do
    let value ← numberExpr value
    return .expr (← ident name) value

def numberChildren : List Child → Numbering (List Monotype.Child)
  | [] => return []
  | c :: cs => do
    let c ← numberChild c
    let cs ← numberChildren cs
    return c :: cs

def numberChild : Child → Numbering Monotype.Child
  | .text value => return .text value
  | .expr value => return .expr (← numberExpr value)
  | .element value => return .element (← numberMarkup value)
end

/-- The numbered program, and the first number that it does not use. -/
def build (statements : List Stmt) : Program × NodeId := numberStmts statements 0

end Monotype.Sketch
