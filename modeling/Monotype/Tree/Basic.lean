import Monotype.Site
import Monotype.Ty.Basic

/-! Programs as trees. Every node has a site: the number by which reports, symbols and recorded
types refer to it, and the text that it covers. Numbers need not be distinct. -/
namespace Monotype

/-- A name where it is written. -/
structure Ident where
  name : String
  site : Site
  deriving DecidableEq, Repr, Inhabited

inductive LiteralValue where
  | string (value : String)
  | number (value : Float)
  | boolean (value : Bool)
  deriving Repr, Inhabited

structure Literal where
  site : Site
  value : LiteralValue
  deriving Repr, Inhabited

inductive Pattern where
  | wildcard (site : Site)
  | literal (site : Site) (value : Literal)
  | binding (site : Site) (name : Ident)
  | constructor (site : Site) (name : Ident) (args : List Pattern)
  deriving Repr, Inhabited

def Pattern.site : Pattern → Site
  | wildcard site | literal site _ | binding site _ | constructor site _ _ => site

mutual
/-- A type as it is written. -/
inductive TypeExpr where
  | prim (site : Site) (p : Prim)
  | named (site : Site) (name : Ident)
  | record (site : Site) (fields : List TypeField)
  | tuple (site : Site) (items : List TypeExpr)
  | fn (site : Site) (params : List TypeExpr) (result : TypeExpr)
  | adt (site : Site) (options : List AdtOption)

structure TypeField where
  name : Ident
  ty : TypeExpr

/-- One of the constructors in the declaration of a sum type. -/
structure AdtOption where
  site : Site
  name : Ident
  payload : Payload

/-- What a constructor carries. -/
inductive Payload where
  | none
  | prim (p : Prim)
  | named (name : Ident)
  | record (fields : List TypeField)
end

def TypeExpr.site : TypeExpr → Site
  | prim site _ | named site _ | record site _ | tuple site _ | fn site _ _ | adt site _ => site

inductive Keyword where
  | letVar
  | constVar
  deriving DecidableEq, Repr, Inhabited

mutual
inductive Stmt where
  | assign (site : Site) (keyword : Keyword) (name : Ident) (value : Expr)
  | typeDecl (site : Site) (name : Ident) (ty : TypeExpr)
  | importFrom (site : Site) (default : Option Ident) (names : List Ident) (path : String)
  | exportNames (site : Site) (names : List Ident)
  | expr (site : Site) (value : Expr)

/-- A primary followed by tails, each of which applies to all that stands before it. -/
structure Expr where
  site : Site
  primary : Primary
  tails : List Tail

inductive Primary where
  | ident (site : Site) (name : Ident)
  | literal (site : Site) (value : Literal)
  | paren (site : Site) (inner : Expr)
  | block (site : Site) (body : Block)
  | record (site : Site) (entries : List Entry)
  | array (site : Site) (items : List Expr)
  | function (site : Site) (params : List Ident) (body : Expr)
  | ifChain (site : Site) (branches : List Branch) (otherwise : Option Expr)
  | matchOn (site : Site) (scrutinee : Expr) (arms : List Arm)
  | markup (site : Site) (element : Markup)

inductive Tail where
  | member (site : Site) (name : Ident)
  | index (site : Site) (index : Expr)
  | call (site : Site) (args : List Expr)
  | operation (site : Site) (op : String) (rhs : Expr)

structure Block where
  site : Site
  statements : List Stmt
  result : Option Expr

/-- A field of a record expression. -/
structure Entry where
  name : Ident
  value : Expr

structure Branch where
  site : Site
  condition : Expr
  body : Expr

structure Arm where
  site : Site
  pattern : Pattern
  body : Expr

/-- A markup element. It has no closing name when it closes itself. -/
structure Markup where
  site : Site
  name : Ident
  attributes : List Attribute
  children : List Child
  closing : Option Ident

inductive Attribute where
  | string (name : Ident) (value : String)
  | number (name : Ident) (value : Float)
  | expr (name : Ident) (value : Expr)

inductive Child where
  | text (value : String)
  | expr (value : Expr)
  | element (value : Markup)
end

def Primary.site : Primary → Site
  | ident site _ | literal site _ | paren site _ | block site _ | record site _ | array site _
  | function site _ _ | ifChain site _ _ | matchOn site _ _ | markup site _ => site

def Tail.site : Tail → Site
  | member site _ | index site _ | call site _ | operation site _ _ => site

/-- A program is a list of statements in the root scope. -/
abbrev Program := List Stmt

end Monotype
