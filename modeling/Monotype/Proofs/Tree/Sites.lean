import Monotype.Check.Run

/-! The nodes of a tree that have types and the names that it declares, in the order in which a run
comes to them. -/
namespace Monotype

/-- Nodes that have types, and names that are declared, in order. -/
@[ext] structure Sites where
  nodes : List NodeId := []
  names : List (Ident × SymbolKind) := []

namespace Sites

instance : Append Sites := ⟨fun a b => ⟨a.nodes ++ b.nodes, a.names ++ b.names⟩⟩

def node (site : Site) : Sites := { nodes := [site.node] }

def name (ident : Ident) (kind : SymbolKind) : Sites := { names := [(ident, kind)] }

def nameAll (idents : List Ident) (kind : SymbolKind) : Sites :=
  { names := idents.map (·, kind) }

@[simp] theorem nodes_append (a b : Sites) : (a ++ b).nodes = a.nodes ++ b.nodes := rfl

@[simp] theorem names_append (a b : Sites) : (a ++ b).names = a.names ++ b.names := rfl

@[simp] theorem empty_append (a : Sites) : ({} : Sites) ++ a = a := rfl

@[simp] theorem append_empty (a : Sites) : a ++ ({} : Sites) = a := by
  ext1 <;> simp

end Sites

/-- A pattern declares the one name that it binds inside a constructor. -/
def Pattern.sites : Pattern → Sites
  | .constructor _ _ [.binding _ name] => .name name .var
  | _ => {}

/-- A declaration declares the type and, for a sum type, its constructors. -/
def TypeExpr.sites (name : Ident) : TypeExpr → Sites
  | .adt _ options => .name name .type ++ .nameAll (options.map (·.name)) .constructor
  | _ => .name name .type

mutual
/-- The sites of an expression: first those inside. -/
def Expr.sites : Expr → Sites
  | ⟨site, primary, tails⟩ =>
    primary.sites ++ (.node primary.site ++ (Tail.sitesAll tails ++ .node site))

def Expr.sitesAll : List Expr → Sites
  | [] => {}
  | e :: es => e.sites ++ Expr.sitesAll es

def Primary.sites : Primary → Sites
  | .ident _ _ | .literal _ _ => {}
  | .paren _ inner => inner.sites
  | .block _ body => body.sites
  | .record _ entries => Entry.sitesAll entries
  | .array _ items => Expr.sitesAll items
  | .function _ params body => .nameAll params .param ++ body.sites
  | .ifChain _ branches otherwise => Branch.sitesAll branches ++ Expr.sitesOption otherwise
  | .matchOn _ scrutinee arms => scrutinee.sites ++ Arm.sitesAll arms
  | .markup _ element => element.sites

def Block.sites : Block → Sites
  | ⟨_, statements, result⟩ => Stmt.sitesAll statements ++ Expr.sitesOption result

def Expr.sitesOption : Option Expr → Sites
  | some e => e.sites
  | none => {}

def Entry.sitesAll : List Entry → Sites
  | [] => {}
  | ⟨_, value⟩ :: entries => value.sites ++ Entry.sitesAll entries

def Branch.sitesAll : List Branch → Sites
  | [] => {}
  | ⟨_, condition, body⟩ :: branches => condition.sites ++ (body.sites ++ Branch.sitesAll branches)

def Arm.sitesAll : List Arm → Sites
  | [] => {}
  | ⟨_, pattern, body⟩ :: arms => (pattern.sites ++ body.sites) ++ Arm.sitesAll arms

def Tail.sitesAll : List Tail → Sites
  | [] => {}
  | tail :: tails => tail.sites ++ (.node tail.site ++ Tail.sitesAll tails)

def Tail.sites : Tail → Sites
  | .member _ _ => {}
  | .index _ index => index.sites
  | .call _ args => Expr.sitesAll args
  | .operation _ _ rhs => rhs.sites

def Markup.sites : Markup → Sites
  | ⟨_, _, attributes, children, _⟩ => Attribute.sitesAll attributes ++ Child.sitesAll children

def Attribute.sitesAll : List Attribute → Sites
  | [] => {}
  | attr :: attrs => attr.sites ++ Attribute.sitesAll attrs

def Attribute.sites : Attribute → Sites
  | .string _ _ | .number _ _ => {}
  | .expr _ value => value.sites

def Child.sitesAll : List Child → Sites
  | [] => {}
  | child :: children => child.sites ++ Child.sitesAll children

def Child.sites : Child → Sites
  | .text _ => {}
  | .expr value => value.sites
  | .element value => value.sites

def Stmt.sitesAll : List Stmt → Sites
  | [] => {}
  | stmt :: stmts => stmt.sites ++ Stmt.sitesAll stmts

def Stmt.sites : Stmt → Sites
  | .assign _ _ name value => value.sites ++ .name name .var
  | .typeDecl _ name ty => ty.sites name
  | .importFrom _ default names _ => .nameAll (default.toList ++ names) .imported
  | .exportNames _ _ => {}
  | .expr _ value => value.sites
end

end Monotype
