import Monotype.Tree.Basic

/-! The numbers in a tree: one for each node and each name that is written down. They are listed in
the order in which trees are numbered, what is nested in a node before its names and the node. -/
namespace Monotype

def Ident.number (name : Ident) : NodeId := name.site.node

def Literal.number (value : Literal) : NodeId := value.site.node

mutual
def Pattern.numbers : Pattern → List NodeId
  | .wildcard site => [site.node]
  | .literal site value => [value.number, site.node]
  | .binding site name => [name.number, site.node]
  | .constructor site name args => Pattern.numbersAll args ++ [name.number, site.node]

def Pattern.numbersAll : List Pattern → List NodeId
  | [] => []
  | p :: ps => p.numbers ++ Pattern.numbersAll ps
end

mutual
def TypeExpr.numbers : TypeExpr → List NodeId
  | .prim site _ => [site.node]
  | .named site name => [name.number, site.node]
  | .record site fields =>
    TypeField.numbersInside fields ++ fields.map (·.name.number) ++ [site.node]
  | .tuple site items => TypeExpr.numbersAll items ++ [site.node]
  | .fn site params result => TypeExpr.numbersAll params ++ result.numbers ++ [site.node]
  | .adt site options => AdtOption.numbersAll options ++ [site.node]

def TypeExpr.numbersAll : List TypeExpr → List NodeId
  | [] => []
  | t :: ts => t.numbers ++ TypeExpr.numbersAll ts

/-- The numbers in the types of fields. -/
def TypeField.numbersInside : List TypeField → List NodeId
  | [] => []
  | ⟨_, ty⟩ :: fields => ty.numbers ++ TypeField.numbersInside fields

def AdtOption.numbersAll : List AdtOption → List NodeId
  | [] => []
  | option :: options => option.numbers ++ AdtOption.numbersAll options

def AdtOption.numbers : AdtOption → List NodeId
  | ⟨site, name, payload⟩ => payload.numbers ++ [site.node, name.number]

def Payload.numbers : Payload → List NodeId
  | .none => []
  | .prim _ => []
  | .named name => [name.number]
  | .record fields => TypeField.numbersInside fields ++ fields.map (·.name.number)
end

mutual
def Stmt.numbers : Stmt → List NodeId
  | .assign site _ name value => value.numbers ++ [name.number, site.node]
  | .typeDecl site name ty => ty.numbers ++ [name.number, site.node]
  | .importFrom site default names _ =>
    default.toList.map Ident.number ++ names.map Ident.number ++ [site.node]
  | .exportNames site names => names.map Ident.number ++ [site.node]
  | .expr site value => value.numbers ++ [site.node]

def Stmt.numbersAll : List Stmt → List NodeId
  | [] => []
  | stmt :: stmts => stmt.numbers ++ Stmt.numbersAll stmts

def Expr.numbers : Expr → List NodeId
  | ⟨site, primary, tails⟩ =>
    primary.numbersInside ++ [site.node, primary.site.node] ++ Tail.numbersAll tails

def Expr.numbersAll : List Expr → List NodeId
  | [] => []
  | e :: es => e.numbers ++ Expr.numbersAll es

def Expr.numbers? : Option Expr → List NodeId
  | none => []
  | some e => e.numbers

/-- The numbers in a primary, without its own. -/
def Primary.numbersInside : Primary → List NodeId
  | .ident _ name => [name.number]
  | .literal _ value => [value.number]
  | .paren _ inner => inner.numbers
  | .block _ body => body.numbers
  | .record _ entries => Entry.numbersInside entries ++ entries.map (·.name.number)
  | .array _ items => Expr.numbersAll items
  | .function _ params body => body.numbers ++ params.map Ident.number
  | .ifChain _ branches otherwise =>
    Branch.numbersInside branches ++ Expr.numbers? otherwise ++ branches.map (·.site.node)
  | .matchOn _ scrutinee arms =>
    scrutinee.numbers ++ Arm.numbersInside arms ++ arms.map (·.site.node)
  | .markup _ element => element.numbers

def Tail.numbersAll : List Tail → List NodeId
  | [] => []
  | tail :: tails => tail.numbers ++ Tail.numbersAll tails

def Tail.numbers : Tail → List NodeId
  | .member site name => [name.number, site.node]
  | .index site index => index.numbers ++ [site.node]
  | .call site args => Expr.numbersAll args ++ [site.node]
  | .operation site _ rhs => rhs.numbers ++ [site.node]

def Block.numbers : Block → List NodeId
  | ⟨site, statements, result⟩ =>
    Stmt.numbersAll statements ++ Expr.numbers? result ++ [site.node]

/-- The numbers in the values of entries. -/
def Entry.numbersInside : List Entry → List NodeId
  | [] => []
  | ⟨_, value⟩ :: entries => value.numbers ++ Entry.numbersInside entries

/-- The numbers in the conditions and bodies of branches. -/
def Branch.numbersInside : List Branch → List NodeId
  | [] => []
  | ⟨_, condition, body⟩ :: branches =>
    condition.numbers ++ body.numbers ++ Branch.numbersInside branches

/-- The numbers in the patterns and bodies of arms. -/
def Arm.numbersInside : List Arm → List NodeId
  | [] => []
  | ⟨_, pattern, body⟩ :: arms => pattern.numbers ++ body.numbers ++ Arm.numbersInside arms

def Markup.numbers : Markup → List NodeId
  | ⟨site, name, attributes, children, closing⟩ =>
    Attribute.numbersAll attributes ++ Child.numbersAll children ++
      [site.node, name.number] ++ closing.toList.map Ident.number

def Attribute.numbersAll : List Attribute → List NodeId
  | [] => []
  | a :: as => a.numbers ++ Attribute.numbersAll as

def Attribute.numbers : Attribute → List NodeId
  | .string name _ => [name.number]
  | .number name _ => [name.number]
  | .expr name value => value.numbers ++ [name.number]

def Child.numbersAll : List Child → List NodeId
  | [] => []
  | c :: cs => c.numbers ++ Child.numbersAll cs

def Child.numbers : Child → List NodeId
  | .text _ => []
  | .expr value => value.numbers
  | .element value => value.numbers
end

theorem Tail.numbersAll_append (tails : List Tail) (tail : Tail) :
    Tail.numbersAll (tails ++ [tail]) = Tail.numbersAll tails ++ tail.numbers := by
  induction tails with
  | nil => simp [Tail.numbersAll]
  | cons other tails ih => simp [Tail.numbersAll, ih]

end Monotype
