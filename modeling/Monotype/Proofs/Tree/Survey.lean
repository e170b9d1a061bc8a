import Monotype.Tree.Basic

/-! Walks over a program in the order in which it is evaluated: statements one after the other, a
primary before its tails, what stands inside a node from left to right. A survey says what is to be
collected at each place, and the walk is the same for all of them. -/
namespace Monotype

/-- The name that is the whole argument of a constructor in a pattern. -/
def Pattern.binder? : Pattern → Option Ident
  | .constructor _ _ [.binding _ name] => some name
  | _ => none

/-- What a walk over a program collects at each place, and how what comes later is put to it. -/
structure Survey (M : Type) where
  nothing : M
  andThen : M → M → M
  nothing_andThen : ∀ m, andThen nothing m = m
  andThen_nothing : ∀ m, andThen m nothing = m
  /-- A name that is used as a value. -/
  used : Ident → M := fun _ => nothing
  param : Ident → M := fun _ => nothing
  /-- A name that is assigned, after its value. -/
  assigned : Ident → M := fun _ => nothing
  imported : Ident → M := fun _ => nothing
  exported : Ident → M := fun _ => nothing
  /-- A type declaration. -/
  declared : Ident → TypeExpr → M := fun _ _ => nothing
  /-- The pattern of an arm, before its body. -/
  pattern : Pattern → M := fun _ => nothing
  /-- The opening and the closing name of an element, before its attributes. -/
  closing : Site → Ident → Option Ident → M := fun _ _ _ => nothing
  /-- The name of an element, between its attributes and its children. -/
  component : Ident → M := fun _ => nothing
  /-- An `if` that has no branch. -/
  branchless : Site → M := fun _ => nothing
  /-- An expression, after all that stands inside it. -/
  whole : Expr → M := fun _ => nothing
  /-- What stands in a scope of its own. -/
  inScope : M → M := id
  /-- What stands in the arms of a match. -/
  arms : M → M := id

namespace Survey
variable {M : Type}

/-- Goes through names in order. -/
def names (S : Survey M) (visit : Ident → M) : List Ident → M
  | [] => S.nothing
  | name :: names => S.andThen (visit name) (S.names visit names)

end Survey

section
variable {M : Type} (S : Survey M)

mutual
def Expr.survey : Expr → M
  | ⟨site, primary, tails⟩ =>
    S.andThen (S.andThen primary.survey (Tail.surveyAll tails)) (S.whole ⟨site, primary, tails⟩)

def Expr.surveyAll : List Expr → M
  | [] => S.nothing
  | e :: es => S.andThen e.survey (Expr.surveyAll es)

def Expr.surveyOption : Option Expr → M
  | some e => e.survey
  | none => S.nothing

def Primary.survey : Primary → M
  | .ident _ name => S.used name
  | .literal _ _ => S.nothing
  | .paren _ inner => inner.survey
  | .block _ body => body.survey
  | .record _ entries => Entry.surveyAll entries
  | .array _ items => Expr.surveyAll items
  | .function _ params body => S.inScope (S.andThen (S.names S.param params) body.survey)
  | .ifChain site branches otherwise =>
    S.andThen (if branches.isEmpty then S.branchless site else S.nothing)
      (S.andThen (Branch.surveyAll branches) (Expr.surveyOption otherwise))
  | .matchOn _ scrutinee arms => S.andThen scrutinee.survey (S.arms (Arm.surveyAll arms))
  | .markup _ element => element.survey

def Block.survey : Block → M
  | ⟨_, statements, result⟩ =>
    S.inScope (S.andThen (Stmt.surveyAll statements) (Expr.surveyOption result))

def Entry.surveyAll : List Entry → M
  | [] => S.nothing
  | ⟨_, value⟩ :: entries => S.andThen value.survey (Entry.surveyAll entries)

def Branch.surveyAll : List Branch → M
  | [] => S.nothing
  | ⟨_, condition, body⟩ :: branches =>
    S.andThen condition.survey (S.andThen body.survey (Branch.surveyAll branches))

def Arm.surveyAll : List Arm → M
  | [] => S.nothing
  | ⟨_, pattern, body⟩ :: arms =>
    S.andThen (S.inScope (S.andThen (S.pattern pattern) body.survey)) (Arm.surveyAll arms)

def Tail.surveyAll : List Tail → M
  | [] => S.nothing
  | tail :: tails => S.andThen tail.survey (Tail.surveyAll tails)

def Tail.survey : Tail → M
  | .member _ _ => S.nothing
  | .index _ index => index.survey
  | .call _ args => Expr.surveyAll args
  | .operation _ _ rhs => rhs.survey

def Markup.survey : Markup → M
  | ⟨site, name, attributes, children, closing⟩ =>
    S.andThen (S.closing site name closing)
      (S.andThen (Attribute.surveyAll attributes)
        (S.andThen (S.component name) (Child.surveyAll children)))

def Attribute.surveyAll : List Attribute → M
  | [] => S.nothing
  | attr :: attrs => S.andThen attr.survey (Attribute.surveyAll attrs)

def Attribute.survey : Attribute → M
  | .string _ _ | .number _ _ => S.nothing
  | .expr _ value => value.survey

def Child.surveyAll : List Child → M
  | [] => S.nothing
  | child :: children => S.andThen child.survey (Child.surveyAll children)

def Child.survey : Child → M
  | .text _ => S.nothing
  | .expr value => value.survey
  | .element value => value.survey

def Stmt.surveyAll : List Stmt → M
  | [] => S.nothing
  | stmt :: stmts => S.andThen stmt.survey (Stmt.surveyAll stmts)

def Stmt.survey : Stmt → M
  | .assign _ _ name value => S.andThen value.survey (S.assigned name)
  | .typeDecl _ name ty => S.declared name ty
  | .importFrom _ default names _ => S.names S.imported (default.toList ++ names)
  | .exportNames _ names => S.names S.exported names
  | .expr _ value => value.survey
end

end

end Monotype
