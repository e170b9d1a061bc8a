import Monotype.Check.Infer

/-! The monomorphic typing rules of the language. They are about a given assignment of types to
nodes and declared names, know nothing of type variables being solved, and follow lexical scoping.
What has been declared of types is threaded from left to right: a type declaration counts from its
place on, also outside the block that it stands in. -/
namespace Monotype

/-- Types for the nodes of a program, and for its declared names by the node of the name. -/
structure Typing where
  node : NodeId → Option Ty
  symbol : NodeId → Option Ty

/-- The names of one scope, each with the node that declares it. -/
abbrev Names := String → Option NodeId

/-- Nested scopes, the innermost first. -/
abbrev Env := List Names

namespace Env

/-- An empty scope. -/
def nothing : Names := fun _ => none

/-- The declaration that a name stands for: the one in the innermost scope that has it. -/
def find (Γ : Env) (name : String) : Option NodeId := Γ.findSome? (· name)

/-- Declares a name in the innermost scope, in place of an earlier declaration there. -/
def declare : Env → Ident → Env
  | [], _ => []
  | scope :: Γ, name =>
    (fun other => if other = name.name then some name.site.node else scope other) :: Γ

end Env

/-! ## Written types -/

/-- The type that a name stands for: the declared one or, inside its own declaration, the sum type
`self`. -/
def Registry.named? (R : Registry) (self : Option String) (name : String) : Option Ty :=
  match R.type? name with
  | some declared => some (declared.definition.toTy name)
  | none => if self = some name then some (.adt name) else none

mutual
/-- The meaning of a written type under the declarations so far. A sum type has none outside the
head of a declaration. -/
def TypeExpr.meaning? (R : Registry) (self : Option String) : TypeExpr → Option Ty
  | .prim _ p => some (.prim p)
  | .named _ name => R.named? self name.name
  | .record _ fields => return .record (Fields.ofList (← TypeField.meanings? R self fields))
  | .tuple _ items => return .tuple (← TypeExpr.meanings? R self items)
  | .fn _ params result => do
    let params ← TypeExpr.meanings? R self params
    return .fn params (← result.meaning? R self)
  | .adt _ _ => none

def TypeExpr.meanings? (R : Registry) (self : Option String) : List TypeExpr → Option (List Ty)
  | [] => some []
  | t :: ts => do
    let t ← t.meaning? R self
    return t :: (← TypeExpr.meanings? R self ts)

def TypeField.meanings? (R : Registry) (self : Option String) :
    List TypeField → Option (List (String × Ty))
  | [] => some []
  | ⟨name, t⟩ :: fields => do
    let t ← t.meaning? R self
    return (name.name, t) :: (← TypeField.meanings? R self fields)
end

def Payload.meaning? (R : Registry) (adt : String) : Payload → Option (List Ty)
  | .none => some []
  | .prim p => some [.prim p]
  | .named name => return [← R.named? (some adt) name.name]
  | .record fields => return [.record (Fields.ofList (← TypeField.meanings? R (some adt) fields))]

/-- The constructors of the sum type `adt`, known by the nodes of their names. -/
def AdtOption.constructors? (R : Registry) (adt : String) :
    List AdtOption → Option (List Constructor)
  | [] => some []
  | option :: options => do
    let params ← option.payload.meaning? R adt
    return .ofParams adt option.name.name params option.name.site.node ::
      (← AdtOption.constructors? R adt options)

/-- What a declaration under `name` says. -/
def TypeExpr.definition? (R : Registry) (name : String) : TypeExpr → Option TypeDef
  | .adt _ options => return .adt (← AdtOption.constructors? R name options)
  | .prim _ p => some (.prim p)
  | .named _ other => return .synonym (← R.named? none other.name)
  | .record _ fields => return .record (Fields.ofList (← TypeField.meanings? R none fields))
  | .tuple _ items => return .tuple (← TypeExpr.meanings? R none items)
  | .fn _ params result => do
    let params ← TypeExpr.meanings? R none params
    return .fn params (← result.meaning? R none)

def TypeDef.constructors : TypeDef → List Constructor
  | .adt constructors => constructors
  | _ => []

/-- A type declaration: its name and the names of its constructors have the types that it says, and
the later program knows them. -/
inductive TypeDeclTyped (A : Typing) (R : Registry) (name : Ident) (ty : TypeExpr) :
    Registry → Prop where
  | intro {d : TypeDef} (hdef : ty.definition? R name.name = some d)
      (hname : A.symbol name.site.node = some (d.toTy name.name))
      (hconstructors : ∀ c ∈ d.constructors, A.symbol c.origin = some c.ty) :
      TypeDeclTyped A R name ty (d.constructors.foldl (fun R c => (R.register c).2)
        (R.declare name.name d name.site.node))

/-! ## Names, operators and patterns -/

/-- A name that is used as a value has the type of the declaration that scoping selects or, when
there is none, of the constructor that has the name now. -/
inductive ValueTyped (A : Typing) (Γ : Env) (R : Registry) (name : String) (t : Ty) : Prop where
  | bound {node : NodeId} (hfind : Γ.find name = some node) (ht : A.symbol node = some t)
  | constructor {c : Constructor} (hfree : Γ.find name = none)
      (hc : R.constructor? name = some c) (ht : A.symbol c.origin = some t)

/-- The types of the operands and of the result of an operation. -/
inductive OperatorTyped (op : String) : Ty → Ty → Ty → Prop where
  | arithmetic (h : OperatorClass.ofText? op = some .arithmetic) :
      OperatorTyped op .number .number .number
  | comparison (h : OperatorClass.ofText? op = some .comparison) :
      OperatorTyped op .number .number .boolean
  | equality {t : Ty} (h : OperatorClass.ofText? op = some .equality) :
      OperatorTyped op t t .boolean
  | logical (h : OperatorClass.ofText? op = some .logical) :
      OperatorTyped op .boolean .boolean .boolean

/-- An argument pattern for a constructor's parameter of type `t`. -/
inductive PayloadTyped (A : Typing) (Γ : Env) : Ty → Pattern → Env → Prop where
  | wildcard {site : Site} {t : Ty} : PayloadTyped A Γ t (.wildcard site) Γ
  | literal {site : Site} {l : Literal} : PayloadTyped A Γ l.ty (.literal site l) Γ
  | binding {site : Site} {name : Ident} {t : Ty} (h : A.symbol name.site.node = some t) :
      PayloadTyped A Γ t (.binding site name) (Γ.declare name)

/-- A pattern for a value of type `t`, and the names in sight in its arm. A constructor pattern
names a constructor of the value's own sum type and has as many arguments as that. -/
inductive PatternTyped (A : Typing) (Γ : Env) (R : Registry) : Ty → Pattern → Env → Prop where
  | wildcard {site : Site} {t : Ty} : PatternTyped A Γ R t (.wildcard site) Γ
  | literal {site : Site} {l : Literal} : PatternTyped A Γ R l.ty (.literal site l) Γ
  | constant {site : Site} {name : Ident} {adt : String} {c : Constructor}
      (hc : R.constructorOf? adt name.name = some c) (hparams : c.params = []) :
      PatternTyped A Γ R (.adt adt) (.constructor site name []) Γ
  | payload {site : Site} {name : Ident} {adt : String} {c : Constructor} {param : Ty}
      {arg : Pattern} {Γ' : Env} (hc : R.constructorOf? adt name.name = some c)
      (hparams : c.params = [param]) (harg : PayloadTyped A Γ param arg Γ') :
      PatternTyped A Γ R (.adt adt) (.constructor site name [arg]) Γ'

/-- What can be matched with some patterns: values of a declared sum type, and all values where
there are only literals and wildcards. -/
def Matchable (R : Registry) (t : Ty) (patterns : List Pattern) : Prop :=
  (∃ adt, t = .adt adt ∧ (R.constructorsOf? adt).isSome) ∨
    (patterns ≠ [] ∧ ∀ pattern ∈ patterns, pattern.isPlain = true)

/-! ## Expressions and statements -/

mutual
inductive ExprTyped (cfg : Config) (A : Typing) : Env → Registry → Expr → Ty → Registry → Prop where
  | intro {Γ : Env} {R R₁ R₂ : Registry} {site : Site} {primary : Primary} {tails : List Tail}
      {t u : Ty} (hprimary : PrimaryTyped cfg A Γ R primary t R₁)
      (ht : A.node primary.site.node = some t) (htails : TailsTyped cfg A Γ R₁ t tails u R₂)
      (hu : A.node site.node = some u) : ExprTyped cfg A Γ R ⟨site, primary, tails⟩ u R₂

inductive ExprsTyped (cfg : Config) (A : Typing) :
    Env → Registry → List Expr → List Ty → Registry → Prop where
  | nil {Γ : Env} {R : Registry} : ExprsTyped cfg A Γ R [] [] R
  | cons {Γ : Env} {R R₁ R₂ : Registry} {e : Expr} {es : List Expr} {t : Ty} {ts : List Ty}
      (he : ExprTyped cfg A Γ R e t R₁) (hes : ExprsTyped cfg A Γ R₁ es ts R₂) :
      ExprsTyped cfg A Γ R (e :: es) (t :: ts) R₂

inductive PrimaryTyped (cfg : Config) (A : Typing) :
    Env → Registry → Primary → Ty → Registry → Prop where
  | ident {Γ : Env} {R : Registry} {site : Site} {name : Ident} {t : Ty}
      (h : ValueTyped A Γ R name.name t) : PrimaryTyped cfg A Γ R (.ident site name) t R
  | literal {Γ : Env} {R : Registry} {site : Site} {l : Literal} :
      PrimaryTyped cfg A Γ R (.literal site l) l.ty R
  | paren {Γ : Env} {R R' : Registry} {site : Site} {inner : Expr} {t : Ty}
      (h : ExprTyped cfg A Γ R inner t R') : PrimaryTyped cfg A Γ R (.paren site inner) t R'
  | block {Γ : Env} {R R' : Registry} {site : Site} {body : Block} {t : Ty}
      (h : BlockTyped cfg A Γ R body t R') : PrimaryTyped cfg A Γ R (.block site body) t R'
  | record {Γ : Env} {R R' : Registry} {site : Site} {entries : List Entry}
      {fields : List (String × Ty)} (h : EntriesTyped cfg A Γ R entries fields R') :
      PrimaryTyped cfg A Γ R (.record site entries) (.record (Fields.ofList fields)) R'
  | array {Γ : Env} {R R' : Registry} {site : Site} {items : List Expr} {ts : List Ty}
      (h : ExprsTyped cfg A Γ R items ts R') :
      PrimaryTyped cfg A Γ R (.array site items) (.tuple ts) R'
  | function {Γ : Env} {R R' : Registry} {site : Site} {params : List Ident} {body : Expr}
      {ts : List Ty} {t : Ty}
      (hparams : params.map (fun param => A.symbol param.site.node) = ts.map some)
      (hbody : ExprTyped cfg A (params.foldl Env.declare (Env.nothing :: Γ)) R body t R') :
      PrimaryTyped cfg A Γ R (.function site params body) (.fn ts t) R'
  | ifChain {Γ : Env} {R R₁ R₂ : Registry} {site : Site} {branches : List Branch}
      {otherwise : Option Expr} {t : Ty} (hne : branches ≠ [])
      (hbranches : BranchesTyped cfg A Γ R t branches R₁)
      (hotherwise : OtherwiseTyped cfg A Γ R₁ t otherwise R₂) :
      PrimaryTyped cfg A Γ R (.ifChain site branches otherwise) t R₂
  | matchOn {Γ : Env} {R R₁ R₂ : Registry} {site : Site} {scrutinee : Expr} {arms : List Arm}
      {u t : Ty} (hscrutinee : ExprTyped cfg A Γ R scrutinee u R₁)
      (hmatch : Matchable R₁ u (arms.map (·.pattern)))
      (harms : ArmsTyped cfg A Γ R₁ u t arms R₂) :
      PrimaryTyped cfg A Γ R (.matchOn site scrutinee arms) t R₂
  | markup {Γ : Env} {R R' : Registry} {site : Site} {element : Markup}
      (h : MarkupTyped cfg A Γ R element R') :
      PrimaryTyped cfg A Γ R (.markup site element) .jsx R'

/-- The statements of a block have a scope of their own, in which the result stands too. A block
without result may have any type. -/
inductive BlockTyped (cfg : Config) (A : Typing) :
    Env → Registry → Block → Ty → Registry → Prop where
  | result {Γ Γ' : Env} {R R₁ R₂ : Registry} {site : Site} {statements : List Stmt} {e : Expr}
      {t : Ty} (hstatements : StmtsTyped cfg A (Env.nothing :: Γ) R statements Γ' R₁)
      (he : ExprTyped cfg A Γ' R₁ e t R₂) :
      BlockTyped cfg A Γ R ⟨site, statements, some e⟩ t R₂
  | noResult {Γ Γ' : Env} {R R' : Registry} {site : Site} {statements : List Stmt} {t : Ty}
      (hstatements : StmtsTyped cfg A (Env.nothing :: Γ) R statements Γ' R') :
      BlockTyped cfg A Γ R ⟨site, statements, none⟩ t R'

inductive EntriesTyped (cfg : Config) (A : Typing) :
    Env → Registry → List Entry → List (String × Ty) → Registry → Prop where
  | nil {Γ : Env} {R : Registry} : EntriesTyped cfg A Γ R [] [] R
  | cons {Γ : Env} {R R₁ R₂ : Registry} {name : Ident} {value : Expr} {entries : List Entry}
      {t : Ty} {fields : List (String × Ty)} (hvalue : ExprTyped cfg A Γ R value t R₁)
      (hentries : EntriesTyped cfg A Γ R₁ entries fields R₂) :
      EntriesTyped cfg A Γ R (⟨name, value⟩ :: entries) ((name.name, t) :: fields) R₂

/-- Every condition is a boolean, every body has the type of the whole. -/
inductive BranchesTyped (cfg : Config) (A : Typing) :
    Env → Registry → Ty → List Branch → Registry → Prop where
  | nil {Γ : Env} {R : Registry} {t : Ty} : BranchesTyped cfg A Γ R t [] R
  | cons {Γ : Env} {R R₁ R₂ R₃ : Registry} {site : Site} {condition body : Expr}
      {branches : List Branch} {t : Ty} (hcondition : ExprTyped cfg A Γ R condition .boolean R₁)
      (hbody : ExprTyped cfg A Γ R₁ body t R₂)
      (hbranches : BranchesTyped cfg A Γ R₂ t branches R₃) :
      BranchesTyped cfg A Γ R t (⟨site, condition, body⟩ :: branches) R₃

inductive OtherwiseTyped (cfg : Config) (A : Typing) :
    Env → Registry → Ty → Option Expr → Registry → Prop where
  | none {Γ : Env} {R : Registry} {t : Ty} : OtherwiseTyped cfg A Γ R t none R
  | some {Γ : Env} {R R' : Registry} {body : Expr} {t : Ty}
      (h : ExprTyped cfg A Γ R body t R') : OtherwiseTyped cfg A Γ R t (some body) R'

/-- The arms of a match on a value of type `u`: every body has the type of the whole. -/
inductive ArmsTyped (cfg : Config) (A : Typing) :
    Env → Registry → Ty → Ty → List Arm → Registry → Prop where
  | nil {Γ : Env} {R : Registry} {u t : Ty} : ArmsTyped cfg A Γ R u t [] R
  | cons {Γ Γ' : Env} {R R₁ R₂ : Registry} {site : Site} {pattern : Pattern} {body : Expr}
      {arms : List Arm} {u t : Ty}
      (hpattern : PatternTyped A (Env.nothing :: Γ) R u pattern Γ')
      (hbody : ExprTyped cfg A Γ' R body t R₁) (harms : ArmsTyped cfg A Γ R₁ u t arms R₂) :
      ArmsTyped cfg A Γ R u t (⟨site, pattern, body⟩ :: arms) R₂

inductive TailsTyped (cfg : Config) (A : Typing) :
    Env → Registry → Ty → List Tail → Ty → Registry → Prop where
  | nil {Γ : Env} {R : Registry} {t : Ty} : TailsTyped cfg A Γ R t [] t R
  | cons {Γ : Env} {R R₁ R₂ : Registry} {tail : Tail} {tails : List Tail} {t u v : Ty}
      (htail : TailTyped cfg A Γ R t tail u R₁) (hu : A.node tail.site.node = some u)
      (htails : TailsTyped cfg A Γ R₁ u tails v R₂) :
      TailsTyped cfg A Γ R t (tail :: tails) v R₂

/-- What stands before a tail has the first type, with the tail it has the second. An index may
pick any element, so nothing is said about its type. -/
inductive TailTyped (cfg : Config) (A : Typing) :
    Env → Registry → Ty → Tail → Ty → Registry → Prop where
  | member {Γ : Env} {R : Registry} {site : Site} {name : Ident} {fields : Fields Ty} {t : Ty}
      (h : fields.lookup name.name = some t) :
      TailTyped cfg A Γ R (.record fields) (.member site name) t R
  | index {Γ : Env} {R R' : Registry} {site : Site} {index : Expr} {elements : List Ty} {t : Ty}
      (h : ExprTyped cfg A Γ R index .number R') :
      TailTyped cfg A Γ R (.tuple elements) (.index site index) t R'
  | call {Γ : Env} {R R' : Registry} {site : Site} {args : List Expr} {ts : List Ty} {t : Ty}
      (h : ExprsTyped cfg A Γ R args ts R') :
      TailTyped cfg A Γ R (.fn ts t) (.call site args) t R'
  | operation {Γ : Env} {R R' : Registry} {site : Site} {op : String} {rhs : Expr}
      {left right t : Ty} (hrhs : ExprTyped cfg A Γ R rhs right R')
      (hop : OperatorTyped op left right t) :
      TailTyped cfg A Γ R left (.operation site op rhs) t R'

/-- An element is closed under its own name; unless it belongs to the host, it is a function from
its attributes to markup. -/
inductive MarkupTyped (cfg : Config) (A : Typing) :
    Env → Registry → Markup → Registry → Prop where
  | intro {Γ : Env} {R R₁ R₂ : Registry} {site : Site} {name : Ident}
      {attributes : List Attribute} {children : List Child} {closing : Option Ident}
      {props : List (String × Ty)}
      (hclosing : ∀ other, closing = some other → other.name = name.name)
      (hattributes : AttributesTyped cfg A Γ R attributes props R₁)
      (hcomponent : Check.isIntrinsic cfg name.name = true ∨
        ValueTyped A Γ R₁ name.name (.fn [.record (Fields.ofList props)] .jsx))
      (hchildren : ChildrenTyped cfg A Γ R₁ children R₂) :
      MarkupTyped cfg A Γ R ⟨site, name, attributes, children, closing⟩ R₂

inductive AttributesTyped (cfg : Config) (A : Typing) :
    Env → Registry → List Attribute → List (String × Ty) → Registry → Prop where
  | nil {Γ : Env} {R : Registry} : AttributesTyped cfg A Γ R [] [] R
  | string {Γ : Env} {R R' : Registry} {name : Ident} {value : String}
      {attributes : List Attribute} {props : List (String × Ty)}
      (h : AttributesTyped cfg A Γ R attributes props R') :
      AttributesTyped cfg A Γ R (.string name value :: attributes)
        ((name.name, .string) :: props) R'
  | number {Γ : Env} {R R' : Registry} {name : Ident} {value : Float}
      {attributes : List Attribute} {props : List (String × Ty)}
      (h : AttributesTyped cfg A Γ R attributes props R') :
      AttributesTyped cfg A Γ R (.number name value :: attributes)
        ((name.name, .number) :: props) R'
  | expr {Γ : Env} {R R₁ R₂ : Registry} {name : Ident} {value : Expr} {t : Ty}
      {attributes : List Attribute} {props : List (String × Ty)}
      (hvalue : ExprTyped cfg A Γ R value t R₁)
      (h : AttributesTyped cfg A Γ R₁ attributes props R₂) :
      AttributesTyped cfg A Γ R (.expr name value :: attributes) ((name.name, t) :: props) R₂

inductive ChildrenTyped (cfg : Config) (A : Typing) :
    Env → Registry → List Child → Registry → Prop where
  | nil {Γ : Env} {R : Registry} : ChildrenTyped cfg A Γ R [] R
  | text {Γ : Env} {R R' : Registry} {value : String} {children : List Child}
      (h : ChildrenTyped cfg A Γ R children R') :
      ChildrenTyped cfg A Γ R (.text value :: children) R'
  | expr {Γ : Env} {R R₁ R₂ : Registry} {value : Expr} {t : Ty} {children : List Child}
      (hvalue : ExprTyped cfg A Γ R value t R₁) (h : ChildrenTyped cfg A Γ R₁ children R₂) :
      ChildrenTyped cfg A Γ R (.expr value :: children) R₂
  | element {Γ : Env} {R R₁ R₂ : Registry} {value : Markup} {children : List Child}
      (hvalue : MarkupTyped cfg A Γ R value R₁) (h : ChildrenTyped cfg A Γ R₁ children R₂) :
      ChildrenTyped cfg A Γ R (.element value :: children) R₂

inductive StmtsTyped (cfg : Config) (A : Typing) :
    Env → Registry → List Stmt → Env → Registry → Prop where
  | nil {Γ : Env} {R : Registry} : StmtsTyped cfg A Γ R [] Γ R
  | cons {Γ Γ₁ Γ₂ : Env} {R R₁ R₂ : Registry} {stmt : Stmt} {stmts : List Stmt}
      (hstmt : StmtTyped cfg A Γ R stmt Γ₁ R₁) (hstmts : StmtsTyped cfg A Γ₁ R₁ stmts Γ₂ R₂) :
      StmtsTyped cfg A Γ R (stmt :: stmts) Γ₂ R₂

/-- A statement, with the names in sight and the declared types after it. -/
inductive StmtTyped (cfg : Config) (A : Typing) :
    Env → Registry → Stmt → Env → Registry → Prop where
  | assign {Γ : Env} {R R' : Registry} {site : Site} {keyword : Keyword} {name : Ident}
      {value : Expr} {t : Ty} (hvalue : ExprTyped cfg A Γ R value t R')
      (hname : A.symbol name.site.node = some t) :
      StmtTyped cfg A Γ R (.assign site keyword name value) (Γ.declare name) R'
  | typeDecl {Γ : Env} {R R' : Registry} {site : Site} {name : Ident} {ty : TypeExpr}
      (h : TypeDeclTyped A R name ty R') : StmtTyped cfg A Γ R (.typeDecl site name ty) Γ R'
  | importFrom {Γ : Env} {R : Registry} {site : Site} {default : Option Ident}
      {names : List Ident} {path : String}
      (h : ∀ name ∈ default.toList ++ names, A.symbol name.site.node = some (.external path)) :
      StmtTyped cfg A Γ R (.importFrom site default names path)
        ((default.toList ++ names).foldl Env.declare Γ) R
  | exportNames {Γ : Env} {R : Registry} {site : Site} {names : List Ident}
      (h : ∀ name ∈ names, ∃ t, ValueTyped A Γ R name.name t) :
      StmtTyped cfg A Γ R (.exportNames site names) Γ R
  | expr {Γ : Env} {R R' : Registry} {site : Site} {value : Expr} {t : Ty}
      (h : ExprTyped cfg A Γ R value t R') : StmtTyped cfg A Γ R (.expr site value) Γ R'
end

/-- A whole program, which starts with an empty root scope and without declared types. -/
def ProgramTyped (cfg : Config) (A : Typing) (p : Program) : Prop :=
  ∃ Γ R, StmtsTyped cfg A [Env.nothing] {} p Γ R

/-! ## What scopes survive -/

section Tail
variable {cfg : Config} {A : Typing}

theorem Env.declare_tail (scope : Names) (Γ : Env) (names : List Ident) :
    ∃ scope', names.foldl Env.declare (scope :: Γ) = scope' :: Γ := by
  induction names generalizing scope with
  | nil => exact ⟨scope, rfl⟩
  | cons name names ih => exact ih _

theorem PatternTyped.tail {scope : Names} {Γ Γ' : Env} {R : Registry} {t : Ty} {p : Pattern}
    (h : PatternTyped A (scope :: Γ) R t p Γ') : ∃ scope', Γ' = scope' :: Γ := by
  cases h with
  | wildcard => exact ⟨scope, rfl⟩
  | literal => exact ⟨scope, rfl⟩
  | constant hc hparams => exact ⟨scope, rfl⟩
  | payload hc hparams harg =>
    cases harg with
    | wildcard => exact ⟨scope, rfl⟩
    | literal => exact ⟨scope, rfl⟩
    | binding h => exact ⟨_, rfl⟩

theorem StmtTyped.tail {scope : Names} {Γ Γ' : Env} {R R' : Registry} {stmt : Stmt}
    (h : StmtTyped cfg A (scope :: Γ) R stmt Γ' R') : ∃ scope', Γ' = scope' :: Γ := by
  cases h with
  | assign hvalue hname => exact ⟨_, rfl⟩
  | typeDecl h => exact ⟨scope, rfl⟩
  | importFrom h => exact Env.declare_tail scope Γ _
  | exportNames h => exact ⟨scope, rfl⟩
  | expr h => exact ⟨scope, rfl⟩

theorem StmtsTyped.tail : ∀ {stmts : List Stmt} {scope : Names} {Γ Γ' : Env} {R R' : Registry},
    StmtsTyped cfg A (scope :: Γ) R stmts Γ' R' → ∃ scope', Γ' = scope' :: Γ
  | [], scope, _, _, _, _, h => by
    cases h
    exact ⟨scope, rfl⟩
  | _ :: _, _, _, _, _, _, h => by
    cases h with
    | cons hstmt hstmts =>
      obtain ⟨scope', rfl⟩ := hstmt.tail
      exact hstmts.tail

end Tail

end Monotype
