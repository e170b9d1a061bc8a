import Monotype.Config.Basic
import Monotype.Registry
import Monotype.Scopes
import Monotype.Sink
import Monotype.Tree.Basic
import Monotype.Unify

/-! The state of a checking run and its elementary steps. Complaints are collected and the run goes
on; only a malformed tree ends it, and what had been done until then is kept. -/
namespace Monotype

inductive SymbolKind where
  | var
  | type
  | constructor
  | param
  | imported
  deriving DecidableEq, Repr, Inhabited

def SymbolKind.text : SymbolKind → String
  | var => "variable"
  | type => "type"
  | constructor => "constructor"
  | param => "parameter"
  | imported => "import"

/-- A declaration found in the program. -/
structure Symbol where
  name : String
  ty : Ty
  site : Site
  kind : SymbolKind
  deriving DecidableEq, Repr, Inhabited

/-- All that a run knows. -/
structure Run where
  store : Store := {}
  scopes : Scopes := {}
  registry : Registry := {}
  reports : Sink (Report Ty) := {}
  symbols : Array Symbol := #[]
  nodeTypes : Std.TreeMap NodeId Ty := ∅

/-- A clean state. -/
def Run.reset (run : Run) : Run := { scopes := run.scopes.reset }

namespace Check

/-- The elementary actions of a run. -/
inductive Act where
  /-- Asks for the configuration. -/
  | config
  /-- Asks for the state. -/
  | state
  | store (act : Store.Act)
  | report (r : Report Ty)
  /-- Notes the type of a node. A later note for the same number counts. -/
  | note (node : NodeId) (t : Ty)
  | symbol (sym : Symbol)
  /-- Binds a name in the innermost scope. -/
  | bindName (name : String) (b : Binding)
  | enter
  | leave
  | declareType (name : String) (definition : TypeDef) (origin : NodeId)
  | register (c : Constructor)

namespace Act

abbrev Answer : Act → Type
  | config => Config
  | state => Run
  | store act => act.Answer
  | register _ => Option Constructor
  | _ => Unit

def perform (cfg : Config) : (act : Act) → Run → act.Answer × Run
  | config, run => (cfg, run)
  | state, run => (run, run)
  | store act, run =>
    ((act.perform run.store).1, { run with store := (act.perform run.store).2 })
  | report r, run => ((), { run with reports := run.reports.push r })
  | note node t, run => ((), { run with nodeTypes := run.nodeTypes.insert node t })
  | symbol sym, run => ((), { run with symbols := run.symbols.push sym })
  | bindName name b, run => ((), { run with scopes := (run.scopes.insert name b).2 })
  | enter, run => ((), { run with scopes := run.scopes.push.2 })
  | leave, run => ((), { run with scopes := run.scopes.pop })
  | declareType name definition origin, run =>
    ((), { run with registry := run.registry.declare name definition origin })
  | register c, run =>
    ((run.registry.register c).1, { run with registry := (run.registry.register c).2 })

end Act

end Check

/-- Steps of a run under a configuration. A malformed tree ends them. -/
abbrev Check := ExceptT Malformed (Plan Check.Act.Answer)

namespace Check

/-- One elementary action. -/
def act (a : Act) : Check a.Answer := ExceptT.lift (Plan.act a)

def config : Check Config := act .config

def state : Check Run := act .state

def fresh : Check Ty := act (.store .fresh)

def resolve (t : Ty) : Check Ty := act (.store (.resolve t))

def apply (t : Ty) : Check Ty := act (.store (.apply t))

def reportWith (labels : List Label) (site : Site) (error : TypeError Ty) : Check Unit :=
  act (.report { error, site, labels })

def report (site : Site) (error : TypeError Ty) : Check Unit := reportWith [] site error

/-- Complains and goes on with a type of which nothing is known. -/
def recover (site : Site) (error : TypeError Ty) : Check Ty := do
  report site error
  fresh

/-- A unification as part of a run: it uses the store of the run, and what it fails in is reported
at one place. -/
def solving {α : Type} (site : Site) : Solve α → Plan Act.Answer α
  | .done a => .done a
  | .step (.store act) next => .step (.store act) fun r => solving site (next r)
  | .step (.fail error) next =>
    .step (.report { error, site, labels := [] }) fun r => solving site (next r)

/-- Requires two types to be equal; what stands in the way is reported at one place. -/
def unify (left right : Ty) (site : Site) : Check Unit := do
  let run ← state
  let lenient := (← config).dynamicImports
  ExceptT.lift (solving site (Solve.unify run.store lenient left right))

def recordType (node : NodeId) (t : Ty) : Check Unit := act (.note node t)

def addSymbol (name : Ident) (ty : Ty) (kind : SymbolKind) : Check Unit :=
  act (.symbol { name := name.name, ty, site := name.site, kind })

def bindLocal (name : Ident) (ty : Ty) : Check Unit := act (.bindName name.name ⟨ty, name.site⟩)

/-- Binds a name and lists it among the symbols. -/
def declare (name : Ident) (ty : Ty) (kind : SymbolKind) : Check Unit := do
  bindLocal name ty
  addSymbol name ty kind

/-- Runs `body` in a scope of its own. -/
def inScope {α : Type} (body : Check α) : Check α := do
  act .enter
  let a ← body
  act .leave
  return a

def declaredHere (name : String) : Check Bool :=
  return (← state).scopes.declaresHere name

/-- A note on the binding of `name` that is in sight. -/
def earlierBinding (name : String) : Check (List Label) := do
  match (← state).scopes.lookup name with
  | some binding =>
    return [⟨TypeError.quote name ++ " first declared here", binding.site.span⟩]
  | none => return []

/-- The type of a name: of its binding in sight, or of the constructor of that name. -/
def lookupValue (name : String) : Check (Option Ty) := do
  let run ← state
  match run.scopes.lookup name with
  | some binding => return some binding.ty
  | none => return (run.registry.constructor? name).map (·.ty)

/-- Carries out the steps of a run from a state. -/
def run {α : Type} (cfg : Config) (x : Check α) (s : Run) : Except Malformed α × Run :=
  Plan.run (Act.perform cfg) x s

end Check

end Monotype
