import Monotype.Check.Infer

/-! Checking whole programs. A checker can be used again and again; each check starts clean, and
types can be written out afterwards with all that the last check found. -/
namespace Monotype

/-- All that one check produces. No bound variable is left in its types; a variable that nothing
constrains stays one. -/
structure Output where
  reports : List (Report Ty)
  symbols : List Symbol
  nodeTypes : Std.TreeMap NodeId Ty

namespace Output

def isOk (out : Output) : Bool := out.reports.isEmpty

def diagnostics (out : Output) : List Diagnostic := out.reports.map (·.toDiagnostic)

def codes (out : Output) : List String := out.reports.map (·.error.code)

def typeOf? (out : Output) (node : NodeId) : Option Ty := out.nodeTypes[node]?

/-- The last declaration of a name. -/
def symbol? (out : Output) (name : String) : Option Symbol :=
  out.symbols.reverse.find? (·.name = name)

end Output

namespace Check

def applySymbols : List Symbol → Check (List Symbol)
  | [] => return []
  | symbol :: symbols => do
    let ty ← apply symbol.ty
    let symbols ← applySymbols symbols
    return { symbol with ty } :: symbols

def applyNodeTypes : List (NodeId × Ty) → Check (List (NodeId × Ty))
  | [] => return []
  | (node, t) :: rest => do
    let t ← apply t
    let rest ← applyNodeTypes rest
    return (node, t) :: rest

/-- What a run has collected, with every type in its full form. -/
def finish : Check Output := do
  let run ← state
  let symbols ← applySymbols run.symbols.toList
  let nodeTypes ← applyNodeTypes run.nodeTypes.toList
  return { reports := run.reports.toList, symbols, nodeTypes := .ofList nodeTypes }

/-- Checks all statements of a program and collects the findings. -/
def program (p : Program) : Check Output := do
  checkStmts p
  finish

end Check

/-- A run after its findings have been handed out: what it knows of types stays. -/
def Run.handedOut (run : Run) : Run :=
  { run with reports := run.reports.clear, symbols := #[], nodeTypes := ∅ }

/-- A checker: its configuration and the state in which its last run left it. -/
structure Checker where
  config : Config := {}
  run : Run := {}

namespace Checker

/-- Checks a program from a clean state. -/
def check (c : Checker) (p : Program) : Except Malformed Output × Checker :=
  match (Check.program p).run c.config c.run.reset with
  | (.ok out, run) => (.ok out, { c with run := run.handedOut })
  | (.error e, run) => (.error e, { c with run })

/-- The text of a type, with all bindings of the last run. -/
def render (c : Checker) (t : Ty) : String × Checker :=
  let (t, store) := Store.apply t c.run.store
  (t.text, { c with run := { c.run with store } })

end Checker

/-- Checks one program under a configuration. -/
def checkProgram (config : Config) (p : Program) : Except Malformed Output :=
  (({ config } : Checker).check p).1

end Monotype
