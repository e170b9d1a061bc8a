import Monotype.Plan
import Monotype.Store.Resolve
import Monotype.TypeError

/-! Making two types equal by binding variables. Failures are collected and never stop the work:
the parts that can be made equal are, the others are reported. -/
namespace Monotype

/-- A store together with the failures met so far. -/
structure Solving where
  store : Store
  errors : Array (TypeError Ty) := #[]

namespace Solve

/-- What a unification does: it uses the store, and it fails in places. -/
inductive Act where
  | store (act : Store.Act)
  | fail (e : TypeError Ty)

namespace Act

abbrev Answer : Act → Type
  | store act => act.Answer
  | fail _ => Unit

def perform : (act : Act) → Solving → act.Answer × Solving
  | store act, s => ((act.perform s.store).1, { s with store := (act.perform s.store).2 })
  | fail e, s => ((), { s with errors := s.errors.push e })

end Act

end Solve

/-- Steps of a unification. -/
abbrev Solve := Plan Solve.Act.Answer

namespace Solve

/-- One elementary action. -/
def act (a : Act) : Solve a.Answer := Plan.act a

def fail (e : TypeError Ty) : Solve Unit := act (.fail e)

def resolve (t : Ty) : Solve Ty := act (.store (.resolve t))

def apply (t : Ty) : Solve Ty := act (.store (.apply t))

def occurs (v : TyVar) (t : Ty) : Solve Bool := act (.store (.occurs v t))

def bind (v : TyVar) (t : Ty) : Solve Unit := act (.store (.bind v t))

def mismatch (left right : Ty) : Solve Unit := do
  let left ← apply left
  let right ← apply right
  fail (.mismatch left right)

/-- Binds an unbound variable, unless the type would then contain itself. -/
def assign (v : TyVar) (t : Ty) : Solve Unit := do
  if ← occurs v t then
    fail (.infiniteType v (← apply t))
  else
    bind v t

/-- Compares a type that is no variable with a resolved type that has not the same structure.
Equal leaves agree; with `lenient` imports an external type agrees with everything. -/
def meet (lenient : Bool) (left : Ty) : Ty → Solve Unit
  | .var v => assign v left
  | right =>
    if left = right then pure ()
    else if lenient && (left.isExternal || right.isExternal) then pure ()
    else mismatch left right

mutual
/-- Unifies by recursion on the left type. At a variable on the left `follow` takes over. -/
def unifyWith (lenient : Bool) (follow : TyVar → Ty → Solve Unit) : Ty → Ty → Solve Unit
  | .var v, right => follow v right
  | .fn params result, right => do
    match ← resolve right with
    | .fn params' result' =>
      if params.length = params'.length then
        unifyLists lenient follow params params'
        unifyWith lenient follow result result'
      else fail (.functionArity params.length params'.length)
    | right => meet lenient (.fn params result) right
  | .tuple elements, right => do
    match ← resolve right with
    | .tuple elements' =>
      if elements.length = elements'.length then
        unifyLists lenient follow elements elements'
      else fail (.tupleLength elements.length elements'.length)
    | right => meet lenient (.tuple elements) right
  | .record fields, right => do
    match ← resolve right with
    | .record fields' => unifyFields lenient follow fields fields'
    | right => meet lenient (.record fields) right
  | left, right => do
    meet lenient left (← resolve right)

def unifyLists (lenient : Bool) (follow : TyVar → Ty → Solve Unit) :
    List Ty → List Ty → Solve Unit
  | t :: ts, u :: us => do
    unifyWith lenient follow t u
    unifyLists lenient follow ts us
  | _, _ => pure ()

/-- Goes through the names of both sides by ascending name. A name on one side only is a failure. -/
def unifyFields (lenient : Bool) (follow : TyVar → Ty → Solve Unit) :
    Fields Ty → Fields Ty → Solve Unit
  | [], others => others.forM fun field => fail (.recordField field.1)
  | (name, t) :: fields, others => do
    (others.takeWhile (·.1 < name)).forM fun field => fail (.recordField field.1)
    match others.dropWhile (·.1 < name) with
    | (name', u) :: others =>
      if name = name' then
        unifyWith lenient follow t u
        unifyFields lenient follow fields others
      else
        fail (.recordField name)
        unifyFields lenient follow fields ((name', u) :: others)
    | [] =>
      fail (.recordField name)
      unifyFields lenient follow fields []
end

/-- Unifies a variable with a type, through at most `n` variables one inside the other. -/
def unifyVar (lenient : Bool) : Nat → TyVar → Ty → Solve Unit
  | 0, _, _ => pure ()
  | n + 1, v, right => do
    match ← resolve (.var v) with
    | .var v => do
      let right ← resolve right
      if right = .var v then pure () else assign v right
    | left => unifyWith lenient (unifyVar lenient n) left right

/-- Makes two types equal as far as that is possible in the store `s`. No way through the store
passes more variables than there are, so one more step than that reaches every end. -/
def unify (s : Store) (lenient : Bool) (left right : Ty) : Solve Unit :=
  let n := max s.varBound (max left.varBound right.varBound)
  unifyWith lenient (unifyVar lenient (n + 1)) left right

end Solve

/-- Unifies two types in a store: the failures in order, and the store with the new bindings. -/
def Store.unify (lenient : Bool) (left right : Ty) : StateM Store (List (TypeError Ty)) :=
  fun store =>
    let s := ((Solve.unify store lenient left right).run Solve.Act.perform { store }).2
    (s.errors.toList, s.store)

end Monotype
