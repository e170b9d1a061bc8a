import Monotype.Store.Basic
import Monotype.Ty.Traverse

/-! What types stand for under the bindings of a store. A bound variable may lead to further
variables: `resolve` follows them at the outermost place of a type and shortens the way for the
next walk, `apply` follows them everywhere, `occurs` looks for one variable on all these ways. -/
namespace Monotype.Store

/-- A way from one variable through the slots: the bound variables on it, in order, and the type
in which it ends. It ends in a type that is no variable or in an unbound variable. -/
structure Trail where
  passed : List TyVar
  last : Ty

/-- Walks from `v` through at most `n` slots. Where no variable leads back to itself, as many
slots as there are variables are enough to reach the end. -/
def trail (s : Store) : Nat → TyVar → Trail
  | 0, v => ⟨[], .var v⟩
  | n + 1, v =>
    match s.lookup v with
    | none => ⟨[], .var v⟩
    | some (.var w) =>
      let rest := s.trail n w
      ⟨v :: rest.passed, rest.last⟩
    | some t => ⟨[v], t⟩

/-- Points every variable of a list at one type. -/
def redirect (s : Store) (vs : List TyVar) (t : Ty) : Store :=
  vs.foldl (fun s v => s.write v t) s

/-- The outermost form of a type: a variable is followed until its way ends. All variables passed
on the way but the last are pointed at the answer, so that a second walk is short. -/
def resolve (t : Ty) : StateM Store Ty := fun s =>
  match t with
  | .var v =>
    let way := s.trail s.size v
    (way.last, s.redirect way.passed.dropLast way.last)
  | _ => (t, s)

/-- The full form of a variable, through at most `n` bound variables one inside the other. -/
def expand : Nat → TyVar → StateM Store Ty
  | 0, v => return .var v
  | n + 1, v => do
    match ← resolve (.var v) with
    | .var w => return .var w
    | t => t.traverse (expand n)

/-- The full form of a type: no bound variable is left in it. -/
def apply (t : Ty) : StateM Store Ty := do
  t.traverse (expand (← get).size)

/-- Whether `v` occurs in the full form of the variable `w`, through at most `n` bound variables
one inside the other. -/
def reaches (v : TyVar) : Nat → TyVar → StateM Store Bool
  | 0, w => return w == v
  | n + 1, w => do
    match ← resolve (.var w) with
    | .var u => return u == v
    | t => t.anyVar (reaches v n)

/-- Whether `v` occurs in the full form of `t`. -/
def occurs (v : TyVar) (t : Ty) : StateM Store Bool := do
  t.anyVar (reaches v (← get).size)

/-- A number above every variable that has been issued or occurs in a slot. -/
def varBound (s : Store) : Nat :=
  s.slots.foldl (fun n slot => max n (slot.elim 0 Ty.varBound)) s.size

/-- What can be asked of a store. -/
inductive Act where
  | fresh
  | resolve (t : Ty)
  | apply (t : Ty)
  | occurs (v : TyVar) (t : Ty)
  | bind (v : TyVar) (t : Ty)

namespace Act

abbrev Answer : Act → Type
  | fresh => Ty
  | resolve _ => Ty
  | apply _ => Ty
  | occurs _ _ => Bool
  | bind _ _ => Unit

def perform : (act : Act) → Store → act.Answer × Store
  | fresh, s => s.fresh
  | resolve t, s => Store.resolve t s
  | apply t, s => Store.apply t s
  | occurs v t, s => Store.occurs v t s
  | bind v t, s => ((), s.bind v t)

end Act

end Monotype.Store
