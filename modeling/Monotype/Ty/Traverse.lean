import Monotype.Ty.Basic

/-! Walks over the variables of a type, from left to right: parameters before the result, elements
in order, fields by name. -/
namespace Monotype.Ty
variable {m : Type → Type} [Monad m]

mutual
/-- Replaces the variables of a type, from left to right. -/
def traverse (f : TyVar → m Ty) : Ty → m Ty
  | .var v => f v
  | .fn params result => do
    let params ← traverseList f params
    let result ← traverse f result
    return .fn params result
  | .tuple elements => return .tuple (← traverseList f elements)
  | .record fields => return .record (← traverseFields f fields)
  | t => return t

def traverseList (f : TyVar → m Ty) : List Ty → m (List Ty)
  | [] => return []
  | t :: ts => do
    let t ← traverse f t
    let ts ← traverseList f ts
    return t :: ts

def traverseFields (f : TyVar → m Ty) : Fields Ty → m (Fields Ty)
  | [] => return []
  | (name, t) :: fields => do
    let t ← traverse f t
    let fields ← traverseFields f fields
    return (name, t) :: fields
end

mutual
/-- Asks the variables of a type, from left to right, until one of them says yes. -/
def anyVar (f : TyVar → m Bool) : Ty → m Bool
  | .var v => f v
  | .fn params result => do
    if ← anyVarList f params then return true else anyVar f result
  | .tuple elements => anyVarList f elements
  | .record fields => anyVarFields f fields
  | _ => return false

def anyVarList (f : TyVar → m Bool) : List Ty → m Bool
  | [] => return false
  | t :: ts => do
    if ← anyVar f t then return true else anyVarList f ts

def anyVarFields (f : TyVar → m Bool) : Fields Ty → m Bool
  | [] => return false
  | (_, t) :: fields => do
    if ← anyVar f t then return true else anyVarFields f fields
end

mutual
/-- The least number above all variables of a type. -/
def varBound : Ty → Nat
  | .var v => v + 1
  | .fn params result => max (varBoundList params) (varBound result)
  | .tuple elements => varBoundList elements
  | .record fields => varBoundFields fields
  | _ => 0

def varBoundList : List Ty → Nat
  | [] => 0
  | t :: ts => max (varBound t) (varBoundList ts)

def varBoundFields : Fields Ty → Nat
  | [] => 0
  | (_, t) :: fields => max (varBound t) (varBoundFields fields)
end

end Monotype.Ty
