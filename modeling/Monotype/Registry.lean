import Std.Data.TreeMap
import Monotype.Site
import Monotype.Ty.Basic

/-! Declared types and their constructors. Types are found by name; constructors are found in one
table for all sum types, where the last declaration of a name counts, or in the list of the sum
type that declares them. -/
namespace Monotype

/-- A constructor of a sum type. Its type is a function to that sum type, without parameters when
it takes no payload. -/
structure Constructor where
  adtName : String
  name : String
  ty : Ty
  origin : NodeId
  deriving DecidableEq, Repr, Inhabited

namespace Constructor

def ofParams (adtName name : String) (params : List Ty) (origin : NodeId) : Constructor where
  adtName := adtName
  name := name
  ty := .fn params (.adt adtName)
  origin := origin

def params (c : Constructor) : List Ty :=
  match c.ty with
  | .fn params _ => params
  | _ => []

end Constructor

/-- What a type declaration says. -/
inductive TypeDef where
  | prim (p : Prim)
  | record (fields : Fields Ty)
  | tuple (elements : List Ty)
  | fn (params : List Ty) (result : Ty)
  | adt (constructors : List Constructor)
  | synonym (ty : Ty)
  deriving DecidableEq, Repr, Inhabited

/-- The type that a declaration under `name` introduces. -/
def TypeDef.toTy (name : String) : TypeDef → Ty
  | prim p => .prim p
  | record fields => .record fields
  | tuple elements => .tuple elements
  | fn params result => .fn params result
  | adt _ => .adt name
  | synonym ty => ty

/-- A declaration and the node of its name. -/
structure Declared where
  definition : TypeDef
  origin : NodeId
  deriving DecidableEq, Repr, Inhabited

structure Registry where
  types : Std.TreeMap String Declared := ∅
  constructors : Std.TreeMap String Constructor := ∅

namespace Registry

/-- Declares a type; an earlier one of the same name is forgotten. -/
def declare (r : Registry) (name : String) (definition : TypeDef) (origin : NodeId) : Registry :=
  { r with types := r.types.insert name ⟨definition, origin⟩ }

def type? (r : Registry) (name : String) : Option Declared := r.types[name]?

/-- The constructors of a sum type in the order of their declaration. -/
def constructorsOf? (r : Registry) (adt : String) : Option (List Constructor) :=
  match r.type? adt with
  | some ⟨.adt constructors, _⟩ => some constructors
  | _ => none

/-- Enters a constructor into the common table and gives the one that it displaces. -/
def register (r : Registry) (c : Constructor) : Option Constructor × Registry :=
  (r.constructors[c.name]?, { r with constructors := r.constructors.insert c.name c })

/-- The constructor that currently has a name in the common table. -/
def constructor? (r : Registry) (name : String) : Option Constructor := r.constructors[name]?

/-- The constructor of a name that a sum type declares, whoever has the name in the common table. -/
def constructorOf? (r : Registry) (adt name : String) : Option Constructor := do
  (← r.constructorsOf? adt).find? (·.name = name)

theorem type?_declare (r : Registry) (name other : String) (d : TypeDef) (origin : NodeId) :
    (r.declare name d origin).type? other =
      if name = other then some ⟨d, origin⟩ else r.type? other := by
  simp only [declare, type?, Std.TreeMap.getElem?_insert, Std.compare_eq_iff_eq]

theorem constructor?_register (r : Registry) (c : Constructor) (name : String) :
    (r.register c).2.constructor? name =
      if c.name = name then some c else r.constructor? name := by
  simp only [register, constructor?, Std.TreeMap.getElem?_insert, Std.compare_eq_iff_eq]

end Registry

end Monotype
