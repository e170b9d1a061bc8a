import Monotype.Ty.Text

/-! The store of type variables: which variables have been issued and what each of them is bound
to. -/
namespace Monotype

/-- One slot for each variable, empty while the variable is unbound. -/
structure Store where
  slots : Array (Option Ty) := #[]
  deriving Repr, Inhabited

namespace Store

/-- How many variables there are. -/
def size (s : Store) : Nat := s.slots.size

/-- What is written in the slot of `v`, without following it further. -/
def lookup (s : Store) (v : TyVar) : Option Ty := s.slots[v]?.join

/-- The next variable, unbound. -/
def fresh (s : Store) : Ty × Store := (.var s.size, ⟨s.slots.push none⟩)

/-- Slots enough for `n` variables; those that were missing are unbound. -/
def grow (s : Store) (n : Nat) : Store :=
  ⟨s.slots ++ Array.replicate (n - s.size) none⟩

/-- Writes `t` into the slot of an issued variable. -/
def write (s : Store) (v : TyVar) (t : Ty) : Store := ⟨s.slots.setIfInBounds v (some t)⟩

/-- Binds `v` to `t`. A variable past the last issued one is issued with all those before it. -/
def bind (s : Store) (v : TyVar) (t : Ty) : Store := (s.grow (v + 1)).write v t

/-- An attempt to bind a variable that has a binding. -/
structure BoundTwice where
  var : TyVar
  deriving DecidableEq, Repr, Inhabited

def BoundTwice.message (e : BoundTwice) : String := Ty.varText e.var ++ " bound twice"

/-- Binds `v` unless it is bound. -/
def tryBind (s : Store) (v : TyVar) (t : Ty) : Except BoundTwice Store :=
  match s.lookup v with
  | some _ => .error ⟨v⟩
  | none => .ok (s.bind v t)

/-- The bound variables in ascending order, each with what is in its slot. -/
def bindings (s : Store) : List (TyVar × Ty) :=
  (List.range s.size).filterMap fun v => (s.lookup v).map (v, ·)

@[simp] theorem size_fresh (s : Store) : s.fresh.2.size = s.size + 1 := by
  simp [fresh, size]

@[simp] theorem lookup_fresh (s : Store) (v : TyVar) : s.fresh.2.lookup v = s.lookup v := by
  simp only [fresh, lookup, Array.getElem?_push]
  split
  · simp_all
  · rfl

@[simp] theorem size_write (s : Store) (v : TyVar) (t : Ty) : (s.write v t).size = s.size := by
  simp [write, size]

theorem lookup_write (s : Store) (v w : TyVar) (t : Ty) :
    (s.write v t).lookup w = if w = v ∧ v < s.size then some t else s.lookup w := by
  simp only [write, lookup, size, Array.getElem?_setIfInBounds]
  grind

@[simp] theorem size_grow (s : Store) (n : Nat) : (s.grow n).size = max s.size n := by
  simp [grow, size]
  omega

@[simp] theorem lookup_grow (s : Store) (n : Nat) (v : TyVar) :
    (s.grow n).lookup v = s.lookup v := by
  simp only [grow, lookup, size]
  grind

@[simp] theorem size_bind (s : Store) (v : TyVar) (t : Ty) :
    (s.bind v t).size = max s.size (v + 1) := by
  simp [bind]

theorem lookup_bind (s : Store) (v w : TyVar) (t : Ty) :
    (s.bind v t).lookup w = if w = v then some t else s.lookup w := by
  have hv : v < max s.size (v + 1) :=
    Nat.lt_of_lt_of_le (Nat.lt_succ_self v) (Nat.le_max_right _ _)
  simp [bind, lookup_write, hv]

end Store

end Monotype
