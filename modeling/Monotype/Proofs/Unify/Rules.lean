import Monotype.Proofs.Store.Binding
import Monotype.Unify

/-! Unification as rules. A derivation says how two types are unified in a store, which failures are
met and which store is left; every rule follows variables to their ends first. The rules bound
neither the depth of types nor the number of variables. -/
namespace Monotype

/-- Types without parts. -/
def Ty.IsLeaf : Ty → Prop
  | .prim _ | .external _ | .adt _ => True
  | _ => False

/-- Both types are functions, or tuples, or records. -/
def Ty.Alike : Ty → Ty → Prop
  | .fn _ _, .fn _ _ => True
  | .tuple _, .tuple _ => True
  | .record _, .record _ => True
  | _, _ => False

namespace Store

/-- The unbound variable `v` is to become `t`: it is bound, unless it occurs in `t`. -/
inductive Assigns (s : Store) (v : TyVar) (t : Ty) : List (TypeError Ty) → Store → Prop where
  | bind (h : (occurs v t s).1 = false) : Assigns s v t [] ((occurs v t s).2.bind v t)
  | refuse (h : (occurs v t s).1 = true) :
      Assigns s v t [.infiniteType v (apply t (occurs v t s).2).1] (apply t (occurs v t s).2).2

mutual
/-- Unifying two types in `s` fails in `errors` and leaves `s'`. -/
inductive Unifies (lenient : Bool) : Store → Ty → Ty → List (TypeError Ty) → Store → Prop where
  | intro {s s' : Store} {l r : Ty} {errors : List (TypeError Ty)}
      (h : Meets lenient (resolve r (resolve l s).2).2 (resolve l s).1
        (resolve r (resolve l s).2).1 errors s') :
      Unifies lenient s l r errors s'

/-- The same of two types neither of which is a bound variable. -/
inductive Meets (lenient : Bool) : Store → Ty → Ty → List (TypeError Ty) → Store → Prop where
  | sameVar {s : Store} {v : TyVar} : Meets lenient s (.var v) (.var v) [] s
  | assignLeft {s s' : Store} {v : TyVar} {r : Ty} {errors : List (TypeError Ty)}
      (hr : r ≠ .var v) (h : Assigns s v r errors s') : Meets lenient s (.var v) r errors s'
  | assignRight {s s' : Store} {v : TyVar} {l : Ty} {errors : List (TypeError Ty)}
      (hl : ∀ w, l ≠ .var w) (h : Assigns s v l errors s') : Meets lenient s l (.var v) errors s'
  | sameLeaf {s : Store} {t : Ty} (ht : t.IsLeaf) : Meets lenient s t t [] s
  | agree {s : Store} {l r : Ty} (hl : ∀ w, l ≠ .var w) (hr : ∀ w, r ≠ .var w) (hne : l ≠ r)
      (hlen : lenient = true) (he : l.isExternal = true ∨ r.isExternal = true) :
      Meets lenient s l r [] s
  | fn {s s₁ s₂ : Store} {ps qs : List Ty} {p q : Ty} {errors₁ errors₂ : List (TypeError Ty)}
      (hlen : ps.length = qs.length) (hparams : AllUnify lenient s ps qs errors₁ s₁)
      (hresult : Unifies lenient s₁ p q errors₂ s₂) :
      Meets lenient s (.fn ps p) (.fn qs q) (errors₁ ++ errors₂) s₂
  | arity {s : Store} {ps qs : List Ty} {p q : Ty} (hlen : ps.length ≠ qs.length) :
      Meets lenient s (.fn ps p) (.fn qs q) [.functionArity ps.length qs.length] s
  | tuple {s s' : Store} {ts us : List Ty} {errors : List (TypeError Ty)}
      (hlen : ts.length = us.length) (helements : AllUnify lenient s ts us errors s') :
      Meets lenient s (.tuple ts) (.tuple us) errors s'
  | length {s : Store} {ts us : List Ty} (hlen : ts.length ≠ us.length) :
      Meets lenient s (.tuple ts) (.tuple us) [.tupleLength ts.length us.length] s
  | record {s s' : Store} {fs gs : Fields Ty} {errors : List (TypeError Ty)}
      (hfields : FieldsUnify lenient s fs gs errors s') :
      Meets lenient s (.record fs) (.record gs) errors s'
  | mismatch {s : Store} {l r : Ty} (hl : ∀ w, l ≠ .var w) (hr : ∀ w, r ≠ .var w) (hne : l ≠ r)
      (halike : ¬ l.Alike r)
      (hstrict : ¬ (lenient = true ∧ (l.isExternal = true ∨ r.isExternal = true))) :
      Meets lenient s l r [.mismatch (apply l s).1 (apply r (apply l s).2).1]
        (apply r (apply l s).2).2

/-- Lists are unified place by place. -/
inductive AllUnify (lenient : Bool) :
    Store → List Ty → List Ty → List (TypeError Ty) → Store → Prop where
  | nil {s : Store} : AllUnify lenient s [] [] [] s
  | cons {s s₁ s₂ : Store} {t u : Ty} {ts us : List Ty} {errors₁ errors₂ : List (TypeError Ty)}
      (hhead : Unifies lenient s t u errors₁ s₁)
      (htail : AllUnify lenient s₁ ts us errors₂ s₂) :
      AllUnify lenient s (t :: ts) (u :: us) (errors₁ ++ errors₂) s₂

/-- Fields are gone through by ascending name; a name on one side only is a failure. -/
inductive FieldsUnify (lenient : Bool) :
    Store → Fields Ty → Fields Ty → List (TypeError Ty) → Store → Prop where
  | nil {s : Store} {others : Fields Ty} :
      FieldsUnify lenient s [] others (others.map fun field => .recordField field.1) s
  | shared {s s₁ s₂ : Store} {name : String} {t u : Ty} {fields others rest : Fields Ty}
      {errors₁ errors₂ : List (TypeError Ty)}
      (hrest : others.dropWhile (·.1 < name) = (name, u) :: rest)
      (hfield : Unifies lenient s t u errors₁ s₁)
      (hfields : FieldsUnify lenient s₁ fields rest errors₂ s₂) :
      FieldsUnify lenient s ((name, t) :: fields) others
        ((others.takeWhile (·.1 < name)).map (fun field => .recordField field.1) ++
          (errors₁ ++ errors₂)) s₂
  | missing {s s' : Store} {name : String} {t : Ty} {fields others rest : Fields Ty}
      {errors : List (TypeError Ty)}
      (hrest : others.dropWhile (·.1 < name) = rest) (habsent : ∀ u tail, rest ≠ (name, u) :: tail)
      (hfields : FieldsUnify lenient s fields rest errors s') :
      FieldsUnify lenient s ((name, t) :: fields) others
        ((others.takeWhile (·.1 < name)).map (fun field => .recordField field.1) ++
          (.recordField name :: errors)) s'
end

end Store

end Monotype
