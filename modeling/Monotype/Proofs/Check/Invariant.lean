import Monotype.Proofs.Check.Vocabulary

/-! What holds at every point of a checking run: the store is acyclic, all types that the run knows
are about issued variables, and only unbound variables are bound. -/
namespace Monotype

/-- All variables of a declaration are among the first `n`. -/
def TypeDef.Below (n : Nat) : TypeDef → Prop
  | .prim _ => True
  | .record fields => ∀ field ∈ fields, field.2.Below n
  | .tuple elements => ∀ t ∈ elements, t.Below n
  | .fn params result => (∀ t ∈ params, t.Below n) ∧ result.Below n
  | .adt constructors => ∀ c ∈ constructors, c.ty.Below n
  | .synonym t => t.Below n

theorem TypeDef.below_iff {n : Nat} {d : TypeDef} : d.Below n ↔ ∀ t ∈ d.parts, t.Below n := by
  cases d with
  | prim p => simp [TypeDef.Below, parts]
  | record fields => exact List.forall_mem_map.symm
  | tuple elements => exact Iff.rfl
  | fn params result => exact and_comm.trans List.forall_mem_cons.symm
  | adt constructors => exact List.forall_mem_map.symm
  | synonym t => simp [TypeDef.Below, parts]

theorem TypeDef.Below.toTy {n : Nat} {d : TypeDef} (h : d.Below n) (name : String) :
    (d.toTy name).Below n := by
  cases d with
  | prim p => exact Ty.below_prim
  | record fields => exact Ty.below_record.2 h
  | tuple elements => exact Ty.below_tuple.2 h
  | fn params result => exact Ty.below_fn.2 h
  | adt constructors => exact Ty.below_adt
  | synonym t => exact h

theorem Constructor.params_below {n : Nat} {c : Constructor} (h : c.ty.Below n) :
    ∀ t ∈ c.params, t.Below n := by
  intro t ht
  obtain ⟨result, hty⟩ := ty_eq_of_mem_params ht
  rw [hty, Ty.below_fn] at h
  exact h.1 t ht

/-- The store is acyclic, and every variable that occurs in a slot, in the table of a scope, among
the declared types and constructors, among the symbols or among the types of nodes has been
issued. -/
structure Run.Inv (run : Run) : Prop where
  acyclic : run.store.Acyclic
  slots : run.store.Within run.store.size
  scopes : ∀ table ∈ run.scopes.pool, ∀ (name : String) (b : Binding),
    table[name]? = some b → b.ty.Below run.store.size
  types : ∀ name d, run.registry.type? name = some d → d.definition.Below run.store.size
  constructors : ∀ name c, run.registry.constructor? name = some c → c.ty.Below run.store.size
  symbols : ∀ symbol ∈ run.symbols, symbol.ty.Below run.store.size
  nodeTypes : ∀ (node : NodeId) (t : Ty), run.nodeTypes[node]? = some t → t.Below run.store.size

namespace Run.Inv
variable {run : Run}

/-- All types of the run are about issued variables. -/
theorem all (h : run.Inv) : run.All (Ty.Below run.store.size) where
  slots := h.slots.below
  scopes := h.scopes
  types name d hd := TypeDef.below_iff.1 (h.types name d hd)
  constructors := h.constructors
  symbols := h.symbols
  nodeTypes := h.nodeTypes

theorem of_all (hs : run.store.Acyclic) (h : run.All (Ty.Below run.store.size)) : run.Inv where
  acyclic := hs
  slots := ⟨Nat.le_refl _, h.slots⟩
  scopes := h.scopes
  types name d hd := TypeDef.below_iff.2 (h.types name d hd)
  constructors := h.constructors
  symbols := h.symbols
  nodeTypes := h.nodeTypes

theorem note (h : run.Inv) (node : NodeId) {t : Ty} (ht : t.Below run.store.size) :
    ({ run with nodeTypes := run.nodeTypes.insert node t } : Run).Inv :=
  of_all h.acyclic (h.all.note node ht)

theorem symbol (h : run.Inv) {symbol : Symbol} (hs : symbol.ty.Below run.store.size) :
    ({ run with symbols := run.symbols.push symbol } : Run).Inv :=
  of_all h.acyclic (h.all.symbol hs)

theorem enter (h : run.Inv) : ({ run with scopes := run.scopes.push.2 } : Run).Inv :=
  of_all h.acyclic h.all.enter

theorem leave (h : run.Inv) : ({ run with scopes := run.scopes.pop } : Run).Inv :=
  of_all h.acyclic h.all.leave

theorem bindName (h : run.Inv) (name : String) {b : Binding} (hb : b.ty.Below run.store.size) :
    ({ run with scopes := (run.scopes.insert name b).2 } : Run).Inv :=
  of_all h.acyclic (h.all.bindName name hb)

end Run.Inv

end Monotype
