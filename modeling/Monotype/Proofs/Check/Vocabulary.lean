import Monotype.Check.Session
import Monotype.Proofs.Unify.Safety

/-! What the types that a run holds may speak of. A vocabulary says, from the declarations of a run,
which sum types may be named and what else is true of the declarations; a run obeys it when all its
types speak of issued variables and of these sum types only. Each action that is asked for in these
terms leaves a run that obeys the vocabulary, and gives an answer in these terms. -/
namespace Monotype

/-- The types that a declaration is made of. -/
def TypeDef.parts : TypeDef → List Ty
  | prim _ => []
  | record fields => fields.map (·.2)
  | tuple elements => elements
  | fn params result => result :: params
  | adt constructors => constructors.map (·.ty)
  | synonym t => [t]

/-- The shape of a constructor of the sum type `adt`: a function to it of at most one parameter. -/
structure Constructor.Formed (adt : String) (c : Constructor) : Prop where
  adtName_eq : c.adtName = adt
  ty_eq : ∃ params, c.ty = .fn params (.adt adt) ∧ params.length ≤ 1

theorem Constructor.Formed.self {adt : String} {c : Constructor} (h : c.Formed adt) :
    c.Formed c.adtName := by
  rw [h.adtName_eq]
  exact h

theorem Constructor.formed_ofParams (adt name : String) {params : List Ty} (origin : NodeId)
    (h : params.length ≤ 1) : (Constructor.ofParams adt name params origin).Formed adt :=
  ⟨rfl, params, rfl, h⟩

/-- A constructor with parameters is a function of them. -/
theorem Constructor.ty_eq_of_mem_params {c : Constructor} {t : Ty} (h : t ∈ c.params) :
    ∃ result, c.ty = .fn c.params result := by
  cases hty : c.ty with
  | fn params result => exact ⟨result, by simp [Constructor.params, hty]⟩
  | _ => simp [Constructor.params, hty] at h

theorem Constructor.fits_params {w : World} {c : Constructor} (h : c.ty.Fits w) :
    ∀ t ∈ c.params, t.Fits w := by
  intro t ht
  obtain ⟨result, hty⟩ := ty_eq_of_mem_params ht
  rw [hty, Ty.fits_fn] at h
  exact h.1 t ht

/-- The constructors that a declaration under `name` lists are all of that sum type. -/
def TypeDef.Formed (name : String) : TypeDef → Prop
  | .adt constructors => ∀ c ∈ constructors, c.Formed name
  | _ => True

/-- The type that a declaration introduces is made of its parts, or is the declared sum type. -/
theorem TypeDef.fits_toTy {w : World} {d : TypeDef} {name : String} (h : ∀ t ∈ d.parts, t.Fits w)
    (hname : name ∈ w.names) : (d.toTy name).Fits w := by
  cases d with
  | prim p => exact Ty.fits_prim
  | record fields => exact Ty.fits_record.2 fun field hf => h _ (List.mem_map_of_mem hf)
  | tuple elements => exact Ty.fits_tuple.2 h
  | fn params result => exact Ty.fits_fn.2 (List.forall_mem_cons.1 h).symm
  | adt constructors => exact Ty.fits_adt.2 hname
  | synonym t => exact h t List.mem_cons_self

/-! ## The types of a run -/

/-- All types that a run holds satisfy `P`: in slots, in tables of scopes, in the declared types and
constructors, among the symbols and among the types of nodes. -/
structure Run.All (P : Ty → Prop) (run : Run) : Prop where
  slots : ∀ v t, run.store.lookup v = some t → P t
  scopes : ∀ table ∈ run.scopes.pool, ∀ (name : String) (b : Binding),
    table[name]? = some b → P b.ty
  types : ∀ name d, run.registry.type? name = some d → ∀ t ∈ d.definition.parts, P t
  constructors : ∀ name c, run.registry.constructor? name = some c → P c.ty
  symbols : ∀ symbol ∈ run.symbols, P symbol.ty
  nodeTypes : ∀ (node : NodeId) (t : Ty), run.nodeTypes[node]? = some t → P t

namespace Run.All
variable {run : Run} {P Q : Ty → Prop}

theorem mono (h : run.All P) (himp : ∀ t, P t → Q t) : run.All Q where
  slots v t ht := himp t (h.slots v t ht)
  scopes table ht name b hb := himp _ (h.scopes table ht name b hb)
  types name d hd t ht := himp t (h.types name d hd t ht)
  constructors name c hc := himp _ (h.constructors name c hc)
  symbols symbol hs := himp _ (h.symbols symbol hs)
  nodeTypes node t ht := himp t (h.nodeTypes node t ht)

theorem withStore (h : run.All P) {s : Store} (hs : ∀ v t, s.lookup v = some t → P t) :
    ({ run with store := s } : Run).All P :=
  { h with slots := hs }

theorem note (h : run.All P) (node : NodeId) {t : Ty} (ht : P t) :
    ({ run with nodeTypes := run.nodeTypes.insert node t } : Run).All P :=
  { h with
    nodeTypes := by
      intro other u hu
      simp only [Std.TreeMap.getElem?_insert] at hu
      split at hu
      · exact Option.some.inj hu ▸ ht
      · exact h.nodeTypes other u hu }

theorem symbol (h : run.All P) {symbol : Symbol} (hs : P symbol.ty) :
    ({ run with symbols := run.symbols.push symbol } : Run).All P :=
  { h with
    symbols := by
      intro other ho
      rcases Array.mem_push.1 ho with ho | rfl
      · exact h.symbols other ho
      · exact hs }

theorem enter (h : run.All P) : ({ run with scopes := run.scopes.push.2 } : Run).All P :=
  { h with
    scopes := by
      intro table ht name b hb
      have htable : table ∈ run.scopes.pool ∨ table = ∅ := by
        change table ∈ run.scopes.push.2.pool at ht
        unfold Scopes.push at ht
        split at ht
        · next hlt => exact Array.mem_or_eq_of_mem_set (w := hlt) ht
        · exact Array.mem_push.1 ht
      rcases htable with ht | rfl
      · exact h.scopes table ht name b hb
      · simp at hb }

theorem leave (h : run.All P) : ({ run with scopes := run.scopes.pop } : Run).All P :=
  { h with
    scopes := by
      intro table ht
      apply h.scopes table
      change table ∈ run.scopes.pop.pool at ht
      unfold Scopes.pop at ht
      split at ht <;> exact ht }

theorem bindName (h : run.All P) (name : String) {b : Binding} (hb : P b.ty) :
    ({ run with scopes := (run.scopes.insert name b).2 } : Run).All P :=
  { h with
    scopes := by
      intro table ht other c hc
      rcases Array.mem_or_eq_of_mem_set (w := run.scopes.current_lt) ht with ht | rfl
      · exact h.scopes table ht other c hc
      · simp only [Std.TreeMap.getElem?_insert] at hc
        split at hc
        · exact Option.some.inj hc ▸ hb
        · exact h.scopes _ (Array.getElem_mem _) other c hc }

theorem declareType (h : run.All P) (name : String) {d : TypeDef} (origin : NodeId)
    (hd : ∀ t ∈ d.parts, P t) :
    ({ run with registry := run.registry.declare name d origin } : Run).All P :=
  { h with
    types := by
      intro other e he
      rw [Registry.type?_declare] at he
      split at he
      · exact Option.some.inj he ▸ hd
      · exact h.types other e he }

theorem register (h : run.All P) {c : Constructor} (hc : P c.ty) :
    ({ run with registry := (run.registry.register c).2 } : Run).All P :=
  { h with
    constructors := by
      intro other e he
      rw [Registry.constructor?_register] at he
      split at he
      · exact Option.some.inj he ▸ hc
      · exact h.constructors other e he }

theorem live (h : run.All P) {table : Scope} (ht : table ∈ run.scopes.live) {name : String}
    {b : Binding} (hb : table[name]? = some b) : P b.ty := by
  rw [Scopes.live, List.mem_reverse] at ht
  exact h.scopes table (Array.mem_toList_iff.1 (List.mem_of_mem_take ht)) name b hb

theorem lookup (h : run.All P) {name : String} {b : Binding}
    (hb : run.scopes.lookup name = some b) : P b.ty := by
  obtain ⟨table, ht, hb⟩ := List.exists_of_findSome?_eq_some hb
  exact h.live ht hb

theorem constructorOf (h : run.All P) {adt name : String} {c : Constructor}
    (hc : run.registry.constructorOf? adt name = some c) : P c.ty := by
  obtain ⟨cs, hcs, hfind⟩ := Option.bind_eq_some_iff.1 hc
  unfold Registry.constructorsOf? at hcs
  split at hcs
  · next heq =>
    obtain rfl := Option.some.inj hcs
    exact h.types adt _ heq c.ty (List.mem_map_of_mem (List.mem_of_find?_eq_some hfind))
  · simp at hcs

/-- At the start nothing is held. -/
theorem reset (run : Run) : run.reset.All P where
  slots v t ht := by simp [Run.reset, Store.lookup] at ht
  scopes table ht name b hb := by
    have hempty : table = ∅ := by
      simp only [Run.reset, Scopes.reset, Array.mem_replicate] at ht
      exact ht.2
    simp [hempty] at hb
  types name d hd := by simp [Run.reset, Registry.type?] at hd
  constructors name c hc := by simp [Run.reset, Registry.constructor?] at hc
  symbols symbol hs := by simp [Run.reset] at hs
  nodeTypes node t ht := by simp [Run.reset] at ht

end Run.All

/-! ## Vocabularies -/

/-- Which sum types may be named under the declarations there are, and what is kept true of the
declarations. A declared sum type may be named from then on. -/
structure Vocabulary where
  names : Registry → Set String
  Sound : Registry → Prop
  mem_names : ∀ {r name d}, r.type? name = some d → name ∈ names r
  names_declare : ∀ r name d origin, names r ⊆ names (r.declare name d origin)
  names_register : ∀ r c, names r ⊆ names (r.register c).2
  sound_empty : Sound {}
  sound_declare : ∀ {r name d} origin, Sound r → d.Formed name → Sound (r.declare name d origin)
  sound_register : ∀ {r c}, Sound r → c.Formed c.adtName → Sound (r.register c).2

/-- What the types of a run may speak of. -/
def Vocabulary.world (V : Vocabulary) (run : Run) : World := ⟨run.store.size, V.names run.registry⟩

/-- The store is acyclic, all types speak of issued variables and of the sum types that may be
named, and the declarations are sound. -/
structure Run.Obeys (V : Vocabulary) (run : Run) : Prop where
  acyclic : run.store.Acyclic
  types : run.All (Ty.Fits (V.world run))
  sound : V.Sound run.registry

namespace Check.Act

/-- The types that an action puts into a run or asks about are about `w`, and constructors have
their shape. Bindings and occurs checks are for unification alone. -/
def Asks (w : World) : Act → Prop
  | store (.resolve t) | store (.apply t) | note _ t => t.Fits w
  | store (.occurs _ _) | store (.bind _ _) => False
  | symbol sym => sym.ty.Fits w
  | bindName _ b => b.ty.Fits w
  | declareType name d _ => (∀ t ∈ d.parts, t.Fits (w.naming (some name))) ∧ d.Formed name
  | register c => c.ty.Fits w ∧ c.Formed c.adtName
  | config | state | store .fresh | report _ | enter | leave => True

/-- The types that an action answers with are about `w`, and declared names belong to it. -/
def Gives (w : World) : (act : Act) → act.Answer → Prop
  | store .fresh, t | store (.resolve _), t | store (.apply _), t => t.Fits w
  | state, run =>
    run.All (Ty.Fits w) ∧ ∀ name d, run.registry.type? name = some d → name ∈ w.names
  | declareType name _ _, _ => name ∈ w.names
  | _, _ => True

theorem Asks.mono {w w' : World} {act : Act} (h : act.Asks w) (hle : w ≤ w') : act.Asks w' := by
  cases act with
  | store act =>
    cases act with
    | resolve t | apply t => exact Ty.Fits.mono h hle
    | fresh => trivial
    | occurs v t | bind v t => exact h
  | note node t => exact Ty.Fits.mono h hle
  | symbol sym => exact Ty.Fits.mono h hle
  | bindName name b => exact Ty.Fits.mono h hle
  | declareType name d origin =>
    exact ⟨fun t ht => (h.1 t ht).mono (World.naming_mono hle _), h.2⟩
  | register c => exact ⟨h.1.mono hle, h.2⟩
  | config | state | report r | enter | leave => trivial

end Check.Act

namespace Run.Obeys
variable {V : Vocabulary} {run : Run}

theorem store (h : run.Obeys V) : run.store.Fits (V.world run) where
  tidy := ⟨h.acyclic, ⟨Nat.le_refl _, fun v t ht => (h.types.slots v t ht).below⟩, rfl⟩
  names v t ht := (h.types.slots v t ht).named

/-- A store of the same variables can take the place of the store. -/
theorem withStore (h : run.Obeys V) {s : Store} (hs : s.Fits (V.world run)) :
    ({ run with store := s } : Run).Obeys V ∧
      V.world { run with store := s } = V.world run := by
  have hworld : V.world { run with store := s } = V.world run :=
    congrArg (World.mk · _) hs.tidy.size_eq
  refine ⟨⟨hs.acyclic, ?_, h.sound⟩, hworld⟩
  rw [hworld]
  exact h.types.withStore fun v t ht => ⟨hs.tidy.within.below v t ht, hs.names v t ht⟩

theorem reset (V : Vocabulary) (run : Run) : run.reset.Obeys V :=
  ⟨Store.acyclic_empty, .reset run, V.sound_empty⟩

theorem fresh (h : run.Obeys V) :
    ({ run with store := run.store.fresh.2 } : Run).Obeys V ∧
      V.world run ≤ V.world { run with store := run.store.fresh.2 } := by
  have hle : V.world run ≤ V.world { run with store := run.store.fresh.2 } :=
    ⟨Nat.le.intro run.store.size_fresh.symm, subset_rfl⟩
  refine ⟨⟨h.acyclic.fresh, ?_, h.sound⟩, hle⟩
  have htypes := h.types.mono fun _ ht => ht.mono hle
  exact htypes.withStore fun v t ht => htypes.slots v t (by simpa using ht)

theorem declareType (h : run.Obeys V) {name : String} {d : TypeDef} (origin : NodeId)
    (hd : ∀ t ∈ d.parts, t.Fits ((V.world run).naming (some name))) (hformed : d.Formed name) :
    ({ run with registry := run.registry.declare name d origin } : Run).Obeys V ∧
      (V.world run).naming (some name) ≤
        V.world { run with registry := run.registry.declare name d origin } := by
  have hle : (V.world run).naming (some name) ≤
      V.world { run with registry := run.registry.declare name d origin } := by
    constructor
    · exact Nat.le_refl _
    · rintro other (heq | hother)
      · apply V.mem_names (d := ⟨d, origin⟩)
        rw [Registry.type?_declare, if_pos (Option.some.inj heq)]
      · exact V.names_declare _ _ _ _ hother
  refine ⟨⟨h.acyclic, ?_, V.sound_declare origin h.sound hformed⟩, hle⟩
  have htypes := h.types.mono fun _ ht => ht.mono ((World.le_naming _ (some name)).trans hle)
  exact htypes.declareType name origin fun t ht => (hd t ht).mono hle

theorem register (h : run.Obeys V) {c : Constructor} (hc : c.ty.Fits (V.world run))
    (hformed : c.Formed c.adtName) :
    ({ run with registry := (run.registry.register c).2 } : Run).Obeys V ∧
      V.world run ≤ V.world { run with registry := (run.registry.register c).2 } := by
  have hle : V.world run ≤ V.world { run with registry := (run.registry.register c).2 } :=
    ⟨Nat.le_refl _, V.names_register _ c⟩
  refine ⟨⟨h.acyclic, ?_, V.sound_register h.sound hformed⟩, hle⟩
  exact (h.types.mono fun _ ht => ht.mono hle).register (hc.mono hle)

/-- One action, asked for in terms of the world there is: the run goes on obeying, the world only
grows, and the answer is in terms of the world that there is then. -/
theorem perform (h : run.Obeys V) (cfg : Config) (act : Check.Act)
    (hask : act.Asks (V.world run)) :
    (act.perform cfg run).2.Obeys V ∧ V.world run ≤ V.world (act.perform cfg run).2 ∧
      act.Gives (V.world (act.perform cfg run).2) (act.perform cfg run).1 := by
  cases act with
  | config => exact ⟨h, le_rfl, trivial⟩
  | state => exact ⟨h, le_rfl, h.types, fun _ _ => V.mem_names⟩
  | store act =>
    cases act with
    | fresh =>
      obtain ⟨hnext, hle⟩ := h.fresh
      exact ⟨hnext, hle, Ty.fits_var.2 (Nat.le_of_eq run.store.size_fresh.symm)⟩
    | resolve t =>
      obtain ⟨hnext, hworld⟩ := h.withStore (h.store.resolve t)
      exact ⟨hnext, hworld.ge, (h.store.resolved hask).mono hworld.ge⟩
    | apply t =>
      obtain ⟨hnext, hworld⟩ := h.withStore (h.store.apply t)
      exact ⟨hnext, hworld.ge, (h.store.applied hask).mono hworld.ge⟩
    | occurs v t => exact hask.elim
    | bind v t => exact hask.elim
  | report r => exact ⟨⟨h.acyclic, { h.types with }, h.sound⟩, le_rfl, trivial⟩
  | note node t => exact ⟨⟨h.acyclic, h.types.note node hask, h.sound⟩, le_rfl, trivial⟩
  | symbol sym => exact ⟨⟨h.acyclic, h.types.symbol hask, h.sound⟩, le_rfl, trivial⟩
  | bindName name b => exact ⟨⟨h.acyclic, h.types.bindName name hask, h.sound⟩, le_rfl, trivial⟩
  | enter => exact ⟨⟨h.acyclic, h.types.enter, h.sound⟩, le_rfl, trivial⟩
  | leave => exact ⟨⟨h.acyclic, h.types.leave, h.sound⟩, le_rfl, trivial⟩
  | declareType name d origin =>
    obtain ⟨hnext, hle⟩ := h.declareType origin hask.1 hask.2
    exact ⟨hnext, (World.le_naming _ _).trans hle, World.names_subset hle (.inl rfl)⟩
  | register c =>
    obtain ⟨hnext, hle⟩ := h.register hask.1 hask.2
    exact ⟨hnext, hle, trivial⟩

end Run.Obeys

end Monotype
