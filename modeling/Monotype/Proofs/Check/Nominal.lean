import Monotype.Proofs.Check.Walk
import Monotype.Proofs.Typing.Output
import Monotype.Tree.Sketch

/-! Sum types are known by their names alone, so a name that nothing declares would lead nowhere.
The walk under the vocabulary of the declared names shows that there is none in a run, at any of its
points: a declaration is lowered before its name is declared, but what it says of itself is put into
the run only together with the name. A name that is declared again stays declared. -/
namespace Monotype

/-- The names under which types are declared. -/
def Registry.names (r : Registry) : Set String := { name | (r.type? name).isSome }

/-- A constructor of the common table is found under its own name and belongs to the sum type to
which its type leads, and a sum type lists only constructors of its own. -/
structure Registry.Formed (r : Registry) : Prop where
  constructors : ∀ name c, r.constructor? name = some c → c.name = name ∧ c.Formed c.adtName
  types : ∀ name d, r.type? name = some d → d.definition.Formed name

namespace Registry.Formed
variable {r : Registry}

theorem declare (h : r.Formed) {name : String} {d : TypeDef} (origin : NodeId)
    (hd : d.Formed name) : (r.declare name d origin).Formed where
  constructors := h.constructors
  types other e he := by
    rw [type?_declare] at he
    split at he
    · next heq =>
      obtain rfl := Option.some.inj he
      exact heq ▸ hd
    · exact h.types other e he

theorem register (h : r.Formed) {c : Constructor} (hc : c.Formed c.adtName) :
    (r.register c).2.Formed where
  constructors name d hd := by
    rw [constructor?_register] at hd
    split at hd
    · next heq =>
      obtain rfl := Option.some.inj hd
      exact ⟨heq, hc⟩
    · exact h.constructors name d hd
  types := h.types

end Registry.Formed

/-- The sum types that are declared may be named. -/
def Vocabulary.declared : Vocabulary where
  names := Registry.names
  Sound := Registry.Formed
  mem_names h := by simp [Registry.names, h]
  names_declare r name d origin := by
    intro other hother
    change ((r.declare name d origin).type? other).isSome
    rw [Registry.type?_declare]
    split
    · rfl
    · exact hother
  names_register _ _ := subset_rfl
  sound_empty := ⟨by simp [Registry.constructor?], by simp [Registry.type?]⟩
  sound_declare origin h hd := h.declare origin hd
  sound_register h hc := h.register hc

/-- Every sum type that a type of the run names is declared. A constructor of the common table is
found under its name, and its type is a function of at most one parameter to the declared sum type
that it belongs to. The constructors that a sum type lists have this shape too, and are its own. -/
structure Run.Anchored (run : Run) : Prop where
  named : run.All fun t => ∀ name ∈ t.adts, name ∈ run.registry.names
  table : ∀ name c, run.registry.constructor? name = some c →
    c.name = name ∧ c.Formed c.adtName ∧ c.adtName ∈ run.registry.names
  listed : ∀ adt constructors, run.registry.constructorsOf? adt = some constructors →
    ∀ c ∈ constructors, c.Formed adt

theorem Run.Obeys.anchored {run : Run} (h : run.Obeys .declared) : run.Anchored where
  named := h.types.mono fun _ ht => ht.named
  table name c hc := by
    obtain ⟨hname, hformed⟩ := h.sound.constructors name c hc
    refine ⟨hname, hformed, (h.types.constructors name c hc).named c.adtName ?_⟩
    obtain ⟨params, hty, -⟩ := hformed.ty_eq
    rw [hty]
    exact Ty.mem_adts_fn.2 (.inr (by simp))
  listed adt constructors hcs := by
    unfold Registry.constructorsOf? at hcs
    split at hcs
    · next heq =>
      obtain rfl := Option.some.inj hcs
      exact h.sound.types adt _ heq
    · cases hcs

/-- Nor does the full form of a type that the run holds name any other sum type. -/
theorem Run.Obeys.named_full {run : Run} (h : run.Obeys .declared) {t : Ty}
    (ht : t.Fits (Vocabulary.declared.world run)) :
    ∀ name ∈ (run.store.full t).adts, name ∈ run.registry.names :=
  h.store.names.full h.acyclic ht.named

namespace Checker

/-- At every point of a check, so also between any two statements of any block, whatever the program
and whatever was checked before: no name of a sum type dangles. -/
theorem anchored_at_every_point (c : Checker) (p : Program)
    {ahead : Plan Check.Act.Answer (Except Malformed Output)} {run : Run}
    (h : Plan.Reaches (Check.Act.perform c.config) (Check.program p) c.run.reset ahead run) :
    run.Anchored := by
  have hobeys : c.run.reset.Obeys .declared := .reset _ c.run
  have hsafe := (Vocabulary.program_keeps p c.run.reset hobeys le_rfl).reaches h
  cases ahead with
  | done out => exact hsafe.1.anchored
  | step act next => exact hsafe.1.1.anchored

open Sketch in
/-- A list type that is used in a value, a block with a sum type of its own around it, and the name
of the list type declared again as something else. -/
def listProgram : Program :=
  (build [
    .typeDecl "List" (.adt [.bare "Nil", .named "Cons" "List"]),
    .assign .constVar "one" (.call (.ident "Cons") [.call (.ident "Nil") []]),
    .expr (.block [.typeDecl "Tree" (.adt [.record "Node" [("rest", .named "List")]])]
      (some (.call (.ident "Node") [.record [("rest", .ident "one")]]))),
    .typeDecl "List" (.prim .number)]).1

/-- At the end of the check the list type has no constructors any more, while one that leads to it
is still in the common table. -/
theorem anchored_at_end_list :
    ∃ ahead run,
      Plan.Reaches (Check.Act.perform {}) (Check.program listProgram) (Run.reset {}) ahead run ∧
      run.Anchored ∧ run.registry.constructorsOf? "List" = none ∧
      (run.registry.constructor? "Cons").map (·.ty) =
        some (.fn [.adt "List"] (.adt "List")) := by
  have hreaches : Plan.Reaches (Check.Act.perform {}) (Check.program listProgram) (Run.reset {})
      _ _ := .finished _ _
  refine ⟨_, _, hreaches, anchored_at_every_point {} listProgram hreaches, ?_, ?_⟩
  · decide +kernel
  · decide +kernel

/-- Handing out the findings changes nothing about the declarations. -/
theorem registry_of_check {c : Checker} {p : Program} {s : Run}
    (hrun : (Check.checkStmts p).run c.config c.run.reset = (.ok (), s)) (hs : s.store.Acyclic) :
    (c.check p).2.run.registry = s.registry := by
  have hid : ∀ notes : List (NodeId × Ty), (id notes).Perm notes := fun notes => .refl notes
  obtain ⟨out, store, hfinish, -⟩ := Check.run_finishIn c.config hid hs
  have hprogram : (Check.program p).run c.config c.run.reset = (.ok out, { s with store }) := by
    rw [Check.program, Check.run_bind, hrun]
    exact hfinish
  rw [check, hprogram]
  rfl

/-- What a check hands out names declared sum types only. -/
theorem output_anchored (c : Checker) (p : Program) {out : Output}
    (hout : (c.check p).1 = .ok out) :
    (∀ symbol ∈ out.symbols, ∀ name ∈ symbol.ty.adts,
      name ∈ (c.check p).2.run.registry.names) ∧
    ∀ node t, out.typeOf? node = some t → ∀ name ∈ t.adts,
      name ∈ (c.check p).2.run.registry.names := by
  obtain ⟨s, hrun, hinv, hhands⟩ := run_of_check hout
  have hobeys : s.Obeys .declared := Vocabulary.obeys_checkStmts (.reset _ c.run) hrun
  rw [registry_of_check hrun hinv.acyclic]
  constructor
  · intro symbol hsymbol
    rw [hhands.symbols] at hsymbol
    obtain ⟨sym, hsym, rfl⟩ := List.mem_map.1 hsymbol
    exact hobeys.named_full (hobeys.types.symbols sym (Array.mem_toList_iff.1 hsym))
  · intro node t ht
    rw [hhands.typeOf?_eq, Option.map_eq_some_iff] at ht
    obtain ⟨noted, hnoted, rfl⟩ := ht
    exact hobeys.named_full (hobeys.types.nodeTypes node noted hnoted)

end Checker

end Monotype
