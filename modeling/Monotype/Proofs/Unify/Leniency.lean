import Monotype.Config.Basic
import Monotype.Proofs.Store.Ends
import Monotype.Proofs.Unify.Inversion
import Monotype.Proofs.Unify.Outcome

/-! Settings only silence complaints: what a configuration does not ask for is left out of the
failures of a unification, and the bindings that are made stay the same. -/
namespace Monotype

/-- Only an imported name stands in the way, of which nothing is known: one side of a mismatch, or
what a member or an element is taken of. -/
def TypeError.aboutImport : TypeError Ty → Bool
  | .mismatch left right => left.isExternal || right.isExternal
  | .nonRecordMember _ found => found.isExternal
  | .nonTupleIndex found => found.isExternal
  | _ => false

/-- Causes that matter under every configuration, whatever the types in them. -/
def TypeError.unconditional : TypeError Ty → Bool
  | .mismatch _ _ | .nonRecordMember _ _ | .nonTupleIndex _ | .nonExhaustive _ _ | .redeclared _ =>
    false
  | _ => true

namespace Config

/-- Whether a configuration wants to hear of a cause. -/
def asksFor (cfg : Config) : TypeError Ty → Bool
  | .nonExhaustive _ _ => cfg.exhaustiveness
  | .redeclared _ => cfg.strictRedeclaration
  | error => !(cfg.dynamicImports && error.aboutImport)

theorem asksFor_of_unconditional (cfg : Config) {error : TypeError Ty}
    (h : error.unconditional = true) : cfg.asksFor error = true := by
  cases error <;> simp_all [asksFor, TypeError.aboutImport, TypeError.unconditional]

theorem asksFor_mismatch_iff (cfg : Config) (left right : Ty) :
    cfg.asksFor (.mismatch left right) = true ↔
      ¬ (cfg.dynamicImports = true ∧ (left.isExternal = true ∨ right.isExternal = true)) := by
  simp only [asksFor, TypeError.aboutImport]
  grind

/-- Of what is asked for without dynamic imports, they leave out what is about an import. -/
theorem asksFor_dynamicImports {cfg : Config} {error : TypeError Ty}
    (h : ({ cfg with dynamicImports := false } : Config).asksFor error = true) :
    ({ cfg with dynamicImports := true } : Config).asksFor error = !error.aboutImport := by
  cases error <;> simp_all [asksFor, TypeError.aboutImport]

theorem asksFor_of_code_exhaustive (cfg : Config) {error : TypeError Ty}
    (hcode : error.code = "E3019") : cfg.asksFor error = cfg.exhaustiveness := by
  cases error <;> simp_all [asksFor, TypeError.code]

theorem asksFor_of_code_redeclared (cfg : Config) {error : TypeError Ty}
    (hcode : error.code = "E3020") : cfg.asksFor error = cfg.strictRedeclaration := by
  cases error <;> simp_all [asksFor, TypeError.code]

/-- Configurations that treat imports alike differ in the two optional checks only. -/
theorem asksFor_eq_of_code {cfg cfg' : Config} (h : cfg'.dynamicImports = cfg.dynamicImports)
    {error : TypeError Ty} (hcode : error.code ∉ ["E3019", "E3020"]) :
    cfg'.asksFor error = cfg.asksFor error := by
  cases error <;> simp_all [asksFor, TypeError.code]

/-- `cfg'` asks for all that `cfg` asks for, and both have the same elements of the host. -/
structure Laxer (cfg cfg' : Config) : Prop where
  intrinsicElements : cfg'.intrinsicElements = cfg.intrinsicElements
  exhaustiveness : cfg.exhaustiveness = true → cfg'.exhaustiveness = true
  strictRedeclaration : cfg.strictRedeclaration = true → cfg'.strictRedeclaration = true
  dynamicImports : cfg'.dynamicImports = true → cfg.dynamicImports = true

theorem Laxer.refl (cfg : Config) : cfg.Laxer cfg := ⟨rfl, id, id, id⟩

end Config

namespace Store

/-- One unification has failed in `errors` and left `s`, another in `errors'` and left `s'`: they
differ in the failures that `cfg` does not ask for, and in ways that have been shortened. -/
structure Hushed (cfg : Config) (errors : List (TypeError Ty)) (s : Store)
    (errors' : List (TypeError Ty)) (s' : Store) : Prop where
  errors_eq : errors = errors'.filter cfg.asksFor
  sameEnds : SameEnds s s'

namespace Hushed
variable {cfg : Config} {s s' s₁ s₁' : Store} {errors errors' more more' : List (TypeError Ty)}

theorem append (h : Hushed cfg errors s errors' s') (h' : Hushed cfg more s₁ more' s₁') :
    Hushed cfg (errors ++ more) s₁ (errors' ++ more') s₁' :=
  ⟨by rw [List.filter_append, h.errors_eq, h'.errors_eq], h'.sameEnds⟩

/-- Failures that every configuration asks for, before others. -/
theorem after (h : Hushed cfg errors s errors' s') (hmore : ∀ e ∈ more, cfg.asksFor e = true) :
    Hushed cfg (more ++ errors) s (more ++ errors') s' :=
  ⟨by rw [List.filter_append, List.filter_eq_self.2 hmore, h.errors_eq], h.sameEnds⟩

end Hushed

theorem SameEnds.silent {cfg : Config} {s s' : Store} (h : SameEnds s s') :
    Hushed cfg [] s [] s' := ⟨rfl, h⟩

/-- The same failure on both sides, one that matters under every configuration. -/
theorem SameEnds.voiced {cfg : Config} {s s' : Store} (h : SameEnds s s') {error : TypeError Ty}
    (he : error.unconditional = true) : Hushed cfg [error] s [error] s' :=
  ⟨by simp [cfg.asksFor_of_unconditional he], h⟩

/-- A type at the end of its way is written out as an import exactly when it is one. -/
theorem Ends.isExternal_full {s : Store} {t : Ty} (h : s.Ends t) :
    (s.full t).isExternal = t.isExternal := by
  cases t with
  | var v => simp [full, form_of_unbound (h v rfl)]
  | _ =>
    refine Ty.isExternal_subst ?_ _
    simp

theorem asksFor_recordFields (cfg : Config) (fields : Fields Ty) :
    ∀ e ∈ fields.map (fun field => TypeError.recordField field.1), cfg.asksFor e = true := by
  intro e he
  obtain ⟨field, -, rfl⟩ := List.mem_map.1 he
  exact cfg.asksFor_of_unconditional rfl

section Pairs
variable {cfg cfg' : Config} {s s' s₁ s₁' : Store} {errors errors' : List (TypeError Ty)}

theorem Assigns.hushed {v : TyVar} {t : Ty} (h : Assigns s v t errors s₁)
    (h' : Assigns s' v t errors' s₁') (hs : s.Acyclic) (hs' : s'.Acyclic) (hsame : SameEnds s s')
    (hv : s.lookup v = none) : Hushed cfg errors s₁ errors' s₁' := by
  have hans := hsame.occurs_fst hs hs' v t
  have hoccurs := hsame.occurs hs hs' v t
  have hc := (hs.answers_occurs v t).2
  have hc' := (hs'.answers_occurs v t).2
  cases h with
  | bind ho =>
    cases h' with
    | bind ho' =>
      refine (hoccurs.bind (hc.acyclic hs) (hc'.acyclic hs') ((hc.unbound_iff v).2 hv) ?_).silent
      rw [hc.full_eq hs]
      simpa [(hs.answers_occurs v t).1] using ho
    | refuse ho' => simp [hans, ho] at ho'
  | refuse ho =>
    cases h' with
    | bind ho' => simp [hans, ho] at ho'
    | refuse ho' =>
      have hap := hoccurs.apply_fst (hc.acyclic hs) (hc'.acyclic hs') t
      rw [hap]
      exact (hoccurs.apply (hc.acyclic hs) (hc'.acyclic hs') t).voiced rfl

/-- The two types have nothing in common. The lenient side says nothing where an import is one of
them, and the other side then complains of that import. -/
theorem Meets.hushed_apart {l r : Ty} (hcfg : cfg.Laxer cfg')
    (h : Meets cfg.dynamicImports s l r errors s₁)
    (h' : Meets cfg'.dynamicImports s' l r errors' s₁')
    (hs : s.Acyclic) (hs' : s'.Acyclic) (hsame : SameEnds s s') (hl : ∀ w, l ≠ .var w)
    (hr : ∀ w, r ≠ .var w) (hne : l ≠ r) (halike : ¬ l.Alike r) :
    Hushed cfg errors s₁ errors' s₁' := by
  have hcl := (hs.answers_apply l).2
  have hcl' := (hs'.answers_apply l).2
  have hsl := hcl.acyclic hs
  have hsl' := hcl'.acyclic hs'
  have hcr' := (hsl'.answers_apply r).2
  have hsame' := hsame.apply hs hs' l
  -- whether `cfg` asks for the failure that the second side reports
  have hleft : (apply l s').1.isExternal = l.isExternal := by
    rw [(hs'.answers_apply l).1, full, Ty.isExternal_subst hl]
  have hright : (apply r (apply l s').2).1.isExternal = r.isExternal := by
    rw [(hsl'.answers_apply r).1, full, Ty.isExternal_subst hr]
  have hask := cfg.asksFor_mismatch_iff (apply l s').1 (apply r (apply l s').2).1
  rw [hleft, hright] at hask
  rcases h.inv_apart hl hr hne halike with ⟨hlen, rfl, rfl⟩ | ⟨hstrict, rfl, rfl⟩
  · rcases h'.inv_apart hl hr hne halike with ⟨-, rfl, rfl⟩ | ⟨-, rfl, rfl⟩
    · exact hsame.silent
    · refine ⟨?_, hsame.trans (hcl'.sameEnds.trans hcr'.sameEnds)⟩
      rw [List.filter_cons_of_neg fun hkeep => hask.1 hkeep hlen, List.filter_nil]
  · rcases h'.inv_apart hl hr hne halike with ⟨hlen', -, -⟩ | ⟨-, rfl, rfl⟩
    · exact absurd ⟨hcfg.dynamicImports hlen'.1, hlen'.2⟩ hstrict
    · refine ⟨?_, hsame'.apply hsl hsl' r⟩
      rw [List.filter_cons_of_pos (hask.2 hstrict), List.filter_nil, hsame.apply_fst hs hs' l,
        hsame'.apply_fst hsl hsl' r]

end Pairs

mutual
theorem Unifies.hushed {cfg cfg' : Config} (hcfg : cfg.Laxer cfg') :
    ∀ {s s' s₁ s₁' : Store} {l r : Ty} {errors errors' : List (TypeError Ty)},
    Unifies cfg.dynamicImports s l r errors s₁ → Unifies cfg'.dynamicImports s' l r errors' s₁' →
    s.Acyclic → s'.Acyclic → SameEnds s s' → Hushed cfg errors s₁ errors' s₁'
  | s, s', _, _, l, r, _, _, .intro h, .intro h', hs, hs', hsame => by
    have hcl := (hs.resolve l).compresses
    have hcl' := (hs'.resolve l).compresses
    have hsl := hcl.acyclic hs
    have hsl' := hcl'.acyclic hs'
    have hsame₁ := hsame.resolve hs hs' l
    have hcr := (hsl.resolve r).compresses
    rw [hsame₁.ends r, hsame.ends l] at h'
    exact Meets.hushed hcfg h h' (hcr.acyclic hsl) ((hsl'.resolve r).compresses.acyclic hsl')
      (hsame₁.resolve hsl hsl' r) (hcr.ends_iff.2 (hcl.ends_iff.2 (hs.resolve l).unbound))
      (hcr.ends_iff.2 (hsl.resolve r).unbound)

theorem Meets.hushed {cfg cfg' : Config} (hcfg : cfg.Laxer cfg') :
    ∀ {s s' s₁ s₁' : Store} {l r : Ty} {errors errors' : List (TypeError Ty)},
    Meets cfg.dynamicImports s l r errors s₁ → Meets cfg'.dynamicImports s' l r errors' s₁' →
    s.Acyclic → s'.Acyclic → SameEnds s s' → s.Ends l → s.Ends r →
    Hushed cfg errors s₁ errors' s₁'
  | _, _, _, _, _, _, _, _, .sameVar, h', _, _, hsame, _, _ => by
    obtain ⟨rfl, rfl⟩ := h'.inv_sameVar
    exact hsame.silent
  | _, _, _, _, _, _, _, _, .assignLeft hne h, h', hs, hs', hsame, hl, _ =>
    h.hushed (h'.inv_assignLeft hne) hs hs' hsame (hl _ rfl)
  | _, _, _, _, _, _, _, _, .assignRight hvar h, h', hs, hs', hsame, _, hr =>
    h.hushed (h'.inv_assignRight hvar) hs hs' hsame (hr _ rfl)
  | _, _, _, _, _, _, _, _, .sameLeaf ht, h', _, _, hsame, _, _ => by
    obtain ⟨rfl, rfl⟩ := h'.inv_sameLeaf ht
    exact hsame.silent
  | _, _, _, _, l, r, _, _, .agree hl hr hne hlen he, h', hs, hs', hsame, _, _ => by
    have halike : ¬ l.Alike r := by
      cases l <;> cases r <;> simp_all [Ty.Alike, Ty.isExternal]
    exact Meets.hushed_apart hcfg (.agree hl hr hne hlen he) h' hs hs' hsame hl hr hne halike
  | _, _, _, _, _, _, _, _, .fn hlen hparams hresult, h', hs, hs', hsame, _, _ => by
    obtain ⟨_, _, _, hparams', hresult', rfl⟩ := h'.inv_fn hlen
    have hps := AllUnify.hushed hcfg hparams hparams' hs hs' hsame
    exact hps.append (Unifies.hushed hcfg hresult hresult' (hparams.outcome hs).acyclic
      (hparams'.outcome hs').acyclic hps.sameEnds)
  | _, _, _, _, _, _, _, _, .arity hlen, h', _, _, hsame, _, _ => by
    obtain ⟨rfl, rfl⟩ := h'.inv_arity hlen
    exact hsame.voiced rfl
  | _, _, _, _, _, _, _, _, .tuple hlen helements, h', hs, hs', hsame, _, _ =>
    AllUnify.hushed hcfg helements (h'.inv_tuple hlen) hs hs' hsame
  | _, _, _, _, _, _, _, _, .length hlen, h', _, _, hsame, _, _ => by
    obtain ⟨rfl, rfl⟩ := h'.inv_length hlen
    exact hsame.voiced rfl
  | _, _, _, _, _, _, _, _, .record hfields, h', hs, hs', hsame, _, _ =>
    FieldsUnify.hushed hcfg hfields h'.inv_record hs hs' hsame
  | _, _, _, _, _, _, _, _, .mismatch hl hr hne halike hstrict, h', hs, hs', hsame, _, _ =>
    Meets.hushed_apart hcfg (.mismatch hl hr hne halike hstrict) h' hs hs' hsame hl hr hne halike

theorem AllUnify.hushed {cfg cfg' : Config} (hcfg : cfg.Laxer cfg') :
    ∀ {s s' s₁ s₁' : Store} {ts us : List Ty} {errors errors' : List (TypeError Ty)},
    AllUnify cfg.dynamicImports s ts us errors s₁ →
    AllUnify cfg'.dynamicImports s' ts us errors' s₁' →
    s.Acyclic → s'.Acyclic → SameEnds s s' → Hushed cfg errors s₁ errors' s₁'
  | _, _, _, _, _, _, _, _, .nil, .nil, _, _, hsame => hsame.silent
  | _, _, _, _, _, _, _, _, .cons hhead htail, .cons hhead' htail', hs, hs', hsame => by
    have hh := Unifies.hushed hcfg hhead hhead' hs hs' hsame
    exact hh.append (AllUnify.hushed hcfg htail htail' (hhead.outcome hs).acyclic
      (hhead'.outcome hs').acyclic hh.sameEnds)

theorem FieldsUnify.hushed {cfg cfg' : Config} (hcfg : cfg.Laxer cfg') :
    ∀ {s s' s₁ s₁' : Store} {fields others : Fields Ty} {errors errors' : List (TypeError Ty)},
    FieldsUnify cfg.dynamicImports s fields others errors s₁ →
    FieldsUnify cfg'.dynamicImports s' fields others errors' s₁' →
    s.Acyclic → s'.Acyclic → SameEnds s s' → Hushed cfg errors s₁ errors' s₁'
  | _, _, _, _, _, others, _, _, .nil, h', _, _, hsame => by
    obtain ⟨rfl, rfl⟩ := h'.inv_nil
    simpa using hsame.silent.after (asksFor_recordFields cfg others)
  | _, _, _, _, _, _, _, _, .shared hrest hfield hfields, h', hs, hs', hsame => by
    obtain ⟨_, _, _, hfield', hfields', rfl⟩ := h'.inv_shared hrest
    have hf := Unifies.hushed hcfg hfield hfield' hs hs' hsame
    refine (hf.append ?_).after (asksFor_recordFields cfg _)
    exact FieldsUnify.hushed hcfg hfields hfields' (hfield.outcome hs).acyclic
      (hfield'.outcome hs').acyclic hf.sameEnds
  | _, _, _, _, (name, t) :: _, _, _, _, .missing hrest habsent hfields, h', hs, hs', hsame => by
    obtain ⟨_, hfields', rfl⟩ := h'.inv_missing hrest habsent
    have hf := FieldsUnify.hushed hcfg hfields hfields' hs hs' hsame
    have hname := asksFor_recordFields cfg [(name, t)]
    exact (hf.after hname).after (asksFor_recordFields cfg _)
end

end Store

end Monotype
