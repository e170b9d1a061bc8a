import Monotype.Proofs.Check.Trace
import Monotype.Proofs.Unify.Leniency
import Monotype.Proofs.Unify.MostGeneral

/-! Two runs side by side, of which one may keep quiet where the other complains. What they know of
the program stays the same, so whatever is done in both of them has the same answers. -/
namespace Monotype

namespace Scopes
variable {s s' : Scopes}

/-! What can be seen of scopes depends on the tables in use only. -/

theorem innermost_eq_of_live (h : s'.live = s.live) : s'.innermost = s.innermost := by
  rw [live_eq, live_eq] at h
  exact (List.cons.inj h).1

theorem lookup_eq_of_live (h : s'.live = s.live) (name : String) :
    s'.lookup name = s.lookup name := by
  rw [lookup, lookup, h]

theorem declaresHere_eq_of_live (h : s'.live = s.live) (name : String) :
    s'.declaresHere name = s.declaresHere name := by
  rw [declaresHere, declaresHere, innermost_eq_of_live h]

theorem depth_eq_of_live (h : s'.live = s.live) : s'.depth = s.depth := by
  rw [← length_live, ← length_live, h]

end Scopes

/-- Two runs that know the same of the program. The first has only those reports of the second that
`cfg` asks for; ways through the stores may have been shortened differently. -/
structure Run.Hushed (cfg : Config) (run run' : Run) : Prop where
  acyclic : run.store.Acyclic
  acyclic' : run'.store.Acyclic
  sameEnds : run.store.SameEnds run'.store
  live : run'.scopes.live = run.scopes.live
  registry : run'.registry = run.registry
  symbols : run'.symbols = run.symbols
  nodeTypes : run'.nodeTypes = run.nodeTypes
  reports : run.reports.toList = run'.reports.toList.filter (cfg.asksFor ·.error)

namespace Run.Hushed
variable {cfg : Config} {run run' : Run}

/-- However far two runs had come, clean states are alike. -/
theorem reset (cfg : Config) (run run' : Run) : run.reset.Hushed cfg run'.reset where
  acyclic := Store.acyclic_empty
  acyclic' := Store.acyclic_empty
  sameEnds := .refl {}
  live := (Scopes.live_reset _).trans (Scopes.live_reset _).symm
  registry := rfl
  symbols := rfl
  nodeTypes := rfl
  reports := rfl

theorem withStore (h : run.Hushed cfg run') {s s' : Store} (hs : s.Acyclic) (hs' : s'.Acyclic)
    (hsame : s.SameEnds s') :
    ({ run with store := s } : Run).Hushed cfg { run' with store := s' } :=
  ⟨hs, hs', hsame, h.live, h.registry, h.symbols, h.nodeTypes, h.reports⟩

theorem resolve (h : run.Hushed cfg run') (t : Ty) :
    ({ run with store := (Store.resolve t run.store).2 } : Run).Hushed cfg
      { run' with store := (Store.resolve t run'.store).2 } := by
  have hc := (h.acyclic.resolve t).compresses
  have hc' := (h.acyclic'.resolve t).compresses
  exact h.withStore (hc.acyclic h.acyclic) (hc'.acyclic h.acyclic')
    (h.sameEnds.compresses hc hc')

theorem apply (h : run.Hushed cfg run') (t : Ty) :
    ({ run with store := (Store.apply t run.store).2 } : Run).Hushed cfg
      { run' with store := (Store.apply t run'.store).2 } := by
  have hc := (h.acyclic.answers_apply t).2
  have hc' := (h.acyclic'.answers_apply t).2
  exact h.withStore (hc.acyclic h.acyclic) (hc'.acyclic h.acyclic')
    (h.sameEnds.compresses hc hc')

theorem withReports (h : run.Hushed cfg run') {reports reports' : Sink (Report Ty)}
    (hr : reports.toList = reports'.toList.filter (cfg.asksFor ·.error)) :
    ({ run with reports } : Run).Hushed cfg { run' with reports := reports' } :=
  ⟨h.acyclic, h.acyclic', h.sameEnds, h.live, h.registry, h.symbols, h.nodeTypes, hr⟩

theorem withScopes (h : run.Hushed cfg run') {scopes scopes' : Scopes}
    (hlive : scopes'.live = scopes.live) :
    ({ run with scopes } : Run).Hushed cfg { run' with scopes := scopes' } :=
  ⟨h.acyclic, h.acyclic', h.sameEnds, hlive, h.registry, h.symbols, h.nodeTypes, h.reports⟩

theorem enter (h : run.Hushed cfg run') :
    ({ run with scopes := run.scopes.push.2 } : Run).Hushed cfg
      { run' with scopes := run'.scopes.push.2 } :=
  h.withScopes (by rw [Scopes.live_push, Scopes.live_push, h.live])

theorem leave (h : run.Hushed cfg run') :
    ({ run with scopes := run.scopes.pop } : Run).Hushed cfg
      { run' with scopes := run'.scopes.pop } :=
  h.withScopes (by rw [Scopes.live_pop, Scopes.live_pop, h.live, Scopes.depth_eq_of_live h.live])

theorem bindName (h : run.Hushed cfg run') (name : String) (b : Binding) :
    ({ run with scopes := (run.scopes.insert name b).2 } : Run).Hushed cfg
      { run' with scopes := (run'.scopes.insert name b).2 } :=
  h.withScopes (by
    rw [Scopes.live_insert, Scopes.live_insert, h.live, Scopes.innermost_eq_of_live h.live])

/-- One more report in both, which `cfg` asks for. -/
theorem report (h : run.Hushed cfg run') {r : Report Ty} (hr : cfg.asksFor r.error = true) :
    ({ run with reports := run.reports.push r } : Run).Hushed cfg
      { run' with reports := run'.reports.push r } :=
  h.withReports (by simp [h.reports, hr])

/-- One more report in the second run, which `cfg` does not ask for. -/
theorem unasked (h : run.Hushed cfg run') {r : Report Ty} (hr : cfg.asksFor r.error = false) :
    run.Hushed cfg { run' with reports := run'.reports.push r } :=
  h.withReports (by simp [h.reports, hr])

end Run.Hushed

/-- Both have ended well, with results that `R` relates, or at the same malformed tree. -/
inductive EndAlike {α β : Type} (R : α → β → Prop) :
    Except Malformed α → Except Malformed β → Prop where
  | ok {a : α} {b : β} (h : R a b) : EndAlike R (.ok a) (.ok b)
  | error (e : Malformed) : EndAlike R (.error e) (.error e)

namespace Check
variable {α β γ δ : Type} {cfg cfg' : Config} {run run' : Run}

/-- From `run` under `cfg`, `x` does what `y` does from `run'` under `cfg'`, less the reports that
`cfg` does not ask for; the answers are related by `R`. -/
def HushedFrom (cfg cfg' : Config) (R : α → β → Prop) (x : Check α) (y : Check β)
    (run run' : Run) : Prop :=
  EndAlike R (x.run cfg run).1 (y.run cfg' run').1 ∧
    (x.run cfg run).2.Hushed cfg (y.run cfg' run').2

/-- The same from all runs that know the same. -/
def Hushed (cfg cfg' : Config) (R : α → β → Prop) (x : Check α) (y : Check β) : Prop :=
  ∀ run run' : Run, run.Hushed cfg run' → HushedFrom cfg cfg' R x y run run'

/-- The same work, with the same answer, under both configurations. -/
abbrev Steady (cfg cfg' : Config) (x : Check α) : Prop := Hushed cfg cfg' Eq x x

/-- Work that the second run can do alone: it only adds reports that `cfg` does not ask for. -/
abbrev Unnoticed (cfg cfg' : Config) (Q : β → Prop) (y : Check β) : Prop :=
  Hushed cfg cfg' (fun _ b => Q b) (pure () : Check Unit) y

section Rules
variable {R : α → β → Prop} {Q : γ → δ → Prop} {x : Check γ} {y : Check δ} {f : γ → Check α}
  {g : δ → Check β}

theorem HushedFrom.bind (hx : HushedFrom cfg cfg' Q x y run run')
    (hf : ∀ a b, Q a b → Hushed cfg cfg' R (f a) (g b)) :
    HushedFrom cfg cfg' R (x >>= f) (y >>= g) run run' := by
  obtain ⟨hend, hrun₁⟩ := hx
  rw [HushedFrom, run_bind, run_bind]
  revert hend hrun₁
  rcases x.run cfg run with ⟨r, s⟩
  rcases y.run cfg' run' with ⟨r', s'⟩
  intro hend hrun₁
  cases hend with
  | ok hab => exact hf _ _ hab s s' hrun₁
  | error e => exact ⟨.error e, hrun₁⟩

theorem HushedFrom.config {f : Config → Check α} {g : Config → Check β}
    (hf : HushedFrom cfg cfg' R (f cfg) (g cfg') run run') :
    HushedFrom cfg cfg' R (Check.config >>= f) (Check.config >>= g) run run' :=
  hf

namespace Hushed

theorem pure {a : α} {b : β} (h : R a b) : Hushed cfg cfg' R (pure a) (pure b) :=
  fun _ _ hrun => ⟨.ok h, hrun⟩

theorem throw (e : Malformed) : Hushed cfg cfg' R (throw e) (throw e) :=
  fun _ _ hrun => ⟨.error e, hrun⟩

theorem bind (hx : Hushed cfg cfg' Q x y)
    (hf : ∀ a b, Q a b → Hushed cfg cfg' R (f a) (g b)) :
    Hushed cfg cfg' R (x >>= f) (y >>= g) :=
  fun run run' hrun => (hx run run' hrun).bind hf

/-- Going on with the same answer on both sides. -/
theorem seq {y : Check γ} {g : γ → Check β} (hx : Hushed cfg cfg' Eq x y)
    (hf : ∀ a, Hushed cfg cfg' R (f a) (g a)) : Hushed cfg cfg' R (x >>= f) (y >>= g) := by
  refine hx.bind ?_
  rintro a _ rfl
  exact hf a

/-- The second run does something on its own before it goes on. -/
theorem skip {x : Check α} {P : δ → Prop} (hy : Unnoticed cfg cfg' P y)
    (hg : ∀ b, P b → Hushed cfg cfg' R x (g b)) : Hushed cfg cfg' R x (y >>= g) :=
  .bind (f := fun _ => x) hy fun _ b hb => hg b hb

theorem state {f : Run → Check α} {g : Run → Check β}
    (hf : ∀ run run' : Run, run.Hushed cfg run' → Hushed cfg cfg' R (f run) (g run')) :
    Hushed cfg cfg' R (Check.state >>= f) (Check.state >>= g) :=
  fun run run' hrun => hf run run' hrun run run' hrun

/-- Only the second run looks at its state. -/
theorem stateAlone {P : β → Prop} {g : Run → Check β}
    (hg : ∀ run' : Run, Unnoticed cfg cfg' P (g run')) :
    Unnoticed cfg cfg' P (Check.state >>= g) :=
  fun run run' hrun => hg run' run run' hrun

theorem config {f : Config → Check α} {g : Config → Check β}
    (hf : Hushed cfg cfg' R (f cfg) (g cfg')) :
    Hushed cfg cfg' R (Check.config >>= f) (Check.config >>= g) :=
  fun run run' hrun => .config (hf run run' hrun)

theorem inScope {x : Check α} {y : Check β} (h : Hushed cfg cfg' R x y) :
    Hushed cfg cfg' R (inScope x) (inScope y) := by
  have henter : Steady cfg cfg' (act .enter) := fun _ _ hrun => ⟨.ok rfl, hrun.enter⟩
  have hleave : Steady cfg cfg' (act .leave) := fun _ _ hrun => ⟨.ok rfl, hrun.leave⟩
  exact henter.seq fun _ => h.bind fun _ _ hab => hleave.seq fun _ => .pure hab

/-- A complaint that only some configurations ask for: `y` makes it and goes on with `x`. -/
theorem optional {b b' : Bool} {x y : Check α} (hb : b = true → b' = true)
    (hy : b = true → Steady cfg cfg' y) (hskip : b = false → Hushed cfg cfg' Eq x y)
    (hx : Steady cfg cfg' x) :
    Hushed cfg cfg' Eq (if b then y else x) (if b' then y else x) := by
  cases b with
  | true =>
    rw [if_pos rfl, if_pos (hb rfl)]
    exact hy rfl
  | false =>
    rw [if_neg Bool.false_ne_true]
    split
    · exact hskip rfl
    · exact hx

end Hushed

end Rules

/-! ## Elementary steps -/

theorem fresh_steady : Steady cfg cfg' fresh := by
  intro run run' h
  refine ⟨.ok h.sameEnds.fresh_fst.symm, ?_⟩
  exact h.withStore h.acyclic.fresh h.acyclic'.fresh (h.sameEnds.fresh h.acyclic h.acyclic')

/-- Going on with a type at the end of its way. -/
theorem Hushed.resolve {R : α → β → Prop} {t : Ty} {f : Ty → Check α} {g : Ty → Check β}
    (hf : ∀ (u : Ty) (run run' : Run), run.Hushed cfg run' → run.store.Ends u →
      HushedFrom cfg cfg' R (f u) (g u) run run') :
    Hushed cfg cfg' R (Check.resolve t >>= f) (Check.resolve t >>= g) := by
  intro run run' h
  have hends : (Store.resolve t run.store).2.Ends (Store.resolve t run.store).1 := by
    have hr := h.acyclic.resolve t
    exact hr.compresses.ends_iff.2 hr.unbound
  change HushedFrom cfg cfg' R (f (Store.resolve t run.store).1) (g (Store.resolve t run'.store).1)
    { run with store := (Store.resolve t run.store).2 }
    { run' with store := (Store.resolve t run'.store).2 }
  rw [h.sameEnds.ends t]
  exact hf _ _ _ (h.resolve t) hends

theorem resolve_steady (t : Ty) : Steady cfg cfg' (resolve t) :=
  fun _ _ h => ⟨.ok (h.sameEnds.ends t).symm, h.resolve t⟩

theorem apply_steady (t : Ty) : Steady cfg cfg' (apply t) :=
  fun _ _ h => ⟨.ok (h.sameEnds.apply_fst h.acyclic h.acyclic' t).symm, h.apply t⟩

theorem apply_unnoticed (t : Ty) :
    Unnoticed cfg cfg' (fun u => t.isExternal = true → u.isExternal = true) (apply t) := by
  intro run run' h
  have hans := h.acyclic'.answers_apply t
  refine ⟨.ok fun hext => ?_, h.withStore h.acyclic (hans.2.acyclic h.acyclic')
    (h.sameEnds.trans hans.2.sameEnds)⟩
  change (Store.apply t run'.store).1.isExternal = true
  rw [hans.1, ← hext]
  refine Ty.isExternal_subst ?_ _
  rintro v rfl
  simp [Ty.isExternal] at hext

theorem reportWith_steady (labels : List Label) (site : Site) {error : TypeError Ty}
    (hask : cfg.asksFor error = true) : Steady cfg cfg' (reportWith labels site error) :=
  fun _ _ h => ⟨.ok rfl, h.report hask⟩

theorem report_steady (site : Site) {error : TypeError Ty} (hask : cfg.asksFor error = true) :
    Steady cfg cfg' (report site error) :=
  reportWith_steady [] site hask

theorem recover_steady (site : Site) {error : TypeError Ty} (hask : cfg.asksFor error = true) :
    Steady cfg cfg' (recover site error) :=
  (report_steady site hask).seq fun _ => fresh_steady

theorem reportWith_unnoticed (labels : List Label) (site : Site) {error : TypeError Ty}
    (hask : cfg.asksFor error = false) :
    Unnoticed cfg cfg' (fun _ => True) (reportWith labels site error) :=
  fun _ _ h => ⟨.ok trivial, h.unasked hask⟩

theorem report_unnoticed (site : Site) {error : TypeError Ty} (hask : cfg.asksFor error = false) :
    Unnoticed cfg cfg' (fun _ => True) (report site error) :=
  reportWith_unnoticed [] site hask

theorem recordType_steady (node : NodeId) (t : Ty) : Steady cfg cfg' (recordType node t) :=
  fun _ _ h => ⟨.ok rfl, { h with nodeTypes := congrArg (·.insert node t) h.nodeTypes }⟩

theorem addSymbol_steady (name : Ident) (t : Ty) (kind : SymbolKind) :
    Steady cfg cfg' (addSymbol name t kind) :=
  let sym : Symbol := { name := name.name, ty := t, site := name.site, kind }
  fun _ _ h => ⟨.ok rfl, { h with symbols := congrArg (·.push sym) h.symbols }⟩

theorem bindLocal_steady (name : Ident) (t : Ty) : Steady cfg cfg' (bindLocal name t) :=
  fun _ _ h => ⟨.ok rfl, h.bindName name.name _⟩

theorem declare_steady (name : Ident) (t : Ty) (kind : SymbolKind) :
    Steady cfg cfg' (declare name t kind) :=
  (bindLocal_steady name t).seq fun _ => addSymbol_steady name t kind

theorem declareType_act_steady (name : String) (d : TypeDef) (origin : NodeId) :
    Steady cfg cfg' (act (.declareType name d origin)) :=
  fun _ _ h => ⟨.ok rfl, { h with registry := congrArg (·.declare name d origin) h.registry }⟩

theorem register_steady (c : Constructor) : Steady cfg cfg' (act (.register c)) := by
  intro run run' h
  refine ⟨.ok (congrArg (fun r : Registry => (r.register c).1) h.registry.symm), ?_⟩
  exact { h with registry := congrArg (fun r : Registry => (r.register c).2) h.registry }

theorem lookupValue_steady (name : String) : Steady cfg cfg' (lookupValue name) := by
  refine .state fun run run' h => ?_
  rw [Scopes.lookup_eq_of_live h.live, h.registry]
  cases run.scopes.lookup name with
  | some binding => exact .pure rfl
  | none => exact .pure rfl

theorem declaredHere_steady (name : String) : Steady cfg cfg' (declaredHere name) :=
  .state fun _ _ h => .pure (Scopes.declaresHere_eq_of_live h.live name).symm

theorem earlierBinding_steady (name : String) : Steady cfg cfg' (earlierBinding name) := by
  refine .state fun run run' h => ?_
  rw [Scopes.lookup_eq_of_live h.live]
  cases run.scopes.lookup name with
  | some binding => exact .pure rfl
  | none => exact .pure rfl

theorem earlierBinding_unnoticed (name : String) :
    Unnoticed cfg cfg' (fun _ => True) (earlierBinding name) := by
  refine .stateAlone fun run' => ?_
  cases run'.scopes.lookup name with
  | some binding => exact .pure trivial
  | none => exact .pure trivial

/-- A unification under the laxer configuration makes the same bindings. -/
theorem unify_steady (hcfg : cfg.Laxer cfg') (l r : Ty) (site : Site) :
    Steady cfg cfg' (unify l r site) := by
  intro run run' h
  have hu := h.acyclic.unifies cfg.dynamicImports l r
  have hu' := h.acyclic'.unifies cfg'.dynamicImports l r
  have hushed := hu.hushed hcfg hu' h.acyclic h.acyclic' h.sameEnds
  rw [HushedFrom, run_unify, run_unify]
  refine ⟨.ok rfl, (h.withStore (hu.outcome h.acyclic).acyclic (hu'.outcome h.acyclic').acyclic
    hushed.sameEnds).withReports ?_⟩
  -- the failures of the first run, as reports, are those of the second that `cfg` asks for
  have hnew : (run.store.unify cfg.dynamicImports l r).1.map (failureReport site) =
      ((run'.store.unify cfg'.dynamicImports l r).1.map (failureReport site)).filter
        (cfg.asksFor ·.error) := by
    rw [List.filter_map, hushed.errors_eq]
    rfl
  have hold := h.reports
  simp only [Sink.toList, Array.toList_append, List.filter_append] at hold ⊢
  rw [hold, hnew]

end Check

end Monotype
