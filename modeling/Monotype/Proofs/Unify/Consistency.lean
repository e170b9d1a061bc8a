import Monotype.Proofs.Unify.Sequence

/-! What a unification without failures achieves when imports are dynamic. Its two sides need not
become equal, since an import agrees with everything and binds nothing; they become consistent. This
relation is not transitive, so it is not carried from one part to the next as equality would be: each
part holds in every solution that is left, and later bindings only take solutions away. -/
namespace Monotype

mutual
/-- Two types that differ at most where one of them has an import. -/
inductive Ty.Consistent : Ty → Ty → Prop where
  | importLeft (path : String) (u : Ty) : Consistent (.external path) u
  | importRight (t : Ty) (path : String) : Consistent t (.external path)
  | prim (p : Prim) : Consistent (.prim p) (.prim p)
  | adt (name : String) : Consistent (.adt name) (.adt name)
  | var (v : TyVar) : Consistent (.var v) (.var v)
  | fn {ps qs : List Ty} {p q : Ty} (hparams : Ty.AllConsistent ps qs)
      (hresult : Ty.Consistent p q) : Consistent (.fn ps p) (.fn qs q)
  | tuple {ts us : List Ty} (helements : Ty.AllConsistent ts us) :
      Consistent (.tuple ts) (.tuple us)
  | record {fs gs : Fields Ty} (hfields : Ty.FieldsConsistent fs gs) :
      Consistent (.record fs) (.record gs)

/-- As many types on both sides, consistent place by place. -/
inductive Ty.AllConsistent : List Ty → List Ty → Prop where
  | nil : AllConsistent [] []
  | cons {t u : Ty} {ts us : List Ty} (hhead : Ty.Consistent t u)
      (htail : Ty.AllConsistent ts us) : AllConsistent (t :: ts) (u :: us)

/-- The same names on both sides, with consistent types. -/
inductive Ty.FieldsConsistent : Fields Ty → Fields Ty → Prop where
  | nil : FieldsConsistent [] []
  | cons {name : String} {t u : Ty} {fs gs : Fields Ty} (hfield : Ty.Consistent t u)
      (hfields : Ty.FieldsConsistent fs gs) :
      FieldsConsistent ((name, t) :: fs) ((name, u) :: gs)
end

namespace Ty

theorem AllConsistent.refl {ts : List Ty} (h : ∀ t ∈ ts, Consistent t t) : AllConsistent ts ts := by
  induction ts with
  | nil => exact .nil
  | cons t ts ih =>
    rw [List.forall_mem_cons] at h
    exact .cons h.1 (ih h.2)

theorem FieldsConsistent.refl {fields : Fields Ty}
    (h : ∀ field ∈ fields, Consistent field.2 field.2) : FieldsConsistent fields fields := by
  induction fields with
  | nil => exact .nil
  | cons field fields ih =>
    rw [List.forall_mem_cons] at h
    exact .cons h.1 (ih h.2)

theorem Consistent.refl (t : Ty) : Consistent t t := by
  induction t using induct with
  | prim p => exact .prim p
  | external path => exact .importLeft path _
  | fn params result ihp ihr => exact .fn (.refl ihp) ihr
  | tuple elements ih => exact .tuple (.refl ih)
  | record fields ih => exact .record (.refl ih)
  | adt name => exact .adt name
  | var v => exact .var v

theorem Consistent.of_eq {t u : Ty} (h : t = u) : Consistent t u := h ▸ .refl t

/-- An import stays one, whatever variables are replaced by. -/
theorem consistent_of_isExternal {l r : Ty} (h : l.isExternal = true ∨ r.isExternal = true)
    (θ : TyVar → Ty) : Consistent (l.subst θ) (r.subst θ) := by
  rcases h with h | h
  · cases l with
    | external path => exact .importLeft path _
    | _ => exact Bool.noConfusion h
  · cases r with
    | external path => exact .importRight _ path
    | _ => exact Bool.noConfusion h

end Ty

namespace Store
open Ty (Consistent AllConsistent FieldsConsistent)

theorem Assigns.equal {s s' : Store} {v : TyVar} {t : Ty} {errors : List (TypeError Ty)}
    (h : Assigns s v t errors s') (hs : s.Acyclic) (hv : s.lookup v = none) (ht : s.Ends t)
    (hne : t ≠ .var v) (he : errors = []) {θ : TyVar → Ty} (hθ : s'.Solves θ) :
    θ v = t.subst θ := by
  have houtcome : Outcome false s (fun θ => θ v = t.subst θ) errors s' := h.outcome hs hv ht hne
  exact houtcome.equal rfl he θ hθ

mutual
/-- A unification without failures leaves only solutions in which its sides are consistent. -/
theorem Unifies.consistent {lenient : Bool} : ∀ {s s' : Store} {l r : Ty}
    {errors : List (TypeError Ty)}, Unifies lenient s l r errors s' → s.Acyclic → errors = [] →
    ∀ θ, s'.Solves θ → Consistent (l.subst θ) (r.subst θ)
  | s, _, l, r, _, .intro h, hs, he, θ, hθ => by
    have hl := hs.resolve l
    have hsl := hl.compresses.acyclic hs
    have hr := hsl.resolve r
    have hsr := hr.compresses.acyclic hsl
    have hends := hr.compresses.ends_iff.2 (hl.compresses.ends_iff.2 hl.unbound)
    have hends' := hr.compresses.ends_iff.2 hr.unbound
    have hθl := (hr.compresses.solves_iff θ).1 ((h.outcome hsr hends hends').shrinks θ hθ)
    rw [← hl.subst_eq θ ((hl.compresses.solves_iff θ).1 hθl), ← hr.subst_eq θ hθl]
    exact h.consistent hsr hends hends' he θ hθ
termination_by structural _ _ _ _ _ h => h

theorem Meets.consistent {lenient : Bool} : ∀ {s s' : Store} {l r : Ty}
    {errors : List (TypeError Ty)}, Meets lenient s l r errors s' → s.Acyclic → s.Ends l →
    s.Ends r → errors = [] → ∀ θ, s'.Solves θ → Consistent (l.subst θ) (r.subst θ)
  | _, _, _, _, _, .sameVar, _, _, _, _, _, _ => .refl _
  | _, _, _, _, _, .assignLeft hne h, hs, hl, hr, he, _, hθ =>
    .of_eq (h.equal hs (hl _ rfl) hr hne he hθ)
  | _, _, _, _, _, .assignRight hvar h, hs, hl, hr, he, _, hθ =>
    .of_eq (h.equal hs (hr _ rfl) hl (hvar _) he hθ).symm
  | _, _, _, _, _, .sameLeaf _, _, _, _, _, _, _ => .refl _
  | _, _, _, _, _, .agree _ _ _ _ hext, _, _, _, _, θ, _ => Ty.consistent_of_isExternal hext θ
  | _, _, _, _, _, .fn _ hparams hresult, hs, _, _, he, θ, hθ => by
    obtain ⟨he₁, he₂⟩ := List.append_eq_nil_iff.1 he
    have hs₁ := (hparams.outcome hs).acyclic
    rw [Ty.subst_fn, Ty.subst_fn]
    refine .fn (hparams.consistent hs he₁ θ ?_) (hresult.consistent hs₁ he₂ θ hθ)
    exact (hresult.outcome hs₁).shrinks θ hθ
  | _, _, _, _, _, .arity _, _, _, _, he, _, _ => nomatch he
  | _, _, _, _, _, .tuple _ helements, hs, _, _, he, θ, hθ => by
    rw [Ty.subst_tuple, Ty.subst_tuple]
    exact .tuple (helements.consistent hs he θ hθ)
  | _, _, _, _, _, .length _, _, _, _, he, _, _ => nomatch he
  | _, _, _, _, _, .record hfields, hs, _, _, he, θ, hθ => by
    rw [Ty.subst_record, Ty.subst_record]
    exact .record (hfields.consistent hs he θ hθ)
  | _, _, _, _, _, .mismatch _ _ _ _ _, _, _, _, he, _, _ => nomatch he
termination_by structural _ _ _ _ _ h => h

theorem AllUnify.consistent {lenient : Bool} : ∀ {s s' : Store} {ts us : List Ty}
    {errors : List (TypeError Ty)}, AllUnify lenient s ts us errors s' → s.Acyclic →
    errors = [] → ∀ θ, s'.Solves θ → AllConsistent (ts.map (Ty.subst θ)) (us.map (Ty.subst θ))
  | _, _, _, _, _, .nil, _, _, _, _ => .nil
  | _, _, _, _, _, .cons hhead htail, hs, he, θ, hθ => by
    obtain ⟨he₁, he₂⟩ := List.append_eq_nil_iff.1 he
    have hs₁ := (hhead.outcome hs).acyclic
    refine .cons (hhead.consistent hs he₁ θ ?_) (htail.consistent hs₁ he₂ θ hθ)
    exact (htail.outcome hs₁).shrinks θ hθ
termination_by structural _ _ _ _ _ h => h

theorem FieldsUnify.consistent {lenient : Bool} : ∀ {s s' : Store} {fields others : Fields Ty}
    {errors : List (TypeError Ty)}, FieldsUnify lenient s fields others errors s' → s.Acyclic →
    errors = [] → ∀ θ, s'.Solves θ →
    FieldsConsistent (fields.map fun field => (field.1, field.2.subst θ))
      (others.map fun field => (field.1, field.2.subst θ))
  | _, _, _, _, _, .nil, _, he, _, _ => by
    obtain rfl := List.map_eq_nil_iff.1 he
    exact .nil
  | _, _, _, others, _, @FieldsUnify.shared _ _ _ _ name _ _ _ _ _ _ _ hrest hfield hfields, hs, he,
      θ, hθ => by
    obtain ⟨hbefore, he⟩ := List.append_eq_nil_iff.1 he
    obtain ⟨he₁, he₂⟩ := List.append_eq_nil_iff.1 he
    -- no name of the other side alone comes before `name`
    have happ := List.takeWhile_append_dropWhile (p := (·.1 < name)) (l := others)
    rw [List.map_eq_nil_iff.1 hbefore, hrest, List.nil_append] at happ
    have hs₁ := (hfield.outcome hs).acyclic
    rw [← happ]
    refine .cons (hfield.consistent hs he₁ θ ?_) (hfields.consistent hs₁ he₂ θ hθ)
    exact (hfields.outcome hs₁).shrinks θ hθ
  | _, _, _, _, _, .missing _ _ _, _, he, _, _ =>
    nomatch (List.append_eq_nil_iff.1 he).2
termination_by structural _ _ _ _ _ h => h
end

theorem Acyclic.consistent_of_unify {s : Store} (hs : s.Acyclic) {lenient : Bool} {l r : Ty}
    (he : (unify lenient l r s).1 = []) {θ : TyVar → Ty} (hθ : (unify lenient l r s).2.Solves θ) :
    Consistent (l.subst θ) (r.subst θ) :=
  (hs.unifies lenient l r).consistent hs he θ hθ

end Store

namespace Check

/-- When requiring `l` and `r` to be equal reports nothing, the two are consistent once they are
written out in full, and they stay so whatever else is required to be equal later, whether that
succeeds or not. With dynamic imports they need not be equal. -/
theorem unify_consistent (cfg : Config) {run : Run} (hs : run.store.Acyclic) (l r : Ty)
    (site : Site) :
    ∃ store new, (unify l r site).run cfg run = (.ok (), run.solved store new) ∧
      (new = #[] → Ty.Consistent (store.apply l).1 (store.apply r).1 ∧
        ∀ demands, ∃ store' new',
          (unifyAll demands).run cfg (run.solved store new) =
            (.ok (), run.solved store' (new ++ new')) ∧
          Ty.Consistent (store'.apply l).1 (store'.apply r).1) := by
  have hs₁ := hs.unify_acyclic cfg.dynamicImports l r
  refine ⟨_, _, run_unify_solved cfg l r site run, fun hnew => ?_⟩
  have he : (run.store.unify cfg.dynamicImports l r).1 = [] := by simpa using hnew
  have hall : ∀ store : Store, store.Acyclic →
      (∀ θ, store.Solves θ → (run.store.unify cfg.dynamicImports l r).2.Solves θ) →
      Ty.Consistent (store.apply l).1 (store.apply r).1 := by
    intro store hstore hshrinks
    rw [(hstore.answers_apply l).1, (hstore.answers_apply r).1]
    exact hs.consistent_of_unify he (hshrinks _ hstore.solves_form)
  refine ⟨hall _ hs₁ fun _ h => h, fun demands => ?_⟩
  obtain ⟨store', new', hrun, hstore', hshrinks⟩ :=
    @run_unifyAll cfg demands (run.solved _ _) hs₁
  rw [Run.solved_solved] at hrun
  exact ⟨store', new', hrun, hall store' hstore' hshrinks⟩

/-- The first import becomes the type of a variable, the second one meets a function; later that
variable agrees with a number too, and what the function takes is found to be two things. -/
theorem unify_consistent_imports :
    ({} : Store).Acyclic ∧
    ∃ store new,
      (unify (.tuple [.var 0, .external "ui"]) (.tuple [.external "db", .fn [.var 1] .number])
        {}).run { dynamicImports := true } {} = (.ok (), Run.solved {} store new) ∧
      new = #[] ∧ Ty.Consistent (store.apply (.tuple [.var 0, .external "ui"])).1
        (store.apply (.tuple [.external "db", .fn [.var 1] .number])).1 ∧
      ∃ store' new',
        (unifyAll [⟨.var 0, .number, {}⟩, ⟨.var 1, .string, {}⟩, ⟨.number, .var 1, {}⟩]).run
          { dynamicImports := true } (Run.solved {} store new) =
            (.ok (), Run.solved {} store' (new ++ new')) ∧
        new'.map (·.error.code) = #["E3003"] ∧
        Ty.Consistent (store'.apply (.tuple [.var 0, .external "ui"])).1
          (store'.apply (.tuple [.external "db", .fn [.var 1] .number])).1 := by
  obtain ⟨store, new, hrun, hsilent⟩ := @unify_consistent { dynamicImports := true } {}
    Store.acyclic_empty (.tuple [.var 0, .external "ui"])
    (.tuple [.external "db", .fn [.var 1] .number]) {}
  have hnew : new = #[] := by
    have hitems := congrArg (fun outcome => outcome.2.reports.items) hrun
    simp only [Run.solved, Array.empty_append] at hitems
    exact hitems.symm.trans (by decide +kernel)
  obtain ⟨hnow, hlater⟩ := hsilent hnew
  obtain ⟨store', new', hrun', hthen⟩ :=
    hlater [⟨.var 0, .number, {}⟩, ⟨.var 1, .string, {}⟩, ⟨.number, .var 1, {}⟩]
  refine ⟨Store.acyclic_empty, store, new, hrun, hnew, hnow, store', new', hrun', ?_, hthen⟩
  have hstart : Run.solved {} store new = ((unify (.tuple [.var 0, .external "ui"])
      (.tuple [.external "db", .fn [.var 1] .number]) {}).run { dynamicImports := true } {}).2 := by
    rw [hrun]
  have hitems := congrArg (fun outcome => outcome.2.reports.items.map (·.error.code)) hrun'
  rw [hstart] at hitems
  simp only [Run.solved, hnew, Array.empty_append] at hitems
  exact hitems.symm.trans (by decide +kernel)

end Check

end Monotype
