import Monotype.Check.Run
import Monotype.Proofs.Unify.Termination

/-! Unification is most general: in an acyclic store it fails exactly when no solution makes the two
types equal, and otherwise leaves exactly the solutions that do. -/
namespace Monotype

namespace Store

theorem Acyclic.unify_acyclic {s : Store} (hs : s.Acyclic) (lenient : Bool) (l r : Ty) :
    (unify lenient l r s).2.Acyclic :=
  ((hs.unifies lenient l r).outcome hs).acyclic

/-- Failures or not, no solution is made up. -/
theorem Acyclic.solves_of_unify {s : Store} (hs : s.Acyclic) {lenient : Bool} {l r : Ty}
    {θ : TyVar → Ty} (hθ : (unify lenient l r s).2.Solves θ) : s.Solves θ :=
  ((hs.unifies lenient l r).outcome hs).shrinks θ hθ

/-- After a unification without failures the solutions are those that make both types equal. -/
theorem Acyclic.solves_unify_iff {s : Store} (hs : s.Acyclic) {l r : Ty}
    (he : (unify false l r s).1 = []) (θ : TyVar → Ty) :
    (unify false l r s).2.Solves θ ↔ s.Solves θ ∧ l.subst θ = r.subst θ :=
  ((hs.unifies false l r).outcome hs).solves_iff he θ

/-- A unification fails only where no solution makes both types equal. -/
theorem Acyclic.unify_eq_nil_iff {s : Store} (hs : s.Acyclic) (l r : Ty) :
    (unify false l r s).1 = [] ↔ ∃ θ, s.Solves θ ∧ l.subst θ = r.subst θ :=
  ((hs.unifies false l r).outcome hs).eq_nil_iff

theorem Acyclic.apply_unify_eq {s : Store} (hs : s.Acyclic) {l r : Ty}
    (he : (unify false l r s).1 = []) :
    (apply l (unify false l r s).2).1 = (apply r (unify false l r s).2).1 := by
  have hs' := hs.unify_acyclic false l r
  rw [(hs'.answers_apply l).1, (hs'.answers_apply r).1]
  exact ((hs.solves_unify_iff he _).1 hs'.solves_form).2

end Store

namespace Check

/-- The report of a failure of a unification at `site`. -/
def failureReport (site : Site) (error : TypeError Ty) : Report Ty := { error, site, labels := [] }

/-- A unification inside a run changes the store, and reports its failures in order. -/
theorem run_solving {α : Type} (cfg : Config) (site : Site) (x : Solve α) (run : Run) :
    (solving site x).run (Act.perform cfg) run =
      ((x.run Solve.Act.perform { store := run.store }).1,
        { run with
          store := x.storeAfter run.store
          reports := ⟨run.reports.items ++
            ((x.errorsOf run.store).map (failureReport site)).toArray⟩ }) := by
  induction x generalizing run with
  | done a => simp [solving, Plan.run, Solve.storeAfter, Solve.errorsOf]
  | step act next ih =>
    cases act with
    | store act => exact ih _ _
    | fail e =>
      refine (ih () _).trans ?_
      have hfirst := Solve.run_append (next ()) run.store #[e]
      simp only [Solve.errorsOf, Solve.storeAfter, Plan.run, Solve.Act.perform,
        Array.push_empty]
      rw [hfirst]
      simp [Sink.push, failureReport, Solve.storeAfter]

theorem run_unify (cfg : Config) (l r : Ty) (site : Site) (run : Run) :
    (unify l r site).run cfg run =
      (.ok (), { run with
        store := (run.store.unify cfg.dynamicImports l r).2
        reports := ⟨run.reports.items ++
          ((run.store.unify cfg.dynamicImports l r).1.map (failureReport site)).toArray⟩ }) := by
  change Plan.run (Act.perform cfg)
    (solving site (Solve.unify run.store cfg.dynamicImports l r) >>=
      fun a => pure (Except.ok a)) run = _
  rw [Plan.run_bind, run_solving]
  rfl

/-- Without dynamic imports, requiring two types to be equal reports something exactly when no
solution of the store makes them equal. When it reports nothing, the solutions that make them equal
are the ones that are left, and written out in full the two types are the same. -/
theorem unify_mostGeneral {cfg : Config} (hcfg : cfg.dynamicImports = false) {run : Run}
    (hs : run.store.Acyclic) (l r : Ty) (site : Site) :
    ∃ (store : Store) (new : Array (Report Ty)),
      (unify l r site).run cfg run =
        (.ok (), { run with store, reports := ⟨run.reports.items ++ new⟩ }) ∧
      (new = #[] ↔ ∃ θ, run.store.Solves θ ∧ l.subst θ = r.subst θ) ∧
      (new = #[] →
        (∀ θ, store.Solves θ ↔ run.store.Solves θ ∧ l.subst θ = r.subst θ) ∧
        (store.apply l).1 = (store.apply r).1) ∧
      ∀ θ, store.Solves θ → run.store.Solves θ := by
  have hnew : ((run.store.unify false l r).1.map (failureReport site)).toArray = #[] ↔
      (run.store.unify false l r).1 = [] := by simp
  refine ⟨_, _, by rw [run_unify, hcfg], ?_, ?_, ?_⟩
  · exact hnew.trans (hs.unify_eq_nil_iff l r)
  · intro he
    exact ⟨hs.solves_unify_iff (hnew.1 he), hs.apply_unify_eq (hnew.1 he)⟩
  · exact fun θ => hs.solves_of_unify

/-- One variable stands for a pair of which both parts are the same. -/
def twinStore : Store := ({} : Store).bind 0 (.tuple [.var 1, .var 1])

theorem twinStore_acyclic : twinStore.Acyclic :=
  Store.acyclic_empty.bind rfl (by decide)

/-- The pair must be of a number and of something else that is then a number too. -/
theorem unify_mostGeneral_twin :
    twinStore.Acyclic ∧
    ∃ (store : Store) (new : Array (Report Ty)),
      (unify (.var 0) (.tuple [.number, .var 2]) {}).run {} { store := twinStore } =
        (.ok (), { store, reports := ⟨#[] ++ new⟩ }) ∧
      (new = #[] ↔ ∃ θ, twinStore.Solves θ ∧ θ 0 = .tuple [.number, θ 2]) ∧
      ∀ θ, store.Solves θ → twinStore.Solves θ := by
  obtain ⟨store, new, hrun, hiff, -, hshrinks⟩ :=
    @unify_mostGeneral {} rfl { store := twinStore } twinStore_acyclic (.var 0)
      (.tuple [.number, .var 2]) {}
  exact ⟨twinStore_acyclic, store, new, hrun, hiff, hshrinks⟩

end Check

end Monotype
