import Monotype.Proofs.Check.Trace
import Monotype.Proofs.Unify.MostGeneral

/-! Unifications one after the other inside a run. Each goes on in the store that the last one has
left, whether that one failed or not; of the run only the store and the reports change. -/
namespace Monotype

namespace Run

/-- The run goes on with another store and more reports. -/
def solved (run : Run) (store : Store) (new : Array (Report Ty)) : Run :=
  { run with store, reports := ⟨run.reports.items ++ new⟩ }

variable (run : Run) (s s' : Store) (new new' : Array (Report Ty))

@[simp] theorem store_solved : (run.solved s new).store = s := rfl

@[simp] theorem solved_self : run.solved run.store #[] = run := by simp [solved]

@[simp] theorem solved_solved :
    (run.solved s new).solved s' new' = run.solved s' (new ++ new') := by
  simp [solved, Array.append_assoc]

end Run

namespace Check

theorem run_report (cfg : Config) (site : Site) (error : TypeError Ty) (run : Run) :
    (report site error).run cfg run =
      (.ok (), run.solved run.store #[failureReport site error]) := by
  rw [report, reportWith, run_act]
  simp [Act.perform, Run.solved, Sink.push, failureReport]

theorem run_unify_solved (cfg : Config) (l r : Ty) (site : Site) (run : Run) :
    (unify l r site).run cfg run =
      (.ok (), run.solved (run.store.unify cfg.dynamicImports l r).2
        ((run.store.unify cfg.dynamicImports l r).1.map (failureReport site)).toArray) :=
  run_unify cfg l r site run

/-- A unification that is to be done: its sides, and the place of its reports. -/
structure Demand where
  left : Ty
  right : Ty
  site : Site

/-- Unifications in order. -/
def unifyAll (demands : List Demand) : Check Unit :=
  demands.forM fun d => unify d.left d.right d.site

/-- However many unifications there are, failing ones among them, they only take solutions away. -/
theorem run_unifyAll (cfg : Config) (demands : List Demand) {run : Run}
    (hs : run.store.Acyclic) :
    ∃ store new, (unifyAll demands).run cfg run = (.ok (), run.solved store new) ∧
      store.Acyclic ∧ ∀ θ, store.Solves θ → run.store.Solves θ := by
  induction demands generalizing run with
  | nil => exact ⟨run.store, #[], by simp [unifyAll], hs, fun _ h => h⟩
  | cons d demands ih =>
    obtain ⟨s₁, new₁, hhead, hs₁, hshrinks₁⟩ : ∃ s₁ new₁,
        (unify d.left d.right d.site).run cfg run = (.ok (), run.solved s₁ new₁) ∧
        s₁.Acyclic ∧ ∀ θ, s₁.Solves θ → run.store.Solves θ :=
      ⟨_, _, run_unify_solved .., hs.unify_acyclic _ _ _, fun _ => hs.solves_of_unify⟩
    obtain ⟨store, new, htail, hacyclic, hshrinks⟩ := @ih (run.solved s₁ new₁) hs₁
    rw [Run.solved_solved] at htail
    refine ⟨store, new₁ ++ new, ?_, hacyclic, fun θ hθ => hshrinks₁ θ (hshrinks θ hθ)⟩
    rw [unifyAll, List.forM, run_bind, hhead]
    exact htail

end Check

end Monotype
