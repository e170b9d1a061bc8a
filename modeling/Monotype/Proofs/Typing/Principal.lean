import Monotype.Proofs.Typing.Complete
import Monotype.Proofs.Typing.Output

/-! Principal typings. In the core of the language a check complains exactly when there is no
typing, and what it hands out otherwise has all other typings as instances. -/
namespace Monotype.Checker
variable {c : Checker} {p : Program}

/-- A new run has found nothing yet. -/
theorem follows_reset (run : Run) (A : Typing) (θ : TyVar → Ty) :
    run.reset.Follows A [Env.nothing] {} θ where
  inv := .reset run
  solves v t ht := by simp [Run.reset, Store.lookup] at ht
  agrees := Check.agrees_reset run A θ
  names := Check.names_reset run
  registry := rfl

/-- A core program can always be checked to its end. -/
theorem check_returns (c : Checker) (hcore : Stmt.isCoreAll p = true) :
    ∃ out, (c.check p).1 = .ok out := by
  obtain ⟨⟨⟩, s, hrun⟩ := Check.checkStmts_returns p hcore c.run.reset
  obtain ⟨out, hout, -⟩ := check_of_run hrun
  exact ⟨out, hout⟩

/-- A typing of a core program fits the run of the check. -/
theorem fits_of_typed (hcfg : c.config.Plain) (hcore : Stmt.isCoreAll p = true) {A : Typing}
    (hA : ProgramTyped c.config A p) {s : Run}
    (hrun : (Check.checkStmts p).run c.config c.run.reset = (.ok (), s)) :
    ∃ θ, s.store.Solves θ ∧
      Check.Fits A θ (Check.log c.config (Check.checkStmts p) c.run.reset) := by
  obtain ⟨Γ, R, hstmts⟩ := hA
  obtain ⟨_, s', θ, hrun', -, hfits, hfollows⟩ :=
    Check.checkStmts_complete hcfg hcore hstmts (follows_reset c.run A .var)
  rw [hrun] at hrun'
  cases hrun'
  exact ⟨θ, hfollows.solves, hfits θ fun _ _ => rfl⟩

theorem reports_of_typed (hcfg : c.config.Plain) (hcore : Stmt.isCoreAll p = true) {A : Typing}
    (hA : ProgramTyped c.config A p) {out : Output} (hout : (c.check p).1 = .ok out) :
    out.reports = [] := by
  obtain ⟨s, hrun, -, hhands⟩ := run_of_check hout
  obtain ⟨θ, -, hfits⟩ := fits_of_typed hcfg hcore hA hrun
  have hreports := Check.reports_run c.config (Check.checkStmts p) c.run.reset
  rw [hrun, hfits.reports] at hreports
  rw [hhands.reports, hreports]
  rfl

/-- For a core program in which no number is used twice, a check complains about nothing exactly
when the program has a typing, and then its typings are the instances of the one handed out. -/
theorem check_principal (c : Checker) (himports : c.config.dynamicImports = false)
    (hassignments : c.config.strictRedeclaration = false) (p : Program)
    (hcore : Stmt.isCoreAll p = true) (hnodes : (typedNodes p).Nodup)
    (hnames : (declaredNodes p).Nodup) :
    ∃ out, (c.check p).1 = .ok out ∧
      (out.reports = [] ↔ ∃ A, ProgramTyped c.config A p) ∧
      (out.reports = [] →
        ∀ A, ProgramTyped c.config A p ↔ ∃ σ, A.IsInstance p σ out.typing) := by
  have hcfg : c.config.Plain := ⟨himports, hassignments⟩
  obtain ⟨out, hout⟩ := check_returns c hcore
  obtain ⟨s, hrun, hinv, hhands⟩ := run_of_check hout
  refine ⟨out, hout, ⟨fun hclean => ?_, fun ⟨A, hA⟩ => reports_of_typed hcfg hcore hA hout⟩,
    fun hclean A => ⟨fun hA => ?_, fun ⟨σ, hA⟩ => ?_⟩⟩
  · have hcovers := hhands.covers hnodes hnames hrun hclean
    exact ⟨_, typed_of_instance himports hnodes hnames hout hclean hcovers.instance_refl⟩
  · have hcovers := hhands.covers hnodes hnames hrun hclean
    obtain ⟨θ, hθ, hfits⟩ := fits_of_typed hcfg hcore hA hrun
    exact ⟨θ, hcovers.isInstance hinv.acyclic hθ hfits⟩
  · exact typed_of_instance himports hnodes hnames hout hclean hA

open Sketch in
/-- A function that calls its parameter inside an `if`, and a block with a function of its own. -/
def choiceProgram : Program :=
  (build [
    .assign .constVar "choose" (.function ["test", "f", "x"] (.ifChain
      [(.ident "test", .call (.ident "f") [.ident "x"])] (some (.ident "x")))),
    .expr (.block [.assign .letVar "same" (.function ["y"] (.ident "y"))]
      (some (.array [.operation (.literal (.number 1)) "<" (.literal (.number 2)),
        .ident "same"])))]).1

/-- The type of the function, whose name is node 21, leaves one variable open. -/
theorem check_principal_choice :
    Stmt.isCoreAll choiceProgram = true ∧ (typedNodes choiceProgram).Nodup ∧
    (declaredNodes choiceProgram).Nodup ∧
    ∃ out, (({} : Checker).check choiceProgram).1 = .ok out ∧ out.reports = [] ∧
      out.typing.symbol 21 =
        some (.fn [.boolean, .fn [.var 2] (.var 2), .var 2] (.var 2)) ∧
      ∀ A, ProgramTyped {} A choiceProgram ↔ ∃ σ, A.IsInstance choiceProgram σ out.typing := by
  have hcore : Stmt.isCoreAll choiceProgram = true := by decide +kernel
  have hnodes : (typedNodes choiceProgram).Nodup := by decide +kernel
  have hnames : (declaredNodes choiceProgram).Nodup := by decide +kernel
  have hfound : (({} : Checker).check choiceProgram).1.toOption.map
      (fun out => (out.isOk, out.typing.symbol 21)) =
        some (true, some (.fn [.boolean, .fn [.var 2] (.var 2), .var 2] (.var 2))) := by
    decide +kernel
  obtain ⟨out, hout, -, hprincipal⟩ := check_principal {} rfl rfl _ hcore hnodes hnames
  obtain ⟨hclean, hchoose⟩ : out.reports = [] ∧ out.typing.symbol 21 = _ := by
    simpa [hout, Except.toOption, Output.isOk] using hfound
  exact ⟨hcore, hnodes, hnames, out, hout, hclean, hchoose, hprincipal hclean⟩

end Monotype.Checker
