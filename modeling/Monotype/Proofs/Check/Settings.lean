import Monotype.Proofs.Check.Lockstep
import Monotype.Tree.Sketch

/-! What the settings do to the findings of a check: they decide which complaints are made, and on
nothing else. -/
namespace Monotype

namespace EndAlike
variable {α β γ : Type} {R : α → γ → Prop} {S : β → γ → Prop} {T : α → β → Prop}

theorem mono {R' : α → γ → Prop} {r : Except Malformed α} {r' : Except Malformed γ}
    (h : EndAlike R r r') (himp : ∀ a c, r = .ok a → r' = .ok c → R a c → R' a c) :
    EndAlike R' r r' := by
  cases h with
  | ok hac => exact .ok (himp _ _ rfl rfl hac)
  | error e => exact .error e

/-- Two ends that are like a third. -/
theorem join {r : Except Malformed α} {r' : Except Malformed β} {r'' : Except Malformed γ}
    (h : EndAlike R r r'') (h' : EndAlike S r' r'') (himp : ∀ a b c, R a c → S b c → T a b) :
    EndAlike T r r' := by
  cases h with
  | ok hac =>
    cases h' with
    | ok hbc => exact .ok (himp _ _ _ hac hbc)
  | error e =>
    cases h'
    exact .error e

end EndAlike

theorem TypeError.code_map {τ υ : Type} (f : τ → υ) (error : TypeError τ) :
    (error.map f).code = error.code := by
  cases error <;> rfl

/-- The diagnostics that are made under every setting of the two optional checks. -/
def Output.obligatory (out : Output) : List Diagnostic :=
  out.diagnostics.filter (·.code ∉ ["E3019", "E3020"])

theorem Output.obligatory_eq (out : Output) :
    out.obligatory =
      (out.reports.filter (·.error.code ∉ ["E3019", "E3020"])).map (·.toDiagnostic) := by
  rw [obligatory, diagnostics, List.filter_map]
  refine congrArg (List.map _) (List.filter_congr fun r _ => ?_)
  simp [Report.toDiagnostic, Report.worded, TypeError.code_map]

/-- A code of causes that the configuration does not ask for is not among the diagnostics. -/
theorem not_mem_codes {cfg : Config} {p : Program} {out : Output} {code : String}
    (hout : checkProgram cfg p = .ok out)
    (hcode : ∀ error : TypeError Ty, error.code = code → cfg.asksFor error = false) :
    code ∉ out.diagnostics.map (·.code) := by
  intro hmem
  obtain ⟨d, hd, rfl⟩ := List.mem_map.1 hmem
  obtain ⟨r, hr, rfl⟩ := List.mem_map.1 hd
  have hunasked := hcode r.error (TypeError.code_map Ty.text r.error).symm
  rw [asksFor_of_checkProgram hout r hr] at hunasked
  exact Bool.false_ne_true hunasked.symm

namespace Checker

/-- Dynamic imports only silence complaints: of those that are made without them, the ones about an
imported name are left out, and all else stays the same. -/
theorem dynamicImports_silences (cfg : Config) (p : Program) :
    EndAlike
      (fun lenient strict =>
        lenient.symbols = strict.symbols ∧ lenient.nodeTypes = strict.nodeTypes ∧
        lenient.reports = strict.reports.filter (!·.error.aboutImport) ∧
        lenient.diagnostics.Sublist strict.diagnostics)
      (checkProgram { cfg with dynamicImports := true } p)
      (checkProgram { cfg with dynamicImports := false } p) := by
  have hlax : ({ cfg with dynamicImports := true } : Config).Laxer
      { cfg with dynamicImports := false } := ⟨rfl, id, id, by simp⟩
  refine (checkProgram_hushed hlax p).mono ?_
  intro lenient strict _ hstrict h
  have hreports : lenient.reports = strict.reports.filter (!·.error.aboutImport) := by
    rw [h.reports]
    exact List.filter_congr fun r hr =>
      Config.asksFor_dynamicImports (asksFor_of_checkProgram hstrict r hr)
  refine ⟨h.symbols, h.nodeTypes, hreports, ?_⟩
  rw [Output.diagnostics, Output.diagnostics, hreports]
  exact List.filter_sublist.map _

/-- The two optional checks and the language tag leave everything else as it is, and each of the
checks reports only where it is asked for. -/
theorem optional_checks_independent {cfg cfg' : Config}
    (himports : cfg'.dynamicImports = cfg.dynamicImports)
    (hhost : cfg'.intrinsicElements = cfg.intrinsicElements) (p : Program) :
    EndAlike
      (fun out out' => out.symbols = out'.symbols ∧ out.nodeTypes = out'.nodeTypes ∧
        out.obligatory = out'.obligatory)
      (checkProgram cfg p) (checkProgram cfg' p) ∧
    ∀ out, checkProgram cfg p = .ok out →
      (cfg.exhaustiveness = false → "E3019" ∉ out.diagnostics.map (·.code)) ∧
      (cfg.strictRedeclaration = false → "E3020" ∉ out.diagnostics.map (·.code)) := by
  constructor
  · -- both are compared with a configuration that asks for everything
    have hlax : cfg.Laxer { cfg with exhaustiveness := true, strictRedeclaration := true } :=
      ⟨rfl, fun _ => rfl, fun _ => rfl, id⟩
    have hlax' : cfg'.Laxer { cfg with exhaustiveness := true, strictRedeclaration := true } :=
      ⟨hhost.symm, fun _ => rfl, fun _ => rfl, fun h => himports.trans h⟩
    refine (checkProgram_hushed hlax p).join (checkProgram_hushed hlax' p) ?_
    intro out out' full h h'
    refine ⟨h.symbols.trans h'.symbols.symm, h.nodeTypes.trans h'.nodeTypes.symm, ?_⟩
    rw [Output.obligatory_eq, Output.obligatory_eq, h.reports, h'.reports, List.filter_filter,
      List.filter_filter]
    refine congrArg (List.map _) (List.filter_congr fun r _ => ?_)
    by_cases hcode : r.error.code ∈ ["E3019", "E3020"]
    · simp [hcode]
    · rw [Config.asksFor_eq_of_code himports hcode]
  · intro out hout
    constructor
    · intro hoff
      exact not_mem_codes hout fun error hcode =>
        (cfg.asksFor_of_code_exhaustive hcode).trans hoff
    · intro hoff
      exact not_mem_codes hout fun error hcode =>
        (cfg.asksFor_of_code_redeclared hcode).trans hoff

open Sketch in
/-- A name that is declared twice, and a match that leaves out a constructor. -/
def carelessProgram : Program :=
  (build [
    .typeDecl "Shape" (.adt [.prim "Circle" .number, .bare "Empty"]),
    .assign .constVar "shape" (.call (.ident "Circle") [.literal (.number 1)]),
    .assign .constVar "shape" (.call (.ident "Empty") []),
    .expr (.matchOn (.ident "shape") [
      (.constructor "Circle" [.binding "r"], .ident "r")])]).1

/-- A configuration that asks for everything. -/
def careful : Config := { exhaustiveness := true, strictRedeclaration := true }

/-- The program is fine without the optional checks; with them it has two complaints. -/
theorem optional_checks_independent_careless :
    ∃ out out', checkProgram {} carelessProgram = .ok out ∧
      checkProgram careful carelessProgram = .ok out' ∧
      out.codes = [] ∧ out'.codes = ["E3020", "E3019"] ∧
      out.symbols = out'.symbols ∧ out.nodeTypes = out'.nodeTypes ∧
      out.obligatory = out'.obligatory := by
  have hfound : (checkProgram {} carelessProgram).toOption.map Output.codes = some [] := by
    decide +kernel
  have hfound' : (checkProgram careful carelessProgram).toOption.map Output.codes =
      some ["E3020", "E3019"] := by
    decide +kernel
  have hsame := (@optional_checks_independent {} careful rfl rfl carelessProgram).1
  cases hout : checkProgram {} carelessProgram with
  | error e => simp [hout, Except.toOption] at hfound
  | ok out =>
    cases hout' : checkProgram careful carelessProgram with
    | error e => simp [hout', Except.toOption] at hfound'
    | ok out' =>
      rw [hout, hout'] at hsame
      rw [hout] at hfound
      rw [hout'] at hfound'
      cases hsame with
      | ok h => exact ⟨out, out', rfl, rfl, Option.some.inj hfound, Option.some.inj hfound', h⟩

end Checker

end Monotype
