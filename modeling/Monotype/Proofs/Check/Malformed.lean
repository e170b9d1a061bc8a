import Monotype.Proofs.Check.Survey
import Monotype.Proofs.Typing.Output
import Monotype.Proofs.Typing.Core

/-! Malformed trees are what ends a check, and nothing else does. Whatever complaints a program has,
a check of it ends well unless an `if` in it has no branch or an element is closed under another
name; and it ends at the first such place, except that a match whose value cannot be matched is not
looked into. -/
namespace Monotype

/-- A place at which a tree is malformed. -/
structure Fault where
  tree : Malformed
  /-- Whether it stands in an arm of a match. -/
  inArm : Bool := false
  deriving DecidableEq, Repr

namespace Fault

/-- An element must be closed under the name that opens it. -/
def ofClosing (site : Site) (name : Ident) : Option Ident → List Fault
  | some closing =>
    if closing.name = name.name then []
    else [{ tree := .closingTag site.node closing.name name.name }]
  | none => []

/-- Faults in the order of evaluation; a malformed node comes before all that is inside it. -/
def survey : Survey (List Fault) where
  nothing := []
  andThen := (· ++ ·)
  nothing_andThen := List.nil_append
  andThen_nothing := List.append_nil
  branchless site := [{ tree := .noBranches site.node }]
  closing := ofClosing
  arms faults := faults.map fun fault => { fault with inArm := true }

end Fault

/-- The malformed places of a program in the order of evaluation. -/
def faults (p : Program) : List Fault := Stmt.surveyAll Fault.survey p

namespace Check
variable {α β : Type} {cfg : Config}

/-- How a run over a part with the given faults may end: it passes over faults in arms only. -/
def EndsAt (faults : List Fault) : Except Malformed α → Prop
  | .ok _ => ∀ fault ∈ faults, fault.inArm = true
  | .error e => ∃ passed fault rest, faults = passed ++ fault :: rest ∧ fault.tree = e ∧
      ∀ earlier ∈ passed, earlier.inArm = true

/-- From every state, `x` ends well or at one of the given faults. -/
def Fails (cfg : Config) (x : Check α) (faults : List Fault) : Prop :=
  ∀ s, EndsAt faults (x.run cfg s).1

namespace Fails

theorem of_returns {x : Check α} (h : Returns cfg x) : Fails cfg x [] := by
  intro s
  obtain ⟨a, s', hrun⟩ := h s
  rw [hrun]
  intro fault hfault
  simp at hfault

theorem pure (a : α) : Fails cfg (pure a) [] := .of_returns (.pure a)

theorem act (a : Act) : Fails cfg (act a) [] := .of_returns (.act a)

theorem throw (e : Malformed) : Fails cfg (throw e : Check α) [{ tree := e }] := by
  intro s
  exact ⟨[], { tree := e }, [], rfl, rfl, by simp⟩

theorem bind {x : Check α} {f : α → Check β} {xs ys : List Fault} (hx : Fails cfg x xs)
    (hf : ∀ a, Fails cfg (f a) ys) : Fails cfg (x >>= f) (xs ++ ys) := by
  intro s
  have hfirst := hx s
  rw [run_bind]
  rcases hrun : x.run cfg s with ⟨r, s'⟩
  rw [hrun] at hfirst
  cases r with
  | error e =>
    obtain ⟨passed, fault, rest, rfl, htree, hpassed⟩ := hfirst
    exact ⟨passed, fault, rest ++ ys, by simp, htree, hpassed⟩
  | ok a =>
    have hsecond := hf a s'
    show EndsAt (xs ++ ys) ((f a).run cfg s').1
    cases hend : ((f a).run cfg s').1 with
    | error e =>
      rw [hend] at hsecond
      obtain ⟨passed, fault, rest, rfl, htree, hpassed⟩ := hsecond
      refine ⟨xs ++ passed, fault, rest, by simp, htree, ?_⟩
      exact List.forall_mem_append.2 ⟨hfirst, hpassed⟩
    | ok b =>
      rw [hend] at hsecond
      exact List.forall_mem_append.2 ⟨hfirst, hsecond⟩

/-- In an arm, no fault has to be met. -/
theorem arms {x : Check α} {xs : List Fault} (hx : Fails cfg x xs) :
    Fails cfg x (Fault.survey.arms xs) := by
  intro s
  have hend := hx s
  cases hrun : (x.run cfg s).1 with
  | ok a => simp [EndsAt, Fault.survey]
  | error e =>
    rw [hrun] at hend
    obtain ⟨passed, fault, rest, rfl, htree, -⟩ := hend
    refine ⟨Fault.survey.arms passed, { fault with inArm := true }, Fault.survey.arms rest, ?_,
      htree, ?_⟩
    · simp [Fault.survey]
    · simp [Fault.survey]

end Fails

/-! ## Steps that always end well -/

theorem faultSteps (cfg : Config) : Fault.survey.Steps cfg (Fails cfg) where
  pure := .pure
  bind := .bind
  config h := h
  act a _ := .act a
  unify l r site := .of_returns (.unify l r site)

theorem Returns.of_fails {x : Check α} (h : Fails cfg x []) : Returns cfg x := by
  intro s
  have hend := h s
  rcases hrun : x.run cfg s with ⟨r, s'⟩
  rw [hrun] at hend
  cases r with
  | ok a => exact ⟨a, s', rfl⟩
  | error e =>
    obtain ⟨passed, fault, rest, hfaults, -⟩ := hend
    simp at hfaults

theorem declareConstructor_returns (adt : String) (option : Ident) (c : Constructor) :
    Returns cfg (declareConstructor adt option c) := by
  refine .bind (.act _) fun displaced => .bind (.act _) fun _ => ?_
  split
  · split
    · split
      · exact .bind (.act _) fun _ => .act _
      · exact .act _
    · exact .act _
  · exact .act _

theorem declareConstructors_returns (adt : String) :
    ∀ (options : List AdtOption) (cs : List Constructor),
    Returns cfg (declareConstructors adt options cs)
  | [], _ => .pure _
  | _ :: _, [] => .pure _
  | option :: options, c :: cs =>
    .bind (declareConstructor_returns adt option.name c) fun _ =>
      declareConstructors_returns adt options cs

theorem declareType_returns (name : Ident) (ty : TypeExpr) :
    Returns cfg (declareType name ty) := by
  refine .bind (.of_fails ((faultSteps cfg).lowerDef name.name ty)) fun d => ?_
  refine .bind (.act _) fun _ => .bind (.act _) fun _ => ?_
  split
  · exact declareConstructors_returns _ _ _
  · exact .pure _

theorem checkClosing_fails (site : Site) (name : Ident) (closing : Option Ident) :
    Fails cfg (checkClosing site name closing) (Fault.ofClosing site name closing) := by
  cases closing with
  | none => exact .pure _
  | some closing =>
    simp only [checkClosing, Fault.ofClosing]
    split
    · exact .pure _
    · exact .throw _

theorem faultRules (cfg : Config) : Fault.survey.Rules cfg (Fails cfg) where
  toSteps := faultSteps cfg
  used name := .of_returns (Returns.composes.inferIdent name)
  param name t := .of_returns (Returns.composes.declare name t .param)
  assigned name t := .of_returns (Returns.composes.declareAssigned name t)
  imported path name := .of_returns (Returns.composes.declareImport path name)
  exported name := .of_returns (Returns.composes.checkExport name)
  declared name ty := .of_returns (declareType_returns name ty)
  acceptSum adt scrutinee pattern := .of_returns (Returns.composes.acceptSum adt scrutinee pattern)
  acceptLiteral scrutinee pattern _ :=
    .of_returns (Returns.composes.acceptLiteral scrutinee pattern)
  closing := checkClosing_fails
  component name props := .of_returns (Returns.composes.checkComponent name props)
  branchless site := .throw _
  whole e xs h := by
    show Fails cfg (inferExpr e) (xs ++ [])
    rw [List.append_nil]
    exact h
  inScope h := (faultSteps cfg).after (.act _) fun _ =>
    (faultSteps cfg).before h fun _ => (faultSteps cfg).after (.act _) fun _ => .pure _
  arms := .arms
  unmatched site t xs := by
    have hreturns : Returns cfg (do recover site (.nonAdtMatch (← apply t)) : Check Ty) :=
      .bind (.act _) fun _ => Returns.composes.recover _ _
    intro s
    obtain ⟨u, s', hrun⟩ := hreturns s
    rw [hrun]
    simp [EndsAt, Fault.survey]

end Check

namespace Checker

/-- How a check of a program with malformed places may end. -/
theorem check_endsAt (c : Checker) (p : Program) : Check.EndsAt (faults p) (c.check p).1 := by
  have hend := (Check.faultRules c.config).checkStmts p c.run.reset
  rcases hrun : (Check.checkStmts p).run c.config c.run.reset with ⟨r, s⟩
  rw [hrun] at hend
  cases r with
  | error e =>
    rw [check_of_error hrun]
    exact hend
  | ok a =>
    obtain ⟨out, hout, -⟩ := check_of_run hrun
    rw [hout]
    exact hend

/-- A check of a program without malformed places ends well, whatever else is wrong with it. One
that does not end well has come to a malformed place and gives that as its reason. Where all
malformed places are outside the arms of matches it is the first of them, under every
configuration. -/
theorem fatal_iff_malformed (c : Checker) (p : Program) :
    (faults p = [] → ∃ out, (c.check p).1 = .ok out) ∧
    (∀ e, (c.check p).1 = .error e → ∃ fault ∈ faults p, fault.tree = e) ∧
    ∀ fault rest, faults p = fault :: rest → (∀ other ∈ faults p, other.inArm = false) →
      (c.check p).1 = .error fault.tree := by
  have hend := check_endsAt c p
  refine ⟨?_, ?_, ?_⟩
  · intro hnone
    cases hcheck : (c.check p).1 with
    | ok out => exact ⟨out, rfl⟩
    | error e =>
      rw [hcheck] at hend
      obtain ⟨passed, fault, rest, hfaults, -⟩ := hend
      simp [hnone] at hfaults
  · intro e hcheck
    rw [hcheck] at hend
    obtain ⟨passed, fault, rest, hfaults, htree, -⟩ := hend
    exact ⟨fault, by simp [hfaults], htree⟩
  · intro fault rest hfaults houtside
    cases hcheck : (c.check p).1 with
    | ok out =>
      rw [hcheck] at hend
      have hin := hend fault (by simp [hfaults])
      simp [houtside fault (by simp [hfaults])] at hin
    | error e =>
      rw [hcheck] at hend
      obtain ⟨passed, first, after, hsplit, rfl, hpassed⟩ := hend
      -- passed over are faults in arms only, of which there are none
      cases passed with
      | nil =>
        rw [hfaults, List.nil_append, List.cons.injEq] at hsplit
        rw [hsplit.1]
      | cons earlier passed =>
        have hin := hpassed earlier (by simp)
        simp [houtside earlier (by simp [hsplit])] at hin

open Sketch in
/-- An unknown name, then an element that is closed under another name and has an `if` without
branches in an attribute. -/
def unclosedProgram : Program :=
  (build [
    .assign .constVar "a" (.ident "missing"),
    .expr (.markup (.close
      (.element "Row" [.expr "label" (.ifChain [] none)] [.expr (.ident "a")]) "Cell"))]).1

/-- The check ends at the element, which comes before the `if` inside it. -/
theorem fatal_iff_malformed_unclosed :
    (faults unclosedProgram).map (·.tree) = [.closingTag 11 "Cell" "Row", .noBranches 6] ∧
    checkProgram {} unclosedProgram = .error (.closingTag 11 "Cell" "Row") := by
  have hfaults : faults unclosedProgram =
      [{ tree := .closingTag 11 "Cell" "Row" }, { tree := .noBranches 6 }] := by
    decide +kernel
  have hfirst := (fatal_iff_malformed {} unclosedProgram).2.2 _ _ hfaults (by simp [hfaults])
  exact ⟨by rw [hfaults]; rfl, hfirst⟩

end Checker

end Monotype
