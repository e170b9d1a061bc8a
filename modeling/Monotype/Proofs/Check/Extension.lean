import Monotype.Proofs.Typing.Output

/-! More statements after a program take back nothing that was found in it. The types of its names
and nodes may become more special, all of them under one substitution: what the later statements
require only narrows the solutions of the store. -/
namespace Monotype

/-- A symbol with types put in for variables. -/
def Symbol.subst (σ : TyVar → Ty) (sym : Symbol) : Symbol := { sym with ty := sym.ty.subst σ }

/-- `later` carries on from `out`: diagnostics and symbols come after those that were there, and all
types from before are instances under `σ`. Only the given nodes may have been noted again. -/
structure Output.Extends (σ : TyVar → Ty) (nodes : List NodeId) (out later : Output) : Prop where
  diagnostics : out.diagnostics <+: later.diagnostics
  symbols : out.symbols.map (·.subst σ) <+: later.symbols
  nodeTypes : ∀ node ∉ nodes, later.typeOf? node = (out.typeOf? node).map (·.subst σ)

namespace Check
variable {α : Type} {cfg : Config} {s s' : Run}

/-- Statements after others are checked in the state that those leave, if they end well. -/
theorem run_checkStmts_append (cfg : Config) (p q : List Stmt) (s : Run) :
    (checkStmts (p ++ q)).run cfg s =
      match (checkStmts p).run cfg s with
      | (.ok _, s') => (checkStmts q).run cfg s'
      | (.error e, s') => (.error e, s') := by
  induction p generalizing s with
  | nil => rfl
  | cons stmt p ih =>
    rw [List.cons_append, checkStmts, checkStmts, run_bind, run_bind]
    rcases (checkStmt stmt).run cfg s with ⟨r, s₁⟩
    cases r with
    | error e => rfl
    | ok a => exact ih s₁

/-- A full form at the end of a safe run is an instance of the one at its start. -/
theorem SafeFrom.full_eq {x : Check α} (h : SafeFrom cfg x s) (t : Ty) :
    (x.run cfg s).2.store.full t = (s.store.full t).subst (x.run cfg s).2.store.form := by
  have hend : (x.run cfg s).2.Inv := Plan.Safe.run h
  have hsolves := h.solves hend.acyclic.solves_form
  exact (h.inv.acyclic.full_subst hsolves t).symm

/-- What is handed out after a safe run extends what would have been handed out before it. -/
theorem HandsOut.output_extends {x : Check α} {sites : Sites} {r : Except Malformed α}
    {out later : Output} (hout : HandsOut s out) (hlater : HandsOut s' later)
    (hrun : x.run cfg s = (r, s')) (hsafe : SafeFrom cfg x s) (hwrites : Writes cfg x sites) :
    out.Extends s'.store.form sites.nodes later := by
  have hfull : ∀ t, s'.store.full t = (s.store.full t).subst s'.store.form := by
    intro t
    have h := hsafe.full_eq t
    rwa [hrun] at h
  refine ⟨?_, ?_, ?_⟩
  · have hreports := reports_run cfg x s
    rw [hrun] at hreports
    rw [Output.diagnostics, Output.diagnostics, hout.reports, hlater.reports, hreports,
      List.map_append]
    exact List.prefix_append _ _
  · have hsymbols := symbols_run cfg x s
    rw [hrun] at hsymbols
    rw [hout.symbols, hlater.symbols, hsymbols, List.map_append, List.map_map]
    have hsame : s.symbols.toList.map (fun sym => { sym with ty := s'.store.full sym.ty }) =
        s.symbols.toList.map (Symbol.subst s'.store.form ∘
          fun sym => { sym with ty := s.store.full sym.ty }) := by
      refine List.map_congr_left fun sym _ => ?_
      simp [Symbol.subst, hfull]
    rw [← hsame]
    exact List.prefix_append _ _
  · intro node hnode
    have hnotes := nodeTypes_run cfg x s
    rw [hrun] at hnotes
    -- a node outside the tree is not noted, so its entry is the old one
    have hkept : s'.nodeTypes[node]? = s.nodeTypes[node]? := by
      rw [hnotes]
      exact getElem?_foldl_insert_of_not_mem (fun h => hnode ((hwrites s).nodes.subset h)) _
    rw [hlater.typeOf?_eq, hout.typeOf?_eq, hkept, Option.map_map]
    exact congrArg (fun f => Option.map f s.nodeTypes[node]?) (funext hfull)

end Check

namespace Checker

/-- A check that cannot get through `p` cannot get through more. A check of `p` and `q` extends the
check of `p`, with one substitution for all types, at every node that `q` does not have as well. -/
theorem check_append_extends (c : Checker) (p q : Program) :
    (∀ e, (c.check p).1 = .error e → (c.check (p ++ q)).1 = .error e) ∧
    ∀ later, (c.check (p ++ q)).1 = .ok later →
      ∃ out, (c.check p).1 = .ok out ∧ ∃ σ, out.Extends σ (typedNodes q) later := by
  have happend := Check.run_checkStmts_append c.config p q c.run.reset
  rcases hp : (Check.checkStmts p).run c.config c.run.reset with ⟨r, s⟩
  rw [hp] at happend
  cases r with
  | error e =>
    have herror : (c.check (p ++ q)).1 = .error e := check_of_error happend
    rw [check_of_error hp, herror]
    refine ⟨fun _ h => h, fun later h => ?_⟩
    cases h
  | ok a =>
    obtain ⟨out, hout, hhands⟩ := check_of_run hp
    rw [hout]
    refine ⟨fun e h => ?_, fun later hlater => ⟨out, rfl, ?_⟩⟩
    · cases h
    · obtain ⟨s', hboth, -, hhands'⟩ := run_of_check hlater
      have hinv := Check.inv_checkStmts (.reset c.run) hp
      exact ⟨_, hhands.output_extends hhands' (happend.symm.trans hboth)
        (Check.checkStmts_safeFrom q hinv) (Check.checkStmts_writes q)⟩

open Sketch in
/-- A function whose type is open, and a call of it that settles the type. -/
def identityProgram : Program :=
  (build [
    .assign .constVar "same" (.function ["x"] (.ident "x")),
    .expr (.call (.ident "same") [.literal (.number 1)])]).1

/-- The function is checked for itself first, and then with the call. -/
theorem check_append_extends_identity :
    ∃ out later, checkProgram {} (identityProgram.take 1) = .ok out ∧
      checkProgram {} identityProgram = .ok later ∧
      out.symbols.map (·.ty) = [.var 0, .fn [.var 0] (.var 0)] ∧
      later.symbols.map (·.ty) = [.number, .fn [.number] .number] ∧
      ∃ σ, out.Extends σ (typedNodes (identityProgram.drop 1)) later := by
  have hfound : (checkProgram {} identityProgram).toOption.map (·.symbols.map (·.ty)) =
      some [.number, .fn [.number] .number] := by
    decide +kernel
  have hfirst : (checkProgram {} (identityProgram.take 1)).toOption.map
      (·.symbols.map (·.ty)) = some [.var 0, .fn [.var 0] (.var 0)] := by
    decide +kernel
  cases hlater : checkProgram {} identityProgram with
  | error e => simp [hlater, Except.toOption] at hfound
  | ok later =>
    have hparts : checkProgram {} (identityProgram.take 1 ++ identityProgram.drop 1) = .ok later :=
      hlater
    obtain ⟨out, hout, hextends⟩ :=
      (check_append_extends {} (identityProgram.take 1) (identityProgram.drop 1)).2 later hparts
    rw [hlater] at hfound
    have hsame : checkProgram {} (identityProgram.take 1) = .ok out := hout
    rw [hsame] at hfirst
    exact ⟨out, later, hout, rfl, Option.some.inj hfirst, Option.some.inj hfound, hextends⟩

end Checker

end Monotype
