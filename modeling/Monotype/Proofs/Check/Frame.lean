import Monotype.Proofs.Check.Survey
import Monotype.Proofs.Scopes
import Monotype.Proofs.Tree.Confined
import Monotype.Proofs.Typing.Output

/-! What inference leaves of the scopes. Every scope that is entered on the way is left again, and
outside of those a name is bound only by the statement that assigns or imports it: expressions leave
all scopes as they were, and a statement changes the innermost one in its own names. -/
namespace Monotype

/-- The note on a binding that is in the way of another declaration of its name. -/
def Binding.firstDeclared (name : String) (b : Binding) : Label :=
  ⟨TypeError.quote name ++ " first declared here", b.site.span⟩

/-- Brings an imported name into a table, unless the table has it. -/
def Scope.bringIn (path : String) (table : Scope) (name : Ident) : Scope :=
  if table.contains name.name then table else table.insert name.name ⟨.external path, name.site⟩

/-- The table `after` is `before` with a binding of `name`. -/
def Scope.Binds (name : Ident) (before after : Scope) : Prop :=
  ∃ t, after = before.insert name.name ⟨t, name.site⟩

/-- What becomes of the table of the scope that a walk began in. A pattern may bind what it likes:
it stands in the scope of its arm. -/
def bindingSurvey : Survey (Scope → Scope → Prop) where
  nothing := Eq
  andThen := Relation.Comp
  nothing_andThen _ := Relation.eq_comp
  andThen_nothing _ := Relation.comp_eq
  param := Scope.Binds
  assigned := Scope.Binds
  imported name before after := ∃ path, after = before.bringIn path name
  pattern _ _ _ := True
  inScope _ := Eq
  arms m before after := m before after ∨ before = after

theorem bindingSurvey_confined : bindingSurvey.Confined where
  inScope _ := rfl
  arms := by
    funext before after
    exact or_self _
  used _ := rfl
  closing _ _ _ := rfl
  component _ := rfl
  branchless _ := rfl
  whole _ := rfl

namespace Check
variable {α β : Type} {cfg : Config} {s s' : Run}

/-- Where `x` ends well it leaves the scopes around the innermost one as they were, and turns the
table of that one into another as `R` says. -/
def Frames (cfg : Config) (x : Check α) (R : Scope → Scope → Prop) : Prop :=
  ∀ s a s', x.run cfg s = (.ok a, s') →
    s'.scopes.live.tail = s.scopes.live.tail ∧ R s.scopes.innermost s'.scopes.innermost

namespace Frames
variable {R R' : Scope → Scope → Prop}

theorem mono {x : Check α} (h : Frames cfg x R)
    (hle : ∀ before after, R before after → R' before after) : Frames cfg x R' := by
  intro s a s' hrun
  obtain ⟨houter, hinner⟩ := h s a s' hrun
  exact ⟨houter, hle _ _ hinner⟩

theorem any {x : Check α} (h : Frames cfg x R) : Frames cfg x fun _ _ => True :=
  h.mono fun _ _ _ => trivial

theorem pure (a : α) : Frames cfg (pure a) Eq := by
  intro s b s' hrun
  cases hrun
  exact ⟨rfl, rfl⟩

theorem throw (e : Malformed) : Frames cfg (throw e : Check α) R := by
  intro s b s' hrun
  cases hrun

theorem bind {x : Check α} {f : α → Check β} (hx : Frames cfg x R)
    (hf : ∀ a, Frames cfg (f a) R') : Frames cfg (x >>= f) (Relation.Comp R R') := by
  intro s b s' hrun
  obtain ⟨a, s₁, hfirst, hrest, -⟩ := run_bind_eq_ok hrun
  obtain ⟨houter, hinner⟩ := hx s a s₁ hfirst
  obtain ⟨houter', hinner'⟩ := hf a s₁ b s' hrest
  exact ⟨houter'.trans houter, _, hinner, hinner'⟩

/-- An action that leaves the scopes as they are. -/
theorem act_of_scopes {a : Act} (h : ∀ s, (a.perform cfg s).2.scopes = s.scopes) :
    Frames cfg (act a) Eq := by
  intro s b s' hrun
  have hscopes := h s
  cases hrun
  exact ⟨congrArg (·.live.tail) hscopes, congrArg (·.innermost) hscopes.symm⟩

theorem act {a : Act} (hquiet : a.Quiet) : Frames cfg (act a) Eq := by
  refine act_of_scopes fun s => ?_
  cases a with
  | bindName | enter | leave | declareType | register => exact absurd hquiet id
  | _ => rfl

theorem unify (l r : Ty) (site : Site) : Frames cfg (unify l r site) Eq := by
  intro s a s' hrun
  rw [run_unify] at hrun
  cases hrun
  exact ⟨rfl, rfl⟩

theorem reportWith (labels : List Label) (site : Site) (error : TypeError Ty) :
    Frames cfg (reportWith labels site error) Eq :=
  act_of_scopes fun _ => rfl

theorem bindLocal (name : Ident) (t : Ty) : Frames cfg (bindLocal name t)
    fun before after => after = before.insert name.name ⟨t, name.site⟩ := by
  intro s a s' hrun
  cases hrun
  exact ⟨by simp, Scopes.innermost_insert _ _ _⟩

/-- Whatever is bound in a scope of its own is gone with it. -/
theorem inScope {x : Check α} (h : Frames cfg x R) : Frames cfg (inScope x) Eq := by
  intro s a s' hrun
  obtain ⟨s₁, hbody, rfl⟩ := run_inScope_eq_ok hrun
  have houter := (h _ _ _ hbody).1
  rw [Scopes.live_push, List.tail_cons] at houter
  have hlive : s₁.scopes.pop.live = s.scopes.live := Scopes.live_pop_of_tail houter
  exact ⟨congrArg List.tail hlive, (Scopes.live_eq_iff.1 hlive).1.symm⟩

end Frames

theorem frameSteps (cfg : Config) : bindingSurvey.Steps cfg (Frames cfg) where
  pure := .pure
  bind := .bind
  config h := fun s b s' hrun => h s b s' hrun
  act _ := .act
  unify := .unify

/-! ## Names -/

theorem checkExport_frames (name : Ident) : Frames cfg (checkExport name) Eq :=
  (frameSteps cfg).checkExport (.reportWith _ _ _)

theorem checkExports_frames : ∀ names : List Ident, Frames cfg (names.forM checkExport) Eq
  | [] => .pure ()
  | name :: names =>
    (frameSteps cfg).after (checkExport_frames name) fun _ => checkExports_frames names

theorem declare_frames (name : Ident) (t : Ty) (kind : SymbolKind) :
    Frames cfg (declare name t kind)
      fun before after => after = before.insert name.name ⟨t, name.site⟩ :=
  (frameSteps cfg).before (.bindLocal name t) fun _ => (frameSteps cfg).addSymbol name t kind

theorem declareAssigned_frames (name : Ident) (t : Ty) : Frames cfg (declareAssigned name t)
    fun before after => after = before.insert name.name ⟨t, name.site⟩ := by
  have hhere : Frames cfg (declaredHere name.name) Eq := (frameSteps cfg).state fun _ => .pure _
  refine (frameSteps cfg).config ((frameSteps cfg).after hhere fun here => ?_)
  split
  · refine (frameSteps cfg).after ((frameSteps cfg).earlierBinding _) fun labels => ?_
    exact (frameSteps cfg).after (.reportWith _ _ _) fun _ => declare_frames _ _ _
  · exact declare_frames _ _ _

theorem run_declaredHere (cfg : Config) (name : String) (s : Run) :
    (declaredHere name).run cfg s = (.ok (s.scopes.declaresHere name), s) := rfl

/-- A note on an earlier binding of the scope points to that and to no other of the name. -/
theorem run_earlierBinding {name : String} {b : Binding} (h : s.scopes.innermost[name]? = some b) :
    (earlierBinding name).run cfg s = (.ok [b.firstDeclared name], s) := by
  have hstate : state.run cfg s = (.ok s, s) := rfl
  rw [earlierBinding, run_bind, hstate]
  simp only [Scopes.lookup_of_innermost h, run_pure, Binding.firstDeclared]

/-- An import of a name that the scope has is reported, and nothing else happens. -/
theorem run_declareImport_of_declared {name : Ident} {b : Binding} (path : String)
    (h : s.scopes.innermost[name.name]? = some b) :
    (declareImport path name).run cfg s = (.ok (), { s with
      reports := s.reports.push ⟨.duplicateImport name.name, name.site,
        [b.firstDeclared name.name]⟩ }) := by
  rw [declareImport, run_bind, run_declaredHere, Scopes.declaresHere_of_some h]
  simp only [if_true, run_bind, run_earlierBinding h]
  rfl

theorem declareImport_frames (path : String) (name : Ident) : Frames cfg (declareImport path name)
    fun before after => after = before.bringIn path name := by
  intro s a s' hrun
  cases hb : s.scopes.innermost[name.name]? with
  | some b =>
    rw [run_declareImport_of_declared path hb] at hrun
    cases hrun
    exact ⟨rfl, (if_pos (Scopes.declaresHere_of_some hb)).symm⟩
  | none =>
    have hnone : s.scopes.innermost.contains name.name = false := Scopes.declaresHere_of_none hb
    rw [declareImport, run_bind, run_declaredHere, Scopes.declaresHere_of_none hb] at hrun
    obtain ⟨houter, hinner⟩ := declare_frames name (.external path) .imported s a s' hrun
    refine ⟨houter, hinner.trans ?_⟩
    rw [Scope.bringIn, hnone, if_neg Bool.false_ne_true]

theorem declareImports_frames (path : String) : ∀ names : List Ident,
    Frames cfg (names.forM (declareImport path))
      fun before after => after = names.foldl (Scope.bringIn path) before
  | [] => (Frames.pure ()).mono fun _ _ h => h.symm
  | name :: names => by
    refine (Frames.bind (declareImport_frames path name) fun _ =>
      declareImports_frames path names).mono ?_
    rintro before after ⟨middle, rfl, rfl⟩
    rfl

theorem declareType_frames (name : Ident) (ty : TypeExpr) :
    Frames cfg (declareType name ty) Eq :=
  (frameSteps cfg).declareType (fun _ => .act_of_scopes fun _ => rfl)
    (fun _ _ => .reportWith _ _ _) name (fun _ => .act_of_scopes fun _ => rfl) ty

/-! ## Programs -/

theorem frameRules (cfg : Config) : bindingSurvey.Rules cfg (Frames cfg) where
  toSteps := frameSteps cfg
  used _ := (frameSteps cfg).inferIdent (.reportWith _ _ _)
  param name t := (declare_frames name t .param).mono fun _ _ h => ⟨t, h⟩
  assigned name t := (declareAssigned_frames name t).mono fun _ _ h => ⟨t, h⟩
  imported path name := (declareImport_frames path name).mono fun _ _ h => ⟨path, h⟩
  exported := checkExport_frames
  declared := declareType_frames
  acceptSum adt scrutinee _ :=
    (frameSteps cfg).acceptSum .any adt scrutinee fun binder _ t => (Frames.bindLocal binder t).any
  acceptLiteral scrutinee pattern _ := (frameSteps cfg).acceptLiteral .any scrutinee pattern
  closing site _ closing := (frameSteps cfg).checkClosing site .throw closing
  component _ props := (frameSteps cfg).checkComponent props (.reportWith _ _ _)
  branchless _ := .throw _
  whole e m h := (bindingSurvey.andThen_nothing m).symm ▸ h
  inScope h := .inScope h
  arms h := h.mono fun _ _ => .inl
  unmatched site t m := by
    have hrecover : Frames cfg (do recover site (.nonAdtMatch (← apply t))) Eq :=
      (frameSteps cfg).after ((frameSteps cfg).apply t) fun _ => (frameSteps cfg).recover site rfl
    exact hrecover.mono fun _ _ => .inr

theorem inferExpr_frames (e : Expr) : Frames cfg (inferExpr e) Eq := by
  have hframes := (frameRules cfg).inferExpr e
  rwa [e.survey_confined bindingSurvey_confined] at hframes

end Check

/-- The names that a statement declares itself. -/
def Stmt.ownNames : Stmt → List Ident
  | .assign _ _ name _ => [name]
  | .importFrom _ default names _ => default.toList ++ names
  | _ => []

/-- What a statement makes of the table of its scope, where `t` is the type of an assigned value. -/
def Stmt.bindIn (t : Ty) (table : Scope) : Stmt → Scope
  | .assign _ _ name _ => table.insert name.name ⟨t, name.site⟩
  | .importFrom _ default names path => (default.toList ++ names).foldl (Scope.bringIn path) table
  | _ => table

theorem Scope.getElem?_bringIn {path : String} {table : Scope} {name : Ident} {other : String}
    (h : name.name ≠ other) : (table.bringIn path name)[other]? = table[other]? := by
  rw [bringIn]
  split
  · rfl
  · rw [Std.TreeMap.getElem?_insert, if_neg (by simpa using h)]

/-- What a statement binds has one of its own names. -/
theorem Stmt.getElem?_bindIn (t : Ty) (table : Scope) {stmt : Stmt} {other : String}
    (h : ∀ name ∈ stmt.ownNames, name.name ≠ other) :
    (stmt.bindIn t table)[other]? = table[other]? := by
  cases stmt with
  | assign site mutable name value =>
    have hne : name.name ≠ other := h name (List.mem_singleton_self _)
    rw [bindIn, Std.TreeMap.getElem?_insert, if_neg (by simpa using hne)]
  | importFrom site default names path =>
    change ∀ name ∈ default.toList ++ names, name.name ≠ other at h
    rw [bindIn]
    generalize default.toList ++ names = imported at h
    induction imported generalizing table with
    | nil => rfl
    | cons name imported ih =>
      rw [List.forall_mem_cons] at h
      rw [List.foldl_cons, ih _ h.2, Scope.getElem?_bringIn h.1]
  | _ => rfl

namespace Check
variable {cfg : Config} {s s' : Run}

theorem checkStmt_frames (stmt : Stmt) : Frames cfg (checkStmt stmt)
    fun before after => ∃ t, after = stmt.bindIn t before := by
  have hnothing : ∀ {x : Check Unit}, Frames cfg x Eq →
      Frames cfg x fun before after => ∃ _ : Ty, after = before :=
    fun h => h.mono fun _ _ heq => ⟨default, heq.symm⟩
  cases stmt with
  | assign site mutable name value =>
    have hdeclare (t : Ty) : Frames cfg (declareAssigned name t) fun before after =>
        ∃ t, after = before.insert name.name ⟨t, name.site⟩ :=
      (declareAssigned_frames name t).mono fun _ _ h => ⟨t, h⟩
    exact (frameSteps cfg).after (inferExpr_frames value) hdeclare
  | typeDecl site name ty => exact hnothing (declareType_frames name ty)
  | importFrom site default names path =>
    have hall : checkStmt (.importFrom site default names path) =
        (default.toList ++ names).forM (declareImport path) := by
      cases default with
      | none => rfl
      | some name => rfl
    rw [hall]
    exact (declareImports_frames path _).mono fun _ _ h => ⟨Inhabited.default, h⟩
  | exportNames site names => exact hnothing (checkExports_frames names)
  | expr site value =>
    exact hnothing ((frameSteps cfg).before (inferExpr_frames value) fun _ => .pure ())

/-- Expressions leave all scopes as they were, and a statement changes at most the innermost one,
in its own names: what it assigns it binds, and what it imports it brings in, unless the scope has
the name. Then this is reported, with a note on the binding that the scope has, and nothing else
happens. -/
theorem scopes_framed (cfg : Config) (s : Run) :
    (∀ e t s', (inferExpr e).run cfg s = (.ok t, s') →
      s'.scopes.live = s.scopes.live ∧ s'.scopes.depth = s.scopes.depth ∧
        s'.scopes.current = s.scopes.current) ∧
    (∀ stmt s', (checkStmt stmt).run cfg s = (.ok (), s') →
      s'.scopes.live.tail = s.scopes.live.tail ∧ s'.scopes.depth = s.scopes.depth ∧
        s'.scopes.current = s.scopes.current ∧
        (∃ t, s'.scopes.innermost = stmt.bindIn t s.scopes.innermost) ∧
        ∀ other, (∀ name ∈ stmt.ownNames, name.name ≠ other) →
          s'.scopes.innermost[other]? = s.scopes.innermost[other]?) ∧
    ∀ path name b, s.scopes.innermost[name.name]? = some b →
      (declareImport path name).run cfg s = (.ok (), { s with
        reports := s.reports.push ⟨.duplicateImport name.name, name.site,
          [b.firstDeclared name.name]⟩ }) := by
  refine ⟨fun e t s' h => ?_, fun stmt s' h => ?_, fun path name b h =>
    run_declareImport_of_declared path h⟩
  · obtain ⟨houter, hinner⟩ := inferExpr_frames e s t s' h
    have hlive : s'.scopes.live = s.scopes.live := Scopes.live_eq_iff.2 ⟨hinner.symm, houter⟩
    have hdepth := Scopes.depth_eq_of_tail houter
    exact ⟨hlive, hdepth, Scopes.current_eq_of_depth hdepth⟩
  · obtain ⟨houter, t, hinner⟩ := checkStmt_frames stmt s () s' h
    have hdepth := Scopes.depth_eq_of_tail houter
    have hcurrent := Scopes.current_eq_of_depth hdepth
    refine ⟨houter, hdepth, hcurrent, ⟨t, hinner⟩, fun other hother => ?_⟩
    rw [hinner, stmt.getElem?_bindIn t _ hother]

/-- The run with `x` in its innermost scope. -/
def shadowed (run : Run) : Run := { run with scopes := (run.scopes.insert "x" ⟨.number, {}⟩).2 }

open Sketch in
/-- A block that assigns `x`, too, and another name, and imports them inside a function. -/
def shadowBlock : Monotype.Expr :=
  (numberExpr (.block
    [.assign .letVar "x" (.literal (.string "a")), .assign .letVar "y" (.ident "missing")]
    (some (.function ["x"] (.block [.importFrom (some "x") ["y"] "m"] (some (.ident "y")))))) 0).1

def shadowImport : Stmt := .importFrom {} none [⟨"x", {}⟩, ⟨"y", {}⟩] "m"

/-- The block changes nothing; the import brings in `y` and leaves `x` to what it stood for. -/
theorem scopes_framed_shadow :
    (∃ t s', (inferExpr shadowBlock).run {} (shadowed {}) = (.ok t, s') ∧
      s'.scopes.live = (shadowed {}).scopes.live) ∧
    (∃ s', (checkStmt shadowImport).run {} (shadowed {}) = (.ok (), s') ∧
      (s'.scopes.innermost["x"]? = some ⟨.number, {}⟩ ∧
        s'.scopes.innermost["y"]? = some ⟨.external "m", {}⟩) ∧
      s'.scopes.innermost["z"]? = (shadowed {}).scopes.innermost["z"]?) ∧
    ((declareImport "m" ⟨"x", {}⟩).run {} (shadowed {})).2.reports.toList =
      [⟨.duplicateImport "x", {}, [⟨"'x' first declared here", {}⟩]⟩] := by
  obtain ⟨hexpr, hstmt, himport⟩ := scopes_framed {} (shadowed {})
  refine ⟨?_, ?_, ?_⟩
  · let out := (inferExpr shadowBlock).run {} (shadowed {})
    have hrun : out = (.ok out.1.toOption.get!, out.2) := rfl
    exact ⟨_, _, hrun, (hexpr _ _ _ hrun).1⟩
  · let out := (checkStmt shadowImport).run {} (shadowed {})
    have hrun : out = (.ok (), out.2) := rfl
    obtain ⟨-, -, -, -, hother⟩ := hstmt _ _ hrun
    exact ⟨_, hrun, by decide +kernel, hother "z" (by decide)⟩
  · rw [himport "m" ⟨"x", {}⟩ ⟨.number, {}⟩ (by decide +kernel)]
    rfl

end Check

end Monotype
