import Monotype.Proofs.Check.Survey
import Monotype.Proofs.Scopes
import Monotype.Proofs.Tree.Resolver
import Monotype.Proofs.Typing.Output
import Monotype.Proofs.Unify.Failures

/-! Names are found by lexical scoping alone. What a run knows of names, leaving out all types,
changes with each of its steps as the resolver says, so that the complaints about names are those of
the resolver. The exception are arms of matches whose value or constructor is refused: they are
passed over, or their names are not bound. -/
namespace Monotype

/-- The codes of complaints about names. -/
def namingCodes : List String := ["E3001", "E3002", "E3015", "E3020", "E3021"]

theorem TypeError.code_mem_namingCodes {τ : Type} (e : TypeError τ) :
    e.code ∈ namingCodes ↔ e.named?.isSome := by
  cases e <;> simp [named?, code, namingCodes]

/-- The complaints about names among reports. -/
def Report.namings (reports : List (Report Ty)) : List Naming :=
  (reports.filter (·.error.code ∈ namingCodes)).map fun r =>
    ⟨r.error.code, r.site.node, r.error.named?.getD ""⟩

def Output.namings (out : Output) : List Naming := Report.namings out.reports

namespace Report

@[simp] theorem namings_append (xs ys : List (Report Ty)) :
    namings (xs ++ ys) = namings xs ++ namings ys := by
  simp [namings]

theorem namings_of_unnamed {reports : List (Report Ty)}
    (h : ∀ r ∈ reports, r.error.named? = none) : namings reports = [] := by
  simp only [namings, TypeError.code_mem_namingCodes, List.map_eq_nil_iff, List.filter_eq_nil_iff]
  intro r hr
  simp [h r hr]

theorem namings_singleton {r : Report Ty} {name : String} (h : r.error.named? = some name) :
    namings [r] = [⟨r.error.code, r.site.node, name⟩] := by
  simp [namings, TypeError.code_mem_namingCodes, h]

end Report

namespace Run

/-- What a run knows of names. -/
def resolver (run : Run) : Resolver where
  scopes := run.scopes.live.map fun table name => table.contains name
  constructors name := (run.registry.constructor? name).map (·.adtName)
  found := Report.namings run.reports.toList

/-- Constructors are found under their own names. -/
def Keyed (run : Run) : Prop :=
  ∀ name c, run.registry.constructor? name = some c → c.name = name

theorem any_contains (tables : List Scope) (name : String) :
    (tables.map fun table name => table.contains name).any (· name) =
      (tables.findSome? (·[name]?)).isSome := by
  induction tables with
  | nil => rfl
  | cons table tables ih =>
    have hhead : table.contains name = table[name]?.isSome :=
      Std.TreeMap.contains_eq_isSome_getElem?
    simp only [List.map_cons, List.any_cons, ih, List.findSome?_cons, hhead]
    cases table[name]? with
    | none => rfl
    | some b => rfl

theorem knows_resolver (run : Run) (name : String) :
    run.resolver.knows name = (run.value? name).isSome := by
  have hscopes : run.resolver.scopes.any (· name) = (run.scopes.lookup name).isSome :=
    any_contains run.scopes.live name
  rw [Resolver.knows, hscopes, Run.value?]
  cases run.scopes.lookup name with
  | none => simp [resolver]
  | some b => rfl

theorem hasHere_resolver (run : Run) (name : String) :
    run.resolver.hasHere name = run.scopes.declaresHere name := by
  simp [resolver, Resolver.hasHere, run.scopes.live_eq, Scopes.declaresHere]

theorem resolver_bindName (run : Run) (name : Ident) (b : Binding) :
    ({ run with scopes := (run.scopes.insert name.name b).2 } : Run).resolver =
      run.resolver.bind name := by
  have hhead : ∀ n, (run.scopes.innermost.insert name.name b).contains n =
      (decide (n = name.name) || run.scopes.innermost.contains n) := by
    intro n
    rw [Std.TreeMap.contains_insert, Bool.eq_iff_iff]
    simp only [Bool.or_eq_true, beq_iff_eq, Std.compare_eq_iff_eq, decide_eq_true_eq]
    exact or_congr_left eq_comm
  simp only [resolver, Scopes.live_insert, List.map_cons, hhead, Resolver.bind,
    run.scopes.live_eq, List.tail_cons, List.modifyHead_cons]

theorem resolver_enter (run : Run) :
    ({ run with scopes := run.scopes.push.2 } : Run).resolver =
      { run.resolver with scopes := (fun _ => false) :: run.resolver.scopes } := by
  simp [resolver]

/-- From `s` to `s'` names have come to be as in `r`; of the scopes, only the innermost can have
changed. -/
structure Renamed (s s' : Run) (r : Resolver) : Prop where
  keyed : s'.Keyed
  outer : s'.scopes.live.tail = s.scopes.live.tail
  resolver : s'.resolver = r

end Run

namespace Check
variable {α β : Type} {cfg : Config} {s : Run} {r : Resolver}

/-- The codes of the complaints after which an arm is passed over or its name is not bound. -/
def skipsBinders : List String := ["E3012", "E3014"]

/-- Failures of a unification are about types, and point to no other place. -/
theorem failureReport_quiet (s : Store) (lenient : Bool) (l r : Ty) (site : Site) :
    ∀ report ∈ (s.unify lenient l r).1.map (failureReport site),
      report.error.named? = none ∧ report.labels = [] := by
  refine List.forall_mem_map.2 fun e he => ⟨?_, rfl⟩
  have hfailure := Solve.isFailure_of_unify s lenient l r e he
  cases e <;> first | rfl | exact absurd hfailure id

/-- If a run of `x` from `s` ends well and binds the names of all arms, names are then as in `r`. -/
def ResolvesFrom (cfg : Config) (x : Check α) (s : Run) (r : Resolver) : Prop :=
  ∀ a s', x.run cfg s = (.ok a, s') →
    (∀ report ∈ reported (log cfg x s), report.error.code ∉ skipsBinders) → s.Keyed →
    s.Renamed s' r

/-- From every state, `x` does to names what `f` does. -/
def Resolves (cfg : Config) (x : Check α) (f : Resolver → Resolver) : Prop :=
  ∀ s, ResolvesFrom cfg x s (f s.resolver)

namespace ResolvesFrom

theorem pure (a : α) : ResolvesFrom cfg (pure a) s s.resolver := by
  intro b s' hrun _ hkeyed
  cases hrun
  exact ⟨hkeyed, rfl, rfl⟩

theorem act {a : Act} (h : s.Keyed → s.Renamed (a.perform cfg s).2 r) :
    ResolvesFrom cfg (act a) s r := by
  intro b s' hrun _ hkeyed
  cases hrun
  exact h hkeyed

theorem bind {x : Check α} {f : α → Check β} {r₁ : Resolver} (hx : ResolvesFrom cfg x s r₁)
    (hf : ∀ a s₁, x.run cfg s = (.ok a, s₁) → s₁.resolver = r₁ → ResolvesFrom cfg (f a) s₁ r) :
    ResolvesFrom cfg (x >>= f) s r := by
  intro b s' hrun hnone hkeyed
  obtain ⟨a, s₁, hfirst, hrest, hlog⟩ := run_bind_eq_ok hrun
  rw [hlog, reported_append, List.forall_mem_append] at hnone
  have hmiddle := hx a s₁ hfirst hnone.1 hkeyed
  have hend := hf a s₁ hfirst hmiddle.resolver b s' hrest hnone.2 hmiddle.keyed
  exact ⟨hend.keyed, hend.outer.trans hmiddle.outer, hend.resolver⟩

/-- A question about the state does nothing to names. -/
theorem ask {x : Check α} {f : α → Check β} {a : α} (hx : x.run cfg s = (.ok a, s))
    (hf : ResolvesFrom cfg (f a) s r) : ResolvesFrom cfg (x >>= f) s r := by
  have hsame : ResolvesFrom cfg x s s.resolver := by
    intro a' s' hrun _ hkeyed
    rw [hx] at hrun
    cases hrun
    exact ⟨hkeyed, rfl, rfl⟩
  refine hsame.bind fun a' s₁ hrun _ => ?_
  rw [hx] at hrun
  cases hrun
  exact hf

theorem state {f : Run → Check β} (hf : ResolvesFrom cfg (f s) s r) :
    ResolvesFrom cfg (Check.state >>= f) s r :=
  .ask rfl hf

theorem config {f : Config → Check β} (hf : ResolvesFrom cfg (f cfg) s r) :
    ResolvesFrom cfg (Check.config >>= f) s r :=
  .ask rfl hf

/-- Nothing has to be shown of what follows a refusal. -/
theorem refused {x : Check α}
    (h : ∃ report ∈ reported (log cfg x s), report.error.code ∈ skipsBinders) :
    ResolvesFrom cfg x s r := by
  intro a s' _ hnone
  obtain ⟨report, hreport, hcode⟩ := h
  exact absurd hcode (hnone report hreport)

end ResolvesFrom

namespace Resolves
variable {f g : Resolver → Resolver}

theorem pure (a : α) : Resolves cfg (pure a) id := fun _ => .pure a

theorem bind {x : Check α} {next : α → Check β} (hx : Resolves cfg x f)
    (hnext : ∀ a, Resolves cfg (next a) g) : Resolves cfg (x >>= next) (g ∘ f) := by
  intro s
  refine (hx s).bind fun a s₁ _ hr => ?_
  have hrest := hnext a s₁
  rwa [hr] at hrest

theorem throw (e : Malformed) : Resolves cfg (throw e : Check α) f := by
  intro s a s' hrun
  cases hrun

/-- An action that is not about names leaves them as they are. -/
theorem act {a : Act} (hquiet : a.Quiet) : Resolves cfg (act a) id := by
  intro s
  refine .act fun hkeyed => ?_
  cases a with
  | report r =>
    have hnone := Report.namings_of_unnamed (List.forall_mem_singleton.2 hquiet.1)
    refine ⟨hkeyed, rfl, ?_⟩
    simp [Act.perform, Run.resolver, hnone]
  | bindName | enter | leave | declareType | register => exact absurd hquiet id
  | _ => exact ⟨hkeyed, rfl, rfl⟩

theorem unify (l r : Ty) (site : Site) : Resolves cfg (unify l r site) id := by
  intro s a s' hrun _ hkeyed
  rw [run_unify] at hrun
  cases hrun
  have hnone : Report.namings
      ((s.store.unify cfg.dynamicImports l r).1.map (failureReport site)) = [] :=
    Report.namings_of_unnamed fun r hr => (failureReport_quiet _ _ _ _ _ r hr).1
  refine ⟨hkeyed, rfl, ?_⟩
  simp [Run.resolver, Sink.toList, hnone]

theorem bindLocal (name : Ident) (t : Ty) : Resolves cfg (bindLocal name t) (.bind name) := by
  intro s
  refine .act fun hkeyed => ⟨hkeyed, ?_, s.resolver_bindName name _⟩
  simp [Act.perform]

theorem complain (labels : List Label) (name : Ident) {error : TypeError Ty}
    (hname : error.named? = some name.name) :
    Resolves cfg (reportWith labels name.site error) (.complain error.code name) := by
  intro s
  have hfound := Report.namings_singleton (r := { error, site := name.site, labels }) hname
  refine .act fun hkeyed => ⟨hkeyed, rfl, ?_⟩
  simp [Act.perform, Run.resolver, Resolver.complain, hfound]

theorem inScope {x : Check α} (h : Resolves cfg x f) :
    Resolves cfg (inScope x) (Resolver.inScope f) := by
  intro s a s' hrun hnone hkeyed
  obtain ⟨s₁, hbody, rfl⟩ := run_inScope_eq_ok hrun
  rw [reported_inScope] at hnone
  have hend := h _ _ _ hbody hnone hkeyed
  -- the body can only change its own scope, so the outer ones are back when that is left
  have houter : s₁.scopes.live.tail = s.scopes.live := by
    rw [hend.outer, Scopes.live_push, List.tail_cons]
  have hlive : s₁.scopes.pop.live = s.scopes.live := Scopes.live_pop_of_tail houter
  refine ⟨hend.keyed, congrArg List.tail hlive, ?_⟩
  have hresolver : s₁.resolver =
      f { s.resolver with scopes := (fun _ => false) :: s.resolver.scopes } := by
    rw [← Run.resolver_enter]
    exact hend.resolver
  rw [Resolver.inScope, ← hresolver]
  simp [Run.resolver, hlive]

end Resolves

theorem nameSteps (cfg : Config) : (Resolver.survey cfg).Steps cfg (Resolves cfg) where
  pure := .pure
  bind := .bind
  config h := fun s => .config (h s)
  act _ := .act
  unify := .unify

theorem Resolves.declare (name : Ident) (t : Ty) (kind : SymbolKind) :
    Resolves cfg (declare name t kind) (.bind name) :=
  (nameSteps cfg).before (.bindLocal name t) fun _ => (nameSteps cfg).addSymbol name t kind

/-! ## Names that are used -/

/-- After a lookup, there is a complaint exactly if the name is not in sight. -/
theorem lookupValue_resolves {f : Option Ty → Check α} {code : String} {name : Ident}
    (hsome : ∀ t, Resolves cfg (f (some t)) id)
    (hnone : Resolves cfg (f none) (.complain code name)) :
    Resolves cfg (lookupValue name.name >>= f) (.require code name) := by
  intro s
  refine .ask (run_lookupValue cfg name.name s) ?_
  rw [Resolver.require, s.knows_resolver]
  cases s.value? name.name with
  | some t => exact hsome t s
  | none => exact hnone s

theorem inferIdent_resolves (name : Ident) :
    Resolves cfg (inferIdent name) (.require "E3001" name) :=
  lookupValue_resolves (fun t => .pure t)
    ((nameSteps cfg).before (.complain [] name rfl) fun _ => (nameSteps cfg).fresh)

theorem checkExport_resolves (name : Ident) :
    Resolves cfg (checkExport name) (.require "E3021" name) :=
  lookupValue_resolves (fun _ => .pure ()) (.complain [] name rfl)

theorem checkComponent_resolves (name : Ident) (props : Ty) :
    Resolves cfg (checkComponent name props) ((Resolver.survey cfg).component name) := by
  refine (nameSteps cfg).config ?_
  simp only [Resolver.survey]
  split
  · exact .pure ()
  · exact lookupValue_resolves (fun t => .unify t _ _) (.complain [] name rfl)

/-! ## Names that are declared -/

theorem declareImport_resolves (path : String) (name : Ident) :
    Resolves cfg (declareImport path name) (.bringIn name) := by
  intro s
  refine .ask (a := s.scopes.declaresHere name.name) rfl ?_
  rw [Resolver.bringIn, s.hasHere_resolver]
  split
  · have hagain : Resolves cfg (do
        reportWith (← earlierBinding name.name) name.site (.duplicateImport name.name))
        (.complain "E3002" name) :=
      (nameSteps cfg).after ((nameSteps cfg).earlierBinding _) fun labels =>
        .complain labels name rfl
    exact hagain s
  · exact Resolves.declare _ _ _ s

theorem declareAssigned_resolves (name : Ident) (t : Ty) :
    Resolves cfg (declareAssigned name t) (.assign cfg.strictRedeclaration name) := by
  intro s
  refine .config (.ask (a := s.scopes.declaresHere name.name) rfl ?_)
  rw [Resolver.assign, s.hasHere_resolver]
  dsimp only
  split
  · have hagain : Resolves cfg (do
        reportWith (← earlierBinding name.name) name.site (.redeclared name.name)
        declare name t .var) (Resolver.bind name ∘ Resolver.complain "E3020" name) :=
      (nameSteps cfg).after ((nameSteps cfg).earlierBinding _) fun labels =>
        .bind (.complain labels name rfl) fun _ => .declare name t .var
    exact hagain s
  · exact Resolves.declare name t .var s

/-! ## Constructors -/

/-- The constructors of a declaration have the names of its options. -/
theorem lowerOptions_names (adt : String) : ∀ {options : List AdtOption} {s s' : Run}
    {cs : List Constructor}, (lowerOptions adt options).run cfg s = (.ok cs, s') →
    List.Forall₂ (fun option c => c.name = option.name.name ∧ c.adtName = adt) options cs
  | [], _, _, _, h => by
    cases h
    exact .nil
  | option :: options, _, _, _, h => by
    obtain ⟨ps, s₁, -, h, -⟩ := run_bind_eq_ok h
    obtain ⟨cs, s₂, hcs, h, -⟩ := run_bind_eq_ok h
    cases h
    exact .cons ⟨rfl, rfl⟩ (lowerOptions_names adt hcs)

theorem register_resolves {adt : String} {option : Ident} {c : Constructor}
    (hname : c.name = option.name) (hadt : c.adtName = adt) :
    Resolves cfg (act (.register c)) (.enter adt option) := by
  intro s
  refine .act fun hkeyed => ⟨?_, rfl, ?_⟩
  · intro name c' hc'
    simp only [Act.perform, Registry.constructor?_register] at hc'
    split at hc'
    · next heq =>
      cases hc'
      exact heq
    · exact hkeyed name c' hc'
  · simp only [Act.perform, Run.resolver, Registry.constructor?_register, Resolver.enter, hname]
    congr 1
    funext n
    by_cases hn : option.name = n
    · simp [hn, hadt]
    · simp [hn, Ne.symm hn]

theorem declareConstructor_resolves {adt : String} {option : Ident} {c : Constructor}
    (hname : c.name = option.name) (hadt : c.adtName = adt) :
    Resolves cfg (declareConstructor adt option c)
      (.construct cfg.strictRedeclaration adt option) := by
  intro s a s' hrun hnone hkeyed
  refine ((register_resolves hname hadt s).bind fun displaced s₁ hrun₁ hr => ?_)
    a s' hrun hnone hkeyed
  have hdisplaced : displaced = s.registry.constructor? option.name := by
    cases hrun₁
    rw [← hname]
    rfl
  have hheld : s.resolver.constructors option.name = displaced.map (·.adtName) := by
    rw [hdisplaced]
    rfl
  have hlist : ResolvesFrom cfg (addSymbol option c.ty .constructor) s₁
      (s.resolver.enter adt option) :=
    hr ▸ (nameSteps cfg).addSymbol option c.ty .constructor s₁
  rw [Resolver.construct, hheld]
  refine .config ?_
  cases hstrict : cfg.strictRedeclaration with
  | false => exact hlist
  | true =>
    cases hprevious : displaced with
    | none => exact hlist
    | some previous =>
      -- the complaint names the constructor that was displaced, which stood under this name
      have hsame : previous.name = option.name :=
        hkeyed _ _ (hdisplaced.symm.trans hprevious)
      by_cases hother : previous.adtName = adt
      · simpa [hother] using hlist
      · have hagain : Resolves cfg (do
            report option.site (.redeclared previous.name)
            addSymbol option c.ty .constructor) (.complain "E3020" option) :=
          (nameSteps cfg).before (.complain [] option (congrArg some hsame)) fun _ =>
            (nameSteps cfg).addSymbol _ _ _
        simpa [hother, hr] using hagain s₁

theorem declareConstructors_resolves {adt : String} {options : List AdtOption}
    {cs : List Constructor} (cfg : Config)
    (h : List.Forall₂ (fun option c => c.name = option.name.name ∧ c.adtName = adt) options cs) :
    Resolves cfg (declareConstructors adt options cs) (fun r =>
      options.foldl (fun r option => r.construct cfg.strictRedeclaration adt option.name) r) := by
  induction h with
  | nil => exact .pure _
  | cons hc _ ih => exact .bind (declareConstructor_resolves hc.1 hc.2) fun _ => ih

/-- Names of types are no names of values. -/
theorem declare_resolves (name : String) (d : TypeDef) (origin : NodeId) :
    Resolves cfg (act (.declareType name d origin)) id :=
  fun _ => .act fun hkeyed => ⟨hkeyed, rfl, rfl⟩

theorem declareType_resolves (name : Ident) (ty : TypeExpr) :
    Resolves cfg (declareType name ty) (.declare cfg.strictRedeclaration name ty) := by
  have hhead : ∀ (d : TypeDef) {rest : Check Unit} {f : Resolver → Resolver},
      Resolves cfg rest f → Resolves cfg (do
        act (.declareType name.name d name.site.node)
        addSymbol name (d.toTy name.name) .type
        rest) f := fun d _ _ h =>
    (nameSteps cfg).after (declare_resolves _ _ _) fun _ =>
      (nameSteps cfg).after ((nameSteps cfg).addSymbol _ _ _) fun _ => h
  intro s
  refine ((nameSteps cfg).lowerDef name.name ty s).bind fun d s₁ hrun hr => ?_
  cases ty with
  | adt site options =>
    obtain ⟨cs, s₂, hcs, hrun, -⟩ := run_bind_eq_ok hrun
    cases hrun
    have hconstructors := declareConstructors_resolves cfg (lowerOptions_names name.name hcs)
    have hrest := hhead (.adt cs) hconstructors s₁
    rw [hr] at hrest
    exact hrest
  | _ =>
    have hrest := hhead d (.pure ()) s₁
    rw [hr] at hrest
    exact hrest

/-! ## Patterns -/

theorem acceptPayload_resolves (param : Ty) (pattern : Pattern) (site : Site) (name : Ident) :
    Resolves cfg (acceptPayload param pattern) (.matching (.constructor site name [pattern])) := by
  cases pattern with
  | wildcard site => exact .pure _
  | literal site l => exact .unify _ _ _
  | binding site name => exact .declare _ _ _
  | constructor site name args =>
    exact (nameSteps cfg).report site rfl

/-- The one binder is bound, whether or not the constructor has a parameter. -/
theorem acceptArgs_resolves (site : Site) (name : Ident) (params : List Ty) (args : List Pattern) :
    Resolves cfg (acceptArgs site name.name params args)
      (.matching (.constructor site name args)) := by
  have hreport : ∀ {e : TypeError Ty}, e.named? = none → Resolves cfg (report site e) id :=
    (nameSteps cfg).report site
  match args with
  | [] =>
    simp only [acceptArgs]
    split
    · exact .pure _
    · exact hreport rfl
  | [arg] =>
    simp only [acceptArgs]
    split
    · exact acceptPayload_resolves _ arg site name
    · refine (nameSteps cfg).after (hreport rfl) fun _ => ?_
      cases arg with
      | binding _ binder =>
        exact (nameSteps cfg).after (nameSteps cfg).fresh fun t => .bindLocal binder t
      | _ => exact .pure _
  | first :: second :: rest =>
    have hnothing : Resolver.matching (.constructor site name (first :: second :: rest)) = id := by
      cases first <;> rfl
    rw [hnothing]
    exact hreport (e := .unsupportedPattern) rfl

theorem acceptSum_resolves (adt : String) (scrutinee : Ty) (pattern : Pattern) :
    Resolves cfg (acceptSum adt scrutinee pattern) (.matching pattern) := by
  cases pattern with
  | wildcard site => exact .pure _
  | literal site l => exact .unify _ _ _
  | binding site name => exact (nameSteps cfg).report site rfl
  | constructor site name args =>
    intro s
    refine .state ?_
    split
    · exact acceptArgs_resolves _ _ _ _ s
    · exact .refused ⟨_, List.mem_cons_self, by simp [TypeError.code, skipsBinders]⟩

theorem acceptLiteral_resolves (scrutinee : Ty) {pattern : Pattern}
    (hplain : pattern.isPlain = true) :
    Resolves cfg (acceptLiteral scrutinee pattern) (.matching pattern) := by
  cases pattern with
  | wildcard site => exact .pure _
  | literal site l => exact .unify _ _ _
  | binding site name | constructor site name args => simp [Pattern.isPlain] at hplain

theorem checkClosing_resolves (site : Site) (name : Ident) (closing : Option Ident) :
    Resolves cfg (checkClosing site name closing) id := by
  cases closing with
  | none => exact .pure _
  | some closing =>
    simp only [checkClosing]
    split
    · exact .pure _
    · exact .throw _

theorem nameRules (cfg : Config) : (Resolver.survey cfg).Rules cfg (Resolves cfg) where
  toSteps := nameSteps cfg
  used := inferIdent_resolves
  param name t := .declare name t .param
  assigned := declareAssigned_resolves
  imported := declareImport_resolves
  exported := checkExport_resolves
  declared := declareType_resolves
  acceptSum := acceptSum_resolves
  acceptLiteral scrutinee _ := acceptLiteral_resolves scrutinee
  closing := checkClosing_resolves
  component := checkComponent_resolves
  branchless _ := .throw _
  whole _ _ h := h
  inScope := .inScope
  arms h := h
  unmatched site t f s := .refused ⟨_, List.mem_cons_self, by simp [TypeError.code, skipsBinders]⟩

end Check

namespace Checker

/-- The complaints about names in a check that refused no match and no constructor in a pattern are
those of the resolver, which knows nothing of types. -/
theorem namings_eq_resolved (c : Checker) (p : Program) {out : Output}
    (hout : (c.check p).1 = .ok out) (hforeign : "E3012" ∉ out.codes)
    (hmatched : "E3014" ∉ out.codes) : out.namings = namings c.config p := by
  obtain ⟨s, hrun, -, hhands⟩ := run_of_check hout
  have hnone : ∀ r ∈ Check.reported (Check.log c.config (Check.checkStmts p) c.run.reset),
      r.error.code ∉ Check.skipsBinders := by
    rw [← hhands.reports_eq hrun]
    intro r hr hcode
    have hmem : r.error.code ∈ out.codes := List.mem_map_of_mem hr
    simp only [Check.skipsBinders, List.mem_cons, List.not_mem_nil, or_false] at hcode
    rcases hcode with hcode | hcode
    · exact hforeign (hcode ▸ hmem)
    · exact hmatched (hcode ▸ hmem)
  have hkeyed : c.run.reset.Keyed := by
    intro name c' hc'
    simp [Run.reset, Registry.constructor?] at hc'
  have hstart : c.run.reset.resolver = {} := by
    simp [Run.reset, Run.resolver, Registry.constructor?, Sink.toList, Report.namings]
  have hend := (Check.nameRules c.config).checkStmts p _ _ _ hrun hnone hkeyed
  rw [Output.namings, hhands.reports, namings, ← hstart, ← hend.resolver]
  rfl

open Sketch in
/-- Names that leave sight with a block and with an arm, are imported or declared twice, or are held
by a constructor of another sum type. -/
def scopesProgram : Program :=
  (build [
    .importFrom (some "Panel") ["Panel"] "ui",
    .typeDecl "Shape" (.adt [.prim "Circle" .number, .bare "Empty"]),
    .assign .constVar "shape" (.call (.ident "Circle") [.literal (.number 1)]),
    .assign .constVar "shape" (.call (.ident "Empty") []),
    .expr (.matchOn (.ident "shape") [
      (.constructor "Circle" [.binding "r"], .ident "r"),
      (.constructor "Empty" [], .ident "r")]),
    .expr (.block [.assign .letVar "inner" (.literal (.number 1)),
      .typeDecl "Hole" (.adt [.bare "Empty", .bare "Deep"])] (some (.ident "inner"))),
    .exportNames ["inner", "Deep"],
    .expr (.markup (.selfClosing "Missing" []))]).1

def strict : Config := { strictRedeclaration := true }

theorem namings_eq_resolved_scopes :
    ∃ out, checkProgram strict scopesProgram = .ok out ∧
      "E3012" ∉ out.codes ∧ "E3014" ∉ out.codes ∧
      out.namings = namings strict scopesProgram ∧
      (namings strict scopesProgram).map (fun naming => (naming.code, naming.name)) =
        [("E3002", "Panel"), ("E3020", "shape"), ("E3001", "r"), ("E3020", "Empty"),
          ("E3021", "inner"), ("E3015", "Missing")] := by
  have hfound : (checkProgram strict scopesProgram).toOption.map
      (fun out => (out.codes.contains "E3012", out.codes.contains "E3014")) =
        some (false, false) := by
    decide +kernel
  cases hout : checkProgram strict scopesProgram with
  | error e => simp [hout, Except.toOption] at hfound
  | ok out =>
    obtain ⟨hforeign, hmatched⟩ : "E3012" ∉ out.codes ∧ "E3014" ∉ out.codes := by
      simpa [hout, Except.toOption] using hfound
    exact ⟨out, rfl, hforeign, hmatched,
      namings_eq_resolved { config := strict } scopesProgram hout hforeign hmatched,
      by decide +kernel⟩

end Checker

end Monotype
