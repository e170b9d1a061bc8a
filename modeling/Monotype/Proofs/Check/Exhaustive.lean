import Monotype.Proofs.Check.Parts
import Monotype.Proofs.Check.Survey
import Monotype.Proofs.Typing.Output

/-! Exhaustive matches. What counts as covered is read off the patterns alone, after all arms have
been checked; that the patterns have been accepted by then, and that the constructors are the ones
that they were accepted for, makes it say something about the values of the sum type. -/
namespace Monotype

/-! ## Declared types that stay -/

theorem Registry.constructorsOf?_congr {r r' : Registry} {adt : String}
    (h : r'.type? adt = r.type? adt) : r'.constructorsOf? adt = r.constructorsOf? adt := by
  rw [constructorsOf?, constructorsOf?, h]

theorem Registry.constructorOf?_congr {r r' : Registry} {adt name : String}
    (h : r'.type? adt = r.type? adt) : r'.constructorOf? adt name = r.constructorOf? adt name := by
  rw [constructorOf?, constructorOf?, constructorsOf?_congr h]

/-- The names of all types that are declared in a walk. -/
def typeSurvey : Survey (List String) where
  nothing := []
  andThen := (· ++ ·)
  nothing_andThen := List.nil_append
  andThen_nothing := List.append_nil
  declared name _ := [name.name]

/-- The names of the types that are declared in an expression, at any depth. -/
def Expr.declaredTypes (e : Expr) : List String := e.survey typeSurvey

namespace Check
variable {α β : Type} {cfg : Config} {s s' : Run}

/-- However `x` ends, the types of all names but those among `names` are as before. -/
def Redeclares (cfg : Config) (x : Check α) (names : List String) : Prop :=
  ∀ s name, name ∉ names → (x.run cfg s).2.registry.type? name = s.registry.type? name

namespace Redeclares
variable {m n : List String}

theorem mono {x : Check α} (h : Redeclares cfg x m) (hsub : m ⊆ n) : Redeclares cfg x n :=
  fun s name hname => h s name fun hmem => hname (hsub hmem)

theorem pure (a : α) : Redeclares cfg (pure a) [] := fun _ _ _ => rfl

theorem throw (e : Malformed) : Redeclares cfg (throw e : Check α) m := fun _ _ _ => rfl

theorem bind {x : Check α} {f : α → Check β} (hx : Redeclares cfg x m)
    (hf : ∀ a, Redeclares cfg (f a) n) : Redeclares cfg (x >>= f) (m ++ n) := by
  intro s name hname
  rw [List.mem_append, not_or] at hname
  have hfirst := hx s name hname.1
  rw [run_bind]
  rcases hrun : x.run cfg s with ⟨r, s₁⟩
  rw [hrun] at hfirst
  cases r with
  | error e => exact hfirst
  | ok a => exact (hf a s₁ name hname.2).trans hfirst

theorem act_of_types {a : Act} (h : ∀ s, (a.perform cfg s).2.registry.types = s.registry.types) :
    Redeclares cfg (act a) [] :=
  fun s name _ => congrArg (·[name]?) (h s)

theorem act {a : Act} (h : a.Lasting) : Redeclares cfg (act a) [] := by
  refine act_of_types fun s => ?_
  cases a with
  | declareType | register => exact absurd h id
  | _ => rfl

theorem unify (l r : Ty) (site : Site) : Redeclares cfg (unify l r site) [] := by
  intro s name _
  rw [run_unify]

theorem declareType (name : String) (d : TypeDef) (origin : NodeId) :
    Redeclares cfg (Check.act (.declareType name d origin)) [name] := by
  intro s other hother
  have hne : name ≠ other := fun h => hother (h ▸ List.mem_singleton_self _)
  exact (s.registry.type?_declare name other d origin).trans (if_neg hne)

theorem inScope {x : Check α} (h : Redeclares cfg x m) : Redeclares cfg (inScope x) m := by
  have hleave (a : α) : Redeclares cfg (do Check.act .leave; return a) [] :=
    .bind (.act (a := .leave) trivial) fun _ => .pure a
  have hbody : Redeclares cfg (x >>= fun a => do Check.act .leave; return a) (m ++ []) :=
    h.bind hleave
  rw [List.append_nil] at hbody
  exact .bind (.act (a := .enter) trivial) fun _ => hbody

theorem composes : Composes cfg (fun x => Redeclares cfg x []) where
  pure := .pure
  bind := .bind
  config h := h
  act _ := .act
  unify := .unify

end Redeclares

theorem typeSteps (cfg : Config) : typeSurvey.Steps cfg (Redeclares cfg) where
  pure := .pure
  bind := .bind
  config h := h
  act a hquiet := .act (by cases a <;> trivial)
  unify := .unify

theorem declareType_redeclares (name : Ident) (ty : TypeExpr) :
    Redeclares cfg (declareType name ty) [name.name] :=
  (typeSteps cfg).declareType (fun _ => .act_of_types fun _ => rfl)
    (fun _ _ => Redeclares.composes.report _ _) name (fun d => .declareType _ d _) ty

theorem typeRules (cfg : Config) : typeSurvey.Rules cfg (Redeclares cfg) where
  toSteps := typeSteps cfg
  used := Redeclares.composes.inferIdent
  param name t := Redeclares.composes.declare name t .param
  assigned := Redeclares.composes.declareAssigned
  imported := Redeclares.composes.declareImport
  exported := Redeclares.composes.checkExport
  declared := declareType_redeclares
  acceptSum := Redeclares.composes.acceptSum
  acceptLiteral scrutinee pattern _ := Redeclares.composes.acceptLiteral scrutinee pattern
  closing site _ closing := (typeSteps cfg).checkClosing site .throw closing
  component := Redeclares.composes.checkComponent
  branchless _ := .throw _
  whole e m h := (typeSurvey.andThen_nothing m).symm ▸ h
  inScope h := .inScope h
  arms h := h
  unmatched site t m := by
    have hrecover : Redeclares cfg (do recover site (.nonAdtMatch (← apply t))) [] :=
      (typeSteps cfg).after ((typeSteps cfg).apply t) fun _ => (typeSteps cfg).recover site rfl
    exact hrecover.mono (List.nil_subset m)

end Check

/-! ## Patterns -/

namespace Pattern

/-- A pattern that fits every value. -/
def isIrrefutable : Pattern → Bool
  | binding _ _ | wildcard _ => true
  | _ => false

/-- A pattern for the constructor `name` that asks nothing of its argument. -/
def Catches (p : Pattern) (name : String) : Prop :=
  ∃ site ident args, p = constructor site ident args ∧ ident.name = name ∧ args.length ≤ 1 ∧
    ∀ arg ∈ args, arg.isIrrefutable = true

theorem covered?_eq_some_iff {p : Pattern} {name : String} :
    p.covered? = some name ↔ p.Catches name := by
  constructor
  · intro h
    unfold covered? at h
    split at h
    · next site ident => exact ⟨site, ident, [], rfl, by simpa using h, by simp, by simp⟩
    · next site ident psite b =>
      exact ⟨site, ident, [.binding psite b], rfl, by simpa using h, le_rfl,
        by simp [isIrrefutable]⟩
    · next site ident psite =>
      exact ⟨site, ident, [.wildcard psite], rfl, by simpa using h, le_rfl, by simp [isIrrefutable]⟩
    · simp at h
  · rintro ⟨site, ident, args, rfl, rfl, hlength, hargs⟩
    match args, hlength with
    | [], _ => rfl
    | [arg], _ =>
      have harg := hargs arg (List.mem_singleton_self arg)
      cases arg with
      | binding | wildcard => rfl
      | literal | constructor => simp [isIrrefutable] at harg

instance (p : Pattern) (name : String) : Decidable (p.Catches name) :=
  decidable_of_iff _ covered?_eq_some_iff

theorem uncovered_eq (patterns : List Pattern) (constructors : List Constructor) :
    uncovered patterns constructors =
      (constructors.map (·.name)).filter fun name => ∀ p ∈ patterns, ¬ p.Catches name := by
  simp only [uncovered, covered?_eq_some_iff]
  refine List.filter_congr fun name _ => ?_
  rw [Bool.eq_iff_iff]
  simp

end Pattern

namespace Check
variable {cfg : Config} {s s' : Run}

/-- Arguments are accepted without complaint only if there are as many as parameters. -/
theorem length_of_acceptArgs_silent {site : Site} {name : String} {params : List Ty} :
    ∀ {args : List Pattern}, reported (log cfg (acceptArgs site name params args) s) = [] →
      args.length = params.length
  | [], h => by
    cases params with
    | nil => rfl
    | cons param params => exact absurd h (List.cons_ne_nil _ _)
  | [arg], h => by
    match params with
    | [param] => rfl
    | [] | _ :: _ :: _ =>
      -- the number is complained about first, whatever the argument is
      cases arg <;> exact absurd h (List.cons_ne_nil _ _)
  | _ :: _ :: _, h => absurd h (List.cons_ne_nil _ _)

/-- A pattern of a constructor is accepted without complaint only if the sum type lists the
constructor, and then for the number of its parameters. -/
theorem listed_of_acceptSum_silent {adt : String} {t : Ty} {site : Site} {name : Ident}
    {args : List Pattern}
    (h : reported (log cfg (acceptSum adt t (.constructor site name args)) s) = []) :
    ∃ c, s.registry.constructorOf? adt name.name = some c ∧ args.length = c.params.length := by
  have hstate : state.run cfg s = (.ok s, s) := rfl
  rw [acceptSum, log_bind, reported_append, hstate, List.append_eq_nil_iff] at h
  replace h := h.2
  dsimp only at h
  cases hc : s.registry.constructorOf? adt name.name with
  | none =>
    rw [hc] at h
    exact absurd h (List.cons_ne_nil _ _)
  | some c =>
    rw [hc] at h
    exact ⟨c, rfl, length_of_acceptArgs_silent h⟩

/-! ## Arms -/

/-- What is complained about in an arm. -/
structure ArmFindings where
  pattern : List (Report Ty)
  body : List (Report Ty)

def ArmFindings.all (f : ArmFindings) : List (Report Ty) := f.pattern ++ f.body

/-- The body of an arm, whose type is that of the match. -/
def inferArmBody (result : Ty) (body : Expr) : Check Unit := do
  unify result (← inferExpr body) body.site

theorem inferArms_cons (accept : Pattern → Check Unit) (result : Ty) (site : Site)
    (pattern : Pattern) (body : Expr) (arms : List Arm) :
    inferArms accept result (⟨site, pattern, body⟩ :: arms) = (do
      inScope do
        accept pattern
        inferArmBody result body
      inferArms accept result arms) := rfl

/-- The findings in arms that are checked one after the other from `s`, up to the end of the run. -/
def armFindings (cfg : Config) (adt : String) (t result : Ty) : List Arm → Run → List ArmFindings
  | [], _ => []
  | ⟨_, pattern, body⟩ :: arms, s =>
    let entered : Run := { s with scopes := s.scopes.push.2 }
    let accepted := ((acceptSum adt t pattern).run cfg entered).2
    { pattern := reported (log cfg (acceptSum adt t pattern) entered)
      body := reported (log cfg (inferArmBody result body) accepted) } ::
      match (inScope (do acceptSum adt t pattern; inferArmBody result body)).run cfg s with
      | (.ok _, s') => armFindings cfg adt t result arms s'
      | (.error _, _) => []

/-- `x` never meets anything malformed. -/
def Ends (cfg : Config) {α : Type} (x : Check α) : Prop := ∀ s, ∃ a s', x.run cfg s = (.ok a, s')

theorem Ends.bind {α β : Type} {x : Check α} {f : α → Check β} (hx : Ends cfg x)
    (hf : ∀ a, Ends cfg (f a)) : Ends cfg (x >>= f) := by
  intro s
  obtain ⟨a, s₁, hfirst⟩ := hx s
  obtain ⟨b, s₂, hrest⟩ := hf a s₁
  refine ⟨b, s₂, ?_⟩
  rw [run_bind, hfirst]
  exact hrest

theorem Ends.composes : Composes cfg (Ends cfg) where
  pure a s := ⟨a, s, rfl⟩
  bind := .bind
  config h := h
  act _ _ _ := ⟨_, _, rfl⟩
  unify l r site s := ⟨_, _, run_unify cfg l r site s⟩

/-- The arms report what is found in them, and nothing besides. -/
theorem reported_inferArms {adt : String} {t result : Ty} : ∀ (arms : List Arm) (s : Run),
    reported (log cfg (inferArms (acceptSum adt t) result arms) s) =
      (armFindings cfg adt t result arms s).flatMap (·.all)
  | [], _ => rfl
  | ⟨site, pattern, body⟩ :: arms, s => by
    have hends : Ends cfg (acceptSum adt t pattern) := Ends.composes.acceptSum adt t pattern
    obtain ⟨⟨⟩, accepted, haccept⟩ := hends { s with scopes := s.scopes.push.2 }
    rw [inferArms_cons, log_bind, reported_append, reported_inScope, log_bind, haccept,
      reported_append, armFindings, List.flatMap_cons, ArmFindings.all, haccept]
    dsimp only
    congr 1
    rcases (inScope (do acceptSum adt t pattern; inferArmBody result body)).run cfg s with ⟨r, s₁⟩
    cases r with
    | error e => rfl
    | ok a => exact reported_inferArms arms s₁

theorem arm_redeclares (cfg : Config) (adt : String) (t result : Ty) (body : Expr)
    (pattern : Pattern) :
    Redeclares cfg (inScope do acceptSum adt t pattern; inferArmBody result body)
      body.declaredTypes :=
  .inScope ((typeSteps cfg).after (Redeclares.composes.acceptSum adt t pattern) fun _ =>
    (typeSteps cfg).before ((typeRules cfg).inferExpr body) fun _ => .unify _ _ _)

/-- Where no arm declares the sum type again, the check of the arms keeps its constructors; and if
no pattern is complained about, the patterns name some of these, with as many arguments as they
have parameters. -/
theorem inferArms_listed {adt : String} {t result : Ty} :
    ∀ {arms : List Arm} {s s' : Run}, (∀ arm ∈ arms, adt ∉ arm.body.declaredTypes) →
      (inferArms (acceptSum adt t) result arms).run cfg s = (.ok (), s') →
      s'.registry.type? adt = s.registry.type? adt ∧
        ((∀ f ∈ armFindings cfg adt t result arms s, f.pattern = []) →
          ∀ arm ∈ arms, ∀ site name args, arm.pattern = .constructor site name args →
            ∃ c, s.registry.constructorOf? adt name.name = some c ∧
              args.length = c.params.length)
  | [], s, _, _, h => by
    cases h
    exact ⟨rfl, by simp⟩
  | ⟨site, pattern, body⟩ :: arms, s, s', hkept, h => by
    rw [List.forall_mem_cons] at hkept
    rw [inferArms_cons] at h
    obtain ⟨⟨⟩, s₁, harm, hrest, -⟩ := run_bind_eq_ok h
    have hsame : s₁.registry.type? adt = s.registry.type? adt := by
      have hrun := arm_redeclares cfg adt t result body pattern s adt hkept.1
      rwa [harm] at hrun
    obtain ⟨hsame', hlisted⟩ := inferArms_listed hkept.2 hrest
    refine ⟨hsame'.trans hsame, fun hsilent => ?_⟩
    rw [armFindings, harm, List.forall_mem_cons] at hsilent
    rw [List.forall_mem_cons]
    constructor
    · rintro psite name args rfl
      -- entering the scope of the arm does nothing to the lists
      exact listed_of_acceptSum_silent (t := t) (s := { s with scopes := s.scopes.push.2 })
        hsilent.1
    · simp only [← Registry.constructorOf?_congr hsame]
      exact hlisted hsilent.2

/-! ## Matches -/

/-- The names of the constructors that no arm catches, in the order of their declaration. -/
def missedBy (arms : List Arm) (constructors : List Constructor) : List String :=
  (constructors.map (·.name)).filter fun name => ∀ arm ∈ arms, ¬ arm.pattern.Catches name

/-- What is reported of a match on a sum type, besides what is found in its arms. -/
def matchReports (site : Site) (adt : String) (arms : List Arm) (constructors : List Constructor) :
    List (Report Ty) :=
  if (∃ arm ∈ arms, arm.pattern.isWildcard = true) ∨ missedBy arms constructors = [] then []
  else [⟨.nonExhaustive adt (missedBy arms constructors), site, []⟩]

theorem run_checkExhaustive (cfg : Config) {adt : String} {constructors : List Constructor}
    (h : s.registry.constructorsOf? adt = some constructors) (site : Site) (arms : List Arm) :
    ∃ s', (checkExhaustive site adt (arms.map (·.pattern))).run cfg s = (.ok (), s') ∧
      s'.registry = s.registry ∧
      reported (log cfg (checkExhaustive site adt (arms.map (·.pattern))) s) =
        matchReports site adt arms constructors := by
  have hmissing : Pattern.uncovered (arms.map (·.pattern)) constructors =
      missedBy arms constructors := by
    simp only [Pattern.uncovered_eq, missedBy, List.forall_mem_map]
  have hany : (arms.map (·.pattern)).any (·.isWildcard) = true ↔
      ∃ arm ∈ arms, arm.pattern.isWildcard = true := by
    simp
  have hstate : state.run cfg s = (.ok s, s) := rfl
  rw [checkExhaustive, matchReports]
  by_cases hwild : ∃ arm ∈ arms, arm.pattern.isWildcard = true
  · rw [if_pos (hany.2 hwild), if_pos (.inl hwild)]
    exact ⟨s, rfl, rfl, rfl⟩
  · rw [if_neg (mt hany.1 hwild), run_bind, log_bind, hstate, reported_append]
    simp only [h, hmissing, hwild, false_or, List.isEmpty_iff]
    split
    · exact ⟨s, rfl, rfl, rfl⟩
    · exact ⟨_, rfl, rfl, rfl⟩

/-- The end of a match on a sum type: what the arms leave out, and the type of the whole. -/
def closeMatch (site : Site) (adt : String) (arms : List Arm) (result : Ty) : Check Ty := do
  if (← config).exhaustiveness then checkExhaustive site adt (arms.map (·.pattern))
  apply result

variable {site : Site} {scrutinee : Expr} {arms : List Arm} {t : Ty} {adt : String}
  {constructors : List Constructor} {s₁ s₂ : Run}

/-- Where the value of a match turns out to be of a sum type, the check goes on with the arms. -/
theorem inferPrimary_matchOn (hvalue : (inferExpr scrutinee).run cfg s = (.ok t, s₁))
    (hsum : (resolve t).run cfg s₁ = (.ok (.adt adt), s₂))
    (hlisted : s₂.registry.constructorsOf? adt = some constructors) :
    let start := Act.perform cfg (.store .fresh) s₂
    let rest : Check Ty := do
      inferArms (acceptSum adt t) start.1 arms
      closeMatch site adt arms start.1
    (inferPrimary (.matchOn site scrutinee arms)).run cfg s = rest.run cfg start.2 ∧
      reported (log cfg (inferPrimary (.matchOn site scrutinee arms)) s) =
        reported (log cfg (inferExpr scrutinee) s) ++ reported (log cfg rest start.2) := by
  intro start rest
  have hform : MatchForm.of s₂.registry (.adt adt) (arms.map (·.pattern)) = .onSum adt := by
    simp [MatchForm.of, hlisted]
  have hstate : state.run cfg s₂ = (.ok s₂, s₂) := rfl
  have hfresh : fresh.run cfg s₂ = (.ok start.1, start.2) := rfl
  obtain ⟨hrun₁, hreported₁⟩ := run_bind_of_ok hvalue
  obtain ⟨hrun₂, hreported₂⟩ := run_bind_of_ok hsum
  obtain ⟨hrun₃, hreported₃⟩ := run_bind_of_ok hstate
  obtain ⟨hrun₄, hreported₄⟩ := run_bind_of_ok hfresh
  rw [inferPrimary, hrun₁, hreported₁, hrun₂, hreported₂, hrun₃, hreported₃]
  dsimp only
  rw [hform]
  dsimp only
  rw [hrun₄, hreported₄]
  exact ⟨rfl, rfl⟩

/-- When the arms have been checked the match ends well, and reports what the arms leave out. -/
theorem run_closeMatch (site : Site) (arms : List Arm) (hcfg : cfg.exhaustiveness = true)
    (hlisted : s.registry.constructorsOf? adt = some constructors) (result : Ty) :
    ∃ u s', (closeMatch site adt arms result).run cfg s = (.ok u, s') ∧
      s'.registry = s.registry ∧
      reported (log cfg (closeMatch site adt arms result) s) =
        matchReports site adt arms constructors := by
  have hconfig : config.run cfg s = (.ok cfg, s) := rfl
  obtain ⟨hrun, hreported⟩ := run_bind_of_ok hconfig
  rw [closeMatch, hrun, hreported, if_pos hcfg]
  obtain ⟨s₁, hcheck, hregistry, hmissed⟩ := run_checkExhaustive cfg hlisted site arms
  obtain ⟨hrun, hreported⟩ := run_bind_of_ok hcheck
  rw [hrun, hreported, hmissed]
  exact ⟨_, _, rfl, hregistry, List.append_nil _⟩

theorem caught_of_matchReports (h : matchReports site adt arms constructors = []) :
    (∃ arm ∈ arms, arm.pattern.isWildcard = true) ∨
      ∀ name ∈ constructors.map (·.name), ∃ arm ∈ arms, arm.pattern.Catches name := by
  rw [matchReports] at h
  split at h
  · next hnone =>
    refine hnone.imp_right fun hmissed name hname => ?_
    have hcaught := List.filter_eq_nil_iff.1 hmissed name hname
    simpa using hcaught
  · exact absurd h (List.cons_ne_nil _ _)

/-- With `exhaustiveness`, take a match on a value of a sum type, in whose arms that type is not
declared again. What is reported of it is what its value reports, what is found in its arms, in
order, and, unless something malformed ends the run before, at last the constructors that no arm
catches, if there are any and no arm is a wildcard. When this last report is not there and nothing
is wrong with the patterns, then some arm is a wildcard, or there is for each constructor an arm
that takes it with all its arguments, whatever these are. -/
theorem match_exhaustive (hcfg : cfg.exhaustiveness = true)
    (hvalue : (inferExpr scrutinee).run cfg s = (.ok t, s₁))
    (hsum : (resolve t).run cfg s₁ = (.ok (.adt adt), s₂))
    (hlisted : s₂.registry.constructorsOf? adt = some constructors)
    (hkept : ∀ arm ∈ arms, adt ∉ arm.body.declaredTypes) :
    let start := Act.perform cfg (.store .fresh) s₂
    let findings := armFindings cfg adt t start.1 arms start.2
    let found := reported (log cfg (inferExpr scrutinee) s) ++ findings.flatMap (·.all)
    let reports := reported (log cfg (inferPrimary (.matchOn site scrutinee arms)) s)
    (∀ e s', (inferPrimary (.matchOn site scrutinee arms)).run cfg s = (.error e, s') →
      reports = found) ∧
    ∀ u s', (inferPrimary (.matchOn site scrutinee arms)).run cfg s = (.ok u, s') →
      reports = found ++ matchReports site adt arms constructors ∧
      ((∀ f ∈ findings, f.pattern = []) → matchReports site adt arms constructors = [] →
        (∃ arm ∈ arms, arm.pattern.isWildcard = true) ∨
        ∀ name ∈ constructors.map (·.name), ∃ c, s'.registry.constructorOf? adt name = some c ∧
          ∃ arm ∈ arms, ∃ psite ident args, arm.pattern = .constructor psite ident args ∧
            ident.name = name ∧ args.length = c.params.length ∧
            ∀ arg ∈ args, arg.isIrrefutable = true) := by
  intro start findings found reports
  obtain ⟨hgoes, hreported⟩ := inferPrimary_matchOn hvalue hsum hlisted
  have hfound : reported (log cfg (inferArms (acceptSum adt t) start.1 arms) start.2) =
      findings.flatMap (·.all) := reported_inferArms arms start.2
  rcases harms : (inferArms (acceptSum adt t) start.1 arms).run cfg start.2 with ⟨r, s₃⟩
  cases r with
  | error e =>
    constructor
    · intro _ _ _
      rw [log_bind, harms, List.append_nil, hfound] at hreported
      exact hreported
    · intro u s' h
      rw [hgoes, run_bind, harms] at h
      cases h
  | ok a =>
    -- the arms have not declared the sum type again, so that its constructors are still there
    obtain ⟨hsame, hpatterns⟩ := inferArms_listed hkept harms
    have hlisted' : s₃.registry.constructorsOf? adt = some constructors :=
      (Registry.constructorsOf?_congr hsame).trans hlisted
    obtain ⟨u₀, s₄, hclose, hregistry, hmissed⟩ :=
      run_closeMatch site arms hcfg hlisted' start.1
    obtain ⟨hrun, hrest⟩ := run_bind_of_ok (f := fun _ => closeMatch site adt arms start.1) harms
    constructor
    · intro e s' h
      rw [hgoes, hrun, hclose] at h
      cases h
    · intro u s' h
      rw [hgoes, hrun, hclose] at h
      cases h
      rw [hrest, hfound, hmissed, ← List.append_assoc] at hreported
      refine ⟨hreported, fun hsilent hnone => ?_⟩
      refine (caught_of_matchReports hnone).imp_right fun hall name hname => ?_
      obtain ⟨arm, harm, psite, ident, args, hpattern, hident, -, hargs⟩ := hall name hname
      obtain ⟨c, hc, hlength⟩ := hpatterns hsilent arm harm psite ident args hpattern
      refine ⟨c, ?_, arm, harm, psite, ident, args, hpattern, hident, hlength, hargs⟩
      rw [hregistry, Registry.constructorOf?_congr hsame, ← hident]
      exact hc

open Sketch in
/-- The run with a sum type more and a name for a value of it. -/
def withShape (run : Run) : Run :=
  let declared := (checkStmts
    (build [.typeDecl "Shape" (.adt [.prim "Circle" .number, .bare "Empty"])]).1).run {} run
  { declared.2 with scopes := (declared.2.scopes.insert "shape" ⟨.adt "Shape", {}⟩).2 }

def shapeValue : Expr := ⟨{}, .ident {} ⟨"shape", {}⟩, []⟩

def circleArm : Arm :=
  ⟨{}, .constructor {} ⟨"Circle", {}⟩ [.binding {} ⟨"r", {}⟩], ⟨{}, .ident {} ⟨"r", {}⟩, []⟩⟩

/-- An arm in whose body a name is missing. -/
def emptyArm : Arm :=
  ⟨{}, .constructor {} ⟨"Empty", {}⟩ [], ⟨{}, .ident {} ⟨"nowhere", {}⟩, []⟩⟩

def exhaustively : Config := { exhaustiveness := true }

/-- With one arm the match leaves out a constructor. With both it does not, and whatever is wrong in
a body, the arms then take all values. -/
theorem match_exhaustive_shape :
    reported (log exhaustively (inferPrimary (.matchOn {} shapeValue [circleArm])) (withShape {})) =
      [⟨.nonExhaustive "Shape" ["Empty"], {}, []⟩] ∧
    reported (log exhaustively (inferPrimary (.matchOn {} shapeValue [circleArm, emptyArm]))
        (withShape {})) = [⟨.undefinedIdentifier "nowhere", {}, []⟩] ∧
    ∀ name ∈ ["Circle", "Empty"], ∃ c,
      ((inferPrimary (.matchOn {} shapeValue [circleArm, emptyArm])).run exhaustively
        (withShape {})).2.registry.constructorOf? "Shape" name = some c ∧
      ∃ arm ∈ [circleArm, emptyArm], ∃ psite ident args,
        arm.pattern = .constructor psite ident args ∧ ident.name = name ∧
        args.length = c.params.length ∧ ∀ arg ∈ args, arg.isIrrefutable = true := by
  let s₁ := ((inferExpr shapeValue).run exhaustively (withShape {})).2
  have hvalue : (inferExpr shapeValue).run exhaustively (withShape {}) =
      (.ok (.adt "Shape"), s₁) := rfl
  have hsum : (resolve (.adt "Shape")).run exhaustively s₁ = (.ok (.adt "Shape"), s₁) := rfl
  have hlisted : s₁.registry.constructorsOf? "Shape" =
      some [.ofParams "Shape" "Circle" [.number] 1, .ofParams "Shape" "Empty" [] 3] := by
    decide +kernel
  have hruns (arms : List Arm) {u : Ty} {s' : Run}
      (hu : ((inferPrimary (.matchOn {} shapeValue arms)).run exhaustively
        (withShape {})).1.toOption = some u)
      (hs' : ((inferPrimary (.matchOn {} shapeValue arms)).run exhaustively
        (withShape {})).2 = s') :
      (inferPrimary (.matchOn {} shapeValue arms)).run exhaustively (withShape {}) =
        (.ok u, s') := by
    refine Prod.ext ?_ hs'
    cases hr : ((inferPrimary (.matchOn {} shapeValue arms)).run exhaustively (withShape {})).1 with
    | error e => simp [hr, Except.toOption] at hu
    | ok t => simpa [hr, Except.toOption] using hu
  have hone := (match_exhaustive rfl hvalue hsum hlisted (by decide +kernel)).2 _ _
    (hruns [circleArm] (u := .number) (by decide +kernel) rfl)
  have hboth := (match_exhaustive rfl hvalue hsum hlisted (by decide +kernel)).2 _ _
    (hruns [circleArm, emptyArm] (u := .number) (by decide +kernel) rfl)
  refine ⟨hone.1.trans (by decide +kernel), hboth.1.trans (by decide +kernel), ?_⟩
  exact (hboth.2 (by decide +kernel) (by decide +kernel)).resolve_left (by decide)

end Check

end Monotype
