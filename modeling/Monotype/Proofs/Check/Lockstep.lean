import Monotype.Check.Session
import Monotype.Proofs.Check.Hushed

/-! The walk over a program under two configurations, of which the first asks for less. Step by step
it has the same answers under both; the settings decide on nothing but complaints. -/
namespace Monotype.Check
variable {α : Type} {cfg cfg' : Config}

/-! ## Type declarations -/

theorem lookupType_steady (self : Option String) (name : Ident) :
    Steady cfg cfg' (lookupType self name) := by
  refine .state fun run run' h => ?_
  rw [h.registry]
  cases run.registry.type? name.name with
  | some declared => exact .pure rfl
  | none =>
    dsimp only
    split
    · exact .pure rfl
    · exact recover_steady _ (cfg.asksFor_of_unconditional rfl)

section Lower
variable (self : Option String)

mutual
theorem lower_steady : ∀ t : TypeExpr, Steady cfg cfg' (lower self t)
  | .prim _ _ => .pure rfl
  | .named _ name => lookupType_steady self name
  | .record _ fields => (lowerFields_steady fields).seq fun _ => .pure rfl
  | .tuple _ items => (lowerList_steady items).seq fun _ => .pure rfl
  | .fn _ params result =>
    (lowerList_steady params).seq fun _ => (lower_steady result).seq fun _ => .pure rfl
  | .adt _ _ => recover_steady _ (cfg.asksFor_of_unconditional rfl)

theorem lowerList_steady : ∀ ts : List TypeExpr, Steady cfg cfg' (lowerList self ts)
  | [] => .pure rfl
  | t :: ts => (lower_steady t).seq fun _ => (lowerList_steady ts).seq fun _ => .pure rfl

theorem lowerFields_steady : ∀ fields : List TypeField, Steady cfg cfg' (lowerFields self fields)
  | [] => .pure rfl
  | ⟨_, t⟩ :: fields =>
    (lower_steady t).seq fun _ => (lowerFields_steady fields).seq fun _ => .pure rfl
end

end Lower

theorem lowerPayload_steady (adt : String) (payload : Payload) :
    Steady cfg cfg' (lowerPayload adt payload) := by
  cases payload with
  | none => exact .pure rfl
  | prim p => exact .pure rfl
  | named name => exact (lookupType_steady (some adt) name).seq fun _ => .pure rfl
  | record fields => exact (lowerFields_steady (some adt) fields).seq fun _ => .pure rfl

theorem lowerOptions_steady (adt : String) :
    ∀ options : List AdtOption, Steady cfg cfg' (lowerOptions adt options)
  | [] => .pure rfl
  | option :: options =>
    (lowerPayload_steady adt option.payload).seq fun _ =>
      (lowerOptions_steady adt options).seq fun _ => .pure rfl

theorem lowerDef_steady (name : String) (t : TypeExpr) : Steady cfg cfg' (lowerDef name t) := by
  cases t with
  | prim site p => exact .pure rfl
  | named site other => exact (lookupType_steady none other).seq fun _ => .pure rfl
  | record site fields => exact (lowerFields_steady none fields).seq fun _ => .pure rfl
  | tuple site items => exact (lowerList_steady none items).seq fun _ => .pure rfl
  | fn site params result =>
    exact (lowerList_steady none params).seq fun _ => (lower_steady none result).seq fun _ =>
      .pure rfl
  | adt site options => exact (lowerOptions_steady name options).seq fun _ => .pure rfl

/-- The strict check of a constructor's name comes between two steps that every configuration
takes. -/
theorem declareConstructor_steady (hcfg : cfg.Laxer cfg') (adt : String) (option : Ident)
    (c : Constructor) : Steady cfg cfg' (declareConstructor adt option c) := by
  refine (register_steady c).seq fun displaced => .config ?_
  have hsymbol : Steady cfg cfg' (addSymbol option c.ty .constructor) :=
    addSymbol_steady option c.ty .constructor
  refine .optional hcfg.strictRedeclaration (fun hask => ?_) (fun hask => ?_) hsymbol
  · split
    · split
      · refine (report_steady option.site ?_).seq fun _ => hsymbol
        exact hask
      · exact hsymbol
    · exact hsymbol
  · split
    · split
      · refine .skip (report_unnoticed option.site ?_) fun _ _ => hsymbol
        exact hask
      · exact hsymbol
    · exact hsymbol

theorem declareConstructors_steady (hcfg : cfg.Laxer cfg') (adt : String) :
    ∀ (options : List AdtOption) (cs : List Constructor),
    Steady cfg cfg' (declareConstructors adt options cs)
  | [], _ => .pure rfl
  | _ :: _, [] => .pure rfl
  | option :: options, c :: cs =>
    (declareConstructor_steady hcfg adt option.name c).seq fun _ =>
      declareConstructors_steady hcfg adt options cs

theorem declareType_steady (hcfg : cfg.Laxer cfg') (name : Ident) (t : TypeExpr) :
    Steady cfg cfg' (declareType name t) := by
  refine (lowerDef_steady name.name t).seq fun d => ?_
  refine (declareType_act_steady name.name d name.site.node).seq fun _ => ?_
  refine (addSymbol_steady name (d.toTy name.name) .type).seq fun _ => ?_
  split
  · exact declareConstructors_steady hcfg name.name _ _
  · exact .pure rfl

/-! ## Patterns -/

theorem acceptPayload_steady (hcfg : cfg.Laxer cfg') (param : Ty) (pattern : Pattern) :
    Steady cfg cfg' (acceptPayload param pattern) := by
  cases pattern with
  | wildcard site => exact .pure rfl
  | literal site l => exact unify_steady hcfg param l.ty site
  | binding site name => exact declare_steady name param .var
  | constructor site name args => exact report_steady site (cfg.asksFor_of_unconditional rfl)

theorem acceptArgs_steady (hcfg : cfg.Laxer cfg') (site : Site) (name : String) (params : List Ty)
    (args : List Pattern) : Steady cfg cfg' (acceptArgs site name params args) := by
  have harity : Steady cfg cfg' (report site (.constructorArity name params.length)) :=
    report_steady site (cfg.asksFor_of_unconditional rfl)
  unfold acceptArgs
  split
  · split
    · exact .pure rfl
    · exact harity
  · split
    · exact acceptPayload_steady hcfg _ _
    · refine harity.seq fun _ => ?_
      split
      · exact fresh_steady.seq fun t => bindLocal_steady _ t
      · exact .pure rfl
  · exact report_steady site (cfg.asksFor_of_unconditional rfl)

theorem acceptSum_steady (hcfg : cfg.Laxer cfg') (adt : String) (scrutinee : Ty)
    (pattern : Pattern) : Steady cfg cfg' (acceptSum adt scrutinee pattern) := by
  cases pattern with
  | wildcard site => exact .pure rfl
  | literal site l => exact unify_steady hcfg l.ty scrutinee site
  | binding site name => exact report_steady site (cfg.asksFor_of_unconditional rfl)
  | constructor site name args =>
    refine .state fun run run' h => ?_
    rw [h.registry]
    cases run.registry.constructorOf? adt name.name with
    | some c => exact acceptArgs_steady hcfg site name.name c.params args
    | none => exact report_steady name.site (cfg.asksFor_of_unconditional rfl)

theorem acceptLiteral_steady (hcfg : cfg.Laxer cfg') (scrutinee : Ty) (pattern : Pattern) :
    Steady cfg cfg' (acceptLiteral scrutinee pattern) := by
  unfold acceptLiteral
  split
  · exact unify_steady hcfg _ scrutinee _
  · exact .pure rfl

theorem checkExhaustive_steady (hask : cfg.exhaustiveness = true) (site : Site) (adt : String)
    (patterns : List Pattern) : Steady cfg cfg' (checkExhaustive site adt patterns) := by
  unfold checkExhaustive
  split
  · exact .pure rfl
  · refine .state fun run run' h => ?_
    rw [h.registry]
    cases run.registry.constructorsOf? adt with
    | none => exact .pure rfl
    | some constructors =>
      dsimp only
      split
      · exact .pure rfl
      · exact report_steady site hask

theorem checkExhaustive_unnoticed (hask : cfg.exhaustiveness = false) (site : Site) (adt : String)
    (patterns : List Pattern) :
    Unnoticed cfg cfg' (fun _ => True) (checkExhaustive site adt patterns) := by
  unfold checkExhaustive
  split
  · exact .pure trivial
  · refine .stateAlone fun run' => ?_
    cases run'.registry.constructorsOf? adt with
    | none => exact .pure trivial
    | some constructors =>
      dsimp only
      split
      · exact .pure trivial
      · exact report_unnoticed site hask

/-! ## Inference -/

theorem inferIdent_steady (name : Ident) : Steady cfg cfg' (inferIdent name) := by
  refine (lookupValue_steady name.name).seq fun found => ?_
  cases found with
  | some t => exact .pure rfl
  | none => exact recover_steady name.site (cfg.asksFor_of_unconditional rfl)

/-- What is done about a type that has no parts to look into: nothing is known of an import, and
where imports are not taken leniently that is a complaint as well. -/
def refuse (site : Site) (complaint : Ty → TypeError Ty) (t : Ty) : Check Ty := do
  if t.isExternal && (← config).dynamicImports then fresh
  else recover site (complaint (← apply t))

theorem apply_hushedFrom {run run' : Run} (h : run.Hushed cfg run') {t : Ty}
    (hends : run.store.Ends t) :
    HushedFrom cfg cfg' (fun a b => a = b ∧ a.isExternal = t.isExternal) (apply t) (apply t)
      run run' := by
  have hsame := (h.sameEnds.apply_fst h.acyclic h.acyclic' t).symm
  refine ⟨.ok ⟨hsame, ?_⟩, (apply_steady t run run' h).2⟩
  change (Store.apply t run.store).1.isExternal = t.isExternal
  rw [(h.acyclic.answers_apply t).1, hends.isExternal_full]

/-- At a type that is no bound variable, the one run complains where the other does, unless the
type is an import. -/
theorem refuse_hushedFrom (hcfg : cfg.Laxer cfg') (site : Site) {complaint : Ty → TypeError Ty}
    (hask : ∀ u, cfg.asksFor (complaint u) = !(cfg.dynamicImports && u.isExternal)) {t : Ty}
    {run run' : Run} (h : run.Hushed cfg run') (hends : run.store.Ends t) :
    HushedFrom cfg cfg' Eq (refuse site complaint t) (refuse site complaint t) run run' := by
  refine .config ?_
  cases hext : t.isExternal with
  | false =>
    -- both complain, of a type that is no import either
    refine (apply_hushedFrom h hends).bind ?_
    rintro u _ ⟨rfl, hu⟩
    exact recover_steady site (by simp [hask, hu, hext])
  | true =>
    rw [Bool.true_and, Bool.true_and]
    cases hlen : cfg.dynamicImports with
    | false =>
      have hlen' : cfg'.dynamicImports = false :=
        Bool.eq_false_iff.2 fun h' => by simp [hcfg.dynamicImports h'] at hlen
      rw [hlen']
      have hboth : Steady cfg cfg' (do
          let u ← apply t
          recover site (complaint u)) :=
        (apply_steady t).seq fun u => recover_steady site (by simp [hask, hlen])
      exact hboth run run' h
    | true =>
      rw [if_pos rfl]
      split
      · exact fresh_steady run run' h
      · -- only the second complains, of an import
        refine Hushed.skip (apply_unnoticed t) (fun u hu => ?_) run run' h
        refine .skip (report_unnoticed site ?_) fun _ _ => fresh_steady
        simp [hask, hlen, hu hext]

theorem inferMember_steady (hcfg : cfg.Laxer cfg') (site : Site) (current : Ty)
    (member : String) : Steady cfg cfg' (inferMember site current member) := by
  refine .resolve fun t run run' h hends => ?_
  cases t with
  | record fields =>
    dsimp only
    cases fields.lookup member with
    | some u => exact Hushed.pure rfl run run' h
    | none => exact recover_steady site (cfg.asksFor_of_unconditional rfl) run run' h
  | _ => exact refuse_hushedFrom hcfg site (fun _ => rfl) h hends

theorem inferElement_steady (hcfg : cfg.Laxer cfg') (site : Site) (current : Ty) :
    Steady cfg cfg' (inferElement site current) := by
  refine .resolve fun t run run' h hends => ?_
  cases t with
  | tuple elements => exact fresh_steady run run' h
  | _ => exact refuse_hushedFrom hcfg site (fun _ => rfl) h hends

theorem inferOperation_steady (hcfg : cfg.Laxer cfg') (site rhs : Site) (op : String)
    (left right : Ty) : Steady cfg cfg' (inferOperation site rhs op left right) := by
  -- both operands are compared with one ground type
  have hboth : ∀ p q : Prim, Steady cfg cfg' (do
      unify (.prim p) left site
      unify (.prim p) right rhs
      return .prim q : Check Ty) := fun p q =>
    (unify_steady hcfg _ left site).seq fun _ => (unify_steady hcfg _ right rhs).seq fun _ =>
      .pure rfl
  unfold inferOperation
  split
  · exact hboth _ _
  · exact hboth _ _
  · exact (unify_steady hcfg left right rhs).seq fun _ => .pure rfl
  · exact hboth _ _
  · exact recover_steady site (cfg.asksFor_of_unconditional rfl)

theorem declareParams_steady : ∀ params : List Ident, Steady cfg cfg' (declareParams params)
  | [] => .pure rfl
  | param :: params => fresh_steady.seq fun t => (declare_steady param t .param).seq fun _ =>
      (declareParams_steady params).seq fun _ => .pure rfl

theorem declareImport_steady (path : String) (name : Ident) :
    Steady cfg cfg' (declareImport path name) := by
  refine (declaredHere_steady name.name).seq fun here => ?_
  split
  · exact (earlierBinding_steady name.name).seq fun labels =>
      reportWith_steady labels name.site (cfg.asksFor_of_unconditional rfl)
  · exact declare_steady name (.external path) .imported

theorem checkExport_steady (name : Ident) : Steady cfg cfg' (checkExport name) := by
  refine (lookupValue_steady name.name).seq fun found => ?_
  split
  · exact report_steady name.site (cfg.asksFor_of_unconditional rfl)
  · exact .pure rfl

/-- Whether a second declaration is a complaint is a setting; either way the name is bound anew. -/
theorem declareAssigned_steady (hcfg : cfg.Laxer cfg') (name : Ident) (t : Ty) :
    Steady cfg cfg' (declareAssigned name t) := by
  refine .config ((declaredHere_steady name.name).seq fun here => ?_)
  have hdeclare : Steady cfg cfg' (declare name t .var) := declare_steady name t .var
  cases here with
  | false =>
    rw [Bool.and_false, Bool.and_false]
    exact hdeclare
  | true =>
    rw [Bool.and_true, Bool.and_true]
    refine .optional hcfg.strictRedeclaration (fun hask => ?_) (fun hask => ?_) hdeclare
    · refine (earlierBinding_steady name.name).seq fun labels => ?_
      refine (reportWith_steady labels name.site ?_).seq fun _ => hdeclare
      exact hask
    · refine .skip (earlierBinding_unnoticed name.name) fun labels _ => ?_
      refine .skip (reportWith_unnoticed labels name.site ?_) fun _ _ => hdeclare
      exact hask

theorem checkClosing_steady (site : Site) (name : Ident) (closing : Option Ident) :
    Steady cfg cfg' (checkClosing site name closing) := by
  cases closing with
  | none => exact .pure rfl
  | some closing =>
    simp only [checkClosing]
    split
    · exact .pure rfl
    · exact .throw _

theorem checkComponent_steady (hcfg : cfg.Laxer cfg') (name : Ident) (props : Ty) :
    Steady cfg cfg' (checkComponent name props) := by
  have hhost : isIntrinsic cfg' name.name = isIntrinsic cfg name.name := by
    rw [isIntrinsic, isIntrinsic, hcfg.intrinsicElements]
  refine .config ?_
  rw [hhost]
  split
  · exact .pure rfl
  · refine (lookupValue_steady name.name).seq fun found => ?_
    cases found with
    | some component => exact unify_steady hcfg component _ name.site
    | none => exact report_steady name.site (cfg.asksFor_of_unconditional rfl)

theorem forM_steady {f : α → Check Unit} (h : ∀ a, Steady cfg cfg' (f a)) :
    ∀ xs : List α, Steady cfg cfg' (xs.forM f)
  | [] => .pure rfl
  | x :: xs => (h x).seq fun _ => forM_steady h xs

mutual
theorem inferExpr_steady (hcfg : cfg.Laxer cfg') : ∀ e : Expr, Steady cfg cfg' (inferExpr e)
  | ⟨site, primary, tails⟩ =>
    (inferPrimary_steady hcfg primary).seq fun t =>
      (recordType_steady primary.site.node t).seq fun _ =>
        (inferTails_steady hcfg t tails).seq fun u => (recordType_steady site.node u).seq fun _ =>
          .pure rfl

theorem inferExprs_steady (hcfg : cfg.Laxer cfg') :
    ∀ es : List Expr, Steady cfg cfg' (inferExprs es)
  | [] => .pure rfl
  | e :: es =>
    (inferExpr_steady hcfg e).seq fun _ => (inferExprs_steady hcfg es).seq fun _ => .pure rfl

theorem inferPrimary_steady (hcfg : cfg.Laxer cfg') :
    ∀ p : Primary, Steady cfg cfg' (inferPrimary p)
  | .ident _ name => inferIdent_steady name
  | .literal _ _ => .pure rfl
  | .paren _ inner => inferExpr_steady hcfg inner
  | .block _ body => inferBlock_steady hcfg body
  | .record _ entries => (inferEntries_steady hcfg entries).seq fun _ => .pure rfl
  | .array _ items => (inferExprs_steady hcfg items).seq fun _ => .pure rfl
  | .function _ params body =>
    .inScope ((declareParams_steady params).seq fun _ => (inferExpr_steady hcfg body).seq fun _ =>
      .pure rfl)
  | .ifChain site branches otherwise => by
    have hrest : Steady cfg cfg' (do
        let result ← Check.fresh
        inferBranches result branches
        inferOtherwise result otherwise
        return result) :=
      fresh_steady.seq fun result => (inferBranches_steady hcfg result branches).seq fun _ =>
        (inferOtherwise_steady hcfg result otherwise).seq fun _ => .pure rfl
    simp only [inferPrimary]
    split
    · have hthrow : Steady cfg cfg' (throw (.noBranches site.node) : Check Unit) := .throw _
      exact hthrow.seq fun _ => hrest
    · exact hrest
  | .matchOn site scrutinee arms => by
    refine (inferExpr_steady hcfg scrutinee).seq fun t => (resolve_steady t).seq fun u => ?_
    refine .state fun run run' h => ?_
    rw [h.registry]
    dsimp only
    cases MatchForm.of run.registry u (arms.map (·.pattern)) with
    | onSum adt =>
      refine fresh_steady.seq fun result => ?_
      refine (inferArms_steady hcfg _ (acceptSum_steady hcfg adt t) result arms).seq fun _ => ?_
      refine .config (.optional hcfg.exhaustiveness ?_ ?_ (apply_steady result))
      · exact fun hask => (checkExhaustive_steady hask site adt _).seq fun _ => apply_steady result
      · exact fun hask => .skip (checkExhaustive_unnoticed hask site adt _) fun _ _ =>
          apply_steady result
    | onLiterals =>
      refine fresh_steady.seq fun result => ?_
      exact (inferArms_steady hcfg _ (acceptLiteral_steady hcfg t) result arms).seq fun _ =>
        apply_steady result
    | unsupported =>
      exact (apply_steady u).seq fun _ =>
        recover_steady scrutinee.site (cfg.asksFor_of_unconditional rfl)
  | .markup _ element => inferMarkup_steady hcfg element

theorem inferBlock_steady (hcfg : cfg.Laxer cfg') : ∀ b : Block, Steady cfg cfg' (inferBlock b)
  | ⟨_, statements, result⟩ =>
    .inScope ((checkStmts_steady hcfg statements).seq fun _ => inferResult_steady hcfg result)

theorem inferResult_steady (hcfg : cfg.Laxer cfg') :
    ∀ result : Option Expr, Steady cfg cfg' (inferResult result)
  | some e => inferExpr_steady hcfg e
  | none => fresh_steady

theorem inferEntries_steady (hcfg : cfg.Laxer cfg') :
    ∀ entries : List Entry, Steady cfg cfg' (inferEntries entries)
  | [] => .pure rfl
  | ⟨_, value⟩ :: entries =>
    (inferExpr_steady hcfg value).seq fun _ => (inferEntries_steady hcfg entries).seq fun _ =>
      .pure rfl

theorem inferBranches_steady (hcfg : cfg.Laxer cfg') (result : Ty) :
    ∀ branches : List Branch, Steady cfg cfg' (inferBranches result branches)
  | [] => .pure rfl
  | ⟨_, condition, body⟩ :: branches => by
    refine (inferExpr_steady hcfg condition).seq fun t => ?_
    refine (unify_steady hcfg .boolean t condition.site).seq fun _ => ?_
    refine (inferExpr_steady hcfg body).seq fun u => ?_
    refine (unify_steady hcfg result u body.site).seq fun _ => ?_
    exact inferBranches_steady hcfg result branches

theorem inferOtherwise_steady (hcfg : cfg.Laxer cfg') (result : Ty) :
    ∀ otherwise : Option Expr, Steady cfg cfg' (inferOtherwise result otherwise)
  | none => .pure rfl
  | some body => (inferExpr_steady hcfg body).seq fun t => unify_steady hcfg result t body.site

theorem inferArms_steady (hcfg : cfg.Laxer cfg') (accept : Pattern → Check Unit)
    (haccept : ∀ pattern, Steady cfg cfg' (accept pattern)) (result : Ty) :
    ∀ arms : List Arm, Steady cfg cfg' (inferArms accept result arms)
  | [] => .pure rfl
  | ⟨_, pattern, body⟩ :: arms => by
    have harm : Steady cfg cfg' (do
        accept pattern
        let t ← inferExpr body
        unify result t body.site) :=
      (haccept pattern).seq fun _ => (inferExpr_steady hcfg body).seq fun t =>
        unify_steady hcfg result t body.site
    exact harm.inScope.seq fun _ => inferArms_steady hcfg accept haccept result arms

theorem inferTails_steady (hcfg : cfg.Laxer cfg') (current : Ty) :
    ∀ tails : List Tail, Steady cfg cfg' (inferTails current tails)
  | [] => .pure rfl
  | tail :: tails =>
    (inferTail_steady hcfg current tail).seq fun t =>
      (recordType_steady tail.site.node t).seq fun _ => inferTails_steady hcfg t tails

theorem inferTail_steady (hcfg : cfg.Laxer cfg') (current : Ty) :
    ∀ tail : Tail, Steady cfg cfg' (inferTail current tail)
  | .member site name => inferMember_steady hcfg site current name.name
  | .index site index =>
    (inferExpr_steady hcfg index).seq fun t => (unify_steady hcfg .number t index.site).seq fun _ =>
      inferElement_steady hcfg site current
  | .call site args =>
    (inferExprs_steady hcfg args).seq fun params => fresh_steady.seq fun result =>
      (unify_steady hcfg current (.fn params result) site).seq fun _ => .pure rfl
  | .operation site op rhs =>
    (inferExpr_steady hcfg rhs).seq fun right =>
      inferOperation_steady hcfg site rhs.site op current right

theorem inferMarkup_steady (hcfg : cfg.Laxer cfg') :
    ∀ element : Markup, Steady cfg cfg' (inferMarkup element)
  | ⟨site, name, attributes, children, closing⟩ =>
    (checkClosing_steady site name closing).seq fun _ =>
      (inferAttributes_steady hcfg attributes).seq fun props =>
        (checkComponent_steady hcfg name (.record (Fields.ofList props))).seq fun _ =>
          (checkChildren_steady hcfg children).seq fun _ => .pure rfl

theorem inferAttributes_steady (hcfg : cfg.Laxer cfg') :
    ∀ attrs : List Attribute, Steady cfg cfg' (inferAttributes attrs)
  | [] => .pure rfl
  | attr :: attrs =>
    (inferAttribute_steady hcfg attr).seq fun _ => (inferAttributes_steady hcfg attrs).seq fun _ =>
      .pure rfl

theorem inferAttribute_steady (hcfg : cfg.Laxer cfg') :
    ∀ attr : Attribute, Steady cfg cfg' (inferAttribute attr)
  | .string _ _ => .pure rfl
  | .number _ _ => .pure rfl
  | .expr _ value => (inferExpr_steady hcfg value).seq fun _ => .pure rfl

theorem checkChildren_steady (hcfg : cfg.Laxer cfg') :
    ∀ children : List Child, Steady cfg cfg' (checkChildren children)
  | [] => .pure rfl
  | child :: children =>
    (checkChild_steady hcfg child).seq fun _ => checkChildren_steady hcfg children

theorem checkChild_steady (hcfg : cfg.Laxer cfg') :
    ∀ child : Child, Steady cfg cfg' (checkChild child)
  | .text _ => .pure rfl
  | .expr value => (inferExpr_steady hcfg value).seq fun _ => .pure rfl
  | .element value => (inferMarkup_steady hcfg value).seq fun _ => .pure rfl

theorem checkStmts_steady (hcfg : cfg.Laxer cfg') :
    ∀ stmts : List Stmt, Steady cfg cfg' (checkStmts stmts)
  | [] => .pure rfl
  | stmt :: stmts => (checkStmt_steady hcfg stmt).seq fun _ => checkStmts_steady hcfg stmts

theorem checkStmt_steady (hcfg : cfg.Laxer cfg') : ∀ stmt : Stmt, Steady cfg cfg' (checkStmt stmt)
  | .assign _ _ name value =>
    (inferExpr_steady hcfg value).seq fun t => declareAssigned_steady hcfg name t
  | .typeDecl _ name ty => declareType_steady hcfg name ty
  | .importFrom _ default names path => by
    have hdefault : Steady cfg cfg' (default.forM (declareImport path)) := by
      cases default with
      | none => exact .pure rfl
      | some name => exact declareImport_steady path name
    exact hdefault.seq fun _ => forM_steady (declareImport_steady path) names
  | .exportNames _ names => forM_steady checkExport_steady names
  | .expr _ value => (inferExpr_steady hcfg value).seq fun _ => .pure rfl
end

/-! ## The whole run -/

theorem applySymbols_steady :
    ∀ symbols : List Symbol, Steady cfg cfg' (applySymbols symbols)
  | [] => .pure rfl
  | symbol :: symbols =>
    (apply_steady symbol.ty).seq fun _ => (applySymbols_steady symbols).seq fun _ => .pure rfl

theorem applyNodeTypes_steady :
    ∀ notes : List (NodeId × Ty), Steady cfg cfg' (applyNodeTypes notes)
  | [] => .pure rfl
  | (_, t) :: notes =>
    (apply_steady t).seq fun _ => (applyNodeTypes_steady notes).seq fun _ => .pure rfl

end Monotype.Check

namespace Monotype

/-- The same findings, less the reports that `cfg` does not ask for. -/
structure Output.Hushed (cfg : Config) (out out' : Output) : Prop where
  symbols : out.symbols = out'.symbols
  nodeTypes : out.nodeTypes = out'.nodeTypes
  reports : out.reports = out'.reports.filter (cfg.asksFor ·.error)

/-- Each has all reports of the other. -/
theorem Output.Hushed.antisymm {cfg : Config} {out out' : Output} (h : out.Hushed cfg out')
    (h' : out'.Hushed cfg out) : out = out' := by
  have hreports : out.reports = out'.reports := by
    rw [h'.reports, h.reports, List.filter_filter]
    simp
  cases out
  cases out'
  obtain ⟨rfl, rfl, -⟩ := h
  obtain rfl := hreports
  rfl

namespace Check
variable {cfg cfg' : Config}

theorem finish_hushed : Hushed cfg cfg' (Output.Hushed cfg) finish finish := by
  refine .state fun run run' h => ?_
  rw [h.symbols, h.nodeTypes]
  refine (applySymbols_steady run.symbols.toList).seq fun symbols => ?_
  refine (applyNodeTypes_steady run.nodeTypes.toList).seq fun nodeTypes => ?_
  exact .pure ⟨rfl, rfl, h.reports⟩

theorem program_hushed (hcfg : cfg.Laxer cfg') (p : Program) :
    Hushed cfg cfg' (Output.Hushed cfg) (program p) (program p) :=
  (checkStmts_steady hcfg p).seq fun _ => finish_hushed

end Check

namespace Checker

/-- Two checkers, whatever they have done before, check a program alike: the one that asks for less
has the same findings, less the reports that it does not ask for, and both know the same types
afterwards. -/
theorem check_hushed {c c' : Checker} (hcfg : c.config.Laxer c'.config) (p : Program) :
    EndAlike (Output.Hushed c.config) (c.check p).1 (c'.check p).1 ∧
      (c.check p).2.run.Hushed c.config (c'.check p).2.run := by
  obtain ⟨hend, hrun⟩ := Check.program_hushed hcfg p _ _ (.reset c.config c.run c'.run)
  unfold check
  revert hend hrun
  rcases (Check.program p).run c.config c.run.reset with ⟨r, run⟩
  rcases (Check.program p).run c'.config c'.run.reset with ⟨r', run'⟩
  intro hend hrun
  cases hend with
  | ok hout =>
    exact ⟨.ok hout, hrun.acyclic, hrun.acyclic', hrun.sameEnds, hrun.live, hrun.registry, rfl, rfl,
      rfl⟩
  | error e => exact ⟨.error e, hrun⟩

end Checker

theorem checkProgram_hushed {cfg cfg' : Config} (hcfg : cfg.Laxer cfg') (p : Program) :
    EndAlike (Output.Hushed cfg) (checkProgram cfg p) (checkProgram cfg' p) :=
  (@Checker.check_hushed { config := cfg } { config := cfg' } hcfg p).1

/-- A check hands out only what the configuration asks for. -/
theorem asksFor_of_checkProgram {cfg : Config} {p : Program} {out : Output}
    (h : checkProgram cfg p = .ok out) : ∀ r ∈ out.reports, cfg.asksFor r.error = true := by
  have hsame := checkProgram_hushed (.refl cfg) p
  rw [h] at hsame
  cases hsame with
  | ok hout => exact List.filter_eq_self.1 hout.reports.symm

end Monotype
