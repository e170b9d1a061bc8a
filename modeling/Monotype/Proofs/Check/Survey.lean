import Monotype.Proofs.Check.Sites
import Monotype.Proofs.Tree.Survey

/-! The inference of a program as a walk over it. Suppose that some steps of a run can be said to do
what a survey collects in their place, and that this goes together for steps one after the other.
Then the whole inference does what the survey collects on its walk over the program: the recursion
through the tree is gone through here once, for all surveys. -/
namespace Monotype

/-- The name that is not found or is declared again, in a complaint of that kind. -/
def TypeError.named? {τ : Type} : TypeError τ → Option String
  | undefinedIdentifier name | duplicateImport name | undefinedComponent name | redeclared name
  | undefinedExport name => some name
  | _ => none

/-- Actions that neither have to do with scopes and declarations nor complain about a name, and that
point to no other place than their own. -/
def Check.Act.Quiet : Act → Prop
  | .report r => r.error.named? = none ∧ r.labels = []
  | .bindName _ _ | .enter | .leave | .declareType _ _ _ | .register _ => False
  | _ => True

namespace Survey
open Check
variable {M : Type} {cfg : Config} {S : Survey M} {Does : ∀ {α : Type}, Check α → M → Prop}
  {α β : Type}

/-- `Does x m` is kept by putting steps together, and quiet steps do nothing. -/
structure Steps (cfg : Config) (S : Survey M) (Does : ∀ {α : Type}, Check α → M → Prop) :
    Prop where
  pure : ∀ {α : Type} (a : α), Does (pure a : Check α) S.nothing
  bind : ∀ {α β : Type} {x : Check α} {f : α → Check β} {m n : M},
    Does x m → (∀ a, Does (f a) n) → Does (x >>= f) (S.andThen m n)
  config : ∀ {β : Type} {f : Config → Check β} {m : M},
    Does (f cfg) m → Does (Check.config >>= f) m
  act : ∀ a : Act, a.Quiet → Does (act a) S.nothing
  unify : ∀ (l r : Ty) (site : Site), Does (unify l r site) S.nothing

namespace Steps

/-- A step that does nothing may come before. -/
theorem after (h : S.Steps cfg Does) {x : Check α} {f : α → Check β} {m : M}
    (hx : Does x S.nothing) (hf : ∀ a, Does (f a) m) : Does (x >>= f) m :=
  S.nothing_andThen m ▸ h.bind hx hf

/-- A step that does nothing may come afterwards. -/
theorem before (h : S.Steps cfg Does) {x : Check α} {f : α → Check β} {m : M}
    (hx : Does x m) (hf : ∀ a, Does (f a) S.nothing) : Does (x >>= f) m :=
  S.andThen_nothing m ▸ h.bind hx hf

theorem state (h : S.Steps cfg Does) {f : Run → Check β} {m : M} (hf : ∀ run, Does (f run) m) :
    Does (Check.state >>= f) m :=
  h.after (h.act .state trivial) hf

theorem fresh (h : S.Steps cfg Does) : Does fresh S.nothing := h.act _ trivial

theorem resolve (h : S.Steps cfg Does) (t : Ty) : Does (resolve t) S.nothing := h.act _ trivial

theorem apply (h : S.Steps cfg Does) (t : Ty) : Does (apply t) S.nothing := h.act _ trivial

theorem recordType (h : S.Steps cfg Does) (node : NodeId) (t : Ty) :
    Does (recordType node t) S.nothing :=
  h.act _ trivial

theorem addSymbol (h : S.Steps cfg Does) (name : Ident) (t : Ty) (kind : SymbolKind) :
    Does (addSymbol name t kind) S.nothing :=
  h.act _ trivial

theorem report (h : S.Steps cfg Does) (site : Site) {error : TypeError Ty}
    (hquiet : error.named? = none) : Does (report site error) S.nothing :=
  h.act _ ⟨hquiet, rfl⟩

theorem recover (h : S.Steps cfg Does) (site : Site) {error : TypeError Ty}
    (hquiet : error.named? = none) : Does (recover site error) S.nothing :=
  h.after (h.report site hquiet) fun _ => h.fresh

/-! ## Names -/

theorem lookupValue (h : S.Steps cfg Does) (name : String) :
    Does (Check.lookupValue name) S.nothing := by
  refine h.state fun run => ?_
  split
  · exact h.pure _
  · exact h.pure _

theorem earlierBinding (h : S.Steps cfg Does) (name : String) :
    Does (Check.earlierBinding name) S.nothing := by
  refine h.state fun run => ?_
  split
  · exact h.pure _
  · exact h.pure _

/-- Where nothing comes of a complaint about a name, nothing comes of its use. -/
theorem inferIdent (h : S.Steps cfg Does) {name : Ident}
    (hmissing : Does (Check.report name.site (.undefinedIdentifier name.name)) S.nothing) :
    Does (Check.inferIdent name) S.nothing := by
  refine h.after (h.lookupValue _) fun value => ?_
  split
  · exact h.pure _
  · exact h.after hmissing fun _ => h.fresh

theorem checkExport (h : S.Steps cfg Does) {name : Ident}
    (hmissing : Does (Check.report name.site (.undefinedExport name.name)) S.nothing) :
    Does (Check.checkExport name) S.nothing := by
  refine h.after (h.lookupValue _) fun value => ?_
  split
  · exact hmissing
  · exact h.pure _

theorem checkComponent (h : S.Steps cfg Does) {name : Ident} (props : Ty)
    (hmissing : Does (Check.report name.site (.undefinedComponent name.name)) S.nothing) :
    Does (Check.checkComponent name props) S.nothing := by
  refine h.config ?_
  split
  · exact h.pure _
  · refine h.after (h.lookupValue _) fun value => ?_
    split
    · exact h.unify _ _ _
    · exact hmissing

theorem checkClosing (h : S.Steps cfg Does) (site : Site) {name : Ident}
    (hthrow : ∀ e : Malformed, Does (throw e : Check Unit) S.nothing) (closing : Option Ident) :
    Does (Check.checkClosing site name closing) S.nothing := by
  cases closing with
  | none => exact h.pure _
  | some closing =>
    rw [Check.checkClosing]
    split
    · exact h.pure _
    · exact hthrow _

/-! ## Patterns -/

section
variable {m : M} (hnothing : ∀ {x : Check Unit}, Does x S.nothing → Does x m)
include hnothing

/-- Whatever is wrong with the arguments, they bind one name or none. -/
theorem acceptArgs (h : S.Steps cfg Does) (site : Site) (name : String) (params : List Ty)
    {args : List Pattern}
    (hbind : ∀ bsite binder, args = [.binding bsite binder] →
      ∀ t, Does (Check.bindLocal binder t) m) :
    Does (Check.acceptArgs site name params args) m := by
  unfold Check.acceptArgs
  split
  · split
    · exact hnothing (h.pure _)
    · exact hnothing (h.report _ rfl)
  · next arg =>
    split
    · cases arg with
      | wildcard _ => exact hnothing (h.pure _)
      | literal _ _ => exact hnothing (h.unify _ _ _)
      | binding _ binder => exact h.before (hbind _ _ rfl _) fun _ => h.addSymbol _ _ _
      | constructor _ _ _ => exact hnothing (h.report _ rfl)
    · refine h.after (h.report _ rfl) fun _ => ?_
      split
      · exact h.after h.fresh fun t => hbind _ _ rfl t
      · exact hnothing (h.pure _)
  · exact hnothing (h.report _ rfl)

theorem acceptSum (h : S.Steps cfg Does) (adt : String) (scrutinee : Ty) {p : Pattern}
    (hbind : ∀ binder, p.binder? = some binder → ∀ t, Does (Check.bindLocal binder t) m) :
    Does (Check.acceptSum adt scrutinee p) m := by
  cases p with
  | wildcard site => exact hnothing (h.pure _)
  | literal site l => exact hnothing (h.unify _ _ _)
  | binding site name => exact hnothing (h.report _ rfl)
  | constructor site name args =>
    refine h.state fun run => ?_
    split
    · refine h.acceptArgs hnothing _ _ _ ?_
      rintro bsite binder rfl
      exact hbind binder rfl
    · exact hnothing (h.report _ rfl)

theorem acceptLiteral (h : S.Steps cfg Does) (scrutinee : Ty) (p : Pattern) :
    Does (Check.acceptLiteral scrutinee p) m := by
  unfold Check.acceptLiteral
  split
  · exact hnothing (h.unify _ _ _)
  · exact hnothing (h.pure _)

end

/-! ## Written types -/

theorem lookupType (h : S.Steps cfg Does) (self : Option String) (name : Ident) :
    Does (lookupType self name) S.nothing := by
  refine h.state fun run => ?_
  split
  · exact h.pure _
  · split
    · exact h.pure _
    · exact h.recover _ rfl

mutual
theorem lower (h : S.Steps cfg Does) (self : Option String) :
    ∀ t : TypeExpr, Does (lower self t) S.nothing
  | .prim _ _ => h.pure _
  | .named _ name => h.lookupType self name
  | .record _ fields => h.after (h.lowerFields self fields) fun _ => h.pure _
  | .tuple _ items => h.after (h.lowerList self items) fun _ => h.pure _
  | .fn _ params result =>
    h.after (h.lowerList self params) fun _ => h.after (h.lower self result) fun _ => h.pure _
  | .adt _ _ => h.recover _ rfl

theorem lowerList (h : S.Steps cfg Does) (self : Option String) :
    ∀ ts : List TypeExpr, Does (lowerList self ts) S.nothing
  | [] => h.pure _
  | t :: ts => h.after (h.lower self t) fun _ => h.after (h.lowerList self ts) fun _ => h.pure _

theorem lowerFields (h : S.Steps cfg Does) (self : Option String) :
    ∀ fields : List TypeField, Does (lowerFields self fields) S.nothing
  | [] => h.pure _
  | ⟨_, t⟩ :: fields =>
    h.after (h.lower self t) fun _ => h.after (h.lowerFields self fields) fun _ => h.pure _
end

theorem lowerPayload (h : S.Steps cfg Does) (adt : String) (payload : Payload) :
    Does (lowerPayload adt payload) S.nothing := by
  cases payload with
  | none => exact h.pure _
  | prim p => exact h.pure _
  | named name => exact h.after (h.lookupType _ name) fun _ => h.pure _
  | record fields => exact h.after (h.lowerFields _ fields) fun _ => h.pure _

theorem lowerOptions (h : S.Steps cfg Does) (adt : String) :
    ∀ options : List AdtOption, Does (lowerOptions adt options) S.nothing
  | [] => h.pure _
  | option :: options =>
    h.after (h.lowerPayload adt option.payload) fun _ =>
      h.after (h.lowerOptions adt options) fun _ => h.pure _

theorem lowerDef (h : S.Steps cfg Does) (name : String) (t : TypeExpr) :
    Does (lowerDef name t) S.nothing := by
  cases t with
  | prim site p => exact h.pure _
  | named site other => exact h.after (h.lookupType none other) fun _ => h.pure _
  | record site fields => exact h.after (h.lowerFields none fields) fun _ => h.pure _
  | tuple site items => exact h.after (h.lowerList none items) fun _ => h.pure _
  | fn site params result =>
    exact h.after (h.lowerList none params) fun _ => h.after (h.lower none result) fun _ => h.pure _
  | adt site options => exact h.after (h.lowerOptions name options) fun _ => h.pure _

/-! ## Types of parts -/

theorem inferMember (h : S.Steps cfg Does) (site : Site) (current : Ty) (member : String) :
    Does (inferMember site current member) S.nothing := by
  refine h.after (h.resolve current) fun t => ?_
  split
  · split
    · exact h.pure _
    · exact h.recover _ rfl
  · refine h.config ?_
    split
    · exact h.fresh
    · exact h.after (h.apply _) fun _ => h.recover _ rfl

theorem inferElement (h : S.Steps cfg Does) (site : Site) (current : Ty) :
    Does (inferElement site current) S.nothing := by
  refine h.after (h.resolve current) fun t => ?_
  split
  · exact h.fresh
  · refine h.config ?_
    split
    · exact h.fresh
    · exact h.after (h.apply _) fun _ => h.recover _ rfl

theorem inferOperation (h : S.Steps cfg Does) (site rhs : Site) (op : String) (left right : Ty) :
    Does (inferOperation site rhs op left right) S.nothing := by
  have hboth : ∀ p q : Prim, Does (do
      Check.unify (.prim p) left site
      Check.unify (.prim p) right rhs
      return .prim q : Check Ty) S.nothing := fun p q =>
    h.after (h.unify _ left site) fun _ => h.after (h.unify _ right rhs) fun _ => h.pure _
  unfold Check.inferOperation
  split
  · exact hboth _ _
  · exact hboth _ _
  · exact h.after (h.unify _ _ _) fun _ => h.pure _
  · exact hboth _ _
  · exact h.recover _ rfl

theorem checkExhaustive (h : S.Steps cfg Does) (site : Site) (adt : String)
    (patterns : List Pattern) : Does (checkExhaustive site adt patterns) S.nothing := by
  unfold Check.checkExhaustive
  split
  · exact h.pure _
  · refine h.state fun run => ?_
    split
    · exact h.pure _
    · dsimp only
      split
      · exact h.pure _
      · exact h.report _ rfl

/-! ## Declarations of types -/

section
variable (hregister : ∀ c, Does (Check.act (.register c)) S.nothing)
  (hagain : ∀ site name, Does (Check.report site (.redeclared name)) S.nothing)
include hregister hagain

theorem declareConstructor (h : S.Steps cfg Does) (adt : String) (option : Ident)
    (c : Constructor) : Does (Check.declareConstructor adt option c) S.nothing := by
  have hlist : Does (Check.addSymbol option c.ty .constructor) S.nothing := h.addSymbol _ _ _
  refine h.after (hregister c) fun displaced => h.config ?_
  split
  · split
    · split
      · exact h.after (hagain _ _) fun _ => hlist
      · exact hlist
    · exact hlist
  · exact hlist

theorem declareConstructors (h : S.Steps cfg Does) (adt : String) :
    ∀ (options : List AdtOption) (cs : List Constructor),
    Does (Check.declareConstructors adt options cs) S.nothing
  | [], _ => h.pure _
  | _ :: _, [] => h.pure _
  | option :: options, c :: cs =>
    h.after (h.declareConstructor hregister hagain adt option.name c) fun _ =>
      h.declareConstructors adt options cs

/-- Where constructors do nothing, the declaration of a type does what entering its name does. -/
theorem declareType (h : S.Steps cfg Does) (name : Ident) {m : M}
    (hdeclare : ∀ d, Does (Check.act (.declareType name.name d name.site.node)) m) (ty : TypeExpr) :
    Does (Check.declareType name ty) m := by
  refine h.after (h.lowerDef name.name ty) fun d => h.before (hdeclare d) fun _ => ?_
  refine h.after (h.addSymbol _ _ _) fun _ => ?_
  split
  · exact h.declareConstructors hregister hagain _ _ _
  · exact h.pure _

end

/-! ## The end of a run -/

theorem applySymbols (h : S.Steps cfg Does) :
    ∀ symbols : List Symbol, Does (applySymbols symbols) S.nothing
  | [] => h.pure _
  | symbol :: symbols =>
    h.after (h.apply symbol.ty) fun _ => h.after (h.applySymbols symbols) fun _ => h.pure _

theorem applyNodeTypes (h : S.Steps cfg Does) :
    ∀ notes : List (NodeId × Ty), Does (applyNodeTypes notes) S.nothing
  | [] => h.pure _
  | (_, t) :: notes =>
    h.after (h.apply t) fun _ => h.after (h.applyNodeTypes notes) fun _ => h.pure _

theorem finish (h : S.Steps cfg Does) : Does finish S.nothing :=
  h.state fun _ => h.after (h.applySymbols _) fun _ =>
    h.after (h.applyNodeTypes _) fun _ => h.pure _

end Steps

/-- Where a survey collects something, the step of the inference in that place does it. -/
structure Rules (cfg : Config) (S : Survey M) (Does : ∀ {α : Type}, Check α → M → Prop) : Prop
    extends S.Steps cfg Does where
  used : ∀ name, Does (inferIdent name) (S.used name)
  param : ∀ name t, Does (declare name t .param) (S.param name)
  assigned : ∀ name t, Does (declareAssigned name t) (S.assigned name)
  imported : ∀ path name, Does (declareImport path name) (S.imported name)
  exported : ∀ name, Does (checkExport name) (S.exported name)
  declared : ∀ name ty, Does (declareType name ty) (S.declared name ty)
  acceptSum : ∀ adt scrutinee pattern,
    Does (acceptSum adt scrutinee pattern) (S.pattern pattern)
  acceptLiteral : ∀ scrutinee (pattern : Pattern), pattern.isPlain = true →
    Does (acceptLiteral scrutinee pattern) (S.pattern pattern)
  closing : ∀ site name closing, Does (checkClosing site name closing) (S.closing site name closing)
  component : ∀ name props, Does (checkComponent name props) (S.component name)
  branchless : ∀ site : Site,
    Does (throw (.noBranches site.node) : Check Unit) (S.branchless site)
  whole : ∀ e m, Does (inferExpr e) m → Does (inferExpr e) (S.andThen m (S.whole e))
  inScope : ∀ {α : Type} {x : Check α} {m : M}, Does x m → Does (Check.inScope x) (S.inScope m)
  arms : ∀ {α : Type} {x : Check α} {m : M}, Does x m → Does x (S.arms m)
  /-- The arms are passed over where the value of a match is none that can be matched. -/
  unmatched : ∀ (site : Site) (t : Ty) (m : M),
    Does (do recover site (.nonAdtMatch (← apply t))) (S.arms m)

namespace Rules

theorem declareParams (h : S.Rules cfg Does) :
    ∀ params : List Ident, Does (declareParams params) (S.names S.param params)
  | [] => h.pure _
  | param :: params =>
    h.after h.fresh fun t => h.bind (h.param param t) fun _ =>
      h.before (h.declareParams params) fun _ => h.pure _

theorem names (h : S.Rules cfg Does) {f : Ident → Check Unit} {visit : Ident → M}
    (hf : ∀ name, Does (f name) (visit name)) :
    ∀ names : List Ident, Does (names.forM f) (S.names visit names)
  | [] => h.pure _
  | name :: names => h.bind (hf name) fun _ => h.names hf names

mutual
theorem inferExpr (h : S.Rules cfg Does) : ∀ e : Expr, Does (inferExpr e) (e.survey S)
  | ⟨site, primary, tails⟩ => by
    apply h.whole
    refine h.bind (h.inferPrimary primary) fun t => ?_
    refine h.after (h.recordType primary.site.node t) fun _ => ?_
    refine h.before (h.inferTails t tails) fun u => ?_
    exact h.after (h.recordType site.node u) fun _ => h.pure u

theorem inferExprs (h : S.Rules cfg Does) :
    ∀ es : List Expr, Does (inferExprs es) (Expr.surveyAll S es)
  | [] => h.pure _
  | e :: es => h.bind (h.inferExpr e) fun _ => h.before (h.inferExprs es) fun _ => h.pure _

theorem inferPrimary (h : S.Rules cfg Does) : ∀ p : Primary, Does (inferPrimary p) (p.survey S)
  | .ident _ name => h.used name
  | .literal _ _ => h.pure _
  | .paren _ inner => h.inferExpr inner
  | .block _ body => h.inferBlock body
  | .record _ entries => h.before (h.inferEntries entries) fun _ => h.pure _
  | .array _ items => h.before (h.inferExprs items) fun _ => h.pure _
  | .function _ params body =>
    h.inScope (h.bind (h.declareParams params) fun _ =>
      h.before (h.inferExpr body) fun _ => h.pure _)
  | .ifChain site branches otherwise => by
    have hrest : Does (do
        let result ← Check.fresh
        Check.inferBranches result branches
        Check.inferOtherwise result otherwise
        return result)
        (S.andThen (Branch.surveyAll S branches) (Expr.surveyOption S otherwise)) :=
      h.after h.fresh fun t => h.bind (h.inferBranches t branches) fun _ =>
        h.before (h.inferOtherwise t otherwise) fun _ => h.pure _
    simp only [Check.inferPrimary, Primary.survey]
    split
    · exact h.bind (h.branchless site) fun _ => hrest
    · rw [S.nothing_andThen]
      exact hrest
  | .matchOn site scrutinee arms => by
    refine h.bind (h.inferExpr scrutinee) fun t => h.after (h.resolve t) fun u =>
      h.state fun run => ?_
    dsimp only
    split
    · next adt _ =>
      apply h.arms
      refine h.after h.fresh fun r => ?_
      have harms := h.inferArms r arms fun pattern _ => h.acceptSum adt t pattern
      refine h.before harms fun _ => h.config ?_
      split
      · exact h.after (h.checkExhaustive _ _ _) fun _ => h.apply _
      · exact h.apply _
    · next hform =>
      apply h.arms
      refine h.after h.fresh fun r => ?_
      have harms := h.inferArms r arms fun pattern hp =>
        h.acceptLiteral t pattern (MatchForm.plain_of_onLiterals hform pattern hp)
      exact h.before harms fun _ => h.apply _
    · exact h.unmatched _ _ _
  | .markup _ element => h.inferMarkup element

theorem inferBlock (h : S.Rules cfg Does) : ∀ b : Block, Does (inferBlock b) (b.survey S)
  | ⟨_, statements, result⟩ =>
    h.inScope (h.bind (h.checkStmts statements) fun _ => h.inferResult result)

theorem inferResult (h : S.Rules cfg Does) :
    ∀ result : Option Expr, Does (inferResult result) (Expr.surveyOption S result)
  | some e => h.inferExpr e
  | none => h.fresh

theorem inferEntries (h : S.Rules cfg Does) :
    ∀ entries : List Entry, Does (inferEntries entries) (Entry.surveyAll S entries)
  | [] => h.pure _
  | ⟨_, value⟩ :: entries =>
    h.bind (h.inferExpr value) fun _ => h.before (h.inferEntries entries) fun _ => h.pure _

theorem inferBranches (h : S.Rules cfg Does) (result : Ty) :
    ∀ branches : List Branch, Does (inferBranches result branches) (Branch.surveyAll S branches)
  | [] => h.pure _
  | ⟨_, condition, body⟩ :: branches => by
    refine h.bind (h.inferExpr condition) fun t => h.after (h.unify _ _ _) fun _ => ?_
    refine h.bind (h.inferExpr body) fun u => h.after (h.unify _ _ _) fun _ => ?_
    exact h.inferBranches result branches

theorem inferOtherwise (h : S.Rules cfg Does) (result : Ty) : ∀ otherwise : Option Expr,
    Does (inferOtherwise result otherwise) (Expr.surveyOption S otherwise)
  | none => h.pure _
  | some body => h.before (h.inferExpr body) fun _ => h.unify _ _ _

theorem inferArms (h : S.Rules cfg Does) {accept : Pattern → Check Unit} (result : Ty) :
    ∀ arms : List Arm,
    (∀ pattern ∈ arms.map (·.pattern), Does (accept pattern) (S.pattern pattern)) →
    Does (inferArms accept result arms) (Arm.surveyAll S arms)
  | [], _ => h.pure _
  | ⟨_, pattern, body⟩ :: arms, haccept => by
    rw [List.map_cons, List.forall_mem_cons] at haccept
    have hbody : Does (do Check.unify result (← Check.inferExpr body) body.site) (body.survey S) :=
      h.before (h.inferExpr body) fun _ => h.unify _ _ _
    refine h.bind (h.inScope (h.bind haccept.1 fun _ => hbody)) fun _ => ?_
    exact h.inferArms result arms haccept.2

theorem inferTails (h : S.Rules cfg Does) (current : Ty) :
    ∀ tails : List Tail, Does (inferTails current tails) (Tail.surveyAll S tails)
  | [] => h.pure _
  | tail :: tails => by
    refine h.bind (h.inferTail current tail) fun t => ?_
    exact h.after (h.recordType tail.site.node t) fun _ => h.inferTails t tails

theorem inferTail (h : S.Rules cfg Does) (current : Ty) :
    ∀ tail : Tail, Does (inferTail current tail) (tail.survey S)
  | .member site name => h.inferMember site current name.name
  | .index site index =>
    h.before (h.inferExpr index) fun _ => h.after (h.unify _ _ _) fun _ =>
      h.inferElement site current
  | .call _ args =>
    h.before (h.inferExprs args) fun _ => h.after h.fresh fun _ => h.after (h.unify _ _ _)
      fun _ => h.pure _
  | .operation site op rhs =>
    h.before (h.inferExpr rhs) fun _ => h.inferOperation site rhs.site op current _

theorem inferMarkup (h : S.Rules cfg Does) :
    ∀ element : Markup, Does (inferMarkup element) (element.survey S)
  | ⟨site, name, attributes, children, closing⟩ => by
    refine h.bind (h.closing site name closing) fun _ => ?_
    refine h.bind (h.inferAttributes attributes) fun props => ?_
    refine h.bind (h.component name _) fun _ => ?_
    exact h.before (h.checkChildren children) fun _ => h.pure _

theorem inferAttributes (h : S.Rules cfg Does) :
    ∀ attrs : List Attribute, Does (inferAttributes attrs) (Attribute.surveyAll S attrs)
  | [] => h.pure _
  | attr :: attrs =>
    h.bind (h.inferAttribute attr) fun _ => h.before (h.inferAttributes attrs) fun _ => h.pure _

theorem inferAttribute (h : S.Rules cfg Does) :
    ∀ attr : Attribute, Does (inferAttribute attr) (attr.survey S)
  | .string _ _ => h.pure _
  | .number _ _ => h.pure _
  | .expr _ value => h.before (h.inferExpr value) fun _ => h.pure _

theorem checkChildren (h : S.Rules cfg Does) :
    ∀ children : List Child, Does (checkChildren children) (Child.surveyAll S children)
  | [] => h.pure _
  | child :: children => h.bind (h.checkChild child) fun _ => h.checkChildren children

theorem checkChild (h : S.Rules cfg Does) :
    ∀ child : Child, Does (checkChild child) (child.survey S)
  | .text _ => h.pure _
  | .expr value => h.before (h.inferExpr value) fun _ => h.pure _
  | .element value => h.before (h.inferMarkup value) fun _ => h.pure _

theorem checkStmts (h : S.Rules cfg Does) :
    ∀ stmts : List Stmt, Does (checkStmts stmts) (Stmt.surveyAll S stmts)
  | [] => h.pure _
  | stmt :: stmts => h.bind (h.checkStmt stmt) fun _ => h.checkStmts stmts

theorem checkStmt (h : S.Rules cfg Does) : ∀ stmt : Stmt, Does (checkStmt stmt) (stmt.survey S)
  | .assign _ _ name value => h.bind (h.inferExpr value) fun t => h.assigned name t
  | .typeDecl _ name ty => h.declared name ty
  | .importFrom _ default names path => by
    have hnames := h.names (h.imported path) names
    cases default with
    | none => exact hnames
    | some name => exact h.bind (h.imported path name) fun _ => hnames
  | .exportNames _ names => h.names h.exported names
  | .expr _ value => h.before (h.inferExpr value) fun _ => h.pure _
end

end Rules

end Survey

end Monotype
