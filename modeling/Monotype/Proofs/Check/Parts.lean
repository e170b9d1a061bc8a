import Monotype.Check.Infer

/-! The small parts of the inference, which treat names and patterns and do not go down the tree. A
property that all actions have except the declarations of types, and that is kept when steps are put
together, holds of each of these parts. -/
namespace Monotype.Check
variable {cfg : Config} {P : ∀ {α : Type}, Check α → Prop} {α β : Type}

/-- Actions that leave the declared types and constructors as they are. -/
def Act.Lasting : Act → Prop
  | .declareType _ _ _ | .register _ => False
  | _ => True

/-- `P` is kept when steps are put together, and actions have it unless they declare types. -/
structure Composes (cfg : Config) (P : ∀ {α : Type}, Check α → Prop) : Prop where
  pure : ∀ {α : Type} (a : α), P (pure a : Check α)
  bind : ∀ {α β : Type} {x : Check α} {f : α → Check β}, P x → (∀ a, P (f a)) → P (x >>= f)
  config : ∀ {β : Type} {f : Config → Check β}, P (f cfg) → P (Check.config >>= f)
  act : ∀ a : Act, a.Lasting → P (act a)
  unify : ∀ (l r : Ty) (site : Site), P (unify l r site)

namespace Composes

theorem state (h : Composes cfg P) {f : Run → Check β} (hf : ∀ run, P (f run)) :
    P (Check.state >>= f) :=
  h.bind (h.act .state trivial) hf

theorem fresh (h : Composes cfg P) : P fresh := h.act _ trivial

theorem report (h : Composes cfg P) (site : Site) (error : TypeError Ty) : P (report site error) :=
  h.act _ trivial

theorem recover (h : Composes cfg P) (site : Site) (error : TypeError Ty) :
    P (recover site error) :=
  h.bind (h.report site error) fun _ => h.fresh

theorem declare (h : Composes cfg P) (name : Ident) (t : Ty) (kind : SymbolKind) :
    P (declare name t kind) :=
  h.bind (h.act _ trivial) fun _ => h.act _ trivial

theorem inScope (h : Composes cfg P) {x : Check α} (hx : P x) : P (inScope x) :=
  h.bind (h.act .enter trivial) fun _ => h.bind hx fun a =>
    h.bind (h.act .leave trivial) fun _ => h.pure a

/-! ## Names -/

theorem lookupValue (h : Composes cfg P) (name : String) : P (lookupValue name) := by
  refine h.state fun run => ?_
  split
  · exact h.pure _
  · exact h.pure _

theorem inferIdent (h : Composes cfg P) (name : Ident) : P (inferIdent name) := by
  refine h.bind (h.lookupValue name.name) fun value => ?_
  split
  · exact h.pure _
  · exact h.recover _ _

theorem declaredHere (h : Composes cfg P) (name : String) : P (declaredHere name) :=
  h.state fun _ => h.pure _

theorem earlierBinding (h : Composes cfg P) (name : String) : P (earlierBinding name) := by
  refine h.state fun run => ?_
  split
  · exact h.pure _
  · exact h.pure _

theorem declareAssigned (h : Composes cfg P) (name : Ident) (t : Ty) :
    P (declareAssigned name t) := by
  refine h.config (h.bind (h.declaredHere _) fun here => ?_)
  split
  · refine h.bind (h.earlierBinding _) fun labels => ?_
    exact h.bind (h.act _ trivial) fun _ => h.declare _ _ _
  · exact h.declare _ _ _

theorem declareImport (h : Composes cfg P) (path : String) (name : Ident) :
    P (declareImport path name) := by
  refine h.bind (h.declaredHere _) fun here => ?_
  split
  · exact h.bind (h.earlierBinding _) fun labels => h.act _ trivial
  · exact h.declare _ _ _

theorem checkExport (h : Composes cfg P) (name : Ident) : P (checkExport name) := by
  refine h.bind (h.lookupValue _) fun value => ?_
  split
  · exact h.report _ _
  · exact h.pure _

theorem checkComponent (h : Composes cfg P) (name : Ident) (props : Ty) :
    P (checkComponent name props) := by
  refine h.config ?_
  split
  · exact h.pure _
  · refine h.bind (h.lookupValue _) fun value => ?_
    split
    · exact h.unify _ _ _
    · exact h.report _ _

/-! ## Patterns -/

theorem acceptPayload (h : Composes cfg P) (param : Ty) (pattern : Pattern) :
    P (acceptPayload param pattern) := by
  cases pattern with
  | wildcard site => exact h.pure _
  | literal site l => exact h.unify _ _ _
  | binding site name => exact h.declare _ _ _
  | constructor site name args => exact h.report _ _

theorem acceptArgs (h : Composes cfg P) (site : Site) (name : String) (params : List Ty)
    (args : List Pattern) : P (acceptArgs site name params args) := by
  unfold Check.acceptArgs
  split
  · split
    · exact h.pure _
    · exact h.report _ _
  · split
    · exact h.acceptPayload _ _
    · refine h.bind (h.report _ _) fun _ => ?_
      split
      · exact h.bind h.fresh fun t => h.act _ trivial
      · exact h.pure _
  · exact h.report _ _

theorem acceptSum (h : Composes cfg P) (adt : String) (scrutinee : Ty) (pattern : Pattern) :
    P (acceptSum adt scrutinee pattern) := by
  cases pattern with
  | wildcard site => exact h.pure _
  | literal site l => exact h.unify _ _ _
  | binding site name => exact h.report _ _
  | constructor site name args =>
    refine h.state fun run => ?_
    split
    · exact h.acceptArgs _ _ _ _
    · exact h.report _ _

theorem acceptLiteral (h : Composes cfg P) (scrutinee : Ty) (pattern : Pattern) :
    P (acceptLiteral scrutinee pattern) := by
  unfold Check.acceptLiteral
  split
  · exact h.unify _ _ _
  · exact h.pure _

end Composes

end Monotype.Check
