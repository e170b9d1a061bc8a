import Monotype.Proofs.Tree.Survey

/-! Surveys of what stands directly in a scope. What they collect inside a scope of its own is not
seen from outside, so that they find something in statements only: an expression has its statements,
parameters and binders in scopes of its own. -/
namespace Monotype
variable {M : Type} {S : Survey M}

/-- `S` sees nothing of what stands in another scope, and nothing at the places of an expression. -/
structure Survey.Confined (S : Survey M) : Prop where
  inScope : ∀ m, S.inScope m = S.nothing
  arms : S.arms S.nothing = S.nothing
  used : ∀ name, S.used name = S.nothing
  closing : ∀ site name closing, S.closing site name closing = S.nothing
  component : ∀ name, S.component name = S.nothing
  branchless : ∀ site, S.branchless site = S.nothing
  whole : ∀ e, S.whole e = S.nothing

theorem Arm.surveyAll_confined (h : S.Confined) : ∀ arms : List Arm,
    Arm.surveyAll S arms = S.nothing
  | [] => rfl
  | ⟨_, _, _⟩ :: arms => by
    rw [Arm.surveyAll, h.inScope, Arm.surveyAll_confined h arms, S.nothing_andThen]

mutual
theorem Expr.survey_confined (h : S.Confined) : ∀ e : Expr, e.survey S = S.nothing
  | ⟨site, primary, tails⟩ => by
    rw [Expr.survey, primary.survey_confined h, Tail.surveyAll_confined h tails, h.whole,
      S.nothing_andThen, S.nothing_andThen]

theorem Expr.surveyAll_confined (h : S.Confined) :
    ∀ es : List Expr, Expr.surveyAll S es = S.nothing
  | [] => rfl
  | e :: es => by
    rw [Expr.surveyAll, e.survey_confined h, Expr.surveyAll_confined h es, S.nothing_andThen]

theorem Primary.survey_confined (h : S.Confined) : ∀ p : Primary, p.survey S = S.nothing
  | .ident _ name => h.used name
  | .literal _ _ => rfl
  | .paren _ inner => inner.survey_confined h
  | .block _ ⟨_, _, _⟩ => h.inScope _
  | .record _ entries => Entry.surveyAll_confined h entries
  | .array _ items => Expr.surveyAll_confined h items
  | .function _ _ _ => h.inScope _
  | .ifChain site branches otherwise => by
    have hopening : (if branches.isEmpty then S.branchless site else S.nothing) = S.nothing := by
      rw [h.branchless, ite_self]
    rw [Primary.survey, hopening, Branch.surveyAll_confined h branches,
      Expr.surveyOption_confined h otherwise, S.nothing_andThen, S.nothing_andThen]
  | .matchOn _ scrutinee arms => by
    rw [Primary.survey, scrutinee.survey_confined h, Arm.surveyAll_confined h, h.arms,
      S.nothing_andThen]
  | .markup _ element => element.survey_confined h

theorem Expr.surveyOption_confined (h : S.Confined) :
    ∀ e : Option Expr, Expr.surveyOption S e = S.nothing
  | none => rfl
  | some e => e.survey_confined h

theorem Entry.surveyAll_confined (h : S.Confined) :
    ∀ entries : List Entry, Entry.surveyAll S entries = S.nothing
  | [] => rfl
  | ⟨_, value⟩ :: entries => by
    rw [Entry.surveyAll, value.survey_confined h, Entry.surveyAll_confined h entries,
      S.nothing_andThen]

theorem Branch.surveyAll_confined (h : S.Confined) :
    ∀ branches : List Branch, Branch.surveyAll S branches = S.nothing
  | [] => rfl
  | ⟨_, condition, body⟩ :: branches => by
    rw [Branch.surveyAll, condition.survey_confined h, body.survey_confined h,
      Branch.surveyAll_confined h branches, S.nothing_andThen, S.nothing_andThen]

theorem Tail.surveyAll_confined (h : S.Confined) :
    ∀ tails : List Tail, Tail.surveyAll S tails = S.nothing
  | [] => rfl
  | tail :: tails => by
    rw [Tail.surveyAll, tail.survey_confined h, Tail.surveyAll_confined h tails, S.nothing_andThen]

theorem Tail.survey_confined (h : S.Confined) : ∀ tail : Tail, tail.survey S = S.nothing
  | .member _ _ => rfl
  | .index _ index => index.survey_confined h
  | .call _ args => Expr.surveyAll_confined h args
  | .operation _ _ rhs => rhs.survey_confined h

theorem Markup.survey_confined (h : S.Confined) :
    ∀ element : Markup, element.survey S = S.nothing
  | ⟨site, name, attributes, children, closing⟩ => by
    rw [Markup.survey, h.closing, h.component, Attribute.surveyAll_confined h attributes,
      Child.surveyAll_confined h children, S.nothing_andThen, S.nothing_andThen, S.nothing_andThen]

theorem Attribute.surveyAll_confined (h : S.Confined) :
    ∀ attrs : List Attribute, Attribute.surveyAll S attrs = S.nothing
  | [] => rfl
  | attr :: attrs => by
    rw [Attribute.surveyAll, attr.survey_confined h, Attribute.surveyAll_confined h attrs,
      S.nothing_andThen]

theorem Attribute.survey_confined (h : S.Confined) : ∀ attr : Attribute, attr.survey S = S.nothing
  | .string _ _ | .number _ _ => rfl
  | .expr _ value => value.survey_confined h

theorem Child.surveyAll_confined (h : S.Confined) :
    ∀ children : List Child, Child.surveyAll S children = S.nothing
  | [] => rfl
  | child :: children => by
    rw [Child.surveyAll, child.survey_confined h, Child.surveyAll_confined h children,
      S.nothing_andThen]

theorem Child.survey_confined (h : S.Confined) : ∀ child : Child, child.survey S = S.nothing
  | .text _ => rfl
  | .expr value => value.survey_confined h
  | .element value => value.survey_confined h
end

end Monotype
