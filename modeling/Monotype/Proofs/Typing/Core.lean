import Monotype.Proofs.Check.Parts
import Monotype.Proofs.Typing.Clean

/-! The core of the language, in which types follow from equations alone: nothing depends on what is
known of a type when it is looked at. Checking a core program always comes to an end. -/
namespace Monotype

mutual
/-- Whether an expression is in the core: it has no members, indices, matches and markup, and every
`if` in it has a branch. -/
def Expr.isCore : Expr → Bool
  | ⟨_, primary, tails⟩ => primary.isCore && Tail.isCoreAll tails

def Expr.isCoreAll : List Expr → Bool
  | [] => true
  | e :: es => e.isCore && Expr.isCoreAll es

def Expr.isCoreOption : Option Expr → Bool
  | some e => e.isCore
  | none => true

def Primary.isCore : Primary → Bool
  | .ident _ _ | .literal _ _ => true
  | .paren _ inner => inner.isCore
  | .block _ body => body.isCore
  | .record _ entries => Entry.isCoreAll entries
  | .array _ items => Expr.isCoreAll items
  | .function _ _ body => body.isCore
  | .ifChain _ branches otherwise =>
    !branches.isEmpty && Branch.isCoreAll branches && Expr.isCoreOption otherwise
  | .matchOn _ _ _ | .markup _ _ => false

def Block.isCore : Block → Bool
  | ⟨_, statements, result⟩ => Stmt.isCoreAll statements && Expr.isCoreOption result

def Entry.isCoreAll : List Entry → Bool
  | [] => true
  | ⟨_, value⟩ :: entries => value.isCore && Entry.isCoreAll entries

def Branch.isCoreAll : List Branch → Bool
  | [] => true
  | ⟨_, condition, body⟩ :: branches =>
    condition.isCore && body.isCore && Branch.isCoreAll branches

def Tail.isCoreAll : List Tail → Bool
  | [] => true
  | tail :: tails => tail.isCore && Tail.isCoreAll tails

def Tail.isCore : Tail → Bool
  | .call _ args => Expr.isCoreAll args
  | .operation _ _ rhs => rhs.isCore
  | .member _ _ | .index _ _ => false

def Stmt.isCoreAll : List Stmt → Bool
  | [] => true
  | stmt :: stmts => stmt.isCore && Stmt.isCoreAll stmts

/-- Core statements assign names and evaluate expressions. -/
def Stmt.isCore : Stmt → Bool
  | .assign _ _ _ value | .expr _ value => value.isCore
  | .typeDecl _ _ _ | .importFrom _ _ _ _ | .exportNames _ _ => false
end

namespace Check
variable {α β : Type} {cfg : Config}

/-- From every state `x` ends with an answer. -/
def Returns (cfg : Config) (x : Check α) : Prop := ∀ s, ∃ a s', x.run cfg s = (.ok a, s')

namespace Returns

theorem pure (a : α) : Returns cfg (pure a) := fun s => ⟨a, s, rfl⟩

theorem act (a : Act) : Returns cfg (act a) := fun _ => ⟨_, _, rfl⟩

theorem bind {x : Check α} {f : α → Check β} (hx : Returns cfg x) (hf : ∀ a, Returns cfg (f a)) :
    Returns cfg (x >>= f) := by
  intro s
  obtain ⟨a, s₁, hrun⟩ := hx s
  obtain ⟨b, s₂, hrest⟩ := hf a s₁
  exact ⟨b, s₂, by rw [run_bind, hrun]; exact hrest⟩

theorem unify (l r : Ty) (site : Site) : Returns cfg (unify l r site) :=
  fun s => ⟨_, _, run_unify cfg l r site s⟩

theorem composes : Composes cfg (Returns cfg) where
  pure := .pure
  bind := .bind
  config h := fun s => h s
  act a _ := .act a
  unify := .unify

end Returns

theorem inferOperation_returns (site rhs : Site) (op : String) (left right : Ty) :
    Returns cfg (inferOperation site rhs op left right) := by
  unfold inferOperation
  split
  · exact .bind (.unify _ _ _) fun _ => .bind (.unify _ _ _) fun _ => .pure _
  · exact .bind (.unify _ _ _) fun _ => .bind (.unify _ _ _) fun _ => .pure _
  · exact .bind (.unify _ _ _) fun _ => .pure _
  · exact .bind (.unify _ _ _) fun _ => .bind (.unify _ _ _) fun _ => .pure _
  · exact Returns.composes.recover _ _

theorem declareParams_returns : ∀ params : List Ident, Returns cfg (declareParams params)
  | [] => .pure _
  | _ :: params =>
    .bind (.act _) fun _ => .bind (Returns.composes.declare _ _ _) fun _ =>
      .bind (declareParams_returns params) fun _ => .pure _

mutual
theorem inferExpr_returns : ∀ e : Expr, e.isCore = true → Returns cfg (inferExpr e)
  | ⟨_, primary, tails⟩, h => by
    rw [Expr.isCore, Bool.and_eq_true] at h
    exact .bind (inferPrimary_returns primary h.1) fun t => .bind (.act _) fun _ =>
      .bind (inferTails_returns t tails h.2) fun u => .bind (.act _) fun _ => .pure u

theorem inferExprs_returns : ∀ es : List Expr, Expr.isCoreAll es = true →
    Returns cfg (inferExprs es)
  | [], _ => .pure _
  | e :: es, h => by
    rw [Expr.isCoreAll, Bool.and_eq_true] at h
    exact .bind (inferExpr_returns e h.1) fun _ => .bind (inferExprs_returns es h.2)
      fun _ => .pure _

theorem inferPrimary_returns : ∀ p : Primary, p.isCore = true → Returns cfg (inferPrimary p)
  | .ident _ name, _ => Returns.composes.inferIdent name
  | .literal _ l, _ => .pure l.ty
  | .paren _ inner, h => inferExpr_returns inner h
  | .block _ body, h => inferBlock_returns body h
  | .record _ entries, h => .bind (inferEntries_returns entries h) fun _ => .pure _
  | .array _ items, h => .bind (inferExprs_returns items h) fun _ => .pure _
  | .function _ params body, h =>
    Returns.composes.inScope (.bind (declareParams_returns params) fun _ =>
      .bind (inferExpr_returns body h) fun _ => .pure _)
  | .ifChain _ branches otherwise, h => by
    rw [Primary.isCore, Bool.and_eq_true, Bool.and_eq_true, Bool.not_eq_true'] at h
    obtain ⟨⟨hne, hbranches⟩, hotherwise⟩ := h
    simp only [inferPrimary, hne]
    exact .bind (.act _) fun t => .bind (inferBranches_returns t branches hbranches) fun _ =>
      .bind (inferOtherwise_returns t otherwise hotherwise) fun _ => .pure t

theorem inferBlock_returns : ∀ b : Block, b.isCore = true → Returns cfg (inferBlock b)
  | ⟨_, statements, result⟩, h => by
    rw [Block.isCore, Bool.and_eq_true] at h
    exact Returns.composes.inScope (.bind (checkStmts_returns statements h.1) fun _ =>
      inferResult_returns result h.2)

theorem inferResult_returns : ∀ e : Option Expr, Expr.isCoreOption e = true →
    Returns cfg (inferResult e)
  | some e, h => inferExpr_returns e h
  | none, _ => .act _

theorem inferEntries_returns : ∀ entries : List Entry, Entry.isCoreAll entries = true →
    Returns cfg (inferEntries entries)
  | [], _ => .pure _
  | ⟨_, value⟩ :: entries, h => by
    rw [Entry.isCoreAll, Bool.and_eq_true] at h
    exact .bind (inferExpr_returns value h.1) fun _ => .bind (inferEntries_returns entries h.2)
      fun _ => .pure _

theorem inferBranches_returns (result : Ty) : ∀ branches : List Branch,
    Branch.isCoreAll branches = true → Returns cfg (inferBranches result branches)
  | [], _ => .pure _
  | ⟨_, condition, body⟩ :: branches, h => by
    rw [Branch.isCoreAll, Bool.and_eq_true, Bool.and_eq_true] at h
    obtain ⟨⟨hcondition, hbody⟩, hbranches⟩ := h
    exact .bind (inferExpr_returns condition hcondition) fun _ => .bind (.unify _ _ _) fun _ =>
      .bind (inferExpr_returns body hbody) fun _ => .bind (.unify _ _ _) fun _ =>
        inferBranches_returns result branches hbranches

theorem inferOtherwise_returns (result : Ty) : ∀ e : Option Expr, Expr.isCoreOption e = true →
    Returns cfg (inferOtherwise result e)
  | some e, h => .bind (inferExpr_returns e h) fun _ => .unify _ _ _
  | none, _ => .pure _

theorem inferTails_returns (current : Ty) : ∀ tails : List Tail, Tail.isCoreAll tails = true →
    Returns cfg (inferTails current tails)
  | [], _ => .pure current
  | tail :: tails, h => by
    rw [Tail.isCoreAll, Bool.and_eq_true] at h
    exact .bind (inferTail_returns current tail h.1) fun t => .bind (.act _) fun _ =>
      inferTails_returns t tails h.2

theorem inferTail_returns (current : Ty) : ∀ tail : Tail, tail.isCore = true →
    Returns cfg (inferTail current tail)
  | .call _ args, h =>
    .bind (inferExprs_returns args h) fun _ => .bind (.act _) fun t => .bind (.unify _ _ _)
      fun _ => .pure t
  | .operation _ _ rhs, h =>
    .bind (inferExpr_returns rhs h) fun _ => inferOperation_returns _ _ _ _ _

theorem checkStmts_returns : ∀ stmts : List Stmt, Stmt.isCoreAll stmts = true →
    Returns cfg (checkStmts stmts)
  | [], _ => .pure _
  | stmt :: stmts, h => by
    rw [Stmt.isCoreAll, Bool.and_eq_true] at h
    exact .bind (checkStmt_returns stmt h.1) fun _ => checkStmts_returns stmts h.2

theorem checkStmt_returns : ∀ stmt : Stmt, stmt.isCore = true → Returns cfg (checkStmt stmt)
  | .assign _ _ name value, h =>
    .bind (inferExpr_returns value h) fun t => Returns.composes.declareAssigned name t
  | .expr _ value, h => .bind (inferExpr_returns value h) fun _ => .pure _
end

end Check

end Monotype
