import Mathlib.Data.List.Nodup
import Monotype.Proofs.Tree.Numbers
import Monotype.Tree.Sketch

/-! Numbering a sketch. Every number is given to one node or one name, in the order in which the
tree lists them; what is lost are the numbers of closing names that are replaced by others. -/
namespace Monotype.Sketch

/-! ## Closing names that are replaced -/

/-- The element has a closing name. -/
def Markup.closes : Markup → Bool
  | .selfClosing _ _ => false
  | _ => true

mutual
/-- How many closing names are written over. -/
def Stmt.overwritten : Stmt → Nat
  | .assign _ _ value => value.overwritten
  | .expr value => value.overwritten
  | _ => 0

def Stmt.overwrittenAll : List Stmt → Nat
  | [] => 0
  | stmt :: stmts => stmt.overwritten + Stmt.overwrittenAll stmts

def Expr.overwritten : Expr → Nat
  | .literal _ => 0
  | .ident _ => 0
  | .paren inner => inner.overwritten
  | .block statements result => Stmt.overwrittenAll statements + Expr.overwritten? result
  | .record entries => Expr.overwrittenEntries entries
  | .array items => Expr.overwrittenAll items
  | .function _ body => body.overwritten
  | .ifChain branches otherwise =>
    Expr.overwrittenBranches branches + Expr.overwritten? otherwise
  | .matchOn scrutinee arms => scrutinee.overwritten + Expr.overwrittenArms arms
  | .markup element => element.overwritten
  | .member target _ => target.overwritten
  | .index target index => target.overwritten + index.overwritten
  | .call target args => target.overwritten + Expr.overwrittenAll args
  | .operation left _ right => left.overwritten + right.overwritten

def Expr.overwrittenAll : List Expr → Nat
  | [] => 0
  | e :: es => e.overwritten + Expr.overwrittenAll es

def Expr.overwritten? : Option Expr → Nat
  | none => 0
  | some e => e.overwritten

def Expr.overwrittenEntries : List (String × Expr) → Nat
  | [] => 0
  | (_, value) :: entries => value.overwritten + Expr.overwrittenEntries entries

def Expr.overwrittenBranches : List (Expr × Expr) → Nat
  | [] => 0
  | (condition, body) :: branches =>
    condition.overwritten + (body.overwritten + Expr.overwrittenBranches branches)

def Expr.overwrittenArms : List (Pattern × Expr) → Nat
  | [] => 0
  | (_, body) :: arms => body.overwritten + Expr.overwrittenArms arms

def Markup.overwritten : Markup → Nat
  | .element _ attributes children =>
    Attribute.overwrittenAll attributes + Child.overwrittenAll children
  | .selfClosing _ attributes => Attribute.overwrittenAll attributes
  | .close element _ => element.overwritten + if element.closes then 1 else 0

def Attribute.overwrittenAll : List Attribute → Nat
  | [] => 0
  | a :: as => a.overwritten + Attribute.overwrittenAll as

def Attribute.overwritten : Attribute → Nat
  | .expr _ value => value.overwritten
  | _ => 0

def Child.overwrittenAll : List Child → Nat
  | [] => 0
  | c :: cs => c.overwritten + Child.overwrittenAll cs

def Child.overwritten : Child → Nat
  | .text _ => 0
  | .expr value => value.overwritten
  | .element value => value.overwritten
end

/-! ## Steps that hand out numbers -/

section
variable {α β γ : Type} {numbers : α → List NodeId} {numbers' : β → List NodeId}
  {held : List NodeId} {lost lost' total n : Nat}

/-- From `n` on `x` hands out numbers, all but `lost` of which are, in order, the numbers in what it
gives after those that it has been `held`. -/
def Adds (numbers : α → List NodeId) (held : List NodeId) (lost : Nat) (x : Numbering α) : Prop :=
  ∀ n, ∃ new, numbers (x n).1 = held ++ new ∧
    new.Sublist (List.range' n (new.length + lost)) ∧ (x n).2 = n + (new.length + lost)

namespace Adds

theorem pure {a : α} (h : numbers a = held) : Adds numbers held 0 (pure a) :=
  fun _ => ⟨[], h.trans (List.append_nil held).symm, List.nil_sublist _, rfl⟩

/-- One step after the other: the second one starts from the numbers in what the first one gives. -/
theorem bind {x : Numbering α} {f : α → Numbering β} (hx : Adds numbers held lost x)
    (hf : ∀ a, Adds numbers' (numbers a) lost' (f a)) (htotal : lost + lost' = total) :
    Adds numbers' held total (x >>= f) := by
  intro n
  obtain ⟨new, hnew, hsub, hnext⟩ := hx n
  obtain ⟨new', hnew', hsub', hnext'⟩ := hf (x n).1 (x n).2
  have hcount : (new ++ new').length + total = new.length + lost + (new'.length + lost') := by
    rw [List.length_append]
    omega
  rw [hnext] at hsub'
  refine ⟨new ++ new', ?_, ?_, ?_⟩
  · rw [← List.append_assoc, ← hnew]
    exact hnew'
  · rw [hcount, ← List.range'_append_1]
    exact hsub.append hsub'
  · rw [hcount, ← Nat.add_assoc, ← hnext]
    exact hnext'

/-- What is held already stays in front. -/
theorem frame {x : Numbering α} (h : Adds numbers [] lost x) (held : List NodeId) :
    Adds (fun a => held ++ numbers a) held lost x := by
  intro n
  obtain ⟨new, hnew, hsub, hnext⟩ := h n
  exact ⟨new, congrArg (held ++ ·) hnew, hsub, hnext⟩

/-- Looking at what is given in another way. -/
theorem congr {x : Numbering α} {other : α → List NodeId} (h : Adds numbers held lost x)
    (heq : ∀ n, other (x n).1 = numbers (x n).1) : Adds other held lost x := by
  intro n
  obtain ⟨new, hnew, hsub, hnext⟩ := h n
  exact ⟨new, (heq n).trans hnew, hsub, hnext⟩

theorem next (held : List NodeId) : Adds (fun site => held ++ [site.node]) held 0 next :=
  fun n => ⟨[n], rfl, List.Sublist.refl _, rfl⟩

theorem ident (held : List NodeId) (name : String) :
    Adds (fun name => held ++ [name.number]) held 0 (ident name) :=
  fun n => ⟨[n], rfl, List.Sublist.refl _, rfl⟩

theorem literal (held : List NodeId) (value : LiteralValue) :
    Adds (fun value => held ++ [value.number]) held 0 (literal value) :=
  fun n => ⟨[n], rfl, List.Sublist.refl _, rfl⟩

theorem idents (held : List NodeId) (names : List String) :
    Adds (fun names => held ++ names.map Ident.number) held 0 (idents names) := by
  induction names generalizing held with
  | nil => exact .pure (by simp)
  | cons name names ih =>
    exact .bind (.ident held name) (fun first => .bind (ih (held ++ [first.number]))
      (fun rest => .pure (by simp)) rfl) rfl

theorem ident? (held : List NodeId) :
    ∀ name : Option String,
      Adds (fun name => held ++ name.toList.map Ident.number) held 0 (ident? name)
  | none => .pure (by simp)
  | some name => .bind (.ident held name) (fun _ => .pure rfl) rfl

end Adds

/-- Goes through a list and gives one number to each of its elements. -/
def each (step : Site → α → β) : List α → Numbering (List β)
  | [] => return []
  | a :: as => do
    let site ← next
    let rest ← each step as
    return step site a :: rest

/-- What stands inside the elements has its numbers before; theirs come after all of these. -/
theorem Adds.each {x : Numbering (List β)} {step : Site → α → β} {as : List α}
    (hx : x = each step as) {node : β → NodeId} {inside : List β → List NodeId}
    {part : α → List NodeId} (hnode : ∀ site a, node (step site a) = site.node)
    (hnil : inside [] = []) (hcons : ∀ site a bs, inside (step site a :: bs) = part a ++ inside bs)
    (around : List NodeId → List NodeId) :
    Adds (fun bs => around (inside bs) ++ bs.map node) (around (as.flatMap part)) 0 x := by
  subst hx
  have hinside : ∀ n, inside (Sketch.each step as n).1 = as.flatMap part := by
    induction as with
    | nil => exact fun _ => hnil
    | cons a as ih => exact fun n => (hcons _ _ _).trans (congrArg (part a ++ ·) (ih (n + 1)))
  have hnodes : ∀ held, Adds (fun bs => held ++ bs.map node) held 0 (Sketch.each step as) := by
    clear hinside
    induction as with
    | nil => exact fun held => .pure (by simp)
    | cons a as ih =>
      exact fun held => .bind (.next held) (fun site => .bind (ih (held ++ [site.node]))
        (fun rest => .pure (by simp [hnode])) rfl) rfl
  exact (hnodes _).congr fun n => by rw [hinside]

end

theorem typeFields_eq (fields : List (String × Monotype.TypeExpr)) :
    typeFields fields = each (fun site field => ⟨⟨field.1, site⟩, field.2⟩) fields := by
  induction fields with
  | nil => rfl
  | cons field fields ih =>
    rw [typeFields, ih]
    rfl

theorem nameEntries_eq (entries : List (String × Monotype.Expr)) :
    nameEntries entries = each (fun site entry => ⟨⟨entry.1, site⟩, entry.2⟩) entries := by
  induction entries with
  | nil => rfl
  | cons entry entries ih =>
    rw [nameEntries, ih]
    rfl

theorem siteBranches_eq (branches : List (Monotype.Expr × Monotype.Expr)) :
    siteBranches branches = each (fun site branch => ⟨site, branch.1, branch.2⟩) branches := by
  induction branches with
  | nil => rfl
  | cons branch branches ih =>
    rw [siteBranches, ih]
    rfl

theorem siteArms_eq (arms : List (Monotype.Pattern × Monotype.Expr)) :
    siteArms arms = each (fun site arm => ⟨site, arm.1, arm.2⟩) arms := by
  induction arms with
  | nil => rfl
  | cons arm arms ih =>
    rw [siteArms, ih]
    rfl

namespace Adds
variable {held : List NodeId} {lost : Nat}

theorem typeFields (fields : List (String × Monotype.TypeExpr)) :
    Adds (fun fields => TypeField.numbersInside fields ++ fields.map (·.name.number))
      (fields.flatMap (·.2.numbers)) 0 (typeFields fields) :=
  .each (typeFields_eq fields) (fun _ _ => rfl) rfl (fun _ _ _ => rfl) id

theorem adtOption (name : String) (payload : Payload) :
    Adds AdtOption.numbers payload.numbers 0 (adtOption name payload) :=
  .bind (.next _) (fun site => .bind (.ident _ name) (fun name => .pure (by
    simp [AdtOption.numbers])) rfl) rfl

theorem wrap {primary : Site → Primary} (hinside : ∀ site, (primary site).numbersInside = held)
    (hsite : ∀ site, (primary site).site = site) :
    Adds Expr.numbers held 0 (wrap primary) :=
  .bind (.next held) (fun site => .bind (.next _) (fun inner => .pure (by
    simp [Expr.numbers, Tail.numbersAll, hinside, hsite])) rfl) rfl

/-- A tail is put to an expression whose numbers and those inside the tail are held. -/
theorem addTail (target : Monotype.Expr) {tail : Site → Tail}
    (htail : ∀ site, (tail site).numbers = held ++ [site.node]) :
    Adds Expr.numbers (target.numbers ++ held) 0 (addTail target tail) :=
  .bind (.next _) (fun site => .pure (by
    obtain ⟨targetSite, primary, tails⟩ := target
    simp [Expr.numbers, Tail.numbersAll_append, htail])) rfl

end Adds

/-! ## Numbering whole trees -/

mutual
theorem numberPattern_adds :
    ∀ p : Pattern, Adds Monotype.Pattern.numbers [] 0 (numberPattern p)
  | .wildcard => .bind (.next []) (fun _ => .pure rfl) rfl
  | .literal value =>
    .bind (.literal [] value) (fun _ => .bind (.next _) (fun _ => .pure rfl) rfl) rfl
  | .binding name =>
    .bind (.ident [] name) (fun _ => .bind (.next _) (fun _ => .pure rfl) rfl) rfl
  | .constructor name args =>
    .bind (numberPatterns_adds args) (fun _ => .bind (.ident _ name) (fun _ =>
      .bind (.next _) (fun _ => .pure (by simp [Monotype.Pattern.numbers])) rfl) rfl) rfl

theorem numberPatterns_adds :
    ∀ ps : List Pattern, Adds Monotype.Pattern.numbersAll [] 0 (numberPatterns ps)
  | [] => .pure rfl
  | p :: ps =>
    .bind (numberPattern_adds p) (fun _ =>
      .bind ((numberPatterns_adds ps).frame _) (fun _ => .pure rfl) rfl) rfl
end

mutual
theorem numberType_adds : ∀ t : TypeExpr, Adds Monotype.TypeExpr.numbers [] 0 (numberType t)
  | .prim _ => .bind (.next []) (fun _ => .pure rfl) rfl
  | .named name =>
    .bind (.ident [] name) (fun _ => .bind (.next _) (fun _ => .pure rfl) rfl) rfl
  | .record fields =>
    .bind (numberFieldTypes_adds fields) (fun fields => .bind (.typeFields fields) (fun _ =>
      .bind (.next _) (fun _ => .pure rfl) rfl) rfl) rfl
  | .tuple items =>
    .bind (numberTypes_adds items) (fun _ => .bind (.next _) (fun _ => .pure rfl) rfl) rfl
  | .fn params result =>
    .bind (numberTypes_adds params) (fun _ => .bind ((numberType_adds result).frame _) (fun _ =>
      .bind (.next _) (fun _ => .pure rfl) rfl) rfl) rfl
  | .adt options =>
    .bind (numberOptions_adds options) (fun _ => .bind (.next _) (fun _ => .pure rfl) rfl) rfl

theorem numberTypes_adds :
    ∀ ts : List TypeExpr, Adds Monotype.TypeExpr.numbersAll [] 0 (numberTypes ts)
  | [] => .pure rfl
  | t :: ts =>
    .bind (numberType_adds t) (fun _ =>
      .bind ((numberTypes_adds ts).frame _) (fun _ => .pure rfl) rfl) rfl

theorem numberFieldTypes_adds :
    ∀ fields : List (String × TypeExpr),
      Adds (fun fields : List (String × Monotype.TypeExpr) => fields.flatMap (·.2.numbers)) [] 0
        (numberFieldTypes fields)
  | [] => .pure rfl
  | (_, t) :: fields =>
    .bind (numberType_adds t) (fun _ =>
      .bind ((numberFieldTypes_adds fields).frame _) (fun _ => .pure rfl) rfl) rfl

theorem numberOptions_adds :
    ∀ options : List AdtOption, Adds Monotype.AdtOption.numbersAll [] 0 (numberOptions options)
  | [] => .pure rfl
  | option :: options =>
    .bind (numberOption_adds option) (fun _ =>
      .bind ((numberOptions_adds options).frame _) (fun _ => .pure rfl) rfl) rfl

theorem numberOption_adds :
    ∀ option : AdtOption, Adds Monotype.AdtOption.numbers [] 0 (numberOption option)
  | .bare name => .adtOption name .none
  | .prim name p => .adtOption name (.prim p)
  | .named name type => .bind (.ident [] type) (fun type => .adtOption name (.named type)) rfl
  | .record name fields =>
    .bind (numberFieldTypes_adds fields) (fun fields => .bind (.typeFields fields) (fun fields =>
      .adtOption name (.record fields)) rfl) rfl
end

theorem sublist_concat {front : List NodeId} {n count : Nat}
    (h : front.Sublist (List.range' n count)) :
    (front ++ [n + count]).Sublist (List.range' n (count + 1)) := by
  rw [List.range'_1_concat]
  exact h.append (List.Sublist.refl _)

/-- A closing name that is put to an element replaces the one that the element has, whose number
is then lost. -/
theorem Adds.close {element : Markup} {lost : Nat} (closing : String)
    (h : Adds Monotype.Markup.numbers [] lost (numberMarkup element)) :
    Adds Monotype.Markup.numbers [] (lost + if element.closes then 1 else 0)
      (numberMarkup (.close element closing)) := by
  intro n
  obtain ⟨new, hnew, hsub, hnext⟩ := h n
  have hstep : numberMarkup (.close element closing) n =
      ({ (numberMarkup element n).1 with
          closing := some ⟨closing, { node := (numberMarkup element n).2 }⟩ },
        (numberMarkup element n).2 + 1) := rfl
  have hcloses : (numberMarkup element n).1.closing.isSome = element.closes := by
    cases element <;> rfl
  have hfront : ∃ front, ∀ c,
      Monotype.Markup.numbers { (numberMarkup element n).1 with closing := c } =
        front ++ c.toList.map Ident.number := ⟨_, fun _ => rfl⟩
  rw [hstep, hnext, ← hcloses]
  generalize (numberMarkup element n).1 = m at hnew hfront
  obtain ⟨site, name, attributes, children, old⟩ := m
  obtain ⟨front, hfront⟩ := hfront
  have hnew : new = front ++ old.toList.map Ident.number := hnew.symm.trans (hfront old)
  have hkept : front.Sublist (List.range' n (new.length + lost)) :=
    (hnew ▸ List.sublist_append_left _ _ : front.Sublist new).trans hsub
  -- a number is added, and one is lost when there was a closing name
  have hcount : (front ++ [n + (new.length + lost)]).length +
      (lost + if old.isSome then 1 else 0) = new.length + lost + 1 := by
    cases old <;> simp [hnew] <;> omega
  refine ⟨front ++ [n + (new.length + lost)], hfront _, ?_, ?_⟩
  · rw [hcount]
    exact sublist_concat hkept
  · rw [hcount]
    rfl

mutual
theorem numberStmt_adds :
    ∀ stmt : Stmt, Adds Monotype.Stmt.numbers [] stmt.overwritten (numberStmt stmt)
  | .assign _ name value =>
    .bind (numberExpr_adds value) (fun _ => .bind (.ident _ name) (fun _ =>
      .bind (.next _) (fun _ => .pure (by simp [Monotype.Stmt.numbers])) rfl) rfl) rfl
  | .typeDecl name ty =>
    .bind (numberType_adds ty) (fun _ => .bind (.ident _ name) (fun _ =>
      .bind (.next _) (fun _ => .pure (by simp [Monotype.Stmt.numbers])) rfl) rfl) rfl
  | .importFrom default names _ =>
    .bind (.ident? [] default) (fun _ => .bind (.idents _ names) (fun _ =>
      .bind (.next _) (fun _ => .pure rfl) rfl) rfl) rfl
  | .exportNames names =>
    .bind (.idents [] names) (fun _ => .bind (.next _) (fun _ => .pure rfl) rfl) rfl
  | .expr value =>
    .bind (numberExpr_adds value) (fun _ => .bind (.next _) (fun _ => .pure rfl) rfl) rfl

theorem numberStmts_adds :
    ∀ stmts : List Stmt,
      Adds Monotype.Stmt.numbersAll [] (Stmt.overwrittenAll stmts) (numberStmts stmts)
  | [] => .pure rfl
  | stmt :: stmts =>
    .bind (numberStmt_adds stmt) (fun _ =>
      .bind ((numberStmts_adds stmts).frame _) (fun _ => .pure rfl) rfl) rfl

theorem numberExpr_adds :
    ∀ e : Expr, Adds Monotype.Expr.numbers [] e.overwritten (numberExpr e)
  | .literal value =>
    .bind (.literal [] value) (fun _ => .wrap (fun _ => rfl) fun _ => rfl) rfl
  | .ident name => .bind (.ident [] name) (fun _ => .wrap (fun _ => rfl) fun _ => rfl) rfl
  | .paren inner => .bind (numberExpr_adds inner) (fun _ => .wrap (fun _ => rfl) fun _ => rfl) rfl
  | .block statements result =>
    .bind (numberStmts_adds statements) (fun _ => .bind ((numberOptional_adds result).frame _)
      (fun _ => .bind (.next _) (fun _ => .wrap (fun _ => rfl) fun _ => rfl) rfl) rfl) rfl
  | .record entries =>
    .bind (numberEntries_adds entries) (fun entries =>
      .bind (.each (nameEntries_eq entries) (fun _ _ => rfl) rfl (fun _ _ _ => rfl) id)
        (fun _ => .wrap (fun _ => rfl) fun _ => rfl) rfl) rfl
  | .array items =>
    .bind (numberExprs_adds items) (fun _ => .wrap (fun _ => rfl) fun _ => rfl) rfl
  | .function params body =>
    .bind (numberExpr_adds body) (fun _ => .bind (.idents _ params)
      (fun _ => .wrap (fun _ => rfl) fun _ => rfl) rfl) rfl
  | .ifChain branches otherwise =>
    .bind (numberBranches_adds branches) (fun branches =>
      .bind ((numberOptional_adds otherwise).frame _) (fun otherwise =>
        .bind (.each (siteBranches_eq branches) (fun _ _ => rfl) rfl
          (fun _ _ _ => by simp [Branch.numbersInside]) (· ++ Monotype.Expr.numbers? otherwise))
          (fun _ => .wrap (fun _ => rfl) fun _ => rfl) rfl) rfl) rfl
  | .matchOn scrutinee arms =>
    .bind (numberExpr_adds scrutinee) (fun scrutinee =>
      .bind ((numberArms_adds arms).frame _) (fun arms =>
        .bind (.each (siteArms_eq arms) (fun _ _ => rfl) rfl
          (fun _ _ _ => by simp [Arm.numbersInside]) (scrutinee.numbers ++ ·))
          (fun _ => .wrap (fun _ => rfl) fun _ => rfl) rfl) rfl) rfl
  | .markup element =>
    .bind (numberMarkup_adds element) (fun _ => .wrap (fun _ => rfl) fun _ => rfl) rfl
  | .member target name =>
    .bind (numberExpr_adds target) (fun target => .bind (.ident _ name)
      (fun _ => .addTail target fun _ => rfl) rfl) rfl
  | .index target index =>
    .bind (numberExpr_adds target) (fun target => .bind ((numberExpr_adds index).frame _)
      (fun _ => .addTail target fun _ => rfl) rfl) rfl
  | .call target args =>
    .bind (numberExpr_adds target) (fun target => .bind ((numberExprs_adds args).frame _)
      (fun _ => .addTail target fun _ => rfl) rfl) rfl
  | .operation left _ right =>
    .bind (numberExpr_adds left) (fun left => .bind ((numberExpr_adds right).frame _)
      (fun _ => .addTail left fun _ => rfl) rfl) rfl

theorem numberExprs_adds :
    ∀ es : List Expr, Adds Monotype.Expr.numbersAll [] (Expr.overwrittenAll es) (numberExprs es)
  | [] => .pure rfl
  | e :: es =>
    .bind (numberExpr_adds e) (fun _ =>
      .bind ((numberExprs_adds es).frame _) (fun _ => .pure rfl) rfl) rfl

theorem numberOptional_adds :
    ∀ e : Option Expr, Adds Monotype.Expr.numbers? [] (Expr.overwritten? e) (numberExpr? e)
  | none => .pure rfl
  | some e => .bind (numberExpr_adds e) (fun _ => .pure rfl) rfl

theorem numberEntries_adds :
    ∀ entries : List (String × Expr),
      Adds (fun entries : List (String × Monotype.Expr) => entries.flatMap (·.2.numbers)) []
        (Expr.overwrittenEntries entries) (numberEntries entries)
  | [] => .pure rfl
  | (_, value) :: entries =>
    .bind (numberExpr_adds value) (fun _ =>
      .bind ((numberEntries_adds entries).frame _) (fun _ => .pure rfl) rfl) rfl

theorem numberBranches_adds :
    ∀ branches : List (Expr × Expr),
      Adds (fun branches : List (Monotype.Expr × Monotype.Expr) =>
          branches.flatMap fun branch => branch.1.numbers ++ branch.2.numbers) []
        (Expr.overwrittenBranches branches) (numberBranches branches)
  | [] => .pure rfl
  | (condition, body) :: branches =>
    .bind (numberExpr_adds condition) (fun _ => .bind ((numberExpr_adds body).frame _) (fun _ =>
      .bind ((numberBranches_adds branches).frame _) (fun _ => .pure rfl) rfl) rfl) rfl

theorem numberArms_adds :
    ∀ arms : List (Pattern × Expr),
      Adds (fun arms : List (Monotype.Pattern × Monotype.Expr) =>
          arms.flatMap fun arm => arm.1.numbers ++ arm.2.numbers) []
        (Expr.overwrittenArms arms) (numberArms arms)
  | [] => .pure rfl
  | (pattern, body) :: arms =>
    .bind (numberPattern_adds pattern) (fun _ => .bind ((numberExpr_adds body).frame _) (fun _ =>
      .bind ((numberArms_adds arms).frame _) (fun _ => .pure rfl) rfl) rfl) (Nat.zero_add _)

theorem numberMarkup_adds :
    ∀ element : Markup, Adds Monotype.Markup.numbers [] element.overwritten (numberMarkup element)
  | .element name attributes children =>
    .bind (numberAttributes_adds attributes) (fun _ =>
      .bind ((numberChildren_adds children).frame _) (fun _ =>
        .bind (.next _) (fun _ => .bind (.ident _ name) (fun _ => .bind (.ident _ name)
          (fun _ => .pure (by simp [Monotype.Markup.numbers])) rfl) rfl) rfl) rfl) rfl
  | .selfClosing name attributes =>
    .bind (numberAttributes_adds attributes) (fun _ => .bind (.next _) (fun _ =>
      .bind (.ident _ name) (fun _ => .pure (by
        simp [Monotype.Markup.numbers, Monotype.Child.numbersAll])) rfl) rfl) rfl
  | .close element closing => (numberMarkup_adds element).close closing

theorem numberAttributes_adds :
    ∀ as : List Attribute,
      Adds Monotype.Attribute.numbersAll [] (Attribute.overwrittenAll as) (numberAttributes as)
  | [] => .pure rfl
  | a :: as =>
    .bind (numberAttribute_adds a) (fun _ =>
      .bind ((numberAttributes_adds as).frame _) (fun _ => .pure rfl) rfl) rfl

theorem numberAttribute_adds :
    ∀ a : Attribute, Adds Monotype.Attribute.numbers [] a.overwritten (numberAttribute a)
  | .string name _ => .bind (.ident [] name) (fun _ => .pure rfl) rfl
  | .number name _ => .bind (.ident [] name) (fun _ => .pure rfl) rfl
  | .expr name value =>
    .bind (numberExpr_adds value) (fun _ => .bind (.ident _ name) (fun _ => .pure rfl) rfl) rfl

theorem numberChildren_adds :
    ∀ cs : List Child,
      Adds Monotype.Child.numbersAll [] (Child.overwrittenAll cs) (numberChildren cs)
  | [] => .pure rfl
  | c :: cs =>
    .bind (numberChild_adds c) (fun _ =>
      .bind ((numberChildren_adds cs).frame _) (fun _ => .pure rfl) rfl) rfl

theorem numberChild_adds :
    ∀ c : Child, Adds Monotype.Child.numbers [] c.overwritten (numberChild c)
  | .text _ => .pure rfl
  | .expr value => .bind (numberExpr_adds value) (fun _ => .pure rfl) rfl
  | .element value => .bind (numberMarkup_adds value) (fun _ => .pure rfl) rfl
end

/-- The numbers in a program are handed out in order, and only those of replaced closing names are
missing. -/
theorem build_adds (statements : List Stmt) :
    (Stmt.numbersAll (build statements).1).Sublist (List.range (build statements).2) ∧
    (build statements).2 =
      (Stmt.numbersAll (build statements).1).length + Stmt.overwrittenAll statements := by
  obtain ⟨new, hnew, hsub, hnext⟩ := numberStmts_adds statements 0
  rw [Nat.zero_add] at hnext
  rw [← hnext, ← List.range_eq_range'] at hsub
  change Stmt.numbersAll (build statements).1 = new at hnew
  rw [hnew]
  exact ⟨hsub, hnext⟩

/-- The nodes and the names of a numbered program have different numbers, all of them below the next
one. The numbers that they do not have are as many as there are closing names written over, so that
without any such every number is there exactly once. -/
theorem build_numbers (statements : List Stmt) :
    (Stmt.numbersAll (build statements).1).Nodup ∧
    (∀ id ∈ Stmt.numbersAll (build statements).1, id < (build statements).2) ∧
    (Stmt.numbersAll (build statements).1).length + Stmt.overwrittenAll statements =
      (build statements).2 ∧
    (Stmt.overwrittenAll statements = 0 →
      ∀ id < (build statements).2, (Stmt.numbersAll (build statements).1).count id = 1) := by
  obtain ⟨hsub, hnext⟩ := build_adds statements
  have hnodup : (Stmt.numbersAll (build statements).1).Nodup := List.nodup_range.sublist hsub
  refine ⟨hnodup, fun id hid => List.mem_range.1 (hsub.subset hid), hnext.symm, ?_⟩
  intro hkept id hid
  have hlength : (Stmt.numbersAll (build statements).1).length =
      (List.range (build statements).2).length := by
    rw [List.length_range, hnext, hkept, Nat.add_zero]
  refine List.count_eq_one_of_mem hnodup ?_
  rw [hsub.eq_of_length hlength]
  exact List.mem_range.2 hid

/-- A sum type, and an element with attributes and children in which the sum type is matched. -/
def boxSketch : List Stmt :=
  [.typeDecl "Shape" (.adt [.bare "Empty", .record "Box" [("width", .prim .number)]]),
    .assign .constVar "view" (.function ["shape"] (.markup (.element "Card"
      [.string "title" "Shapes"]
      [.expr (.matchOn (.ident "shape") [(.constructor "Empty" [], .literal (.number 0)),
        (.wildcard, .call (.member (.ident "shape") "area") [])])])))]

/-- All numbers of the element are used; the same element closed under another name has two closing
names, of which the first one is lost. -/
theorem build_numbers_box :
    Stmt.overwrittenAll boxSketch = 0 ∧ (build boxSketch).2 = 39 ∧
    (∀ id < (build boxSketch).2, (Stmt.numbersAll (build boxSketch).1).count id = 1) ∧
    Stmt.overwrittenAll [.expr (.markup (.close (.element "Card" [] []) "Cart"))] = 1 ∧
    Stmt.numbersAll (build [.expr (.markup (.close (.element "Card" [] []) "Cart"))]).1 =
      [0, 1, 3, 4, 5, 6] ∧
    (build [.expr (.markup (.close (.element "Card" [] []) "Cart"))]).2 = 7 := by
  have hkept : Stmt.overwrittenAll boxSketch = 0 := rfl
  exact ⟨hkept, rfl, (build_numbers boxSketch).2.2.2 hkept, rfl, rfl, rfl⟩

end Monotype.Sketch
