import Monotype.Proofs.Check.Survey
import Monotype.Proofs.Typing.Output

/-! Which nodes get a type. Only expressions, primaries and tails do, and all of them, wherever they
stand in the tree, unless the value of some match could not be matched and its arms were passed
over. An expression has the type of its last part. Likewise the symbols are the declarations of the
program, in the order of evaluation, unless some complaint says that a name was passed over. -/
namespace Monotype

/-- The part of an expression that is evaluated last: its last tail, or its primary. -/
def Expr.lastPart (e : Expr) : Site :=
  match e.tails.getLast? with
  | some tail => tail.site
  | none => e.primary.site

/-- All expressions, those inside others first. -/
def Expr.listing : Survey (List Expr) where
  nothing := []
  andThen := (· ++ ·)
  nothing_andThen := List.nil_append
  andThen_nothing := List.append_nil
  whole e := [e]

/-- The expressions of a program in the order in which their evaluation ends. -/
def expressions (p : Program) : List Expr := Stmt.surveyAll Expr.listing p

/-- The names that a program declares in the order of evaluation, each with its kind. -/
def declarations (p : Program) : List (Ident × SymbolKind) := (Stmt.sitesAll p).names

namespace Check
variable {α β : Type} {cfg : Config}

/-! ## The notes of one expression -/

/-- Behind tails, a run has the type that it noted for the last of them. -/
theorem inferTails_notes : ∀ {tails : List Tail} {current t : Ty} {s s' : Run},
    (inferTails current tails).run cfg s = (.ok t, s') →
    match tails.getLast? with
    | some tail => (tail.site.node, t) ∈ noted (log cfg (inferTails current tails) s)
    | none => t = current
  | [], _, _, _, _, h => by cases h; rfl
  | tail :: tails, current, t, s, s', h => by
    obtain ⟨u, s₁, -, h₁, hlog₁⟩ := run_bind_eq_ok h
    obtain ⟨⟨⟩, s₂, hrecord, h₂, hlog₂⟩ := run_bind_eq_ok h₁
    have hlast := inferTails_notes h₂
    have hlog : log cfg (inferTails current (tail :: tails)) s = _ := hlog₁
    rw [hlog, hlog₂, noted_append, noted_append]
    cases tails with
    | nil =>
      rw [show t = u from hlast]
      exact List.mem_append_right _ (List.mem_append_left _ List.mem_cons_self)
    | cons other tails =>
      rw [List.getLast?_cons_cons]
      rw [List.getLast?_cons] at hlast ⊢
      exact List.mem_append_right _ (List.mem_append_right _ hlast)

/-- An expression and its last part are noted with the same type. -/
theorem inferExpr_notes {e : Expr} {t : Ty} {s s' : Run}
    (h : (inferExpr e).run cfg s = (.ok t, s')) :
    (e.site.node, t) ∈ noted (log cfg (inferExpr e) s) ∧
      (e.lastPart.node, t) ∈ noted (log cfg (inferExpr e) s) := by
  obtain ⟨site, primary, tails⟩ := e
  obtain ⟨u, s₁, -, h, hlog₁⟩ := run_bind_eq_ok h
  obtain ⟨⟨⟩, s₂, -, h, hlog₂⟩ := run_bind_eq_ok h
  obtain ⟨v, s₃, htails, h, hlog₃⟩ := run_bind_eq_ok h
  obtain ⟨⟨⟩, s₄, -, h, hlog₄⟩ := run_bind_eq_ok h
  cases h
  have hlog : log cfg (inferExpr ⟨site, primary, tails⟩) s = _ := hlog₁
  rw [hlog, hlog₂, hlog₃, hlog₄]
  have hlast := inferTails_notes htails
  simp only [noted_append, List.mem_append]
  refine ⟨.inr (.inr (.inr (.inl List.mem_cons_self))), ?_⟩
  unfold Expr.lastPart
  dsimp only
  split
  · next tail htail =>
    rw [htail] at hlast
    exact .inr (.inr (.inl hlast))
  · next htail =>
    rw [htail] at hlast
    rw [hlast]
    exact .inr (.inl List.mem_cons_self)

/-! ## The notes of a program -/

/-- A run of `x` that ends well and passes over no nodes notes each of the given expressions with
the type of its last part. -/
def Notes (cfg : Config) (x : Check α) (es : List Expr) : Prop :=
  ∀ s a s', x.run cfg s = (.ok a, s') →
    (∀ r ∈ reported (log cfg x s), r.error.code ≠ skipsNodes) →
    ∀ e ∈ es, ∃ t, (e.site.node, t) ∈ noted (log cfg x s) ∧
      (e.lastPart.node, t) ∈ noted (log cfg x s)

namespace Notes

theorem nothing (x : Check α) : Notes cfg x [] := by
  intro s a s' _ _ e he
  simp at he

theorem bind_of {x : Check α} {f : α → Check β} {es fs : List Expr} (hx : Notes cfg x es)
    (hf : ∀ s a s', x.run cfg s = (.ok a, s') → Notes cfg (f a) fs) :
    Notes cfg (x >>= f) (es ++ fs) := by
  intro s b s' hrun hnone e he
  obtain ⟨a, s₁, hfirst, hrest, hlog⟩ := run_bind_eq_ok hrun
  rw [hlog, reported_append, List.forall_mem_append] at hnone
  rw [hlog, noted_append]
  rcases List.mem_append.1 he with he | he
  · obtain ⟨t, hnode, hlast⟩ := hx s a s₁ hfirst hnone.1 e he
    exact ⟨t, List.mem_append_left _ hnode, List.mem_append_left _ hlast⟩
  · obtain ⟨t, hnode, hlast⟩ := hf s a s₁ hfirst s₁ b s' hrest hnone.2 e he
    exact ⟨t, List.mem_append_right _ hnode, List.mem_append_right _ hlast⟩

theorem bind {x : Check α} {f : α → Check β} {es fs : List Expr} (hx : Notes cfg x es)
    (hf : ∀ a, Notes cfg (f a) fs) : Notes cfg (x >>= f) (es ++ fs) :=
  hx.bind_of fun _ a _ _ => hf a

theorem whole {e : Expr} {es : List Expr} (h : Notes cfg (inferExpr e) es) :
    Notes cfg (inferExpr e) (es ++ [e]) := by
  intro s t s' hrun hnone e' he'
  rcases List.mem_append.1 he' with he' | he'
  · exact h s t s' hrun hnone e' he'
  · rw [List.mem_singleton.1 he']
    exact ⟨t, inferExpr_notes hrun⟩

end Notes

theorem noteSteps (cfg : Config) : Expr.listing.Steps cfg (Notes cfg) where
  pure a := .nothing _
  bind := .bind
  config h := by
    have hask : Notes cfg Check.config [] := .nothing _
    refine hask.bind_of fun s a s' hrun => ?_
    cases hrun
    exact h
  act a _ := .nothing _
  unify l r site := .nothing _

theorem noteRules (cfg : Config) : Expr.listing.Rules cfg (Notes cfg) where
  toSteps := noteSteps cfg
  used name := .nothing _
  param name t := .nothing _
  assigned name t := .nothing _
  imported path name := .nothing _
  exported name := .nothing _
  declared name ty := .nothing _
  acceptSum adt scrutinee pattern := .nothing _
  acceptLiteral scrutinee pattern _ := .nothing _
  closing site name closing := .nothing _
  component name props := .nothing _
  branchless site := .nothing _
  whole e es h := h.whole
  inScope h := (noteSteps cfg).after (.nothing _) fun _ =>
    (noteSteps cfg).before h fun _ => .nothing _
  arms h := h
  unmatched site t es := by
    -- the complaint is the one after which nodes are passed over
    intro s u s' hrun hnone
    exact absurd rfl (hnone _ List.mem_cons_self)

/-! ## What is handed out -/

theorem mem_foldl_insert (notes : List (NodeId × Ty)) (m : Std.TreeMap NodeId Ty) (node : NodeId) :
    node ∈ notes.foldl (fun m note => m.insert note.1 note.2) m ↔
      node ∈ notes.map (·.1) ∨ node ∈ m := by
  induction notes generalizing m with
  | nil => simp
  | cons note notes ih =>
    rw [List.foldl_cons, ih, Std.TreeMap.mem_insert, Std.compare_eq_iff_eq, List.map_cons,
      List.mem_cons]
    grind

theorem HandsOut.mem_nodeTypes {x : Check α} {r : Except Malformed α} {run s : Run}
    {out : Output} (h : HandsOut s out) (hrun : x.run cfg run.reset = (r, s)) (node : NodeId) :
    node ∈ out.nodeTypes ↔ node ∈ (noted (log cfg x run.reset)).map (·.1) := by
  have hnotes := nodeTypes_run cfg x run.reset
  rw [hrun] at hnotes
  have hsame : node ∈ out.nodeTypes ↔ node ∈ s.nodeTypes := by
    have htype : out.nodeTypes[node]? = s.nodeTypes[node]?.map s.store.full := h.typeOf?_eq node
    rw [Std.TreeMap.mem_iff_isSome_getElem?, htype, Option.isSome_map,
      Std.TreeMap.mem_iff_isSome_getElem?]
  rw [hsame, hnotes, mem_foldl_insert]
  simp [Run.reset]

/-- What is handed out lists the symbols of the run; only their types are made full. -/
theorem HandsOut.declares_symbols {x : Check α} {r : Except Malformed α} {run s : Run}
    {out : Output} (h : HandsOut s out) (hrun : x.run cfg run.reset = (r, s)) :
    out.symbols.map (·.declares) = (listed (log cfg x run.reset)).map (·.declares) := by
  have hsymbols := symbols_run cfg x run.reset
  rw [hrun] at hsymbols
  rw [h.symbols, hsymbols, List.map_map]
  rfl

end Check

namespace Checker

/-- A check gives types to no other nodes than expressions, primaries and tails of the program. If
no match was refused it gives types to all of them; and if they are numbered apart, the type of an
expression is that of its last part. -/
theorem nodeTypes_cover (c : Checker) (p : Program) {out : Output}
    (hout : (c.check p).1 = .ok out) :
    (∀ node ∈ out.nodeTypes, node ∈ typedNodes p) ∧
    ("E3014" ∉ out.codes →
      (∀ node, node ∈ out.nodeTypes ↔ node ∈ typedNodes p) ∧
      ((typedNodes p).Nodup → ∀ e ∈ expressions p, ∃ t,
        out.typeOf? e.site.node = some t ∧ out.typeOf? e.lastPart.node = some t)) := by
  obtain ⟨s, hrun, -, hhands⟩ := run_of_check hout
  have hwrites : Check.Writes c.config (Check.checkStmts p) (Stmt.sitesAll p) :=
    Check.checkStmts_writes p
  have hwrote := hwrites c.run.reset
  refine ⟨fun node hnode => ?_, fun hmatched => ?_⟩
  · rw [hhands.mem_nodeTypes hrun] at hnode
    exact hwrote.nodes.subset hnode
  · have hnone : ∀ r ∈ Check.reported (Check.log c.config (Check.checkStmts p) c.run.reset),
        r.error.code ≠ Check.skipsNodes := by
      rw [← hhands.reports_eq hrun]
      intro r hr hcode
      exact hmatched (List.mem_map.2 ⟨r, hr, hcode⟩)
    have hall := hwrote.allNodes ⟨(), by rw [hrun]⟩ hnone
    refine ⟨fun node => ?_, fun hnodup e he => ?_⟩
    · rw [hhands.mem_nodeTypes hrun, hall]
      exact Iff.rfl
    · obtain ⟨t, hnode, hlast⟩ :=
        (Check.noteRules c.config).checkStmts p _ _ _ hrun hnone e he
      exact ⟨_, hhands.typeOf?_of_noted hrun (hall ▸ hnodup) hnode,
        hhands.typeOf?_of_noted hrun (hall ▸ hnodup) hlast⟩

open Sketch in
/-- An element that is not declared, with an operation in an attribute and a block as its child. -/
def panelProgram : Program :=
  (build [.expr (.markup (.element "Panel"
    [.expr "width" (.operation (.literal (.number 1)) "+" (.literal (.number 2)))]
    [.expr (.block [.assign .constVar "title" (.literal (.string "a"))]
      (some (.ident "title")))]))]).1

/-- Whatever is wrong with the element, all that stands in it has a type. -/
theorem nodeTypes_cover_panel :
    ∃ out, (({} : Checker).check panelProgram).1 = .ok out ∧ out.codes = ["E3015"] ∧
      (typedNodes panelProgram).Nodup ∧ (typedNodes panelProgram).length = 13 ∧
      (∀ node, node ∈ out.nodeTypes ↔ node ∈ typedNodes panelProgram) ∧
      ∀ e ∈ expressions panelProgram, ∃ t,
        out.typeOf? e.site.node = some t ∧ out.typeOf? e.lastPart.node = some t := by
  have hnodes : (typedNodes panelProgram).Nodup := by decide +kernel
  have hfound : (({} : Checker).check panelProgram).1.toOption.map Output.codes =
      some ["E3015"] := by
    decide +kernel
  cases hout : (({} : Checker).check panelProgram).1 with
  | error e => simp [hout, Except.toOption] at hfound
  | ok out =>
    have hcodes : out.codes = ["E3015"] := by
      simpa [hout, Except.toOption] using hfound
    obtain ⟨hcover, htypes⟩ := (nodeTypes_cover {} panelProgram hout).2 (by simp [hcodes])
    exact ⟨out, rfl, hcodes, hnodes, by decide +kernel, hcover, htypes hnodes⟩

/-- The symbols of a check are declarations of the program in the order of evaluation. None is left
out unless a name is imported twice, the value or a constructor of a match is refused, or a
constructor has the wrong number of arguments in a pattern. -/
theorem symbols_eq_declarations (c : Checker) (p : Program) {out : Output}
    (hout : (c.check p).1 = .ok out) :
    (out.symbols.map (·.declares)).Sublist (declarations p) ∧
    ((∀ code ∈ ["E3002", "E3012", "E3013", "E3014"], code ∉ out.codes) →
      out.symbols.map (·.declares) = declarations p) := by
  obtain ⟨s, hrun, -, hhands⟩ := run_of_check hout
  have hwrites : Check.Writes c.config (Check.checkStmts p) (Stmt.sitesAll p) :=
    Check.checkStmts_writes p
  have hwrote := hwrites c.run.reset
  rw [hhands.declares_symbols hrun]
  refine ⟨hwrote.names, fun hcodes => ?_⟩
  refine hwrote.allNames ⟨(), by rw [hrun]⟩ ?_
  rw [← hhands.reports_eq hrun]
  intro r hr hskips
  exact hcodes _ hskips (List.mem_map_of_mem hr)

open Sketch in
/-- Declarations inside values, functions and arms, one of them with a name that is not there. -/
def nestedProgram : Program :=
  (build [
    .importFrom (some "React") ["useState"] "react",
    .typeDecl "Shape" (.adt [.prim "Circle" .number, .bare "Empty"]),
    .assign .constVar "area" (.function ["shape", "scale"] (.block
      [.assign .letVar "missing" (.ident "nowhere")]
      (some (.matchOn (.call (.ident "Circle") [.ident "scale"]) [
        (.constructor "Circle" [.binding "r"],
          .block [.assign .letVar "square" (.operation (.ident "r") "*" (.ident "r"))]
            (some (.ident "square"))),
        (.wildcard, .literal (.number 0))])))),
    .exportNames ["area"]]).1

theorem symbols_eq_declarations_nested :
    ∃ out, (({} : Checker).check nestedProgram).1 = .ok out ∧ out.codes = ["E3001"] ∧
      out.symbols.map (·.declares) = declarations nestedProgram ∧
      (declarations nestedProgram).map (fun declared => (declared.1.name, declared.2)) =
        [("React", .imported), ("useState", .imported), ("Shape", .type),
          ("Circle", .constructor), ("Empty", .constructor), ("shape", .param),
          ("scale", .param), ("missing", .var), ("r", .var), ("square", .var), ("area", .var)] := by
  have hfound : (({} : Checker).check nestedProgram).1.toOption.map Output.codes =
      some ["E3001"] := by
    decide +kernel
  cases hout : (({} : Checker).check nestedProgram).1 with
  | error e => simp [hout, Except.toOption] at hfound
  | ok out =>
    have hcodes : out.codes = ["E3001"] := by
      simpa [hout, Except.toOption] using hfound
    refine ⟨out, rfl, hcodes, ?_, by decide +kernel⟩
    refine (symbols_eq_declarations {} nestedProgram hout).2 ?_
    rw [hcodes]
    decide

end Checker

end Monotype
