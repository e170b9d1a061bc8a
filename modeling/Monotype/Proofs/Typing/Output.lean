import Monotype.Proofs.Typing.Sound
import Monotype.Tree.Sketch

/-! What a check hands out, as a typing. -/
namespace Monotype

/-- The nodes of a program that have types, in the order in which they are noted. -/
def typedNodes (p : Program) : List NodeId := (Stmt.sitesAll p).nodes

/-- The nodes of the names that a program declares, in the order of their declaration. -/
def declaredNodes (p : Program) : List NodeId := (Stmt.sitesAll p).names.map (·.1.site.node)

/-- The types that a check hands out for nodes and for declared names. -/
def Output.typing (out : Output) : Typing where
  node := out.typeOf?
  symbol node := (out.symbols.find? (·.site.node = node)).map (·.ty)

/-- On the nodes and the declared names of `p`, `A` is `B` with types put in for variables. -/
structure Typing.IsInstance (p : Program) (σ : TyVar → Ty) (A B : Typing) : Prop where
  nodes : ∀ node ∈ typedNodes p, ∃ t, B.node node = some t ∧ A.node node = some (t.subst σ)
  names : ∀ node ∈ declaredNodes p, ∃ t, B.symbol node = some t ∧ A.symbol node = some (t.subst σ)

namespace Check
variable {cfg : Config}

/-! ## The end of a run -/

theorem run_apply (cfg : Config) {s : Run} (hs : s.store.Acyclic) (t : Ty) :
    ∃ store, Store.Compresses s.store store ∧
      (apply t).run cfg s = (.ok (s.store.full t), { s with store }) := by
  obtain ⟨hans, hc⟩ := hs.answers_apply t
  refine ⟨_, hc, ?_⟩
  rw [← hans]
  rfl

theorem run_applySymbols (cfg : Config) : ∀ (symbols : List Symbol) {s : Run}, s.store.Acyclic →
    ∃ store, Store.Compresses s.store store ∧
      (applySymbols symbols).run cfg s =
        (.ok (symbols.map fun sym => { sym with ty := s.store.full sym.ty }), { s with store })
  | [], s, _ => ⟨s.store, .refl _, rfl⟩
  | symbol :: symbols, s, hs => by
    obtain ⟨store₁, hc₁, hhead⟩ := run_apply cfg hs symbol.ty
    have hs₁ : ({ s with store := store₁ } : Run).store.Acyclic := hc₁.acyclic hs
    obtain ⟨store₂, hc₂, hrest⟩ := run_applySymbols cfg symbols hs₁
    refine ⟨store₂, hc₁.trans hc₂, ?_⟩
    simp only [hc₁.full_eq hs] at hrest
    simp only [applySymbols, run_bind, hhead, hrest, run_pure, List.map_cons]

theorem run_applyNodeTypes (cfg : Config) :
    ∀ (notes : List (NodeId × Ty)) {s : Run}, s.store.Acyclic →
    ∃ store, Store.Compresses s.store store ∧
      (applyNodeTypes notes).run cfg s =
        (.ok (notes.map fun note => (note.1, s.store.full note.2)), { s with store })
  | [], s, _ => ⟨s.store, .refl _, rfl⟩
  | (node, t) :: notes, s, hs => by
    obtain ⟨store₁, hc₁, hhead⟩ := run_apply cfg hs t
    have hs₁ : ({ s with store := store₁ } : Run).store.Acyclic := hc₁.acyclic hs
    obtain ⟨store₂, hc₂, hrest⟩ := run_applyNodeTypes cfg notes hs₁
    refine ⟨store₂, hc₁.trans hc₂, ?_⟩
    simp only [hc₁.full_eq hs] at hrest
    simp only [applyNodeTypes, run_bind, hhead, hrest, run_pure, List.map_cons]

/-- What is handed out is what the run has collected, with every type in its full form. -/
structure HandsOut (s : Run) (out : Output) : Prop where
  reports : out.reports = s.reports.toList
  symbols : out.symbols = s.symbols.toList.map fun sym => { sym with ty := s.store.full sym.ty }
  node : ∀ (node : NodeId) (t : Ty), s.nodeTypes[node]? = some t →
    out.typeOf? node = some (s.store.full t)
  unnoted : ∀ node : NodeId, s.nodeTypes[node]? = none → out.typeOf? node = none

theorem HandsOut.typeOf?_eq {s : Run} {out : Output} (h : HandsOut s out) (node : NodeId) :
    out.typeOf? node = s.nodeTypes[node]?.map s.store.full := by
  cases ht : s.nodeTypes[node]? with
  | none => exact h.unnoted node ht
  | some t => exact h.node node t ht

/-- The end of a run with the notes gone through in another order. -/
def finishIn (order : List (NodeId × Ty) → List (NodeId × Ty)) : Check Output := do
  let run ← state
  let symbols ← applySymbols run.symbols.toList
  let nodeTypes ← applyNodeTypes (order run.nodeTypes.toList)
  return { reports := run.reports.toList, symbols, nodeTypes := .ofList nodeTypes }

/-- In whatever order the notes are gone through, the same is handed out. -/
theorem run_finishIn (cfg : Config) {order : List (NodeId × Ty) → List (NodeId × Ty)}
    (horder : ∀ notes, (order notes).Perm notes) {s : Run} (hs : s.store.Acyclic) :
    ∃ out store, (finishIn order).run cfg s = (.ok out, { s with store }) ∧
      s.store.Compresses store ∧ HandsOut s out := by
  obtain ⟨store₁, hc₁, hsymbols⟩ := run_applySymbols cfg s.symbols.toList hs
  have hs₁ : ({ s with store := store₁ } : Run).store.Acyclic := hc₁.acyclic hs
  obtain ⟨store₂, hc₂, hnotes⟩ := run_applyNodeTypes cfg (order s.nodeTypes.toList) hs₁
  simp only [hc₁.full_eq hs] at hnotes
  have hstate : state.run cfg s = (.ok s, s) := rfl
  have hrun : (finishIn order).run cfg s = (.ok {
      reports := s.reports.toList
      symbols := s.symbols.toList.map fun sym => { sym with ty := s.store.full sym.ty }
      nodeTypes := .ofList ((order s.nodeTypes.toList).map fun note =>
        (note.1, s.store.full note.2)) },
      { s with store := store₂ }) := by
    simp only [finishIn, run_bind, hstate, hsymbols, hnotes, run_pure]
  have hperm := horder s.nodeTypes.toList
  refine ⟨_, _, hrun, hc₁.trans hc₂, rfl, rfl, fun node t ht => ?_, fun node hnone => ?_⟩
  · refine Std.TreeMap.getElem?_ofList_of_mem Std.ReflCmp.compare_self ?_ ?_
    · rw [List.pairwise_map, hperm.pairwise_iff fun hne heq => hne (Std.OrientedCmp.eq_symm heq)]
      exact Std.TreeMap.distinct_keys_toList
    · have hmem := Std.TreeMap.mem_toList_iff_getElem?_eq_some.2 ht
      exact List.mem_map.2 ⟨_, hperm.mem_iff.2 hmem, rfl⟩
  · apply Std.TreeMap.getElem?_ofList_of_contains_eq_false
    rw [List.map_map]
    change ((order s.nodeTypes.toList).map Prod.fst).contains node = false
    rw [(hperm.map Prod.fst).contains_eq, Std.TreeMap.map_fst_toList_eq_keys]
    simpa using hnone

theorem run_finish (cfg : Config) {s : Run} (hs : s.store.Acyclic) :
    ∃ out s', finish.run cfg s = (.ok out, s') ∧ HandsOut s out := by
  have hid : ∀ notes : List (NodeId × Ty), (id notes).Perm notes := fun notes => .refl notes
  obtain ⟨out, store, hrun, -, hout⟩ := run_finishIn cfg hid hs
  exact ⟨out, _, hrun, hout⟩

section
variable {α : Type} {x : Check α} {r : Except Malformed α} {run s : Run} {out : Output}

theorem HandsOut.reports_eq (h : HandsOut s out) (hrun : x.run cfg run.reset = (r, s)) :
    out.reports = reported (log cfg x run.reset) := by
  have hreports := reports_run cfg x run.reset
  rw [hrun] at hreports
  rw [h.reports, hreports]
  rfl

/-- Where no node is noted twice, each has the full form of what was noted for it. -/
theorem HandsOut.typeOf?_of_noted (h : HandsOut s out) (hrun : x.run cfg run.reset = (r, s))
    (hnodup : ((noted (log cfg x run.reset)).map (·.1)).Nodup) {node : NodeId} {t : Ty}
    (hnote : (node, t) ∈ noted (log cfg x run.reset)) :
    out.typeOf? node = some (s.store.full t) := by
  have hnotes := nodeTypes_run cfg x run.reset
  rw [hrun] at hnotes
  refine h.node node t ?_
  rw [hnotes]
  exact getElem?_foldl_insert hnodup _ hnote

end

theorem inv_checkStmts {p : Program} {s s' : Run} {r : Except Malformed Unit} (hs : s.Inv)
    (h : (checkStmts p).run cfg s = (r, s')) : s'.Inv := by
  have hkeeps : Runs cfg 0 (checkStmts p) := checkStmts_keeps 0 p
  have hend : ((checkStmts p).run cfg s).2.Inv := (hkeeps s hs (Nat.zero_le _)).run.1
  rwa [h] at hend

theorem checkStmts_safeFrom (p : Program) {s : Run} (hs : s.Inv) :
    SafeFrom cfg (checkStmts p) s :=
  (checkStmts_keeps 0 p s hs (Nat.zero_le _)).mono fun _ _ h => h.1

/-- A check that ends well: its statements are gone through, and what they leave is handed out. -/
theorem run_program {p : Program} {s s' : Run} {out : Output} (hs : s.Inv)
    (h : (program p).run cfg s = (.ok out, s')) :
    ∃ s₁, (checkStmts p).run cfg s = (.ok (), s₁) ∧ s₁.Inv ∧ HandsOut s₁ out := by
  obtain ⟨⟨⟩, s₁, hstmts, hfinish, -⟩ := run_bind_eq_ok h
  have hinv := inv_checkStmts hs hstmts
  obtain ⟨out', s₂, hrun, hout⟩ := run_finish cfg hinv.acyclic
  rw [hrun] at hfinish
  cases hfinish
  exact ⟨s₁, hstmts, hinv, hout⟩

/-! ## From the end back to the start -/

theorem agrees_reset (run : Run) (A : Typing) (θ : TyVar → Ty) : run.reset.Agrees A θ where
  bindings := by simp [Run.reset]
  types name d hd := by simp [Run.reset, Registry.type?] at hd
  constructors name c hc := by simp [Run.reset, Registry.constructor?] at hc

theorem names_reset (run : Run) : run.reset.names = [Env.nothing] := by
  simp [Run.names, Run.reset]
  rfl

/-- Where no two symbols have the same node, each is found by its own. -/
theorem find?_symbol {symbols : List Symbol} (hnodup : (symbols.map (·.site.node)).Nodup)
    {sym : Symbol} (hsym : sym ∈ symbols) :
    symbols.find? (·.site.node = sym.site.node) = some sym := by
  induction symbols with
  | nil => simp at hsym
  | cons other symbols ih =>
    rw [List.map_cons, List.nodup_cons] at hnodup
    rcases List.mem_cons.1 hsym with rfl | hsym
    · simp
    · have hne : other.site.node ≠ sym.site.node := fun heq =>
        hnodup.1 (heq ▸ List.mem_map_of_mem hsym)
      rw [List.find?_cons_of_neg (by simpa using hne)]
      exact ih hnodup.2 hsym

/-- After a run without complaints over `p` that has taken `acts`, everything is handed out that the
tree has, in its full form. -/
structure Covers (p : Program) (store : Store) (acts : List Act) (out : Output) : Prop where
  reports : reported acts = []
  nodes : (noted acts).map (·.1) = typedNodes p
  names : (listed acts).map (·.site.node) = declaredNodes p
  node : ∀ note ∈ noted acts, out.typing.node note.1 = some (store.full note.2)
  symbol : ∀ sym ∈ listed acts, out.typing.symbol sym.site.node = some (store.full sym.ty)

theorem HandsOut.covers {p : Program} (hnodes : (typedNodes p).Nodup)
    (hnames : (declaredNodes p).Nodup) {run s : Run} {out : Output} (hout : HandsOut s out)
    (hrun : (checkStmts p).run cfg run.reset = (.ok (), s)) (hclean : out.reports = []) :
    Covers p s.store (log cfg (checkStmts p) run.reset) out := by
  have hsymbols := symbols_run cfg (checkStmts p) run.reset
  rw [hrun] at hsymbols
  have hnone : reported (log cfg (checkStmts p) run.reset) = [] := by
    rw [← hout.reports_eq hrun, hclean]
  -- nothing is passed over without a complaint, so all sites have been written down
  have hwrites : Writes cfg (checkStmts p) (Stmt.sitesAll p) := checkStmts_writes p
  have hend : ∃ a, ((checkStmts p).run cfg run.reset).1 = .ok a := ⟨(), by rw [hrun]⟩
  have hids := (hwrites run.reset).allNodes hend (by simp [hnone])
  have hdeclared : (listed (log cfg (checkStmts p) run.reset)).map (·.site.node) =
      declaredNodes p := by
    have hsites := (hwrites run.reset).allNames hend (by simp [hnone])
    have hmapped := congrArg (List.map (·.1.site.node)) hsites
    rwa [List.map_map] at hmapped
  refine ⟨hnone, hids, hdeclared, fun note hnote => ?_, fun sym hsym => ?_⟩
  · exact hout.typeOf?_of_noted hrun (hids ▸ hnodes) hnote
  · have hall : s.symbols.toList = listed (log cfg (checkStmts p) run.reset) := hsymbols
    change (out.symbols.find? (·.site.node = sym.site.node)).map (·.ty) = _
    rw [hout.symbols, hall, List.find?_map]
    change (((listed _).find? (·.site.node = sym.site.node)).map _).map _ = _
    rw [find?_symbol (hdeclared ▸ hnames) hsym]
    rfl

namespace Covers
variable {p : Program} {store : Store} {acts : List Act} {out : Output} {A : Typing}

theorem exists_note (h : Covers p store acts out) {node : NodeId} (hnode : node ∈ typedNodes p) :
    ∃ t, (node, t) ∈ noted acts := by
  rw [← h.nodes] at hnode
  obtain ⟨note, hnote, rfl⟩ := List.mem_map.1 hnode
  exact ⟨note.2, hnote⟩

theorem exists_symbol (h : Covers p store acts out) {node : NodeId}
    (hnode : node ∈ declaredNodes p) : ∃ sym ∈ listed acts, sym.site.node = node := by
  rw [← h.names] at hnode
  exact List.mem_map.1 hnode

/-- What is handed out is an instance of itself. -/
theorem instance_refl (h : Covers p store acts out) : out.typing.IsInstance p .var out.typing where
  nodes node hnode := by
    obtain ⟨t, ht⟩ := h.exists_note hnode
    exact ⟨_, h.node _ ht, by rw [Ty.subst_id]; exact h.node _ ht⟩
  names node hnode := by
    obtain ⟨sym, hsym, rfl⟩ := h.exists_symbol hnode
    exact ⟨_, h.symbol sym hsym, by rw [Ty.subst_id]; exact h.symbol sym hsym⟩

/-- An instance of what is handed out fits the run. -/
theorem fits (h : Covers p store acts out) {σ : TyVar → Ty}
    (hA : A.IsInstance p σ out.typing) : Fits A (fun v => (store.form v).subst σ) acts where
  reports := h.reports
  nodes note hnote := by
    have hmem : note.1 ∈ typedNodes p := h.nodes ▸ List.mem_map_of_mem hnote
    obtain ⟨t, ht, hσ⟩ := hA.nodes note.1 hmem
    rw [h.node note hnote] at ht
    rw [hσ, ← Option.some.inj ht, Store.full, Ty.subst_subst]
  symbols sym hsym := by
    have hmem : sym.site.node ∈ declaredNodes p := h.names ▸ List.mem_map_of_mem hsym
    obtain ⟨t, ht, hσ⟩ := hA.names sym.site.node hmem
    rw [h.symbol sym hsym] at ht
    rw [hσ, ← Option.some.inj ht, Store.full, Ty.subst_subst]

/-- What fits the run is an instance of what is handed out. -/
theorem isInstance (h : Covers p store acts out) (hs : store.Acyclic) {θ : TyVar → Ty}
    (hθ : store.Solves θ) (hA : Fits A θ acts) : A.IsInstance p θ out.typing where
  nodes node hnode := by
    obtain ⟨t, ht⟩ := h.exists_note hnode
    exact ⟨_, h.node _ ht, by rw [hA.nodes _ ht, hs.full_subst hθ]⟩
  names node hnode := by
    obtain ⟨sym, hsym, rfl⟩ := h.exists_symbol hnode
    exact ⟨_, h.symbol sym hsym, by rw [hA.symbols sym hsym, hs.full_subst hθ]⟩

end Covers

end Check

namespace Checker
variable {c : Checker} {p : Program} {out : Output}

/-- The run behind what a check hands out. -/
theorem run_of_check (hout : (c.check p).1 = .ok out) :
    ∃ s, (Check.checkStmts p).run c.config c.run.reset = (.ok (), s) ∧ s.Inv ∧
      Check.HandsOut s out := by
  unfold check at hout
  split at hout
  · next out' s' hrun =>
    cases hout
    exact Check.run_program (.reset c.run) hrun
  · cases hout

/-- A check whose statements can be gone through hands out what they leave. -/
theorem check_of_run {s : Run}
    (hrun : (Check.checkStmts p).run c.config c.run.reset = (.ok (), s)) :
    ∃ out, (c.check p).1 = .ok out ∧ Check.HandsOut s out := by
  have hinv := Check.inv_checkStmts (.reset c.run) hrun
  obtain ⟨out, s', hfinish, hhands⟩ := Check.run_finish c.config hinv.acyclic
  have hprogram : (Check.program p).run c.config c.run.reset = (.ok out, s') := by
    rw [Check.program, Check.run_bind, hrun]
    exact hfinish
  exact ⟨out, by rw [check, hprogram], hhands⟩

/-- A check ends where its statements end at a malformed tree. -/
theorem check_of_error {s : Run} {e : Malformed}
    (hrun : (Check.checkStmts p).run c.config c.run.reset = (.error e, s)) :
    (c.check p).1 = .error e := by
  have hprogram : (Check.program p).run c.config c.run.reset = (.error e, s) := by
    rw [Check.program, Check.run_bind, hrun]
  rw [check, hprogram]

/-- Every instance of what is handed out without complaints follows the rules. -/
theorem typed_of_instance (hcfg : c.config.dynamicImports = false)
    (hnodes : (typedNodes p).Nodup) (hnames : (declaredNodes p).Nodup)
    (hout : (c.check p).1 = .ok out) (hclean : out.reports = []) {A : Typing} {σ : TyVar → Ty}
    (hA : A.IsInstance p σ out.typing) : ProgramTyped c.config A p := by
  obtain ⟨s, hrun, hinv, hhands⟩ := run_of_check hout
  have hsafe : Check.SafeFrom c.config (Check.checkStmts p) c.run.reset :=
    Check.checkStmts_safeFrom p (.reset c.run)
  have hfits := (hhands.covers hnodes hnames hrun hclean).fits hA
  obtain ⟨htyped, -⟩ := Check.checkStmts_sound hcfg
    ⟨hrun, hsafe, hfits, hinv.acyclic.solves_form_subst σ⟩ (Check.agrees_reset c.run _ _)
  rw [Check.names_reset] at htyped
  exact ⟨_, _, htyped⟩

/-- A check without complaints hands out a typing that follows the rules. -/
theorem check_sound (c : Checker) (hcfg : c.config.dynamicImports = false) (p : Program)
    (hnodes : (typedNodes p).Nodup) (hnames : (declaredNodes p).Nodup) {out : Output}
    (hout : (c.check p).1 = .ok out) (hclean : out.reports = []) :
    ProgramTyped c.config out.typing p := by
  obtain ⟨s, hrun, -, hhands⟩ := run_of_check hout
  exact typed_of_instance hcfg hnodes hnames hout hclean
    (hhands.covers hnodes hnames hrun hclean).instance_refl

end Checker

open Sketch in
/-- A match on a value of a sum type inside a function, and a call of the function. -/
def growProgram : Program :=
  (build [
    .typeDecl "Shape" (.adt [.prim "Circle" .number, .bare "Empty"]),
    .assign .constVar "shape" (.call (.ident "Circle") [.literal (.number 1)]),
    .assign .letVar "grow" (.function ["x"] (.operation (.ident "x") "+"
      (.matchOn (.ident "shape") [
        (.constructor "Circle" [.binding "r"], .ident "r"),
        (.constructor "Empty" [], .literal (.number 0))]))),
    .expr (.call (.ident "grow") [.literal (.number 2)])]).1

/-- The function, whose name is node 42, comes out as one from numbers to numbers. -/
theorem Checker.check_sound_grow :
    (typedNodes growProgram).Nodup ∧ (declaredNodes growProgram).Nodup ∧
    ∃ out, (({} : Checker).check growProgram).1 = .ok out ∧ out.reports = [] ∧
      out.typing.symbol 42 = some (.fn [.number] .number) ∧
      ProgramTyped {} out.typing growProgram := by
  have hnodes : (typedNodes growProgram).Nodup := by decide +kernel
  have hnames : (declaredNodes growProgram).Nodup := by decide +kernel
  have hfound : (({} : Checker).check growProgram).1.toOption.map
      (fun out => (out.isOk, out.typing.symbol 42)) =
        some (true, some (.fn [.number] .number)) := by
    decide +kernel
  cases hout : (({} : Checker).check growProgram).1 with
  | error e => simp [hout, Except.toOption] at hfound
  | ok out =>
    obtain ⟨hclean, hgrow⟩ : out.reports = [] ∧ out.typing.symbol 42 = _ := by
      simpa [hout, Except.toOption, Output.isOk] using hfound
    exact ⟨hnodes, hnames, out, rfl, hclean, hgrow,
      Checker.check_sound {} rfl _ hnodes hnames hout hclean⟩

end Monotype
