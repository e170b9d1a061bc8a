import Monotype.Proofs.Check.Exhaustive
import Monotype.Proofs.Check.Frame
import Monotype.Proofs.Check.Names
import Monotype.Proofs.Tree.Redeclaration

/-! Complaints that point back. A name that is declared again in a scope is reported with a note on
the declaration that it has there; a constructor that takes the name of another sum type's is
reported with none, though an earlier declaration is known. No other report has a note. -/
namespace Monotype

/-- A complaint about a name that is declared again. -/
def Report.isRedeclaration (r : Report Ty) : Bool :=
  r.error.code ∈ ["E3002", "E3020"]

theorem Report.isRedeclaration_of_unnamed {r : Report Ty} (h : r.error.named? = none) :
    r.isRedeclaration = false := by
  unfold isRedeclaration
  cases hr : r.error <;> simp_all [TypeError.named?, TypeError.code]

namespace Redeclaration

theorem isRedeclaration_report (d : Redeclaration) : d.report.isRedeclaration = true := by
  cases d <;> rfl

/-- What is reported are the redeclarations `found`, and other things that have no notes. -/
structure Reported (reports : List (Report Ty)) (found : List Redeclaration) : Prop where
  redeclared : reports.filter (·.isRedeclaration) = found.map (·.report)
  unlabelled : ∀ r ∈ reports, r.isRedeclaration = false → r.labels = []

namespace Reported

theorem nil : Reported [] [] := ⟨rfl, by simp⟩

theorem append {xs ys : List (Report Ty)} {first rest : List Redeclaration}
    (hxs : Reported xs first) (hys : Reported ys rest) : Reported (xs ++ ys) (first ++ rest) where
  redeclared := by rw [List.filter_append, hxs.redeclared, hys.redeclared, List.map_append]
  unlabelled := List.forall_mem_append.2 ⟨hxs.unlabelled, hys.unlabelled⟩

/-- Reports of other things have nothing to do with redeclarations. -/
theorem of_others {reports : List (Report Ty)}
    (h : ∀ r ∈ reports, r.isRedeclaration = false ∧ r.labels = []) : Reported reports [] where
  redeclared := List.filter_eq_nil_iff.2 fun r hr => by simp [(h r hr).1]
  unlabelled r hr _ := (h r hr).2

theorem one (d : Redeclaration) : Reported [d.report] [d] where
  redeclared := List.filter_cons_of_pos d.isRedeclaration_report
  unlabelled := by simp [d.isRedeclaration_report]

end Reported

end Redeclaration

/-- The table has the names of the list, each from the first place that the list has for it. -/
def Scope.Holds (table : Scope) (names : List Ident) : Prop :=
  ∀ name, (table[name]?).map (·.site) = (names.find? (·.name = name)).map (·.site)

theorem Scope.Holds.empty : Scope.Holds ∅ [] := fun name => by simp

theorem Scope.Holds.insert {table : Scope} {names : List Ident} (h : table.Holds names)
    (name : Ident) (t : Ty) :
    Scope.Holds (Std.TreeMap.insert table name.name ⟨t, name.site⟩) (name :: names) := by
  intro other
  rw [Std.TreeMap.getElem?_insert, List.find?_cons]
  by_cases hname : name.name = other
  · simp [hname]
  · simp [hname, h other]

namespace Run
variable {s s' : Run} {k : Known}

/-- What a run has declared so far is what is known. -/
structure Knows (s : Run) (k : Known) : Prop where
  keyed : s.Keyed
  scope : s.scopes.innermost.Holds k.scope
  constructors : ∀ name,
    (s.registry.constructor? name).map (·.adtName) = (k.constructor? name).map (·.1)

theorem Knows.congr (h : s.Knows k) (hscopes : s'.scopes = s.scopes)
    (hconstructors : s'.registry.constructors = s.registry.constructors) : s'.Knows k where
  keyed := by
    intro name c hc
    rw [Registry.constructor?, hconstructors] at hc
    exact h.keyed name c hc
  scope := by
    rw [hscopes]
    exact h.scope
  constructors name := by
    rw [Registry.constructor?, hconstructors]
    exact h.constructors name

/-- A binding of the innermost scope is known from the place where it was declared. -/
theorem Knows.inScope?_of_some (h : s.Knows k) {name : String} {b : Binding}
    (hb : s.scopes.innermost[name]? = some b) :
    ∃ earlier, k.inScope? name = some earlier ∧ earlier.site = b.site := by
  have hsite := h.scope name
  rw [hb, Option.map_some] at hsite
  exact Option.map_eq_some_iff.1 hsite.symm

theorem Knows.inScope?_of_none (h : s.Knows k) {name : String}
    (hb : s.scopes.innermost[name]? = none) : k.inScope? name = none := by
  have hsite := h.scope name
  rw [hb, Option.map_none] at hsite
  exact Option.map_eq_none_iff.1 hsite.symm

end Run

namespace Check
open Redeclaration
variable {α β : Type} {cfg : Config} {s s' : Run} {k : Known}

/-- Where `x` ends well it finds redeclarations on the way `m`. -/
def Finds (cfg : Config) (x : Check α) (m : Way) : Prop :=
  ∀ s a s' k, x.run cfg s = (.ok a, s') → s.Knows k →
    ∃ k' found, m k k' found ∧ s'.Knows k' ∧ s'.scopes.live.tail = s.scopes.live.tail ∧
      Reported (reported (log cfg x s)) found

namespace Finds
variable {m n : Way}

theorem pure (a : α) : Finds cfg (pure a) (.of (·, [])) := by
  intro s b s' k hrun hk
  cases hrun
  exact ⟨k, [], rfl, hk, rfl, .nil⟩

theorem throw (e : Malformed) : Finds cfg (throw e : Check α) m := by
  intro s b s' k hrun
  cases hrun

theorem bind {x : Check α} {f : α → Check β} (hx : Finds cfg x m) (hf : ∀ a, Finds cfg (f a) n) :
    Finds cfg (x >>= f) (m.andThen n) := by
  intro s b s' k hrun hk
  obtain ⟨a, s₁, hfirst, hrest, hlog⟩ := run_bind_eq_ok hrun
  obtain ⟨k₁, first, hm, hk₁, houter, hreports⟩ := hx s a s₁ k hfirst hk
  obtain ⟨k₂, rest, hn, hk₂, houter', hreports'⟩ := hf a s₁ b s' k₁ hrest hk₁
  refine ⟨k₂, first ++ rest, ⟨k₁, first, rest, hm, hn, rfl⟩, hk₂, houter'.trans houter, ?_⟩
  rw [hlog, reported_append]
  exact hreports.append hreports'

/-- After a step that finds nothing, what comes next may depend on its answer. -/
theorem after {x : Check α} {f : α → Check β} (hx : Finds cfg x (.of (·, [])))
    (hf : ∀ s a s', x.run cfg s = (.ok a, s') → Finds cfg (f a) m) : Finds cfg (x >>= f) m := by
  intro s b s' k hrun hk
  obtain ⟨a, s₁, hfirst, hrest, hlog⟩ := run_bind_eq_ok hrun
  obtain ⟨_, _, hsame, hk₁, houter, hreports⟩ := hx s a s₁ k hfirst hk
  cases hsame
  obtain ⟨k', found, hm, hk', houter', hreports'⟩ := hf s a s₁ hfirst s₁ b s' k hrest hk₁
  refine ⟨k', found, hm, hk', houter'.trans houter, ?_⟩
  rw [hlog, reported_append]
  exact hreports.append hreports'

/-- Steps of which it is known what comes to be known and what is found. -/
theorem seq {x : Check α} {y : Check β} {f g : Known → Known} {first rest : List Redeclaration}
    (hx : Finds cfg x (.of fun k => (f k, first))) (hy : Finds cfg y (.of fun k => (g k, rest))) :
    Finds cfg (x >>= fun _ => y) (.of fun k => (g (f k), first ++ rest)) := by
  intro s b s' k hrun hk
  obtain ⟨k', found, ⟨middle, _, _, hfirst, hrest, rfl⟩, hk'⟩ :=
    hx.bind (fun _ => hy) s b s' k hrun hk
  cases hfirst
  cases hrest
  exact ⟨_, _, rfl, hk'⟩

theorem mono {x : Check α} (h : Finds cfg x m)
    (hle : ∀ before after found, m before after found → n before after found) :
    Finds cfg x n := by
  intro s a s' k hrun hk
  obtain ⟨k', found, hm, hk', houter, hreports⟩ := h s a s' k hrun hk
  exact ⟨k', found, hle _ _ _ hm, hk', houter, hreports⟩

/-- An action that neither declares anything nor reports a redeclaration. -/
theorem act_of_others {a : Act}
    (hframe : ∀ s, (a.perform cfg s).2.scopes = s.scopes ∧
      (a.perform cfg s).2.registry.constructors = s.registry.constructors)
    (hothers : ∀ r ∈ reported [a], r.isRedeclaration = false ∧ r.labels = []) :
    Finds cfg (act a) (.of (·, [])) := by
  intro s b s' k hrun hk
  obtain ⟨hscopes, hconstructors⟩ := hframe s
  cases hrun
  exact ⟨k, [], rfl, hk.congr hscopes hconstructors, congrArg (·.live.tail) hscopes,
    .of_others hothers⟩

theorem act {a : Act} (hquiet : a.Quiet) : Finds cfg (act a) (.of (·, [])) := by
  cases a with
  | report r =>
    refine act_of_others (fun _ => ⟨rfl, rfl⟩) (List.forall_mem_singleton.2 ?_)
    exact ⟨Report.isRedeclaration_of_unnamed hquiet.1, hquiet.2⟩
  | bindName | enter | leave | declareType | register => exact absurd hquiet id
  | _ => exact act_of_others (fun _ => ⟨rfl, rfl⟩) (List.forall_mem_nil _)

theorem report (site : Site) {error : TypeError Ty}
    (h : ({ error, site, labels := [] } : Report Ty).isRedeclaration = false) :
    Finds cfg (report site error) (.of (·, [])) :=
  act_of_others (fun _ => ⟨rfl, rfl⟩) (List.forall_mem_singleton.2 ⟨h, rfl⟩)

theorem complain (d : Redeclaration) :
    Finds cfg (Check.act (.report d.report)) (.of (·, [d])) := by
  intro s a s' k hrun hk
  cases hrun
  exact ⟨k, [d], rfl, hk.congr rfl rfl, rfl, .one d⟩

theorem unify (l r : Ty) (site : Site) : Finds cfg (unify l r site) (.of (·, [])) := by
  intro s a s' k hrun hk
  have hreports := reports_run cfg (Check.unify l r site) s
  have hquiet := failureReport_quiet s.store cfg.dynamicImports l r site
  rw [run_unify] at hrun hreports
  have hreported : reported (log cfg (Check.unify l r site) s) =
      (s.store.unify cfg.dynamicImports l r).1.map (failureReport site) := by
    simpa [Sink.toList] using hreports.symm
  cases hrun
  refine ⟨k, [], rfl, hk.congr rfl rfl, rfl, .of_others fun report hreport => ?_⟩
  rw [hreported] at hreport
  exact ⟨Report.isRedeclaration_of_unnamed (hquiet report hreport).1, (hquiet report hreport).2⟩

theorem bindLocal (name : Ident) (t : Ty) :
    Finds cfg (bindLocal name t) (.of fun k => (k.bind name, [])) := by
  intro s a s' k hrun hk
  cases hrun
  refine ⟨k.bind name, [], rfl, ⟨hk.keyed, ?_, hk.constructors⟩, ?_, .nil⟩
  · exact Scopes.innermost_insert s.scopes _ _ ▸ hk.scope.insert name t
  · simp

/-- In a scope of its own nothing of the outer ones is collided with, and they are there again
afterwards. -/
theorem inScope {x : Check α} (h : Finds cfg x m) :
    Finds cfg (inScope x) fun before after found => ∃ inner,
      m { before with scope := [] } inner found ∧ after = { inner with scope := before.scope } := by
  intro s a s' k hrun hk
  obtain ⟨s₁, hbody, rfl⟩ := run_inScope_eq_ok hrun
  have hentered : Run.Knows { s with scopes := s.scopes.push.2 } { k with scope := [] } := by
    refine ⟨hk.keyed, ?_, hk.constructors⟩
    have hempty : s.scopes.push.2.innermost = ∅ := by
      have hlive := s.scopes.live_push
      rw [Scopes.live_eq_cons] at hlive
      exact (List.cons.inj hlive).1
    rw [hempty]
    exact .empty
  obtain ⟨inner, found, hm, hinner, houter, hreports⟩ := h _ _ _ _ hbody hentered
  rw [Scopes.live_push, List.tail_cons] at houter
  have hlive : s₁.scopes.pop.live = s.scopes.live := Scopes.live_pop_of_tail houter
  have houter' : s₁.scopes.pop.live.tail = s.scopes.live.tail := congrArg List.tail hlive
  refine ⟨{ inner with scope := k.scope }, found, ⟨inner, hm, rfl⟩, ?_, houter', ?_⟩
  · refine ⟨hinner.keyed, ?_, hinner.constructors⟩
    rw [(Scopes.live_eq_iff.1 hlive).1]
    exact hk.scope
  · rw [reported_inScope]
    exact hreports

end Finds

theorem findSteps (cfg : Config) : (Redeclaration.survey cfg).Steps cfg (Finds cfg) where
  pure := .pure
  bind := .bind
  config h := fun s b s' k hrun hk => h s b s' k hrun hk
  act _ := .act
  unify := .unify

/-! ## Names that are declared -/

theorem declare_finds (name : Ident) (t : Ty) (kind : SymbolKind) :
    Finds cfg (declare name t kind) (.of fun k => (k.bind name, [])) :=
  (findSteps cfg).before (.bindLocal name t) fun _ => (findSteps cfg).addSymbol name t kind

/-- From `s`, `x` comes to the same state as `y`, and reports the same on the way. -/
def Alike (cfg : Config) (x y : Check α) (s : Run) : Prop :=
  x.run cfg s = y.run cfg s ∧ reported (log cfg x s) = reported (log cfg y s)

theorem Alike.refl (x : Check α) (s : Run) : Alike cfg x x s := ⟨rfl, rfl⟩

/-- A question, which leaves the state as it is, can be left out. -/
theorem Alike.ask {x : Check α} {f : α → Check β} {y : Check β} {a : α}
    (hx : x.run cfg s = (.ok a, s)) (hf : Alike cfg (f a) y s) : Alike cfg (x >>= f) y s := by
  have hquiet : reported (log cfg x s) = [] := by
    have hreports := reports_run cfg x s
    rw [hx] at hreports
    exact List.self_eq_append_right.1 hreports
  obtain ⟨hrun, hreported⟩ := run_bind_of_ok (f := f) hx
  refine ⟨hrun.trans hf.1, ?_⟩
  rw [hreported, hquiet, List.nil_append, hf.2]

/-- What `y` finds where `f` and `g` agree, a run that is like it finds, too. -/
theorem Finds.alike {x y : Check α} {f g : Known → Known × List Redeclaration} {a : α}
    (hy : Finds cfg y (.of f)) (halike : Alike cfg x y s) (hfg : f k = g k)
    (hrun : x.run cfg s = (.ok a, s')) (hk : s.Knows k) :
    ∃ k' found, Way.of g k k' found ∧ s'.Knows k' ∧
      s'.scopes.live.tail = s.scopes.live.tail ∧ Reported (reported (log cfg x s)) found := by
  obtain ⟨k', found, hm, hk', houter, hreports⟩ := hy s a s' k (halike.1 ▸ hrun) hk
  exact ⟨k', found, hm.trans hfg, hk', houter, halike.2 ▸ hreports⟩

/-- The note on a binding is that of the redeclaration of its name. -/
theorem firstDeclared_eq_note {name earlier : Ident} {b : Binding} (hsite : earlier.site = b.site)
    {d : Redeclaration} (hearlier : d.earlier = earlier) (hagain : d.again = name) :
    b.firstDeclared name.name = d.note := by
  rw [Binding.firstDeclared, Redeclaration.note, hearlier, hagain, hsite]

theorem declareImport_finds (path : String) (name : Ident) :
    Finds cfg (declareImport path name) (.of (Known.bringIn name)) := by
  intro s a s' k hrun hk
  cases hb : s.scopes.innermost[name.name]? with
  | some b =>
    obtain ⟨earlier, hearlier, hsite⟩ := hk.inScope?_of_some hb
    have halike : Alike cfg (declareImport path name)
        (act (.report (Redeclaration.imported earlier name).report)) s := by
      refine .ask (run_declaredHere cfg name.name s) ?_
      rw [Scopes.declaresHere_of_some hb, if_pos rfl]
      refine .ask (run_earlierBinding hb) ?_
      have hnote : b.firstDeclared name.name = (Redeclaration.imported earlier name).note :=
        firstDeclared_eq_note hsite rfl rfl
      rw [hnote]
      exact .refl _ _
    refine (Finds.complain _).alike halike ?_ hrun hk
    rw [Known.bringIn, hearlier]
  | none =>
    have halike : Alike cfg (declareImport path name)
        (declare name (.external path) .imported) s := by
      refine .ask (run_declaredHere cfg name.name s) ?_
      rw [Scopes.declaresHere_of_none hb, if_neg Bool.false_ne_true]
      exact .refl _ _
    refine (declare_finds name _ _).alike halike ?_ hrun hk
    rw [Known.bringIn, hk.inScope?_of_none hb]

theorem declareAssigned_finds (name : Ident) (t : Ty) :
    Finds cfg (declareAssigned name t) (.of (Known.assign cfg.strictRedeclaration name)) := by
  intro s a s' k hrun hk
  have hfirst (h : (cfg.strictRedeclaration && s.scopes.declaresHere name.name) = false) :
      Alike cfg (declareAssigned name t) (declare name t .var) s := by
    refine .ask (a := cfg) rfl (.ask (run_declaredHere cfg name.name s) ?_)
    rw [h, if_neg Bool.false_ne_true]
    exact .refl _ _
  cases hb : s.scopes.innermost[name.name]? with
  | none =>
    refine (declare_finds name _ _).alike (hfirst ?_) ?_ hrun hk
    · rw [Scopes.declaresHere_of_none hb, Bool.and_false]
    · rw [Known.assign, hk.inScope?_of_none hb]
  | some b =>
    obtain ⟨earlier, hearlier, hsite⟩ := hk.inScope?_of_some hb
    cases hstrict : cfg.strictRedeclaration with
    | false =>
      refine (declare_finds name _ _).alike (hfirst ?_) ?_ hrun hk
      · rw [hstrict, Bool.false_and]
      · rw [Known.assign, hearlier]
        rfl
    | true =>
      let d : Redeclaration := .assigned earlier name
      have hhere : (cfg.strictRedeclaration && s.scopes.declaresHere name.name) = true := by
        rw [hstrict, Scopes.declaresHere_of_some hb, Bool.and_self]
      have hnote : b.firstDeclared name.name = d.note := firstDeclared_eq_note hsite rfl rfl
      have halike : Alike cfg (declareAssigned name t)
          (do act (.report d.report); declare name t .var) s := by
        refine .ask (a := cfg) rfl (.ask (run_declaredHere cfg name.name s) ?_)
        rw [hhere, if_pos rfl]
        refine .ask (run_earlierBinding hb) ?_
        rw [hnote]
        exact .refl _ _
      have hagain : Finds cfg (do act (.report d.report); declare name t .var)
          (.of fun k => (k.bind name, [d])) := Finds.seq (.complain d) (declare_finds name t .var)
      refine hagain.alike halike ?_ hrun hk
      rw [Known.assign, hearlier]
      rfl

/-! ## Constructors -/

theorem register_finds {adt : String} {option : Ident} {c : Constructor}
    (hname : c.name = option.name) (hadt : c.adtName = adt) :
    Finds cfg (act (.register c)) (.of fun k => (k.enter adt option, [])) := by
  intro s a s' k hrun hk
  cases hrun
  refine ⟨k.enter adt option, [], rfl, ⟨?_, hk.scope, fun name => ?_⟩, rfl, .nil⟩
  · intro name c' hc'
    rw [Registry.constructor?_register] at hc'
    split at hc'
    · next heq =>
      cases hc'
      exact heq
    · exact hk.keyed name c' hc'
  · rw [Registry.constructor?_register, hname, Known.constructor?_enter]
    split
    · exact congrArg some hadt
    · exact hk.constructors name

/-- After the same first step, two runs go on alike if their rests do. -/
theorem Alike.after {x : Check α} {f g : α → Check β} {a : α} {s₁ : Run}
    (hx : x.run cfg s = (.ok a, s₁)) (hfg : Alike cfg (f a) (g a) s₁) :
    Alike cfg (x >>= f) (x >>= g) s := by
  obtain ⟨hrun, hreported⟩ := run_bind_of_ok (f := f) hx
  obtain ⟨hrun', hreported'⟩ := run_bind_of_ok (f := g) hx
  exact ⟨by rw [hrun, hrun', hfg.1], by rw [hreported, hreported', hfg.2]⟩

section
variable {adt : String} {option : Ident} {c previous : Constructor} {s₁ : Run}

/-- A constructor that takes no other type's name is entered and listed. -/
theorem declareConstructor_quiet {displaced : Option Constructor}
    (hregister : (act (.register c)).run cfg s = (.ok displaced, s₁))
    (hown : cfg.strictRedeclaration = true → ∀ p ∈ displaced, p.adtName = adt) :
    Alike cfg (declareConstructor adt option c)
      (do let _ ← act (.register c); addSymbol option c.ty .constructor) s := by
  refine .after hregister (.ask (a := cfg) rfl ?_)
  split
  · next hstrict =>
    cases displaced with
    | none => exact .refl _ _
    | some p =>
      dsimp only
      rw [if_neg (not_not.2 (hown hstrict p rfl))]
      exact .refl _ _
  · exact .refl _ _

/-- Strictly, one that takes another type's is complained about in between. -/
theorem declareConstructor_clash
    (hregister : (act (.register c)).run cfg s = (.ok (some previous), s₁))
    (hstrict : cfg.strictRedeclaration = true) (hother : previous.adtName ≠ adt) :
    Alike cfg (declareConstructor adt option c) (do
      let _ ← act (.register c)
      report option.site (.redeclared previous.name)
      addSymbol option c.ty .constructor) s := by
  refine .after hregister (.ask (a := cfg) rfl ?_)
  rw [if_pos hstrict]
  dsimp only
  rw [if_pos hother]
  exact .refl _ _

theorem declareConstructor_finds (hname : c.name = option.name) (hadt : c.adtName = adt) :
    Finds cfg (declareConstructor adt option c)
      (.of (Known.construct cfg.strictRedeclaration adt option)) := by
  intro s a s' k hrun hk
  have hregister : (act (.register c)).run cfg s =
      (.ok (s.registry.constructor? option.name), (Act.perform cfg (.register c) s).2) := by
    rw [← hname]
    rfl
  have hlist : Finds cfg (addSymbol option c.ty .constructor) (.of (·, [])) :=
    (findSteps cfg).addSymbol _ _ _
  have hquiet : Finds cfg (do let _ ← act (.register c); addSymbol option c.ty .constructor)
      (.of fun k => (k.enter adt option, [])) := (register_finds hname hadt).seq hlist
  have hheld := hk.constructors option.name
  cases hprevious : s.registry.constructor? option.name with
  | none =>
    rw [hprevious] at hregister hheld
    refine hquiet.alike (declareConstructor_quiet hregister (by simp)) ?_ hrun hk
    rw [Known.construct, Option.map_eq_none_iff.1 hheld.symm]
  | some previous =>
    rw [hprevious] at hregister hheld
    obtain ⟨⟨other, earlier⟩, hearlier, hother⟩ := Option.map_eq_some_iff.1 hheld.symm
    obtain rfl : other = previous.adtName := hother
    by_cases hclash : cfg.strictRedeclaration = true ∧ previous.adtName ≠ adt
    · -- the complaint names the constructor that was displaced, which stood under this name
      have halike : Alike cfg (declareConstructor adt option c) _ s :=
        declareConstructor_clash hregister hclash.1 hclash.2
      rw [hk.keyed _ _ hprevious] at halike
      have hagain := (register_finds hname hadt).seq
        ((Finds.complain (.constructor earlier option)).seq hlist)
      refine hagain.alike halike ?_ hrun hk
      rw [Known.construct, hearlier]
      dsimp only
      rw [if_pos (by simpa using hclash)]
      rfl
    · have hown : cfg.strictRedeclaration = true → ∀ p ∈ some previous, p.adtName = adt := by
        simpa using hclash
      refine hquiet.alike (declareConstructor_quiet hregister hown) ?_ hrun hk
      rw [Known.construct, hearlier]
      dsimp only
      rw [if_neg (by simpa using hclash)]

end

theorem declareConstructors_finds {adt : String} {options : List AdtOption}
    {cs : List Constructor}
    (h : List.Forall₂ (fun option c => c.name = option.name.name ∧ c.adtName = adt) options cs) :
    Finds cfg (declareConstructors adt options cs)
      (.of (Known.constructAll cfg.strictRedeclaration adt options)) := by
  induction h with
  | nil => exact .pure _
  | cons hc _ ih =>
    refine (Finds.bind (declareConstructor_finds hc.1 hc.2) fun _ => ih).mono ?_
    rintro before after found ⟨middle, first, rest, hfirst, hrest, rfl⟩
    rw [Way.of, Known.constructAll, ← hfirst]
    dsimp only
    rw [← hrest]

/-- Only the constructors of a type are names of values. -/
theorem declareType_finds (name : Ident) (ty : TypeExpr) :
    Finds cfg (declareType name ty) (.of (Known.declare cfg.strictRedeclaration name ty)) := by
  have hhead (d : TypeDef) {rest : Check Unit} {m : Way} (h : Finds cfg rest m) :
      Finds cfg (do
        act (.declareType name.name d name.site.node)
        addSymbol name (d.toTy name.name) .type
        rest) m := by
    have hdeclare : Finds cfg (act (.declareType name.name d name.site.node)) (.of (·, [])) :=
      .act_of_others (fun _ => ⟨rfl, rfl⟩) (List.forall_mem_nil _)
    exact (findSteps cfg).after hdeclare fun _ =>
      (findSteps cfg).after ((findSteps cfg).addSymbol _ _ _) fun _ => h
  refine .after ((findSteps cfg).lowerDef name.name ty) fun s d s' hlower => ?_
  cases ty with
  | adt site options =>
    obtain ⟨cs, s₁, hcs, hlower, -⟩ := run_bind_eq_ok hlower
    cases hlower
    exact hhead (.adt cs) (declareConstructors_finds (lowerOptions_names name.name hcs))
  | _ => exact hhead d (.pure ())

/-! ## Programs -/

theorem findRules (cfg : Config) : (Redeclaration.survey cfg).Rules cfg (Finds cfg) where
  toSteps := findSteps cfg
  used _ := (findSteps cfg).inferIdent (.report _ rfl)
  param name t := declare_finds name t .param
  assigned := declareAssigned_finds
  imported := declareImport_finds
  exported _ := (findSteps cfg).checkExport (.report _ rfl)
  declared := declareType_finds
  acceptSum adt scrutinee _ := by
    refine (findSteps cfg).acceptSum (·.mono fun _ _ _ => .inl) adt scrutinee ?_
    exact fun binder hbinder t => (Finds.bindLocal binder t).mono fun _ _ _ h =>
      .inr ⟨binder, hbinder, h⟩
  acceptLiteral scrutinee pattern _ :=
    (findSteps cfg).acceptLiteral (·.mono fun _ _ _ => .inl) scrutinee pattern
  closing site _ closing := (findSteps cfg).checkClosing site .throw closing
  component _ props := (findSteps cfg).checkComponent props (.report _ rfl)
  branchless _ := .throw _
  whole e m h := ((Redeclaration.survey cfg).andThen_nothing m).symm ▸ h
  inScope h := .inScope h
  arms h := h.mono fun _ _ _ => .inl
  unmatched site t m := by
    have hrecover : Finds cfg (do recover site (.nonAdtMatch (← apply t))) (.of (·, [])) :=
      (findSteps cfg).after ((findSteps cfg).apply t) fun _ => (findSteps cfg).recover site rfl
    exact hrecover.mono fun _ _ _ => .inr

end Check

theorem Run.knows_reset (run : Run) : run.reset.Knows {} where
  keyed name c hc := by simp [Run.reset, Registry.constructor?] at hc
  scope := by
    have hlive := run.scopes.live_reset
    rw [Scopes.live_eq_cons] at hlive
    have hinner : run.reset.scopes.innermost = ∅ := (List.cons.inj hlive).1
    rw [hinner]
    exact .empty
  constructors name := by simp [Run.reset, Registry.constructor?, Known.constructor?]

namespace Checker

/-- The complaints of a check about names that are declared again are those about redeclarations of
the program, in order, each with the note that points back to the declaration collided with, but
for those about constructors, which have none. No other report has a note. So every redeclaration
is noted exactly if none of them is that of a constructor. -/
theorem notes_point_back (c : Checker) (p : Program) {out : Output}
    (hout : (c.check p).1 = .ok out) :
    ∃ found, Redeclared c.config p found ∧
      out.reports.filter (·.isRedeclaration) = found.map (·.report) ∧
      (∀ r ∈ out.reports, r.isRedeclaration = false → r.labels = []) ∧
      ((∀ d ∈ found, d.report.labels = [d.note]) ↔ ∀ d ∈ found, d.isConstructor = false) := by
  obtain ⟨s, hrun, -, hhands⟩ := run_of_check hout
  obtain ⟨after, found, hway, -, -, hreports⟩ :=
    (Check.findRules c.config).checkStmts p _ _ _ _ hrun c.run.knows_reset
  rw [← hhands.reports_eq hrun] at hreports
  refine ⟨found, ⟨after, hway⟩, hreports.redeclared, hreports.unlabelled, ?_⟩
  refine forall₂_congr fun d _ => ?_
  cases d <;> simp [Redeclaration.report, Redeclaration.isConstructor]

open Sketch in
/-- An imported name, a block that assigns the same name twice, the import once more, and a
constructor that two sum types have. -/
def againProgram : Program :=
  (build [
    .importFrom (some "x") [] "m",
    .expr (.block [.assign .letVar "x" (.literal (.number 1)),
      .assign .letVar "x" (.literal (.number 2))] none),
    .importFrom none ["x"] "m",
    .typeDecl "A" (.adt [.bare "Same"]),
    .typeDecl "B" (.adt [.bare "Same"])]).1

/-- Both bindings of `x` are pointed to, and the first constructor is not. -/
theorem notes_point_back_again :
    ∃ out found, checkProgram strict againProgram = .ok out ∧ Redeclared strict againProgram found ∧
      out.reports.filter (·.isRedeclaration) = found.map (·.report) ∧
      out.reports.map (fun r => (r.error.code, r.labels.map (·.message))) =
        [("E3020", ["'x' first declared here"]), ("E3002", ["'x' first declared here"]),
          ("E3020", [])] := by
  have hreports : (checkProgram strict againProgram).toOption.map (fun out =>
      out.reports.map fun r => (r.error.code, r.labels.map (·.message))) =
        some [("E3020", ["'x' first declared here"]), ("E3002", ["'x' first declared here"]),
          ("E3020", [])] := by
    decide +kernel
  cases hout : checkProgram strict againProgram with
  | error e => simp [hout, Except.toOption] at hreports
  | ok out =>
    obtain ⟨found, hway, hredeclared, -⟩ :=
      notes_point_back { config := strict } againProgram hout
    exact ⟨out, found, rfl, hway, hredeclared, by simpa [hout, Except.toOption] using hreports⟩

open Sketch in
/-- Two sum types with constructors of one name. -/
def sameProgram : Program :=
  (build [.typeDecl "A" (.adt [.bare "Same"]), .typeDecl "B" (.adt [.bare "Same"])]).1

/-- The second constructor is a redeclaration of the first, and the report does not say so. -/
theorem constructor_not_noted :
    ∃ out d, checkProgram strict sameProgram = .ok out ∧ Redeclared strict sameProgram [d] ∧
      out.reports = [d.report] ∧ out.codes = ["E3020"] ∧ d.report.labels ≠ [d.note] := by
  let d : Redeclaration := .constructor ⟨"Same", { node := 1 }⟩ ⟨"Same", { node := 6 }⟩
  have hreports : (checkProgram strict sameProgram).toOption.map Output.reports =
      some [d.report] := by
    decide +kernel
  cases hout : checkProgram strict sameProgram with
  | error e => simp [hout, Except.toOption] at hreports
  | ok out =>
    have hreports' : out.reports = [d.report] := by
      simpa [hout, Except.toOption] using hreports
    refine ⟨out, d, rfl, ?_, hreports', ?_, by decide⟩
    · exact ⟨_, _, [], [d], rfl, ⟨_, [d], [], rfl, rfl, rfl⟩, rfl⟩
    · rw [Output.codes, hreports']
      rfl

end Checker

end Monotype
