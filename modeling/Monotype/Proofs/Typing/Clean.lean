import Monotype.Proofs.Check.Safety
import Monotype.Proofs.Check.Trace
import Monotype.Proofs.Typing.Rules
import Monotype.Proofs.Unify.MostGeneral

/-! Runs without complaints, seen from their end: a solution of the store at the end is a solution
of the store at every point before, so every equation that was ever required holds for it. -/
namespace Monotype

theorem Plan.Safe.of_bind {Act : Type} {Answer : Act → Type} {α β σ : Type}
    {perform : (a : Act) → σ → Answer a × σ} {safe : Act → σ → Prop} {x : Plan Answer α}
    {f : α → Plan Answer β} {s : σ} {post : β → σ → Prop}
    (h : (x >>= f).Safe perform safe s post) :
    x.Safe perform safe s fun a s' => (f a).Safe perform safe s' post := by
  induction x generalizing s with
  | done a => exact h
  | step act next ih => exact ⟨h.1, ih _ h.2⟩

/-- A type without variables is the same under every substitution. -/
theorem Ty.Below.subst_ground {t : Ty} (h : t.Below 0) (θ : TyVar → Ty) : t.subst θ = t := by
  have heq : t.subst θ = t.subst .var :=
    h.subst_congr fun v hv => absurd hv (Nat.not_lt_zero v)
  rw [heq, subst_id]

namespace Check
variable {α β : Type} {cfg : Config} {A : Typing} {θ : TyVar → Ty} {s s' : Run}

theorem literal_subst (l : Literal) (θ : TyVar → Ty) : l.ty.subst θ = l.ty :=
  (literal_below l).subst_ground θ

/-- From `s` on `x` is safe. -/
abbrev SafeFrom (cfg : Config) (x : Check α) (s : Run) : Prop :=
  Plan.Safe (Act.perform cfg) ActSafe x s fun _ s' => s'.Inv

theorem SafeFrom.inv {x : Check α} (h : SafeFrom cfg x s) : s.Inv := by
  unfold SafeFrom at h
  revert h
  generalize (x : Plan Act.Answer (Except Malformed α)) = plan
  intro h
  cases plan with
  | done a => exact h
  | step act next => exact h.1.1

/-- An action adds no solution to the store. -/
theorem ActSafe.solves {act : Act} (h : ActSafe act s)
    (hθ : (act.perform cfg s).2.store.Solves θ) : s.store.Solves θ := by
  have hs := h.1.acyclic
  cases act with
  | store act =>
    cases act with
    | fresh => exact fun v t ht => hθ v t ((Store.lookup_fresh s.store v).trans ht)
    | resolve t => exact ((hs.resolve t).compresses.solves_iff θ).1 hθ
    | apply t => exact ((hs.answers_apply t).2.solves_iff θ).1 hθ
    | occurs v t => exact ((hs.answers_occurs v t).2.solves_iff θ).1 hθ
    | bind v t => exact ((Store.solves_bind (h.2 v t rfl).2).1 hθ).1
  | _ => exact hθ

/-- What solves the store at the end solves it at the start. -/
theorem SafeFrom.solves {x : Check α} (h : SafeFrom cfg x s)
    (hθ : (x.run cfg s).2.store.Solves θ) : s.store.Solves θ := by
  unfold SafeFrom at h
  unfold Check.run at hθ
  revert h hθ
  generalize (x : Plan Act.Answer (Except Malformed α)) = plan
  intro h hθ
  induction plan generalizing s with
  | done a => exact hθ
  | step act next ih => exact h.1.solves (ih _ h.2 hθ)

/-- The actions make no complaint, and what they note and list is what the typing says, once the
variables are replaced by `θ`. -/
structure Fits (A : Typing) (θ : TyVar → Ty) (acts : List Act) : Prop where
  reports : reported acts = []
  nodes : ∀ note ∈ noted acts, A.node note.1 = some (note.2.subst θ)
  symbols : ∀ sym ∈ listed acts, A.symbol sym.site.node = some (sym.ty.subst θ)

theorem fits_append {xs ys : List Act} : Fits A θ (xs ++ ys) ↔ Fits A θ xs ∧ Fits A θ ys := by
  constructor
  · intro ⟨hr, hn, hs⟩
    simp only [reported_append, noted_append, listed_append, List.append_eq_nil_iff,
      List.forall_mem_append] at hr hn hs
    exact ⟨⟨hr.1, hn.1, hs.1⟩, ⟨hr.2, hn.2, hs.2⟩⟩
  · intro ⟨hx, hy⟩
    refine ⟨?_, ?_, ?_⟩
    · simp [hx.reports, hy.reports]
    · simp only [noted_append, List.forall_mem_append]
      exact ⟨hx.nodes, hy.nodes⟩
    · simp only [listed_append, List.forall_mem_append]
      exact ⟨hx.symbols, hy.symbols⟩

/-- A run of `x` from `s` that ends well in `s'` with the answer `a`, safely and without complaint,
and a solution `θ` of the store at its end that gives what the typing `A` says. -/
structure Clean (cfg : Config) (A : Typing) (θ : TyVar → Ty) (x : Check α) (s : Run) (a : α)
    (s' : Run) : Prop where
  run : x.run cfg s = (.ok a, s')
  safe : SafeFrom cfg x s
  fits : Fits A θ (log cfg x s)
  solves : s'.store.Solves θ

namespace Clean

theorem inv {x : Check α} {a : α} (h : Clean cfg A θ x s a s') : s.Inv := h.safe.inv

/-- The parts of a clean run are clean. -/
theorem bind {x : Check α} {f : α → Check β} {b : β} (h : Clean cfg A θ (x >>= f) s b s') :
    ∃ a s₁, Clean cfg A θ x s a s₁ ∧ Clean cfg A θ (f a) s₁ b s' := by
  obtain ⟨a, s₁, hx, hf, hlog⟩ := run_bind_eq_ok h.run
  have hfits := fits_append.1 (hlog ▸ h.fits)
  have hsafe := Plan.Safe.of_bind (x := x) (f := ExceptT.bindCont f) h.safe
  have hrest : SafeFrom cfg (f a) s₁ := by
    have hend := hsafe.run
    change Plan.Safe _ _ (ExceptT.bindCont f (x.run cfg s).1) (x.run cfg s).2 _ at hend
    rw [hx] at hend
    exact hend
  -- solutions only get lost on the way, so the one at the end is one in the middle
  have hθ : s₁.store.Solves θ := hrest.solves (by rw [hf]; exact h.solves)
  refine ⟨a, s₁, ⟨hx, hsafe.mono ?_, hfits.1, hθ⟩, ⟨hf, hrest, hfits.2, h.solves⟩⟩
  rintro (e | a) s'' h''
  · exact h''
  · have hnext : SafeFrom cfg (f a) s'' := h''
    exact hnext.inv

theorem pure {a b : α} (h : Clean cfg A θ (pure b) s a s') : a = b ∧ s' = s := by
  cases h.run
  exact ⟨rfl, rfl⟩

theorem throw {e : Malformed} {a : α} (h : Clean cfg A θ (throw e) s a s') : False := by
  cases h.run

theorem state {f : Run → Check β} {b : β} (h : Clean cfg A θ (Check.state >>= f) s b s') :
    Clean cfg A θ (f s) s b s' := by
  obtain ⟨a, s₁, h₁, h₂⟩ := h.bind
  cases h₁.run
  exact h₂

theorem config {f : Config → Check β} {b : β} (h : Clean cfg A θ (Check.config >>= f) s b s') :
    Clean cfg A θ (f cfg) s b s' := by
  obtain ⟨a, s₁, h₁, h₂⟩ := h.bind
  cases h₁.run
  exact h₂

theorem reportWith {labels : List Label} {site : Site} {error : TypeError Ty} {a : Unit}
    (h : Clean cfg A θ (reportWith labels site error) s a s') : False := by
  have hr : [({ error, site, labels } : Report Ty)] = [] := h.fits.reports
  simp at hr

theorem report {site : Site} {error : TypeError Ty} {a : Unit}
    (h : Clean cfg A θ (report site error) s a s') : False :=
  reportWith h

theorem recover {site : Site} {error : TypeError Ty} {t : Ty}
    (h : Clean cfg A θ (recover site error) s t s') : False := by
  obtain ⟨_, _, h₁, -⟩ := h.bind
  exact h₁.report

end Clean

end Check

/-- The names in sight, each with the node that declares it. -/
def Run.names (run : Run) : Env :=
  run.scopes.live.map fun table name => (table[name]?).map (·.site.node)

/-- The type that the run finds for a name. -/
def Run.value? (run : Run) (name : String) : Option Ty :=
  match run.scopes.lookup name with
  | some binding => some binding.ty
  | none => (run.registry.constructor? name).map (·.ty)

theorem Check.run_lookupValue (cfg : Config) (name : String) (s : Run) :
    (lookupValue name).run cfg s = (.ok (s.value? name), s) := by
  have hstate : state.run cfg s = (.ok s, s) := rfl
  rw [lookupValue, run_bind, hstate, Run.value?]
  dsimp only
  cases s.scopes.lookup name with
  | some b => rfl
  | none => rfl

/-- Nothing has changed about names and declared types. -/
structure Run.Same (s s' : Run) : Prop where
  scopes : s'.scopes = s.scopes
  registry : s'.registry = s.registry

theorem Run.Same.names {s s' : Run} (h : Run.Same s s') : s'.names = s.names := by
  rw [Run.names, h.scopes, Run.names]

theorem Run.Same.trans {s s₁ s₂ : Run} (h : Run.Same s s₁) (h' : Run.Same s₁ s₂) :
    Run.Same s s₂ :=
  ⟨h'.scopes.trans h.scopes, h'.registry.trans h.registry⟩

/-- Under `θ` the names in sight have the types that the typing says. There are no variables in
declared types. -/
structure Run.Agrees (A : Typing) (θ : TyVar → Ty) (run : Run) : Prop where
  bindings : ∀ table ∈ run.scopes.live, ∀ (name : String) (b : Binding),
    table[name]? = some b → A.symbol b.site.node = some (b.ty.subst θ)
  types : ∀ name d, run.registry.type? name = some d → d.definition.Below 0
  constructors : ∀ name c, run.registry.constructor? name = some c →
    A.symbol c.origin = some (c.ty.subst θ)

namespace Run.Agrees
variable {A : Typing} {θ : TyVar → Ty} {s s' : Run}

theorem same (h : s.Agrees A θ) (hsame : Same s s') : s'.Agrees A θ where
  bindings := hsame.scopes ▸ h.bindings
  types := hsame.registry ▸ h.types
  constructors := hsame.registry ▸ h.constructors

theorem find_names (run : Run) (name : String) :
    run.names.find name = (run.scopes.lookup name).map (·.site.node) := by
  unfold Run.names Env.find Scopes.lookup
  induction run.scopes.live with
  | nil => rfl
  | cons table tables ih =>
    rw [List.map_cons, List.findSome?_cons, List.findSome?_cons]
    cases htable : table[name]? with
    | none => simpa [htable] using ih
    | some b => simp [htable]

/-- What the run finds for a name is what the rules give it. -/
theorem value (h : s.Agrees A θ) {name : String} {t : Ty} (ht : s.value? name = some t) :
    ValueTyped A s.names s.registry name (t.subst θ) := by
  have hfind := find_names s name
  unfold Run.value? at ht
  cases hlookup : s.scopes.lookup name with
  | some b =>
    rw [hlookup] at ht hfind
    obtain rfl := Option.some.inj ht
    obtain ⟨table, htable, hb⟩ := List.exists_of_findSome?_eq_some hlookup
    exact .bound hfind (h.bindings table htable name b hb)
  | none =>
    rw [hlookup] at ht hfind
    obtain ⟨c, hc, rfl⟩ := Option.map_eq_some_iff.1 ht
    exact .constructor hfind hc (h.constructors name c hc)

theorem constructorOf (h : s.Agrees A θ) {adt name : String} {c : Constructor}
    (hc : s.registry.constructorOf? adt name = some c) : c.ty.Below 0 := by
  obtain ⟨cs, hcs, hfind⟩ := Option.bind_eq_some_iff.1 hc
  unfold Registry.constructorsOf? at hcs
  split at hcs
  · next constructors origin htype =>
    obtain rfl := Option.some.inj hcs
    exact h.types adt _ htype c (List.mem_of_find?_eq_some hfind)
  · cases hcs

theorem enter (h : s.Agrees A θ) :
    ({ s with scopes := s.scopes.push.2 } : Run).Agrees A θ ∧
      ({ s with scopes := s.scopes.push.2 } : Run).names = Env.nothing :: s.names := by
  refine ⟨⟨?_, h.types, h.constructors⟩, ?_⟩
  · rw [Scopes.live_push, List.forall_mem_cons]
    exact ⟨fun name b hb => by simp at hb, h.bindings⟩
  · rw [Run.names, Scopes.live_push, List.map_cons]
    refine congrArg (· :: _) (funext fun name => ?_)
    simp [Env.nothing]

theorem leave (h : s.Agrees A θ) {scope : Names} {Γ : Env} (hnames : s.names = scope :: Γ)
    (hΓ : Γ ≠ []) :
    ({ s with scopes := s.scopes.pop } : Run).Agrees A θ ∧
      ({ s with scopes := s.scopes.pop } : Run).names = Γ := by
  have hdepth : 1 < s.scopes.depth := by
    have hlen : s.names.length = s.scopes.depth := by simp [Run.names]
    rw [← hlen, hnames, List.length_cons]
    have := List.length_pos_of_ne_nil hΓ
    omega
  have hlive : s.scopes.pop.live = s.scopes.live.tail := by
    rw [Scopes.live_pop, if_pos hdepth]
  refine ⟨⟨fun table htable => ?_, h.types, h.constructors⟩, ?_⟩
  · exact h.bindings table (List.mem_of_mem_tail (hlive ▸ htable))
  · rw [Run.names, hlive, List.map_tail]
    exact congrArg List.tail hnames

theorem bindName (h : s.Agrees A θ) {name : Ident} {t : Ty}
    (ht : A.symbol name.site.node = some (t.subst θ)) :
    ({ s with scopes := (s.scopes.insert name.name ⟨t, name.site⟩).2 } : Run).Agrees A θ ∧
      ({ s with scopes := (s.scopes.insert name.name ⟨t, name.site⟩).2 } : Run).names =
        s.names.declare name := by
  refine ⟨⟨?_, h.types, h.constructors⟩, ?_⟩
  · rw [Scopes.live_insert, List.forall_mem_cons]
    refine ⟨fun other b hb => ?_, fun table htable =>
      h.bindings table (List.mem_of_mem_tail htable)⟩
    rw [Std.TreeMap.getElem?_insert] at hb
    split at hb
    · obtain rfl := Option.some.inj hb
      exact ht
    · refine h.bindings _ ?_ other b hb
      rw [s.scopes.live_eq]
      exact List.mem_cons_self
  · rw [Run.names, Scopes.live_insert, Run.names, s.scopes.live_eq]
    simp only [List.map_cons, List.tail_cons, Env.declare, List.cons.injEq, and_true]
    funext other
    rw [Std.TreeMap.getElem?_insert]
    by_cases heq : other = name.name
    · subst heq
      simp
    · have hne : compare name.name other ≠ .eq := by
        simpa using fun h => heq h.symm
      rw [if_neg hne, if_neg heq]

end Run.Agrees

namespace Check.Clean
variable {α β : Type} {cfg : Config} {A : Typing} {θ : TyVar → Ty} {s s' : Run}

theorem fresh {t : Ty} (h : Clean cfg A θ Check.fresh s t s') : Run.Same s s' := by
  cases h.run
  exact ⟨rfl, rfl⟩

theorem resolve {t u : Ty} (h : Clean cfg A θ (Check.resolve t) s u s') :
    Run.Same s s' ∧ u.subst θ = t.subst θ := by
  have hθ := h.safe.solves (by rw [h.run]; exact h.solves)
  have hu := (h.inv.acyclic.resolve t).subst_eq θ hθ
  cases h.run
  exact ⟨⟨rfl, rfl⟩, hu⟩

theorem apply {t u : Ty} (h : Clean cfg A θ (Check.apply t) s u s') :
    Run.Same s s' ∧ u.subst θ = t.subst θ := by
  have hθ := h.safe.solves (by rw [h.run]; exact h.solves)
  have hu := h.inv.acyclic.full_subst hθ t
  rw [← (h.inv.acyclic.answers_apply t).1] at hu
  cases h.run
  exact ⟨⟨rfl, rfl⟩, hu⟩

theorem recordType {node : NodeId} {t : Ty} {a : Unit}
    (h : Clean cfg A θ (Check.recordType node t) s a s') :
    Run.Same s s' ∧ A.node node = some (t.subst θ) := by
  have ht := h.fits.nodes (node, t) List.mem_cons_self
  cases h.run
  exact ⟨⟨rfl, rfl⟩, ht⟩

theorem addSymbol {name : Ident} {t : Ty} {kind : SymbolKind} {a : Unit}
    (h : Clean cfg A θ (Check.addSymbol name t kind) s a s') :
    Run.Same s s' ∧ A.symbol name.site.node = some (t.subst θ) := by
  have ht := h.fits.symbols ⟨name.name, t, name.site, kind⟩ List.mem_cons_self
  cases h.run
  exact ⟨⟨rfl, rfl⟩, ht⟩

/-- Without dynamic imports, what was required to be equal is equal. -/
theorem unify (hcfg : cfg.dynamicImports = false) {l r : Ty} {site : Site} {a : Unit}
    (h : Clean cfg A θ (Check.unify l r site) s a s') :
    Run.Same s s' ∧ l.subst θ = r.subst θ := by
  have hrun := h.run
  have hreports := reports_run cfg (Check.unify l r site) s
  rw [h.fits.reports, List.append_nil] at hreports
  rw [run_unify, hcfg] at hrun hreports
  -- every failure of the unification is among the reports, and there are none
  have herrors : (s.store.unify false l r).1 = [] := by
    simpa [Sink.toList] using hreports
  have hθ := h.solves
  cases hrun
  exact ⟨⟨rfl, rfl⟩, ((h.inv.acyclic.solves_unify_iff herrors θ).1 hθ).2⟩

theorem declare {name : Ident} {t : Ty} {kind : SymbolKind} {a : Unit}
    (h : Clean cfg A θ (Check.declare name t kind) s a s') (hs : s.Agrees A θ) :
    s'.Agrees A θ ∧ s'.names = s.names.declare name ∧ s'.registry = s.registry ∧
      A.symbol name.site.node = some (t.subst θ) := by
  obtain ⟨_, s₁, hbind, hsymbol⟩ := Clean.bind h
  obtain ⟨hsame, ht⟩ := hsymbol.addSymbol
  cases hbind.run
  obtain ⟨hagrees, hnames⟩ := hs.bindName ht
  exact ⟨hagrees.same hsame, hsame.names.trans hnames, hsame.registry, ht⟩

/-- A clean run in a scope of its own: from the inside of the scope nothing is left. -/
theorem inScope {body : Check α} {a : α} (h : Clean cfg A θ (Check.inScope body) s a s')
    (hs : s.Agrees A θ) :
    ∃ s₁ s₂, Clean cfg A θ body s₁ a s₂ ∧ s₁.Agrees A θ ∧ s₁.names = Env.nothing :: s.names ∧
      s₁.registry = s.registry ∧ s'.registry = s₂.registry ∧
      ∀ scope, s₂.Agrees A θ → s₂.names = scope :: s.names →
        s'.Agrees A θ ∧ s'.names = s.names := by
  obtain ⟨_, s₁, henter, h⟩ := Clean.bind h
  obtain ⟨b, s₂, hbody, h⟩ := Clean.bind h
  obtain ⟨_, s₃, hleave, h⟩ := Clean.bind h
  obtain ⟨rfl, rfl⟩ := Clean.pure h
  cases henter.run
  cases hleave.run
  refine ⟨_, s₂, hbody, hs.enter.1, hs.enter.2, rfl, rfl, fun scope hagrees hnames => ?_⟩
  refine hagrees.leave hnames ?_
  rw [Run.names, s.scopes.live_eq]
  simp

end Check.Clean

end Monotype
