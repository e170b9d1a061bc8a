import Monotype.Proofs.Check.Sites
import Monotype.Proofs.Typing.Core

/-! Inference finds every typing of a core program. The run is followed with the typing at hand:
each variable that it issues is given the type that the rules ask for in its place, so whatever the
run requires to be equal is equal, and there is nothing to complain about. -/
namespace Monotype

/-- Imports are not trusted with every type, and a name may be assigned again. -/
structure Config.Plain (cfg : Config) : Prop where
  imports : cfg.dynamicImports = false
  assignments : cfg.strictRedeclaration = false

/-- `s'` comes after `s`, and `θ'` is `θ` on the variables that there are in `s`. -/
structure Run.Later (s : Run) (θ : TyVar → Ty) (s' : Run) (θ' : TyVar → Ty) : Prop where
  grows : s.store.size ≤ s'.store.size
  keeps : ∀ v < s.store.size, θ' v = θ v

theorem Run.Later.refl (s : Run) (θ : TyVar → Ty) : s.Later θ s θ := ⟨Nat.le_refl _, fun _ _ => rfl⟩

theorem Run.Later.trans {s s₁ s₂ : Run} {θ θ₁ θ₂ : TyVar → Ty} (h : s.Later θ s₁ θ₁)
    (h' : s₁.Later θ₁ s₂ θ₂) : s.Later θ s₂ θ₂ where
  grows := h.grows.trans h'.grows
  keeps v hv := (h'.keeps v (Nat.lt_of_lt_of_le hv h.grows)).trans (h.keeps v hv)

/-- Under `θ` the type `u` stands for `t`. -/
structure Run.Gives (s : Run) (θ : TyVar → Ty) (u t : Ty) : Prop where
  below : u.Below s.store.size
  eq : u.subst θ = t

theorem Run.Gives.later {s s' : Run} {θ θ' : TyVar → Ty} {u t : Ty} (h : s.Gives θ u t)
    (hl : s.Later θ s' θ') : s'.Gives θ' u t :=
  ⟨h.below.mono hl.grows, (h.below.subst_congr hl.keeps).trans h.eq⟩

/-- The same for a list of types. -/
structure Run.GivesAll (s : Run) (θ : TyVar → Ty) (us ts : List Ty) : Prop where
  below : ∀ u ∈ us, u.Below s.store.size
  eq : us.map (Ty.subst θ) = ts

/-- The same for named types. -/
structure Run.GivesFields (s : Run) (θ : TyVar → Ty) (us ts : List (String × Ty)) : Prop where
  below : ∀ field ∈ us, field.2.Below s.store.size
  eq : (us.map fun field => (field.1, field.2.subst θ)) = ts

section
variable {s s' : Run} {θ θ' : TyVar → Ty} {u t : Ty} {us ts : List Ty}
  {fields fields' : List (String × Ty)}

theorem Run.GivesAll.cons (h : s.Gives θ u t) (hs : s.GivesAll θ us ts) :
    s.GivesAll θ (u :: us) (t :: ts) where
  below := List.forall_mem_cons.2 ⟨h.below, hs.below⟩
  eq := by rw [List.map_cons, h.eq, hs.eq]

theorem Run.GivesAll.later (h : s.GivesAll θ us ts) (hl : s.Later θ s' θ') :
    s'.GivesAll θ' us ts where
  below u hu := (h.below u hu).mono hl.grows
  eq := by
    rw [← h.eq]
    exact List.map_congr_left fun u hu => (h.below u hu).subst_congr hl.keeps

theorem Run.GivesFields.cons {name : String} (h : s.Gives θ u t)
    (hs : s.GivesFields θ fields fields') :
    s.GivesFields θ ((name, u) :: fields) ((name, t) :: fields') where
  below := List.forall_mem_cons.2 ⟨h.below, hs.below⟩
  eq := by rw [List.map_cons, h.eq, hs.eq]

theorem Run.Gives.fn (hs : s.GivesAll θ us ts) (h : s.Gives θ u t) :
    s.Gives θ (.fn us u) (.fn ts t) :=
  ⟨Ty.below_fn.2 ⟨hs.below, h.below⟩, by rw [Ty.subst_fn, hs.eq, h.eq]⟩

theorem Run.Gives.tuple (hs : s.GivesAll θ us ts) : s.Gives θ (.tuple us) (.tuple ts) :=
  ⟨Ty.below_tuple.2 hs.below, by rw [Ty.subst_tuple, hs.eq]⟩

theorem Run.Gives.record (hs : s.GivesFields θ fields fields') :
    s.Gives θ (.record (Fields.ofList fields)) (.record (Fields.ofList fields')) :=
  ⟨Check.record_below hs.below, by rw [Ty.subst_ofList, hs.eq]⟩

theorem Run.Gives.prim {p : Prim} : s.Gives θ (.prim p) (.prim p) := ⟨Ty.below_prim, rfl⟩

end

/-- Under `θ` the run has found nothing that the typing does not say. The names `Γ` are in sight,
and the types in `R` are declared. -/
structure Run.Follows (A : Typing) (Γ : Env) (R : Registry) (s : Run) (θ : TyVar → Ty) : Prop where
  inv : s.Inv
  solves : s.store.Solves θ
  agrees : s.Agrees A θ
  names : s.names = Γ
  registry : s.registry = R

namespace Check
variable {α β : Type} {cfg : Config} {A : Typing} {s : Run} {θ : TyVar → Ty}

/-- From `s` on `x` ends without complaint, and `θ` can be continued to the variables that it issues
such that all that it notes and lists is what the typing says, and `post` holds. -/
def Leads (cfg : Config) (A : Typing) (x : Check α) (s : Run) (θ : TyVar → Ty)
    (post : α → Run → (TyVar → Ty) → Prop) : Prop :=
  ∃ a s' θ', x.run cfg s = (.ok a, s') ∧ s.Later θ s' θ' ∧
    (∀ φ, (∀ v < s'.store.size, φ v = θ' v) → Fits A φ (log cfg x s)) ∧ post a s' θ'

theorem fits_silent {acts : List Act} (hreports : reported acts = []) (hnotes : noted acts = [])
    (hsymbols : listed acts = []) : Fits A θ acts :=
  ⟨hreports, by simp [hnotes], by simp [hsymbols]⟩

theorem Leads.pure {a : α} {post : α → Run → (TyVar → Ty) → Prop} (h : post a s θ) :
    Leads cfg A (pure a) s θ post :=
  ⟨a, s, θ, rfl, .refl s θ, fun _ _ => fits_silent rfl rfl rfl, h⟩

theorem Leads.bind {x : Check α} {f : α → Check β} {mid : α → Run → (TyVar → Ty) → Prop}
    {post : β → Run → (TyVar → Ty) → Prop} (hx : Leads cfg A x s θ mid)
    (hf : ∀ a s₁ θ₁, s.Later θ s₁ θ₁ → mid a s₁ θ₁ → Leads cfg A (f a) s₁ θ₁ post) :
    Leads cfg A (x >>= f) s θ post := by
  obtain ⟨a, s₁, θ₁, hrun, hlater, hfits, hmid⟩ := hx
  obtain ⟨b, s₂, θ₂, hrun', hlater', hfits', hpost⟩ := hf a s₁ θ₁ hlater hmid
  refine ⟨b, s₂, θ₂, ?_, hlater.trans hlater', fun φ hφ => ?_, hpost⟩
  · rw [run_bind, hrun]
    exact hrun'
  · rw [log_bind, hrun]
    refine fits_append.2 ⟨hfits φ fun v hv => ?_, hfits' φ hφ⟩
    exact (hφ v (Nat.lt_of_lt_of_le hv hlater'.grows)).trans (hlater'.keeps v hv)

theorem Leads.mono {x : Check α} {mid post : α → Run → (TyVar → Ty) → Prop}
    (h : Leads cfg A x s θ mid) (hpost : ∀ a s' θ', mid a s' θ' → post a s' θ') :
    Leads cfg A x s θ post := by
  obtain ⟨a, s', θ', hrun, hlater, hfits, hmid⟩ := h
  exact ⟨a, s', θ', hrun, hlater, hfits, hpost a s' θ' hmid⟩

/-- An action that issues no variable. -/
theorem Leads.act {a : Act} {post : a.Answer → Run → (TyVar → Ty) → Prop}
    (hsize : (a.perform cfg s).2.store.size = s.store.size)
    (hfits : ∀ φ, (∀ v < s.store.size, φ v = θ v) → Fits A φ [a])
    (hpost : post (a.perform cfg s).1 (a.perform cfg s).2 θ) : Leads cfg A (act a) s θ post :=
  ⟨_, _, θ, rfl, ⟨hsize.ge, fun _ _ => rfl⟩, fun φ hφ => hfits φ (hsize ▸ hφ), hpost⟩

/-- An action that asks and changes nothing. -/
theorem Leads.ask {a : Act} {f : a.Answer → Check β} {post : β → Run → (TyVar → Ty) → Prop}
    (hsame : (a.perform cfg s).2 = s) (hfits : ∀ φ, Fits A φ [a])
    (h : Leads cfg A (f (a.perform cfg s).1) s θ post) :
    Leads cfg A (Check.act a >>= f) s θ post := by
  have hask : Leads cfg A (Check.act a) s θ fun r s' θ' =>
      r = (a.perform cfg s).1 ∧ s' = s ∧ θ' = θ :=
    .act (by rw [hsame]) (fun φ _ => hfits φ) ⟨rfl, hsame, rfl⟩
  refine hask.bind fun r s₁ θ₁ _ hanswer => ?_
  obtain ⟨rfl, rfl, rfl⟩ := hanswer
  exact h

theorem Leads.state {f : Run → Check β} {post : β → Run → (TyVar → Ty) → Prop}
    (h : Leads cfg A (f s) s θ post) : Leads cfg A (Check.state >>= f) s θ post :=
  .ask rfl (fun _ => fits_silent rfl rfl rfl) h

theorem Leads.config {f : Config → Check β} {post : β → Run → (TyVar → Ty) → Prop}
    (h : Leads cfg A (f cfg) s θ post) : Leads cfg A (Check.config >>= f) s θ post :=
  .ask rfl (fun _ => fits_silent rfl rfl rfl) h

/-- An expression of type `t` has been gone through: its type is found, and the names in sight are
the same as before. -/
def Found (A : Typing) (Γ : Env) (R : Registry) (t u : Ty) (s : Run) (θ : TyVar → Ty) : Prop :=
  s.Follows A Γ R θ ∧ s.Gives θ u t

end Check

namespace Run.Follows
open Check
variable {cfg : Config} {A : Typing} {Γ : Env} {R : Registry} {s : Run} {θ : TyVar → Ty}

/-- What variables that have not been issued are given does not matter. -/
theorem congr (h : s.Follows A Γ R θ) {φ : TyVar → Ty} (hφ : ∀ v < s.store.size, φ v = θ v) :
    s.Follows A Γ R φ where
  inv := h.inv
  solves v t ht := by
    rw [hφ v (Store.lt_size_of_lookup ht), (h.inv.slots.below v t ht).subst_congr hφ]
    exact h.solves v t ht
  agrees := {
    bindings := fun table htable name b hb => by
      rw [(h.inv.all.live htable hb).subst_congr hφ]
      exact h.agrees.bindings table htable name b hb
    types := h.agrees.types
    constructors := fun name c hc => by
      rw [(h.inv.constructors name c hc).subst_congr hφ]
      exact h.agrees.constructors name c hc }
  names := h.names
  registry := h.registry

theorem ne_nil (h : s.Follows A Γ R θ) : Γ ≠ [] := by
  rw [← h.names, Run.names, s.scopes.live_eq]
  simp

/-- A new variable can stand for any type. -/
theorem fresh (h : s.Follows A Γ R θ) (t : Ty) : Leads cfg A fresh s θ (Found A Γ R t) := by
  -- the next number is the first one of which nothing has been said
  have hold : ∀ v < s.store.size, Function.update θ s.store.size t v = θ v :=
    fun v hv => Function.update_of_ne (Nat.ne_of_lt hv) t θ
  have hfollows := h.congr hold
  have hkeeps : Keeps cfg s.store.size Check.fresh Ty.Below := .fresh
  have hend := (hkeeps s h.inv (Nat.le_refl _)).run
  refine ⟨.var s.store.size, _, Function.update θ s.store.size t, rfl, ⟨hend.2.1, hold⟩,
    fun φ _ => fits_silent rfl rfl rfl, ?_, hend.2.2 _ rfl,
    by rw [Ty.subst_var, Function.update_self]⟩
  refine ⟨hend.1, fun v u hu => hfollows.solves v u ?_, hfollows.agrees.same ⟨rfl, rfl⟩, h.names,
    h.registry⟩
  exact (Store.lookup_fresh s.store v).symm.trans hu

theorem recordType (h : s.Follows A Γ R θ) {u t : Ty} (hu : s.Gives θ u t) {node : NodeId}
    (ht : A.node node = some t) :
    Leads cfg A (recordType node u) s θ fun _ => Follows A Γ R := by
  refine .act rfl (fun φ hφ => ⟨rfl, ?_, by simp [listed]⟩) ?_
  · rintro _ (_ | ⟨_, ⟨⟩⟩)
    rw [ht, hu.below.subst_congr hφ, hu.eq]
  · exact ⟨h.inv.note node hu.below, h.solves, h.agrees.same ⟨rfl, rfl⟩, h.names, h.registry⟩

theorem declare (h : s.Follows A Γ R θ) {u t : Ty} (hu : s.Gives θ u t) {name : Ident}
    (ht : A.symbol name.site.node = some t) (kind : SymbolKind) :
    Leads cfg A (declare name u kind) s θ fun _ => Follows A (Γ.declare name) R := by
  have hbind : Leads cfg A (bindLocal name u) s θ fun _ s' θ' =>
      s'.Follows A (Γ.declare name) R θ' ∧ s'.Gives θ' u t := by
    obtain ⟨hagrees, hnames⟩ := h.agrees.bindName (t := u) (by rw [ht, hu.eq])
    refine .act rfl (fun φ _ => fits_silent rfl rfl rfl) ⟨?_, hu.below, hu.eq⟩
    exact ⟨h.inv.bindName name.name hu.below, h.solves, hagrees, h.names ▸ hnames, h.registry⟩
  refine hbind.bind fun _ s₁ θ₁ _ ⟨h₁, hu₁⟩ => .act rfl (fun φ hφ => ⟨rfl, by simp [noted], ?_⟩) ?_
  · rintro _ (_ | ⟨_, ⟨⟩⟩)
    rw [ht, hu₁.below.subst_congr hφ, hu₁.eq]
  · exact ⟨h₁.inv.symbol hu₁.below, h₁.solves, h₁.agrees.same ⟨rfl, rfl⟩, h₁.names, h₁.registry⟩

/-- What stands for the same type can be made equal, and `θ` need not change for that. -/
theorem unify (hcfg : cfg.dynamicImports = false) (h : s.Follows A Γ R θ) {l r t : Ty}
    (hl : s.Gives θ l t) (hr : s.Gives θ r t) (site : Site) :
    Leads cfg A (unify l r site) s θ fun _ => Follows A Γ R := by
  have heq : l.subst θ = r.subst θ := hl.eq.trans hr.eq.symm
  -- `θ` is a solution that makes both sides equal, so unification does not fail
  have hnone := (h.inv.acyclic.unify_eq_nil_iff l r).2 ⟨θ, h.solves, heq⟩
  have hsolves := (h.inv.acyclic.solves_unify_iff hnone θ).2 ⟨h.solves, heq⟩
  have hrun := run_unify cfg l r site s
  rw [hcfg, hnone] at hrun
  have hkeeps : Runs cfg s.store.size (Check.unify l r site) := .unify site hl.below hr.below
  have hend := (hkeeps s h.inv (Nat.le_refl _)).run
  change ((Check.unify l r site).run cfg s).2.Inv ∧
    s.store.size ≤ ((Check.unify l r site).run cfg s).2.store.size ∧ _ at hend
  have hreports := reports_run cfg (Check.unify l r site) s
  rw [hrun] at hend hreports
  have hwrites : Writes cfg (Check.unify l r site) {} := .unify l r site
  refine ⟨(), _, θ, hrun, ⟨hend.2.1, fun _ _ => rfl⟩, fun φ _ => fits_silent ?_ ?_ ?_, hend.1,
    hsolves, h.agrees.same ⟨rfl, rfl⟩, h.names, h.registry⟩
  · simpa [Sink.toList] using hreports
  · exact List.map_eq_nil_iff.1 (List.sublist_nil.1 (hwrites s).nodes)
  · exact List.map_eq_nil_iff.1 (List.sublist_nil.1 (hwrites s).names)

/-- What is found for a name is what the rules give it. -/
theorem value (h : s.Follows A Γ R θ) {name : String} {t : Ty} (ht : ValueTyped A Γ R name t) :
    ∃ u, s.value? name = some u ∧ s.Gives θ u t := by
  have hfind := Agrees.find_names s name
  rw [h.names] at hfind
  unfold Run.value?
  cases ht with
  | bound hnode ht =>
    rw [hnode] at hfind
    obtain ⟨b, hb, rfl⟩ := Option.map_eq_some_iff.1 hfind.symm
    obtain ⟨table, htable, hfound⟩ := List.exists_of_findSome?_eq_some hb
    rw [h.agrees.bindings table htable name b hfound] at ht
    rw [hb]
    exact ⟨b.ty, rfl, h.inv.all.live htable hfound, Option.some.inj ht⟩
  | @constructor c hfree hc ht =>
    rw [hfree] at hfind
    rw [Option.map_eq_none_iff.1 hfind.symm, h.registry, hc]
    rw [← h.registry] at hc
    rw [h.agrees.constructors name c hc] at ht
    exact ⟨c.ty, rfl, h.inv.constructors name c hc, Option.some.inj ht⟩

theorem inScope (h : s.Follows A Γ R θ) {R' : Registry} {body : Check Ty} {t : Ty}
    (hbody : ∀ s₁ θ₁, s₁.Follows A (Env.nothing :: Γ) R θ₁ →
      Leads cfg A body s₁ θ₁ fun u s₂ θ₂ => ∃ scope, Found A (scope :: Γ) R' t u s₂ θ₂) :
    Leads cfg A (inScope body) s θ (Found A Γ R' t) := by
  have henter : Leads cfg A (act .enter) s θ fun _ => Follows A (Env.nothing :: Γ) R := by
    obtain ⟨hagrees, hnames⟩ := h.agrees.enter
    refine .act rfl (fun φ _ => fits_silent rfl rfl rfl) ?_
    exact ⟨h.inv.enter, h.solves, hagrees, h.names ▸ hnames, h.registry⟩
  refine henter.bind fun _ s₁ θ₁ _ h₁ => (hbody s₁ θ₁ h₁).bind fun u s₂ θ₂ _ h₂ => ?_
  obtain ⟨scope, h₂, hu⟩ := h₂
  have hleave : Leads cfg A (act .leave) s₂ θ₂ fun _ => Found A Γ R' t u := by
    obtain ⟨hagrees, hnames⟩ := h₂.agrees.leave h₂.names h.ne_nil
    refine .act rfl (fun φ _ => fits_silent rfl rfl rfl) ⟨?_, hu.below, hu.eq⟩
    exact ⟨h₂.inv.leave, h₂.solves, hagrees, hnames, h₂.registry⟩
  exact hleave.bind fun _ s₃ θ₃ _ h₃ => .pure h₃

end Run.Follows

namespace Check
variable {cfg : Config} {A : Typing} {Γ : Env} {R : Registry} {s : Run} {θ : TyVar → Ty}

theorem inferIdent_complete {name : Ident} {t : Ty} (h : ValueTyped A Γ R name.name t)
    (hs : s.Follows A Γ R θ) : Leads cfg A (inferIdent name) s θ (Found A Γ R t) := by
  obtain ⟨u, hvalue, hu⟩ := hs.value h
  have hlookup : Leads cfg A (lookupValue name.name) s θ fun value s' θ' =>
      value = some u ∧ Found A Γ R t u s' θ' := by
    refine .state ?_
    unfold Run.value? at hvalue
    cases hb : s.scopes.lookup name.name with
    | some b =>
      rw [hb] at hvalue
      exact .pure ⟨hvalue, hs, hu⟩
    | none =>
      rw [hb] at hvalue
      exact .pure ⟨hvalue, hs, hu⟩
  refine hlookup.bind fun value s₁ θ₁ _ ⟨hv, hfound⟩ => ?_
  subst hv
  exact .pure hfound

/-- Both operands are compared with one ground type. -/
theorem operands_complete (hcfg : cfg.dynamicImports = false) (hs : s.Follows A Γ R θ) {p q : Prim}
    {left right : Ty} (hl : s.Gives θ left (.prim p)) (hr : s.Gives θ right (.prim p))
    (site rhs : Site) :
    Leads cfg A (do
      unify (.prim p) left site
      unify (.prim p) right rhs
      return .prim q) s θ (Found A Γ R (.prim q)) := by
  refine (hs.unify hcfg .prim hl site).bind fun _ s₁ θ₁ h₁ hs₁ => ?_
  refine (hs₁.unify hcfg .prim (hr.later h₁) rhs).bind fun _ s₂ θ₂ _ hs₂ => ?_
  exact .pure ⟨hs₂, .prim⟩

theorem inferOperation_complete (hcfg : cfg.dynamicImports = false) (hs : s.Follows A Γ R θ)
    {op : String} {l r t left right : Ty} (h : OperatorTyped op l r t) (hl : s.Gives θ left l)
    (hr : s.Gives θ right r) (site rhs : Site) :
    Leads cfg A (inferOperation site rhs op left right) s θ (Found A Γ R t) := by
  unfold inferOperation
  cases h with
  | arithmetic hop =>
    rw [hop]
    exact operands_complete hcfg hs hl hr site rhs
  | comparison hop =>
    rw [hop]
    exact operands_complete hcfg hs hl hr site rhs
  | equality hop =>
    rw [hop]
    exact (hs.unify hcfg hl hr rhs).bind fun _ s₁ θ₁ _ hs₁ => .pure ⟨hs₁, .prim⟩
  | logical hop =>
    rw [hop]
    exact operands_complete hcfg hs hl hr site rhs

theorem declareParams_complete : ∀ {params : List Ident} {ts : List Ty} {Γ : Env} {s : Run}
    {θ : TyVar → Ty}, params.map (fun param => A.symbol param.site.node) = ts.map some →
    s.Follows A Γ R θ → Leads cfg A (declareParams params) s θ fun us s' θ' =>
      s'.Follows A (params.foldl Env.declare Γ) R θ' ∧ s'.GivesAll θ' us ts
  | [], [], _, _, _, _, hs => .pure ⟨hs, by simp, rfl⟩
  | param :: params, t :: ts, Γ, s, θ, h, hs => by
    obtain ⟨ht, hts⟩ := List.cons.inj h
    refine (hs.fresh t).bind fun u s₁ θ₁ _ ⟨hs₁, hu⟩ => ?_
    refine (hs₁.declare hu ht .param).bind fun _ s₂ θ₂ h₂ hs₂ => ?_
    refine (declareParams_complete hts hs₂).bind fun us s₃ θ₃ h₃ ⟨hs₃, hus⟩ => ?_
    exact .pure ⟨hs₃, .cons (hu.later (h₂.trans h₃)) hus⟩

theorem declareAssigned_complete (hstrict : cfg.strictRedeclaration = false) {name : Ident}
    {u t : Ty} (hs : s.Follows A Γ R θ) (hu : s.Gives θ u t)
    (ht : A.symbol name.site.node = some t) :
    Leads cfg A (declareAssigned name u) s θ fun _ => Run.Follows A (Γ.declare name) R := by
  have hhere : Leads cfg A (declaredHere name.name) s θ fun _ => Found A Γ R t u :=
    .state (.pure ⟨hs, hu⟩)
  refine .config (hhere.bind fun here s₁ θ₁ _ ⟨hs₁, hu₁⟩ => ?_)
  rw [hstrict, Bool.false_and]
  exact hs₁.declare hu₁ ht .var

/-! ## The walk -/

mutual
theorem inferExpr_complete (hcfg : cfg.Plain) :
    ∀ {e : Expr} {Γ R R' t} {s : Run} {θ}, e.isCore = true → ExprTyped cfg A Γ R e t R' →
    s.Follows A Γ R θ → Leads cfg A (inferExpr e) s θ (Found A Γ R' t)
  | ⟨site, primary, tails⟩, _, _, _, _, _, _, hcore, h, hs => by
    rw [Expr.isCore, Bool.and_eq_true] at hcore
    cases h with
    | intro hprimary ht htails hu =>
      refine (inferPrimary_complete hcfg hcore.1 hprimary hs).bind fun t s₁ θ₁ _ ⟨hs₁, ht₁⟩ => ?_
      refine (hs₁.recordType ht₁ ht).bind fun _ s₂ θ₂ h₂ hs₂ => ?_
      refine (inferTails_complete hcfg hcore.2 htails hs₂ (ht₁.later h₂)).bind
        fun u s₃ θ₃ _ ⟨hs₃, hu₃⟩ => ?_
      refine (hs₃.recordType hu₃ hu).bind fun _ s₄ θ₄ h₄ hs₄ => ?_
      exact .pure ⟨hs₄, hu₃.later h₄⟩

theorem inferExprs_complete (hcfg : cfg.Plain) :
    ∀ {es : List Expr} {Γ R R' ts} {s : Run} {θ}, Expr.isCoreAll es = true →
    ExprsTyped cfg A Γ R es ts R' → s.Follows A Γ R θ →
    Leads cfg A (inferExprs es) s θ fun us s' θ' => s'.Follows A Γ R' θ' ∧ s'.GivesAll θ' us ts
  | [], _, _, _, _, _, _, _, h, hs => by
    cases h
    exact .pure ⟨hs, by simp, rfl⟩
  | e :: es, _, _, _, _, _, _, hcore, h, hs => by
    rw [Expr.isCoreAll, Bool.and_eq_true] at hcore
    cases h with
    | cons he hes =>
      refine (inferExpr_complete hcfg hcore.1 he hs).bind fun u s₁ θ₁ _ ⟨hs₁, hu⟩ => ?_
      refine (inferExprs_complete hcfg hcore.2 hes hs₁).bind fun us s₂ θ₂ h₂ ⟨hs₂, hus⟩ => ?_
      exact .pure ⟨hs₂, .cons (hu.later h₂) hus⟩

theorem inferPrimary_complete (hcfg : cfg.Plain) :
    ∀ {p : Primary} {Γ R R' t} {s : Run} {θ}, p.isCore = true → PrimaryTyped cfg A Γ R p t R' →
    s.Follows A Γ R θ → Leads cfg A (inferPrimary p) s θ (Found A Γ R' t)
  | .ident _ name, _, _, _, _, _, _, _, h, hs => by
    cases h with
    | ident hvalue => exact inferIdent_complete hvalue hs
  | .literal _ l, _, _, _, _, _, _, _, h, hs => by
    cases h
    exact .pure ⟨hs, literal_below l, literal_subst l _⟩
  | .paren _ inner, _, _, _, _, _, _, hcore, h, hs => by
    cases h with
    | paren hinner => exact inferExpr_complete hcfg hcore hinner hs
  | .block _ body, _, _, _, _, _, _, hcore, h, hs => by
    cases h with
    | block hbody => exact inferBlock_complete hcfg hcore hbody hs
  | .record _ entries, _, _, _, _, _, _, hcore, h, hs => by
    cases h with
    | record hentries =>
      refine (inferEntries_complete hcfg hcore hentries hs).bind fun us s₁ θ₁ _ ⟨hs₁, hus⟩ => ?_
      exact .pure ⟨hs₁, .record hus⟩
  | .array _ items, _, _, _, _, _, _, hcore, h, hs => by
    cases h with
    | array hitems =>
      refine (inferExprs_complete hcfg hcore hitems hs).bind fun us s₁ θ₁ _ ⟨hs₁, hus⟩ => ?_
      exact .pure ⟨hs₁, .tuple hus⟩
  | .function _ params body, Γ, _, _, _, _, _, hcore, h, hs => by
    cases h with
    | function hparams hbody =>
      refine hs.inScope fun s₁ θ₁ hs₁ => ?_
      refine (declareParams_complete hparams hs₁).bind fun us s₂ θ₂ _ ⟨hs₂, hus⟩ => ?_
      refine (inferExpr_complete hcfg hcore hbody hs₂).bind fun u s₃ θ₃ h₃ ⟨hs₃, hu⟩ => ?_
      obtain ⟨scope, hscope⟩ := Env.declare_tail Env.nothing Γ params
      rw [hscope] at hs₃
      exact .pure ⟨scope, hs₃, .fn (hus.later h₃) hu⟩
  | .ifChain _ branches otherwise, _, _, _, t, _, _, hcore, h, hs => by
    rw [Primary.isCore, Bool.and_eq_true, Bool.and_eq_true, Bool.not_eq_true'] at hcore
    obtain ⟨⟨hne, hcore₁⟩, hcore₂⟩ := hcore
    cases h with
    | ifChain _ hbranches hotherwise =>
      simp only [inferPrimary, hne]
      refine (hs.fresh t).bind fun u s₁ θ₁ _ ⟨hs₁, hu⟩ => ?_
      refine (inferBranches_complete hcfg hcore₁ hbranches hs₁ hu).bind fun _ s₂ θ₂ h₂ hs₂ => ?_
      refine (inferOtherwise_complete hcfg hcore₂ hotherwise hs₂ (hu.later h₂)).bind
        fun _ s₃ θ₃ h₃ hs₃ => ?_
      exact .pure ⟨hs₃, hu.later (h₂.trans h₃)⟩

theorem inferBlock_complete (hcfg : cfg.Plain) :
    ∀ {b : Block} {Γ R R' t} {s : Run} {θ}, b.isCore = true → BlockTyped cfg A Γ R b t R' →
    s.Follows A Γ R θ → Leads cfg A (inferBlock b) s θ (Found A Γ R' t)
  | ⟨_, statements, none⟩, _, _, _, t, _, _, hcore, h, hs => by
    rw [Block.isCore, Bool.and_eq_true] at hcore
    cases h with
    | noResult hstatements =>
      refine hs.inScope fun s₁ θ₁ hs₁ => ?_
      refine (checkStmts_complete hcfg hcore.1 hstatements hs₁).bind fun _ s₂ θ₂ _ hs₂ => ?_
      obtain ⟨scope, rfl⟩ := hstatements.tail
      exact (hs₂.fresh t).mono fun u s₃ θ₃ hu => ⟨scope, hu⟩
  | ⟨_, statements, some e⟩, _, _, _, _, _, _, hcore, h, hs => by
    rw [Block.isCore, Bool.and_eq_true] at hcore
    cases h with
    | result hstatements he =>
      refine hs.inScope fun s₁ θ₁ hs₁ => ?_
      refine (checkStmts_complete hcfg hcore.1 hstatements hs₁).bind fun _ s₂ θ₂ _ hs₂ => ?_
      obtain ⟨scope, rfl⟩ := hstatements.tail
      exact (inferExpr_complete hcfg hcore.2 he hs₂).mono fun u s₃ θ₃ hu => ⟨scope, hu⟩

theorem inferEntries_complete (hcfg : cfg.Plain) :
    ∀ {entries : List Entry} {Γ R R' ts} {s : Run} {θ}, Entry.isCoreAll entries = true →
    EntriesTyped cfg A Γ R entries ts R' → s.Follows A Γ R θ →
    Leads cfg A (inferEntries entries) s θ fun us s' θ' =>
      s'.Follows A Γ R' θ' ∧ s'.GivesFields θ' us ts
  | [], _, _, _, _, _, _, _, h, hs => by
    cases h
    exact .pure ⟨hs, by simp, rfl⟩
  | ⟨name, value⟩ :: entries, _, _, _, _, _, _, hcore, h, hs => by
    rw [Entry.isCoreAll, Bool.and_eq_true] at hcore
    cases h with
    | cons hvalue hentries =>
      refine (inferExpr_complete hcfg hcore.1 hvalue hs).bind fun u s₁ θ₁ _ ⟨hs₁, hu⟩ => ?_
      refine (inferEntries_complete hcfg hcore.2 hentries hs₁).bind fun us s₂ θ₂ h₂ ⟨hs₂, hus⟩ => ?_
      exact .pure ⟨hs₂, .cons (hu.later h₂) hus⟩

theorem inferBranches_complete (hcfg : cfg.Plain) :
    ∀ {branches : List Branch} {Γ R R' result t} {s : Run} {θ}, Branch.isCoreAll branches = true →
    BranchesTyped cfg A Γ R t branches R' → s.Follows A Γ R θ → s.Gives θ result t →
    Leads cfg A (inferBranches result branches) s θ fun _ => Run.Follows A Γ R'
  | [], _, _, _, _, _, _, _, _, h, hs, _ => by
    cases h
    exact .pure hs
  | ⟨_, condition, body⟩ :: branches, _, _, _, _, _, _, _, hcore, h, hs, hresult => by
    rw [Branch.isCoreAll, Bool.and_eq_true, Bool.and_eq_true] at hcore
    obtain ⟨⟨hcore₁, hcore₂⟩, hcore₃⟩ := hcore
    cases h with
    | cons hcondition hbody hbranches =>
      refine (inferExpr_complete hcfg hcore₁ hcondition hs).bind fun u s₁ θ₁ h₁ ⟨hs₁, hu⟩ => ?_
      refine (hs₁.unify hcfg.imports .prim hu condition.site).bind fun _ s₂ θ₂ h₂ hs₂ => ?_
      refine (inferExpr_complete hcfg hcore₂ hbody hs₂).bind fun v s₃ θ₃ h₃ ⟨hs₃, hv⟩ => ?_
      have hresult₃ := hresult.later (h₁.trans (h₂.trans h₃))
      refine (hs₃.unify hcfg.imports hresult₃ hv body.site).bind fun _ s₄ θ₄ h₄ hs₄ => ?_
      exact inferBranches_complete hcfg hcore₃ hbranches hs₄ (hresult₃.later h₄)

theorem inferOtherwise_complete (hcfg : cfg.Plain) :
    ∀ {otherwise : Option Expr} {Γ R R' result t} {s : Run} {θ},
    Expr.isCoreOption otherwise = true → OtherwiseTyped cfg A Γ R t otherwise R' →
    s.Follows A Γ R θ → s.Gives θ result t →
    Leads cfg A (inferOtherwise result otherwise) s θ fun _ => Run.Follows A Γ R'
  | none, _, _, _, _, _, _, _, _, h, hs, _ => by
    cases h
    exact .pure hs
  | some body, _, _, _, _, _, _, _, hcore, h, hs, hresult => by
    cases h with
    | some hbody =>
      refine (inferExpr_complete hcfg hcore hbody hs).bind fun u s₁ θ₁ h₁ ⟨hs₁, hu⟩ => ?_
      exact hs₁.unify hcfg.imports (hresult.later h₁) hu body.site

theorem inferTails_complete (hcfg : cfg.Plain) :
    ∀ {tails : List Tail} {Γ R R' current t u} {s : Run} {θ}, Tail.isCoreAll tails = true →
    TailsTyped cfg A Γ R t tails u R' → s.Follows A Γ R θ → s.Gives θ current t →
    Leads cfg A (inferTails current tails) s θ (Found A Γ R' u)
  | [], _, _, _, _, _, _, _, _, _, h, hs, hcurrent => by
    cases h
    exact .pure ⟨hs, hcurrent⟩
  | tail :: tails, _, _, _, _, _, _, _, _, hcore, h, hs, hcurrent => by
    rw [Tail.isCoreAll, Bool.and_eq_true] at hcore
    cases h with
    | cons htail hu htails =>
      refine (inferTail_complete hcfg hcore.1 htail hs hcurrent).bind fun v s₁ θ₁ _ ⟨hs₁, hv⟩ => ?_
      refine (hs₁.recordType hv hu).bind fun _ s₂ θ₂ h₂ hs₂ => ?_
      exact inferTails_complete hcfg hcore.2 htails hs₂ (hv.later h₂)

theorem inferTail_complete (hcfg : cfg.Plain) :
    ∀ {tail : Tail} {Γ R R' current t u} {s : Run} {θ}, tail.isCore = true →
    TailTyped cfg A Γ R t tail u R' → s.Follows A Γ R θ → s.Gives θ current t →
    Leads cfg A (inferTail current tail) s θ (Found A Γ R' u)
  | .call site args, _, _, _, _, _, u, _, _, hcore, h, hs, hcurrent => by
    cases h with
    | call hargs =>
      refine (inferExprs_complete hcfg hcore hargs hs).bind fun vs s₁ θ₁ h₁ ⟨hs₁, hvs⟩ => ?_
      refine (hs₁.fresh u).bind fun v s₂ θ₂ h₂ ⟨hs₂, hv⟩ => ?_
      -- in the typing a function is called, so the new variable can stand for its result
      have hcurrent₂ := hcurrent.later (h₁.trans h₂)
      refine (hs₂.unify hcfg.imports hcurrent₂ (.fn (hvs.later h₂) hv) site).bind
        fun _ s₃ θ₃ h₃ hs₃ => ?_
      exact .pure ⟨hs₃, hv.later h₃⟩
  | .operation site op rhs, _, _, _, _, _, _, _, _, hcore, h, hs, hcurrent => by
    cases h with
    | operation hrhs hop =>
      refine (inferExpr_complete hcfg hcore hrhs hs).bind fun v s₁ θ₁ h₁ ⟨hs₁, hv⟩ => ?_
      exact inferOperation_complete hcfg.imports hs₁ hop (hcurrent.later h₁) hv site rhs.site

theorem checkStmts_complete (hcfg : cfg.Plain) :
    ∀ {stmts : List Stmt} {Γ Γ' R R'} {s : Run} {θ}, Stmt.isCoreAll stmts = true →
    StmtsTyped cfg A Γ R stmts Γ' R' → s.Follows A Γ R θ →
    Leads cfg A (checkStmts stmts) s θ fun _ => Run.Follows A Γ' R'
  | [], _, _, _, _, _, _, _, h, hs => by
    cases h
    exact .pure hs
  | stmt :: stmts, _, _, _, _, _, _, hcore, h, hs => by
    rw [Stmt.isCoreAll, Bool.and_eq_true] at hcore
    cases h with
    | cons hstmt hstmts =>
      refine (checkStmt_complete hcfg hcore.1 hstmt hs).bind fun _ s₁ θ₁ _ hs₁ => ?_
      exact checkStmts_complete hcfg hcore.2 hstmts hs₁

theorem checkStmt_complete (hcfg : cfg.Plain) :
    ∀ {stmt : Stmt} {Γ Γ' R R'} {s : Run} {θ}, stmt.isCore = true →
    StmtTyped cfg A Γ R stmt Γ' R' → s.Follows A Γ R θ →
    Leads cfg A (checkStmt stmt) s θ fun _ => Run.Follows A Γ' R'
  | .assign _ _ name value, _, _, _, _, _, _, hcore, h, hs => by
    cases h with
    | assign hvalue hname =>
      refine (inferExpr_complete hcfg hcore hvalue hs).bind fun u s₁ θ₁ _ ⟨hs₁, hu⟩ => ?_
      exact declareAssigned_complete hcfg.assignments hs₁ hu hname
  | .expr _ value, _, _, _, _, _, _, hcore, h, hs => by
    cases h with
    | expr hvalue =>
      exact (inferExpr_complete hcfg hcore hvalue hs).bind fun u s₁ θ₁ _ ⟨hs₁, _⟩ => .pure hs₁
end

end Check

end Monotype
