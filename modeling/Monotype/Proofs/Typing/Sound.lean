import Monotype.Proofs.Check.Sites
import Monotype.Proofs.Typing.Clean

/-! Inference is sound: a run without complaints leaves a typing that follows the rules. -/
namespace Monotype.Check
variable {α β : Type} {cfg : Config} {A : Typing} {θ : TyVar → Ty}

/-! ## Type declarations -/

section TypeDecl
variable {self : Option String} {s s' : Run}

theorem lookupType_sound {name : Ident} {t : Ty}
    (h : Clean cfg A θ (lookupType self name) s t s') (hs : s.Agrees A θ) :
    s.registry.named? self name.name = some t ∧ t.Below 0 ∧ s' = s := by
  replace h := h.state
  unfold Registry.named?
  cases hd : s.registry.type? name.name with
  | some declared =>
    simp only [hd] at h
    obtain ⟨rfl, rfl⟩ := h.pure
    exact ⟨rfl, (hs.types name.name declared hd).toTy name.name, rfl⟩
  | none =>
    simp only [hd] at h
    split at h
    · next hself =>
      obtain ⟨rfl, rfl⟩ := h.pure
      exact ⟨if_pos hself, Ty.below_adt, rfl⟩
    · exact h.recover.elim

mutual
theorem lower_sound : ∀ {e : TypeExpr} {s s' : Run} {t : Ty},
    Clean cfg A θ (lower self e) s t s' → s.Agrees A θ →
    e.meaning? s.registry self = some t ∧ t.Below 0 ∧ s' = s
  | .prim _ p, _, _, _, h, _ => by
    obtain ⟨rfl, rfl⟩ := h.pure
    exact ⟨rfl, Ty.below_prim, rfl⟩
  | .named _ name, _, _, _, h, hs => lookupType_sound h hs
  | .record _ fields, _, _, _, h, hs => by
    obtain ⟨fs, s₁, hfs, hend⟩ := h.bind
    obtain ⟨hmean, hbelow, rfl⟩ := lowerFields_sound hfs hs
    obtain ⟨rfl, rfl⟩ := hend.pure
    exact ⟨by simp [TypeExpr.meaning?, hmean], record_below hbelow, rfl⟩
  | .tuple _ items, _, _, _, h, hs => by
    obtain ⟨ts, s₁, hts, hend⟩ := h.bind
    obtain ⟨hmean, hbelow, rfl⟩ := lowerList_sound hts hs
    obtain ⟨rfl, rfl⟩ := hend.pure
    exact ⟨by simp [TypeExpr.meaning?, hmean], Ty.below_tuple.2 hbelow, rfl⟩
  | .fn _ params result, _, _, _, h, hs => by
    obtain ⟨ts, s₁, hts, hrest⟩ := h.bind
    obtain ⟨hmean, hbelow, rfl⟩ := lowerList_sound hts hs
    obtain ⟨t, s₂, ht, hend⟩ := hrest.bind
    obtain ⟨hmean', hbelow', rfl⟩ := lower_sound ht hs
    obtain ⟨rfl, rfl⟩ := hend.pure
    exact ⟨by simp [TypeExpr.meaning?, hmean, hmean'], Ty.below_fn.2 ⟨hbelow, hbelow'⟩, rfl⟩
  | .adt _ _, _, _, _, h, _ => h.recover.elim

theorem lowerList_sound : ∀ {es : List TypeExpr} {s s' : Run} {ts : List Ty},
    Clean cfg A θ (lowerList self es) s ts s' → s.Agrees A θ →
    TypeExpr.meanings? s.registry self es = some ts ∧ (∀ t ∈ ts, t.Below 0) ∧ s' = s
  | [], _, _, _, h, _ => by
    obtain ⟨rfl, rfl⟩ := h.pure
    exact ⟨rfl, by simp, rfl⟩
  | e :: es, _, _, _, h, hs => by
    obtain ⟨t, s₁, ht, hrest⟩ := h.bind
    obtain ⟨hmean, hbelow, rfl⟩ := lower_sound ht hs
    obtain ⟨ts, s₂, hts, hend⟩ := hrest.bind
    obtain ⟨hmean', hbelow', rfl⟩ := lowerList_sound hts hs
    obtain ⟨rfl, rfl⟩ := hend.pure
    exact ⟨by simp [TypeExpr.meanings?, hmean, hmean'],
      List.forall_mem_cons.2 ⟨hbelow, hbelow'⟩, rfl⟩

theorem lowerFields_sound : ∀ {fields : List TypeField} {s s' : Run} {fs : List (String × Ty)},
    Clean cfg A θ (lowerFields self fields) s fs s' → s.Agrees A θ →
    TypeField.meanings? s.registry self fields = some fs ∧ (∀ f ∈ fs, f.2.Below 0) ∧ s' = s
  | [], _, _, _, h, _ => by
    obtain ⟨rfl, rfl⟩ := h.pure
    exact ⟨rfl, by simp, rfl⟩
  | ⟨name, e⟩ :: fields, _, _, _, h, hs => by
    obtain ⟨t, s₁, ht, hrest⟩ := h.bind
    obtain ⟨hmean, hbelow, rfl⟩ := lower_sound ht hs
    obtain ⟨fs, s₂, hfs, hend⟩ := hrest.bind
    obtain ⟨hmean', hbelow', rfl⟩ := lowerFields_sound hfs hs
    obtain ⟨rfl, rfl⟩ := hend.pure
    exact ⟨by simp [TypeField.meanings?, hmean, hmean'],
      List.forall_mem_cons.2 ⟨hbelow, hbelow'⟩, rfl⟩
end

theorem lowerPayload_sound {adt : String} {payload : Payload} {ts : List Ty}
    (h : Clean cfg A θ (lowerPayload adt payload) s ts s') (hs : s.Agrees A θ) :
    payload.meaning? s.registry adt = some ts ∧ (∀ t ∈ ts, t.Below 0) ∧ s' = s := by
  cases payload with
  | none =>
    obtain ⟨rfl, rfl⟩ := h.pure
    exact ⟨rfl, by simp, rfl⟩
  | prim p =>
    obtain ⟨rfl, rfl⟩ := h.pure
    exact ⟨rfl, by simp, rfl⟩
  | named name =>
    obtain ⟨t, s₁, ht, hend⟩ := h.bind
    obtain ⟨hmean, hbelow, rfl⟩ := lookupType_sound ht hs
    obtain ⟨rfl, rfl⟩ := hend.pure
    exact ⟨by simp [Payload.meaning?, hmean], by simpa using hbelow, rfl⟩
  | record fields =>
    obtain ⟨fs, s₁, hfs, hend⟩ := h.bind
    obtain ⟨hmean, hbelow, rfl⟩ := lowerFields_sound hfs hs
    obtain ⟨rfl, rfl⟩ := hend.pure
    refine ⟨by simp [Payload.meaning?, hmean], ?_, rfl⟩
    simpa only [List.mem_singleton, forall_eq] using record_below hbelow

theorem lowerOptions_sound {adt : String} : ∀ {options : List AdtOption} {s s' : Run}
    {cs : List Constructor}, Clean cfg A θ (lowerOptions adt options) s cs s' → s.Agrees A θ →
    AdtOption.constructors? s.registry adt options = some cs ∧ (∀ c ∈ cs, c.ty.Below 0) ∧ s' = s
  | [], _, _, _, h, _ => by
    obtain ⟨rfl, rfl⟩ := h.pure
    exact ⟨rfl, by simp, rfl⟩
  | option :: options, _, _, _, h, hs => by
    obtain ⟨ts, s₁, hts, hrest⟩ := h.bind
    obtain ⟨hmean, hbelow, rfl⟩ := lowerPayload_sound hts hs
    obtain ⟨cs, s₂, hcs, hend⟩ := hrest.bind
    obtain ⟨hmean', hbelow', rfl⟩ := lowerOptions_sound hcs hs
    obtain ⟨rfl, rfl⟩ := hend.pure
    exact ⟨by simp [AdtOption.constructors?, hmean, hmean'],
      List.forall_mem_cons.2 ⟨Ty.below_fn.2 ⟨hbelow, Ty.below_adt⟩, hbelow'⟩, rfl⟩

theorem lowerDef_sound {name : String} {e : TypeExpr} {d : TypeDef}
    (h : Clean cfg A θ (lowerDef name e) s d s') (hs : s.Agrees A θ) :
    e.definition? s.registry name = some d ∧ d.Below 0 ∧ s' = s := by
  cases e with
  | prim site p =>
    obtain ⟨rfl, rfl⟩ := h.pure
    exact ⟨rfl, trivial, rfl⟩
  | named site other =>
    obtain ⟨t, s₁, ht, hend⟩ := h.bind
    obtain ⟨hmean, hbelow, rfl⟩ := lookupType_sound ht hs
    obtain ⟨rfl, rfl⟩ := hend.pure
    exact ⟨by simp [TypeExpr.definition?, hmean], hbelow, rfl⟩
  | record site fields =>
    obtain ⟨fs, s₁, hfs, hend⟩ := h.bind
    obtain ⟨hmean, hbelow, rfl⟩ := lowerFields_sound hfs hs
    obtain ⟨rfl, rfl⟩ := hend.pure
    exact ⟨by simp [TypeExpr.definition?, hmean], Ty.below_record.1 (record_below hbelow), rfl⟩
  | tuple site items =>
    obtain ⟨ts, s₁, hts, hend⟩ := h.bind
    obtain ⟨hmean, hbelow, rfl⟩ := lowerList_sound hts hs
    obtain ⟨rfl, rfl⟩ := hend.pure
    exact ⟨by simp [TypeExpr.definition?, hmean], hbelow, rfl⟩
  | fn site params result =>
    obtain ⟨ts, s₁, hts, hrest⟩ := h.bind
    obtain ⟨hmean, hbelow, rfl⟩ := lowerList_sound hts hs
    obtain ⟨t, s₂, ht, hend⟩ := hrest.bind
    obtain ⟨hmean', hbelow', rfl⟩ := lower_sound ht hs
    obtain ⟨rfl, rfl⟩ := hend.pure
    exact ⟨by simp [TypeExpr.definition?, hmean, hmean'], ⟨hbelow, hbelow'⟩, rfl⟩
  | adt site options =>
    obtain ⟨cs, s₁, hcs, hend⟩ := h.bind
    obtain ⟨hmean, hbelow, rfl⟩ := lowerOptions_sound hcs hs
    obtain ⟨rfl, rfl⟩ := hend.pure
    exact ⟨by simp [TypeExpr.definition?, hmean], hbelow, rfl⟩

theorem constructors_origin {R : Registry} {adt : String} : ∀ {options : List AdtOption}
    {cs : List Constructor}, AdtOption.constructors? R adt options = some cs →
    cs.map (·.origin) = options.map (·.name.site.node)
  | [], _, h => by
    cases h
    rfl
  | option :: options, cs, h => by
    simp only [AdtOption.constructors?, Option.bind_eq_bind, Option.bind_eq_some_iff,
      Option.pure_def, Option.some.injEq] at h
    obtain ⟨ts, -, cs, hcs, rfl⟩ := h
    simp [constructors_origin hcs, Constructor.ofParams]

/-- Only what is written as a sum type declares one. -/
theorem definition?_eq_adt {R : Registry} {name : String} {e : TypeExpr} {cs : List Constructor}
    (h : e.definition? R name = some (.adt cs)) :
    ∃ site options, e = .adt site options ∧ AdtOption.constructors? R name options = some cs := by
  cases e with
  | adt site options =>
    exact ⟨site, options, rfl, by simpa [TypeExpr.definition?, Option.bind_eq_some_iff] using h⟩
  | _ => simp [TypeExpr.definition?, Option.bind_eq_some_iff] at h

theorem declareConstructor_sound {adt : String} {option : Ident} {c : Constructor} {a : Unit}
    (h : Clean cfg A θ (declareConstructor adt option c) s a s') (hs : s.Agrees A θ)
    (horigin : c.origin = option.site.node) :
    s'.Agrees A θ ∧ s'.names = s.names ∧ s'.registry = (s.registry.register c).2 ∧
      A.symbol c.origin = some (c.ty.subst θ) := by
  obtain ⟨displaced, s₁, hregister, hrest⟩ := h.bind
  cases hregister.run
  -- whatever is complained about in between, the symbol comes last
  have hsymbol : Clean cfg A θ (addSymbol option c.ty .constructor)
      { s with registry := (s.registry.register c).2 } a s' := by
    replace hrest := hrest.config
    split at hrest
    · split at hrest
      · split at hrest
        · obtain ⟨_, _, hreport, -⟩ := hrest.bind
          exact hreport.report.elim
        · exact hrest
      · exact hrest
    · exact hrest
  obtain ⟨hsame, ht⟩ := hsymbol.addSymbol
  rw [← horigin] at ht
  refine ⟨⟨?_, ?_, ?_⟩, hsame.names, hsame.registry, ht⟩
  · rw [hsame.scopes]
    exact hs.bindings
  · rw [hsame.registry]
    exact hs.types
  · rw [hsame.registry]
    intro name d hd
    rw [Registry.constructor?_register] at hd
    split at hd
    · exact Option.some.inj hd ▸ ht
    · exact hs.constructors name d hd

theorem declareConstructors_sound {adt : String} : ∀ {options : List AdtOption}
    {cs : List Constructor} {s s' : Run} {a : Unit},
    Clean cfg A θ (declareConstructors adt options cs) s a s' → s.Agrees A θ →
    cs.map (·.origin) = options.map (·.name.site.node) →
    s'.Agrees A θ ∧ s'.names = s.names ∧
      s'.registry = cs.foldl (fun R c => (R.register c).2) s.registry ∧
      ∀ c ∈ cs, A.symbol c.origin = some (c.ty.subst θ)
  | [], [], _, _, _, h, hs, _ => by
    obtain ⟨-, rfl⟩ := h.pure
    exact ⟨hs, rfl, rfl, by simp⟩
  | [], _ :: _, _, _, _, _, _, horigin => by simp at horigin
  | _ :: _, [], _, _, _, _, _, horigin => by simp at horigin
  | option :: options, c :: cs, _, _, _, h, hs, horigin => by
    rw [List.map_cons, List.map_cons, List.cons.injEq] at horigin
    obtain ⟨_, s₁, hc, hrest⟩ := h.bind
    obtain ⟨hs₁, hn₁, hr₁, ht⟩ := declareConstructor_sound hc hs horigin.1
    obtain ⟨hs₂, hn₂, hr₂, hts⟩ := declareConstructors_sound hrest hs₁ horigin.2
    refine ⟨hs₂, hn₂.trans hn₁, ?_, List.forall_mem_cons.2 ⟨ht, hts⟩⟩
    rw [hr₂, hr₁, List.foldl_cons]

theorem constructors_below {n : Nat} {d : TypeDef} (h : d.Below n) :
    ∀ c ∈ d.constructors, c.ty.Below n := by
  intro c hc
  cases d with
  | adt cs => exact h c hc
  | _ => simp [TypeDef.constructors] at hc

theorem declareType_sound {name : Ident} {e : TypeExpr} {a : Unit}
    (h : Clean cfg A θ (declareType name e) s a s') (hs : s.Agrees A θ) :
    TypeDeclTyped A s.registry name e s'.registry ∧ s'.Agrees A θ ∧ s'.names = s.names := by
  obtain ⟨d, s₁, hd, hrest⟩ := h.bind
  obtain ⟨hdef, hbelow, rfl⟩ := lowerDef_sound hd hs
  obtain ⟨_, s₂, hdeclare, hrest⟩ := hrest.bind
  cases hdeclare.run
  obtain ⟨_, s₃, hsymbol, hrest⟩ := hrest.bind
  obtain ⟨hsame, ht⟩ := hsymbol.addSymbol
  rw [(hbelow.toTy name.name).subst_ground] at ht
  have hs₂ : ({ s₁ with registry := s₁.registry.declare name.name d name.site.node } : Run).Agrees
      A θ := by
    refine ⟨hs.bindings, fun other e he => ?_, hs.constructors⟩
    rw [Registry.type?_declare] at he
    split at he
    · exact Option.some.inj he ▸ hbelow
    · exact hs.types other e he
  have hs₃ := hs₂.same hsame
  -- only a sum type has constructors to enter
  have hend : s'.Agrees A θ ∧ s'.names = s₃.names ∧
      s'.registry = d.constructors.foldl (fun R c => (R.register c).2) s₃.registry ∧
      ∀ c ∈ d.constructors, A.symbol c.origin = some (c.ty.subst θ) := by
    split at hrest
    · next options constructors =>
      obtain ⟨_, _, ⟨⟩, hcs⟩ := definition?_eq_adt hdef
      exact declareConstructors_sound hrest hs₃ (constructors_origin hcs)
    · next hnot =>
      obtain ⟨-, rfl⟩ := hrest.pure
      have hnone : d.constructors = [] := by
        cases d with
        | adt cs =>
          obtain ⟨site, options, rfl, -⟩ := definition?_eq_adt hdef
          exact (hnot site options cs rfl rfl).elim
        | _ => rfl
      rw [hnone]
      exact ⟨hs₃, rfl, rfl, by simp⟩
  obtain ⟨hagrees, hnames, hregistry, hcs⟩ := hend
  refine ⟨?_, hagrees, hnames.trans hsame.names⟩
  rw [hregistry, hsame.registry]
  refine .intro hdef ht fun c hc => ?_
  rw [hcs c hc, (constructors_below hbelow c hc).subst_ground]

end TypeDecl

/-! ## Patterns -/

section Patterns
variable {s s' : Run} {a : Unit}

theorem acceptPayload_sound (hcfg : cfg.dynamicImports = false) {param : Ty} {pattern : Pattern}
    (h : Clean cfg A θ (acceptPayload param pattern) s a s') (hs : s.Agrees A θ)
    (hparam : param.Below 0) :
    PayloadTyped A s.names param pattern s'.names ∧ s'.Agrees A θ ∧
      s'.registry = s.registry := by
  cases pattern with
  | wildcard site =>
    obtain ⟨-, rfl⟩ := h.pure
    exact ⟨.wildcard, hs, rfl⟩
  | literal site l =>
    obtain ⟨hsame, heq⟩ := Clean.unify hcfg h
    rw [hparam.subst_ground, literal_subst] at heq
    subst heq
    exact ⟨hsame.names ▸ .literal, hs.same hsame, hsame.registry⟩
  | binding site name =>
    obtain ⟨hagrees, hnames, hregistry, ht⟩ := Clean.declare h hs
    rw [hparam.subst_ground] at ht
    exact ⟨hnames ▸ .binding ht, hagrees, hregistry⟩
  | constructor site name args => exact (Clean.report h).elim

theorem acceptSum_sound (hcfg : cfg.dynamicImports = false) {adt : String} {t : Ty}
    {pattern : Pattern} (h : Clean cfg A θ (acceptSum adt t pattern) s a s')
    (hs : s.Agrees A θ) (ht : t.subst θ = .adt adt) :
    PatternTyped A s.names s.registry (.adt adt) pattern s'.names ∧ s'.Agrees A θ ∧
      s'.registry = s.registry := by
  cases pattern with
  | wildcard site =>
    obtain ⟨-, rfl⟩ := h.pure
    exact ⟨.wildcard, hs, rfl⟩
  | literal site l =>
    obtain ⟨-, heq⟩ := Clean.unify hcfg h
    rw [ht, literal_subst] at heq
    simp only [Literal.ty] at heq
    split at heq <;> cases heq
  | binding site name => exact (Clean.report h).elim
  | constructor site name args =>
    replace h := Clean.state h
    split at h
    · next c hc =>
      have hground := Constructor.params_below (hs.constructorOf hc)
      unfold acceptArgs at h
      split at h
      · split at h
        · next hempty =>
          obtain ⟨-, rfl⟩ := h.pure
          exact ⟨.constant hc (List.isEmpty_iff.1 hempty), hs, rfl⟩
        · exact h.report.elim
      · split at h
        · next param hparams =>
          obtain ⟨hpayload, hagrees, hregistry⟩ := acceptPayload_sound hcfg h hs
            (hground param (by simp [hparams]))
          exact ⟨.payload hc hparams hpayload, hagrees, hregistry⟩
        · obtain ⟨_, _, hreport, -⟩ := h.bind
          exact hreport.report.elim
      · exact h.report.elim
    · exact h.report.elim

theorem acceptLiteral_sound (hcfg : cfg.dynamicImports = false) {t : Ty} {pattern : Pattern}
    (hplain : pattern.isPlain = true) (h : Clean cfg A θ (acceptLiteral t pattern) s a s')
    (hs : s.Agrees A θ) :
    PatternTyped A s.names s.registry (t.subst θ) pattern s'.names ∧ s'.Agrees A θ ∧
      s'.registry = s.registry := by
  cases pattern with
  | wildcard site =>
    obtain ⟨-, rfl⟩ := Clean.pure h
    exact ⟨.wildcard, hs, rfl⟩
  | literal site l =>
    obtain ⟨hsame, heq⟩ := Clean.unify hcfg h
    rw [literal_subst] at heq
    rw [← heq, hsame.names]
    exact ⟨.literal, hs.same hsame, hsame.registry⟩
  | binding site name => simp [Pattern.isPlain] at hplain
  | constructor site name args => simp [Pattern.isPlain] at hplain

theorem checkExhaustive_same {site : Site} {adt : String} {patterns : List Pattern}
    (h : Clean cfg A θ (checkExhaustive site adt patterns) s a s') : s' = s := by
  unfold checkExhaustive at h
  split at h
  · exact h.pure.2
  · replace h := h.state
    split at h
    · exact h.pure.2
    · dsimp only at h
      split at h
      · exact h.pure.2
      · exact h.report.elim

end Patterns

/-! ## Values -/

section Values
variable {s s' : Run} {t : Ty}

theorem lookupValue_sound {name : String} {value : Option Ty}
    (h : Clean cfg A θ (lookupValue name) s value s') (hs : s.Agrees A θ) :
    s' = s ∧ ∀ t, value = some t → ValueTyped A s.names s.registry name (t.subst θ) := by
  have hrun := h.run
  rw [run_lookupValue] at hrun
  cases hrun
  exact ⟨rfl, fun t ht => hs.value ht⟩

theorem inferIdent_sound {name : Ident} (h : Clean cfg A θ (inferIdent name) s t s')
    (hs : s.Agrees A θ) : ValueTyped A s.names s.registry name.name (t.subst θ) ∧ s' = s := by
  obtain ⟨value, s₁, hvalue, hrest⟩ := h.bind
  obtain ⟨rfl, htyped⟩ := lookupValue_sound hvalue hs
  split at hrest
  · next u =>
    obtain ⟨rfl, rfl⟩ := hrest.pure
    exact ⟨htyped _ rfl, rfl⟩
  · exact hrest.recover.elim

theorem lookup_map_subst (θ : TyVar → Ty) (fields : Fields Ty) (name : String) :
    (fields.map fun field => (field.1, field.2.subst θ)).lookup name =
      (fields.lookup name).map (Ty.subst θ) := by
  induction fields with
  | nil => rfl
  | cons field fields ih =>
    rw [List.map_cons, List.lookup_cons, List.lookup_cons]
    split <;> simp_all

theorem inferMember_sound (hcfg : cfg.dynamicImports = false) {site : Site} {current : Ty}
    {member : String} (h : Clean cfg A θ (inferMember site current member) s t s') :
    Run.Same s s' ∧ ∃ fields, current.subst θ = .record fields ∧
      fields.lookup member = some (t.subst θ) := by
  obtain ⟨u, s₁, hu, hrest⟩ := h.bind
  obtain ⟨hsame, heq⟩ := hu.resolve
  rw [← heq]
  split at hrest
  · split at hrest
    · next fields _ v hv =>
      obtain ⟨rfl, rfl⟩ := hrest.pure
      refine ⟨hsame, _, Ty.subst_record θ fields, ?_⟩
      rw [lookup_map_subst, hv]
      rfl
    · exact hrest.recover.elim
  · replace hrest := hrest.config
    rw [hcfg, Bool.and_false] at hrest
    obtain ⟨_, _, -, hreport⟩ := hrest.bind
    exact hreport.recover.elim

theorem inferElement_sound (hcfg : cfg.dynamicImports = false) {site : Site} {current : Ty}
    (h : Clean cfg A θ (inferElement site current) s t s') :
    Run.Same s s' ∧ ∃ elements, current.subst θ = .tuple elements := by
  obtain ⟨u, s₁, hu, hrest⟩ := h.bind
  obtain ⟨hsame, heq⟩ := hu.resolve
  rw [← heq]
  split at hrest
  · exact ⟨hsame.trans hrest.fresh, _, Ty.subst_tuple θ _⟩
  · replace hrest := hrest.config
    rw [hcfg, Bool.and_false] at hrest
    obtain ⟨_, _, -, hreport⟩ := hrest.bind
    exact hreport.recover.elim

theorem inferOperation_sound (hcfg : cfg.dynamicImports = false) {site rhs : Site} {op : String}
    {left right : Ty} (h : Clean cfg A θ (inferOperation site rhs op left right) s t s') :
    Run.Same s s' ∧ OperatorTyped op (left.subst θ) (right.subst θ) (t.subst θ) := by
  -- both operands are compared with one ground type
  have hboth : ∀ {p q : Prim} {s' : Run}, Clean cfg A θ (do
      unify (.prim p) left site
      unify (.prim p) right rhs
      return .prim q) s t s' →
      Run.Same s s' ∧ left.subst θ = .prim p ∧ right.subst θ = .prim p ∧ t.subst θ = .prim q := by
    intro p q s' h
    obtain ⟨_, s₁, hl, hrest⟩ := h.bind
    obtain ⟨_, s₂, hr, hend⟩ := hrest.bind
    obtain ⟨hsame, hleft⟩ := hl.unify hcfg
    obtain ⟨hsame', hright⟩ := hr.unify hcfg
    obtain ⟨rfl, rfl⟩ := hend.pure
    exact ⟨hsame.trans hsame', hleft.symm, hright.symm, rfl⟩
  unfold inferOperation at h
  split at h
  · next hop =>
    obtain ⟨hsame, hl, hr, ht⟩ := hboth h
    rw [hl, hr, ht]
    exact ⟨hsame, .arithmetic hop⟩
  · next hop =>
    obtain ⟨hsame, hl, hr, ht⟩ := hboth h
    rw [hl, hr, ht]
    exact ⟨hsame, .comparison hop⟩
  · next hop =>
    obtain ⟨_, s₁, hu, hend⟩ := h.bind
    obtain ⟨hsame, heq⟩ := hu.unify hcfg
    obtain ⟨rfl, rfl⟩ := hend.pure
    rw [heq]
    exact ⟨hsame, .equality hop⟩
  · next hop =>
    obtain ⟨hsame, hl, hr, ht⟩ := hboth h
    rw [hl, hr, ht]
    exact ⟨hsame, .logical hop⟩
  · exact h.recover.elim

theorem declareParams_sound : ∀ {params : List Ident} {s s' : Run} {ts : List Ty},
    Clean cfg A θ (declareParams params) s ts s' → s.Agrees A θ →
    s'.Agrees A θ ∧ s'.names = params.foldl Env.declare s.names ∧ s'.registry = s.registry ∧
      params.map (fun param => A.symbol param.site.node) = (ts.map (Ty.subst θ)).map some
  | [], _, _, _, h, hs => by
    obtain ⟨rfl, rfl⟩ := h.pure
    exact ⟨hs, rfl, rfl, rfl⟩
  | param :: params, _, _, _, h, hs => by
    obtain ⟨t, s₁, hfresh, hrest⟩ := h.bind
    have hsame := hfresh.fresh
    obtain ⟨_, s₂, hdeclare, hrest⟩ := hrest.bind
    obtain ⟨hs₂, hn₂, hr₂, ht⟩ := hdeclare.declare (hs.same hsame)
    obtain ⟨ts, s₃, hts, hend⟩ := hrest.bind
    obtain ⟨hs₃, hn₃, hr₃, hsymbols⟩ := declareParams_sound hts hs₂
    obtain ⟨rfl, rfl⟩ := hend.pure
    refine ⟨hs₃, ?_, hr₃.trans (hr₂.trans hsame.registry), ?_⟩
    · rw [hn₃, hn₂, hsame.names, List.foldl_cons]
    · rw [List.map_cons, ht, hsymbols]
      rfl

theorem declareImport_sound {path : String} {name : Ident} {a : Unit}
    (h : Clean cfg A θ (declareImport path name) s a s') (hs : s.Agrees A θ) :
    s'.Agrees A θ ∧ s'.names = s.names.declare name ∧ s'.registry = s.registry ∧
      A.symbol name.site.node = some (.external path) := by
  obtain ⟨here, s₁, hhere, hrest⟩ := h.bind
  obtain ⟨-, rfl⟩ := hhere.state.pure
  split at hrest
  · obtain ⟨_, _, -, hreport⟩ := hrest.bind
    exact hreport.reportWith.elim
  · exact hrest.declare hs

theorem declareImports_sound {path : String} : ∀ {names : List Ident} {s s' : Run} {a : Unit},
    Clean cfg A θ (names.forM (declareImport path)) s a s' → s.Agrees A θ →
    s'.Agrees A θ ∧ s'.names = names.foldl Env.declare s.names ∧ s'.registry = s.registry ∧
      ∀ name ∈ names, A.symbol name.site.node = some (.external path)
  | [], _, _, _, h, hs => by
    obtain ⟨-, rfl⟩ := Clean.pure h
    exact ⟨hs, rfl, rfl, by simp⟩
  | name :: names, _, _, _, h, hs => by
    obtain ⟨_, s₁, hname, hrest⟩ := Clean.bind h
    obtain ⟨hs₁, hn₁, hr₁, ht⟩ := declareImport_sound hname hs
    obtain ⟨hs₂, hn₂, hr₂, hts⟩ := declareImports_sound hrest hs₁
    refine ⟨hs₂, ?_, hr₂.trans hr₁, List.forall_mem_cons.2 ⟨ht, hts⟩⟩
    rw [hn₂, hn₁, List.foldl_cons]

theorem checkExports_sound : ∀ {names : List Ident} {s s' : Run} {a : Unit},
    Clean cfg A θ (names.forM checkExport) s a s' → s.Agrees A θ →
    s' = s ∧ ∀ name ∈ names, ∃ t, ValueTyped A s.names s.registry name.name t
  | [], _, _, _, h, _ => by
    obtain ⟨-, rfl⟩ := Clean.pure h
    exact ⟨rfl, by simp⟩
  | name :: names, _, _, _, h, hs => by
    obtain ⟨_, s₁, hname, hrest⟩ := Clean.bind h
    obtain ⟨value, s₂, hvalue, hend⟩ := hname.bind
    obtain ⟨rfl, htyped⟩ := lookupValue_sound hvalue hs
    split at hend
    · exact hend.report.elim
    · next hsome =>
      obtain ⟨-, rfl⟩ := hend.pure
      obtain ⟨rfl, hnames⟩ := checkExports_sound hrest hs
      refine ⟨rfl, List.forall_mem_cons.2 ⟨?_, hnames⟩⟩
      cases value with
      | none => simp at hsome
      | some t => exact ⟨_, htyped t rfl⟩

theorem declareAssigned_sound {name : Ident} {a : Unit}
    (h : Clean cfg A θ (declareAssigned name t) s a s') (hs : s.Agrees A θ) :
    s'.Agrees A θ ∧ s'.names = s.names.declare name ∧ s'.registry = s.registry ∧
      A.symbol name.site.node = some (t.subst θ) := by
  obtain ⟨here, s₁, hhere, hrest⟩ := h.config.bind
  obtain ⟨-, rfl⟩ := hhere.state.pure
  dsimp only at hrest
  split at hrest
  · obtain ⟨_, _, -, hrest⟩ := hrest.bind
    obtain ⟨_, _, hreport, -⟩ := hrest.bind
    exact hreport.reportWith.elim
  · exact hrest.declare hs

theorem checkClosing_sound {site : Site} {name : Ident} {closing : Option Ident} {a : Unit}
    (h : Clean cfg A θ (checkClosing site name closing) s a s') :
    s' = s ∧ ∀ other, closing = some other → other.name = name.name := by
  cases closing with
  | none =>
    obtain ⟨-, rfl⟩ := Clean.pure h
    exact ⟨rfl, by simp⟩
  | some closing =>
    simp only [checkClosing] at h
    split at h
    · next heq =>
      obtain ⟨-, rfl⟩ := h.pure
      exact ⟨rfl, by simpa using heq⟩
    · exact h.throw.elim

theorem checkComponent_sound (hcfg : cfg.dynamicImports = false) {name : Ident} {props : Ty}
    {a : Unit} (h : Clean cfg A θ (checkComponent name props) s a s') (hs : s.Agrees A θ) :
    Run.Same s s' ∧ (isIntrinsic cfg name.name = true ∨
      ValueTyped A s.names s.registry name.name (.fn [props.subst θ] .jsx)) := by
  replace h := h.config
  split at h
  · next hintrinsic =>
    obtain ⟨-, rfl⟩ := h.pure
    exact ⟨⟨rfl, rfl⟩, .inl hintrinsic⟩
  · obtain ⟨value, s₁, hvalue, hrest⟩ := h.bind
    obtain ⟨rfl, htyped⟩ := lookupValue_sound hvalue hs
    split at hrest
    · next component =>
      obtain ⟨hsame, heq⟩ := hrest.unify hcfg
      have hcomponent := htyped component rfl
      rw [heq, Ty.subst_fn] at hcomponent
      exact ⟨hsame, .inr hcomponent⟩
    · exact hrest.report.elim

end Values

/-! ## The walk -/

/-- After an expression the names in sight are those before it. -/
structure Stays (A : Typing) (θ : TyVar → Ty) (s s' : Run) : Prop where
  agrees : s'.Agrees A θ
  names : s'.names = s.names

theorem Stays.same {s s₁ s₂ : Run} (h : Stays A θ s s₁) (hsame : Run.Same s₁ s₂) :
    Stays A θ s s₂ :=
  ⟨h.agrees.same hsame, hsame.names.trans h.names⟩

theorem Stays.trans {s s₁ s₂ : Run} (h : Stays A θ s s₁) (h' : Stays A θ s₁ s₂) :
    Stays A θ s s₂ :=
  ⟨h'.agrees, h'.names.trans h.names⟩

/-- What `accept` lets through is a pattern for values of type `u`. -/
def Accepts (cfg : Config) (A : Typing) (θ : TyVar → Ty) (accept : Pattern → Check Unit) (u : Ty)
    (pattern : Pattern) : Prop :=
  ∀ {s s' : Run} {a : Unit}, Clean cfg A θ (accept pattern) s a s' → s.Agrees A θ →
    PatternTyped A s.names s.registry u pattern s'.names ∧ s'.Agrees A θ ∧
      s'.registry = s.registry

mutual
theorem inferExpr_sound (hcfg : cfg.dynamicImports = false) : ∀ {e : Expr} {s s' : Run} {t : Ty},
    Clean cfg A θ (inferExpr e) s t s' → s.Agrees A θ →
    ExprTyped cfg A s.names s.registry e (t.subst θ) s'.registry ∧ Stays A θ s s'
  | ⟨site, primary, tails⟩, s, s', _, h, hs => by
    obtain ⟨t, s₁, hprimary, hrest⟩ := h.bind
    obtain ⟨_, s₂, hnote, hrest⟩ := hrest.bind
    obtain ⟨u, s₃, htails, hrest⟩ := hrest.bind
    obtain ⟨_, s₄, hnote', hend⟩ := hrest.bind
    obtain ⟨rfl, rfl⟩ := hend.pure
    obtain ⟨hp, hst₁⟩ := inferPrimary_sound hcfg hprimary hs
    obtain ⟨hsame, ht⟩ := hnote.recordType
    have hst₂ := hst₁.same hsame
    obtain ⟨hts, hst₃⟩ := inferTails_sound hcfg htails hst₂.agrees
    obtain ⟨hsame', hu⟩ := hnote'.recordType
    rw [hst₂.names, hsame.registry] at hts
    refine ⟨?_, (hst₂.trans hst₃).same hsame'⟩
    rw [hsame'.registry]
    exact .intro hp ht hts hu

theorem inferExprs_sound (hcfg : cfg.dynamicImports = false) :
    ∀ {es : List Expr} {s s' : Run} {ts : List Ty},
    Clean cfg A θ (inferExprs es) s ts s' → s.Agrees A θ →
    ExprsTyped cfg A s.names s.registry es (ts.map (Ty.subst θ)) s'.registry ∧ Stays A θ s s'
  | [], _, _, _, h, hs => by
    obtain ⟨rfl, rfl⟩ := h.pure
    exact ⟨.nil, hs, rfl⟩
  | e :: es, _, _, _, h, hs => by
    obtain ⟨t, s₁, he, hrest⟩ := h.bind
    obtain ⟨ts, s₂, hes, hend⟩ := hrest.bind
    obtain ⟨rfl, rfl⟩ := hend.pure
    obtain ⟨ht, hst₁⟩ := inferExpr_sound hcfg he hs
    obtain ⟨hts, hst₂⟩ := inferExprs_sound hcfg hes hst₁.agrees
    rw [hst₁.names] at hts
    exact ⟨.cons ht hts, hst₁.trans hst₂⟩

theorem inferPrimary_sound (hcfg : cfg.dynamicImports = false) :
    ∀ {p : Primary} {s s' : Run} {t : Ty},
    Clean cfg A θ (inferPrimary p) s t s' → s.Agrees A θ →
    PrimaryTyped cfg A s.names s.registry p (t.subst θ) s'.registry ∧ Stays A θ s s'
  | .ident _ name, _, _, _, h, hs => by
    obtain ⟨hvalue, rfl⟩ := inferIdent_sound h hs
    exact ⟨.ident hvalue, hs, rfl⟩
  | .literal _ l, _, _, _, h, hs => by
    obtain ⟨rfl, rfl⟩ := h.pure
    rw [literal_subst]
    exact ⟨.literal, hs, rfl⟩
  | .paren _ inner, _, _, _, h, hs => by
    obtain ⟨hinner, hst⟩ := inferExpr_sound hcfg h hs
    exact ⟨.paren hinner, hst⟩
  | .block _ body, _, _, _, h, hs => by
    obtain ⟨hbody, hst⟩ := inferBlock_sound hcfg h hs
    exact ⟨.block hbody, hst⟩
  | .record _ entries, _, _, _, h, hs => by
    obtain ⟨fields, s₁, hfields, hend⟩ := h.bind
    obtain ⟨rfl, rfl⟩ := hend.pure
    obtain ⟨hentries, hst⟩ := inferEntries_sound hcfg hfields hs
    rw [Ty.subst_ofList]
    exact ⟨.record hentries, hst⟩
  | .array _ items, _, _, _, h, hs => by
    obtain ⟨ts, s₁, hts, hend⟩ := h.bind
    obtain ⟨rfl, rfl⟩ := hend.pure
    obtain ⟨hitems, hst⟩ := inferExprs_sound hcfg hts hs
    rw [Ty.subst_tuple]
    exact ⟨.array hitems, hst⟩
  | .function _ params body, s, s', _, h, hs => by
    obtain ⟨s₁, s₂, hinner, hs₁, hn₁, hr₁, hr', hleave⟩ := h.inScope hs
    obtain ⟨ts, s₃, hparams, hrest⟩ := hinner.bind
    obtain ⟨t, s₄, hbody, hend⟩ := hrest.bind
    obtain ⟨rfl, rfl⟩ := hend.pure
    obtain ⟨hs₃, hn₃, hr₃, hsymbols⟩ := declareParams_sound hparams hs₁
    obtain ⟨ht, hst⟩ := inferExpr_sound hcfg hbody hs₃
    rw [hn₃, hn₁, hr₃, hr₁] at ht
    obtain ⟨scope, hscope⟩ := Env.declare_tail Env.nothing s.names params
    rw [Ty.subst_fn, hr']
    refine ⟨.function hsymbols ht, ?_⟩
    obtain ⟨hagrees, hnames⟩ := hleave scope hst.agrees (by rw [hst.names, hn₃, hn₁, hscope])
    exact ⟨hagrees, hnames⟩
  | .ifChain site branches otherwise, s, s', t, h, hs => by
    simp only [inferPrimary] at h
    split at h
    · obtain ⟨_, _, hthrow, -⟩ := h.bind
      exact hthrow.throw.elim
    · next hne =>
      obtain ⟨result, s₁, hfresh, hrest⟩ := h.bind
      obtain ⟨_, s₂, hbranches, hrest⟩ := hrest.bind
      obtain ⟨_, s₃, hotherwise, hend⟩ := hrest.bind
      obtain ⟨rfl, rfl⟩ := hend.pure
      have hsame := hfresh.fresh
      obtain ⟨hbs, hst₁⟩ := inferBranches_sound hcfg hbranches (hs.same hsame)
      obtain ⟨hos, hst₂⟩ := inferOtherwise_sound hcfg hotherwise hst₁.agrees
      rw [hst₁.names] at hos
      rw [hsame.names] at hbs hos
      rw [hsame.registry] at hbs
      refine ⟨.ifChain (by simpa using hne) hbs hos, ?_⟩
      exact Stays.trans ⟨hs.same hsame, hsame.names⟩ (hst₁.trans hst₂)
  | .matchOn site scrutinee arms, s, s', t, h, hs => by
    obtain ⟨u, s₁, hscrutinee, hrest⟩ := h.bind
    obtain ⟨v, s₂, hresolve, hrest⟩ := hrest.bind
    replace hrest := hrest.state
    obtain ⟨hu, hst₁⟩ := inferExpr_sound hcfg hscrutinee hs
    obtain ⟨hsame, heq⟩ := hresolve.resolve
    have hst₂ := hst₁.same hsame
    dsimp only at hrest
    split at hrest
    · next adt hform =>
      obtain ⟨rfl, hdeclared⟩ := MatchForm.sum_of_onSum hform
      rw [Ty.subst_adt] at heq
      obtain ⟨r, s₃, hfresh, hrest⟩ := hrest.bind
      obtain ⟨_, s₄, harms, hrest⟩ := hrest.bind
      have happly : Clean cfg A θ (apply r) s₄ t s' := by
        replace hrest := hrest.config
        split at hrest
        · obtain ⟨_, s₅, hexhaustive, hend⟩ := hrest.bind
          exact checkExhaustive_same hexhaustive ▸ hend
        · exact hrest
      have hst₃ := hst₂.same hfresh.fresh
      have haccept : ∀ pattern ∈ arms.map (·.pattern),
          Accepts cfg A θ (acceptSum adt u) (.adt adt) pattern :=
        fun pattern _ _ _ _ hp hs => acceptSum_sound hcfg hp hs heq.symm
      obtain ⟨has, hst₄⟩ := inferArms_sound hcfg haccept harms hst₃.agrees
      obtain ⟨hsame', ht⟩ := happly.apply
      rw [hst₃.names, hfresh.fresh.registry, hsame.registry] at has
      rw [ht, hsame'.registry]
      rw [hsame.registry] at hdeclared
      refine ⟨.matchOn (heq ▸ hu) (.inl ⟨adt, rfl, hdeclared⟩) has, ?_⟩
      exact (hst₃.trans hst₄).same hsame'
    · next hform =>
      have hplain := MatchForm.plain_of_onLiterals hform
      have hne := MatchForm.ne_nil_of_onLiterals hform
      obtain ⟨r, s₃, hfresh, hrest⟩ := hrest.bind
      obtain ⟨_, s₄, harms, happly⟩ := hrest.bind
      have hst₃ := hst₂.same hfresh.fresh
      have haccept : ∀ pattern ∈ arms.map (·.pattern),
          Accepts cfg A θ (acceptLiteral u) (u.subst θ) pattern :=
        fun pattern hp _ _ _ hclean hs => acceptLiteral_sound hcfg (hplain pattern hp) hclean hs
      obtain ⟨has, hst₄⟩ := inferArms_sound hcfg haccept harms hst₃.agrees
      obtain ⟨hsame', ht⟩ := happly.apply
      rw [hst₃.names, hfresh.fresh.registry, hsame.registry] at has
      rw [ht, hsame'.registry]
      exact ⟨.matchOn hu (.inr ⟨hne, hplain⟩) has, (hst₃.trans hst₄).same hsame'⟩
    · obtain ⟨_, _, -, hreport⟩ := hrest.bind
      exact hreport.recover.elim
  | .markup _ element, _, _, _, h, hs => by
    obtain ⟨rfl, helement, hst⟩ := inferMarkup_sound hcfg h hs
    exact ⟨.markup helement, hst⟩

theorem inferBlock_sound (hcfg : cfg.dynamicImports = false) :
    ∀ {b : Block} {s s' : Run} {t : Ty},
    Clean cfg A θ (inferBlock b) s t s' → s.Agrees A θ →
    BlockTyped cfg A s.names s.registry b (t.subst θ) s'.registry ∧ Stays A θ s s'
  | ⟨_, statements, some e⟩, s, s', _, h, hs => by
    obtain ⟨s₁, s₂, hinner, hs₁, hn₁, hr₁, hr', hleave⟩ := h.inScope hs
    obtain ⟨_, s₃, hstatements, he⟩ := hinner.bind
    obtain ⟨hss, hs₃⟩ := checkStmts_sound hcfg hstatements hs₁
    obtain ⟨ht, hst⟩ := inferExpr_sound hcfg he hs₃
    rw [hn₁, hr₁] at hss
    obtain ⟨scope, hscope⟩ := hss.tail
    rw [hr']
    obtain ⟨hagrees, hnames⟩ := hleave scope hst.agrees (hst.names.trans hscope)
    exact ⟨.result hss ht, hagrees, hnames⟩
  | ⟨_, statements, none⟩, s, s', _, h, hs => by
    obtain ⟨s₁, s₂, hinner, hs₁, hn₁, hr₁, hr', hleave⟩ := h.inScope hs
    obtain ⟨_, s₃, hstatements, hfresh⟩ := hinner.bind
    obtain ⟨hss, hs₃⟩ := checkStmts_sound hcfg hstatements hs₁
    have hsame := hfresh.fresh
    rw [hn₁, hr₁] at hss
    obtain ⟨scope, hscope⟩ := hss.tail
    rw [hr', hsame.registry]
    obtain ⟨hagrees, hnames⟩ := hleave scope (hs₃.same hsame) (hsame.names.trans hscope)
    exact ⟨.noResult hss, hagrees, hnames⟩

theorem inferEntries_sound (hcfg : cfg.dynamicImports = false) :
    ∀ {entries : List Entry} {s s' : Run} {fields : List (String × Ty)},
    Clean cfg A θ (inferEntries entries) s fields s' → s.Agrees A θ →
    EntriesTyped cfg A s.names s.registry entries
      (fields.map fun field => (field.1, field.2.subst θ)) s'.registry ∧ Stays A θ s s'
  | [], _, _, _, h, hs => by
    obtain ⟨rfl, rfl⟩ := h.pure
    exact ⟨.nil, hs, rfl⟩
  | ⟨name, value⟩ :: entries, _, _, _, h, hs => by
    obtain ⟨t, s₁, he, hrest⟩ := h.bind
    obtain ⟨ts, s₂, hes, hend⟩ := hrest.bind
    obtain ⟨rfl, rfl⟩ := hend.pure
    obtain ⟨ht, hst₁⟩ := inferExpr_sound hcfg he hs
    obtain ⟨hts, hst₂⟩ := inferEntries_sound hcfg hes hst₁.agrees
    rw [hst₁.names] at hts
    exact ⟨.cons ht hts, hst₁.trans hst₂⟩

theorem inferBranches_sound (hcfg : cfg.dynamicImports = false) {result : Ty} :
    ∀ {branches : List Branch} {s s' : Run} {a : Unit},
    Clean cfg A θ (inferBranches result branches) s a s' → s.Agrees A θ →
    BranchesTyped cfg A s.names s.registry (result.subst θ) branches s'.registry ∧ Stays A θ s s'
  | [], _, _, _, h, hs => by
    obtain ⟨-, rfl⟩ := h.pure
    exact ⟨.nil, hs, rfl⟩
  | ⟨_, condition, body⟩ :: branches, _, _, _, h, hs => by
    obtain ⟨t, s₁, hcondition, hrest⟩ := h.bind
    obtain ⟨_, s₂, hboolean, hrest⟩ := hrest.bind
    obtain ⟨u, s₃, hbody, hrest⟩ := hrest.bind
    obtain ⟨_, s₄, hresult, hrest⟩ := hrest.bind
    obtain ⟨ht, hst₁⟩ := inferExpr_sound hcfg hcondition hs
    obtain ⟨hsame, heq⟩ := hboolean.unify hcfg
    have hst₂ := hst₁.same hsame
    obtain ⟨hu, hst₃⟩ := inferExpr_sound hcfg hbody hst₂.agrees
    obtain ⟨hsame', heq'⟩ := hresult.unify hcfg
    have hst₄ := (hst₂.trans hst₃).same hsame'
    obtain ⟨hbs, hst₅⟩ := inferBranches_sound hcfg hrest hst₄.agrees
    rw [hst₂.names, hsame.registry, ← heq'] at hu
    rw [hst₄.names, hsame'.registry] at hbs
    rw [← heq] at ht
    exact ⟨.cons ht hu hbs, hst₄.trans hst₅⟩

theorem inferOtherwise_sound (hcfg : cfg.dynamicImports = false) {result : Ty} :
    ∀ {otherwise : Option Expr} {s s' : Run} {a : Unit},
    Clean cfg A θ (inferOtherwise result otherwise) s a s' → s.Agrees A θ →
    OtherwiseTyped cfg A s.names s.registry (result.subst θ) otherwise s'.registry ∧
      Stays A θ s s'
  | none, _, _, _, h, hs => by
    obtain ⟨-, rfl⟩ := h.pure
    exact ⟨.none, hs, rfl⟩
  | some body, _, _, _, h, hs => by
    obtain ⟨u, s₁, hbody, hresult⟩ := h.bind
    obtain ⟨hu, hst⟩ := inferExpr_sound hcfg hbody hs
    obtain ⟨hsame, heq⟩ := hresult.unify hcfg
    rw [heq, hsame.registry]
    exact ⟨.some hu, hst.same hsame⟩

theorem inferArms_sound (hcfg : cfg.dynamicImports = false) {accept : Pattern → Check Unit}
    {u result : Ty} : ∀ {arms : List Arm} {s s' : Run} {a : Unit},
    (∀ pattern ∈ arms.map (·.pattern), Accepts cfg A θ accept u pattern) →
    Clean cfg A θ (inferArms accept result arms) s a s' → s.Agrees A θ →
    ArmsTyped cfg A s.names s.registry u (result.subst θ) arms s'.registry ∧ Stays A θ s s'
  | [], _, _, _, _, h, hs => by
    obtain ⟨-, rfl⟩ := h.pure
    exact ⟨.nil, hs, rfl⟩
  | ⟨_, pattern, body⟩ :: arms, s, s', _, haccept, h, hs => by
    rw [List.map_cons, List.forall_mem_cons] at haccept
    obtain ⟨_, s₀, harm, hrest⟩ := h.bind
    obtain ⟨s₁, s₂, hinner, hs₁, hn₁, hr₁, hr₀, hleave⟩ := harm.inScope hs
    obtain ⟨_, s₃, hpattern, hinner⟩ := hinner.bind
    obtain ⟨t, s₄, hbody, hresult⟩ := hinner.bind
    obtain ⟨hp, hs₃, hr₃⟩ := haccept.1 hpattern hs₁
    obtain ⟨ht, hst⟩ := inferExpr_sound hcfg hbody hs₃
    obtain ⟨hsame, heq⟩ := hresult.unify hcfg
    rw [hn₁, hr₁] at hp
    rw [hr₃, hr₁, ← heq] at ht
    obtain ⟨scope, hscope⟩ := hp.tail
    have hst₂ := hst.same hsame
    obtain ⟨hagrees, hnames⟩ := hleave scope hst₂.agrees (hst₂.names.trans hscope)
    obtain ⟨has, hst'⟩ := inferArms_sound hcfg haccept.2 hrest hagrees
    rw [hnames, hr₀, hsame.registry] at has
    exact ⟨.cons hp ht has, Stays.trans ⟨hagrees, hnames⟩ hst'⟩

theorem inferTails_sound (hcfg : cfg.dynamicImports = false) :
    ∀ {tails : List Tail} {s s' : Run} {current t : Ty},
    Clean cfg A θ (inferTails current tails) s t s' → s.Agrees A θ →
    TailsTyped cfg A s.names s.registry (current.subst θ) tails (t.subst θ) s'.registry ∧
      Stays A θ s s'
  | [], _, _, _, _, h, hs => by
    obtain ⟨rfl, rfl⟩ := h.pure
    exact ⟨.nil, hs, rfl⟩
  | tail :: tails, _, _, _, _, h, hs => by
    obtain ⟨t, s₁, htail, hrest⟩ := h.bind
    obtain ⟨_, s₂, hnote, hrest⟩ := hrest.bind
    obtain ⟨ht, hst₁⟩ := inferTail_sound hcfg htail hs
    obtain ⟨hsame, hnode⟩ := hnote.recordType
    have hst₂ := hst₁.same hsame
    obtain ⟨hts, hst₃⟩ := inferTails_sound hcfg hrest hst₂.agrees
    rw [hst₂.names, hsame.registry] at hts
    exact ⟨.cons ht hnode hts, hst₂.trans hst₃⟩

theorem inferTail_sound (hcfg : cfg.dynamicImports = false) :
    ∀ {tail : Tail} {s s' : Run} {current t : Ty},
    Clean cfg A θ (inferTail current tail) s t s' → s.Agrees A θ →
    TailTyped cfg A s.names s.registry (current.subst θ) tail (t.subst θ) s'.registry ∧
      Stays A θ s s'
  | .member _ name, _, _, _, _, h, hs => by
    obtain ⟨hsame, fields, heq, hlookup⟩ := inferMember_sound hcfg h
    rw [heq, hsame.registry]
    exact ⟨.member hlookup, hs.same hsame, hsame.names⟩
  | .index _ index, _, _, _, _, h, hs => by
    obtain ⟨t, s₁, hindex, hrest⟩ := h.bind
    obtain ⟨_, s₂, hnumber, hrest⟩ := hrest.bind
    obtain ⟨ht, hst⟩ := inferExpr_sound hcfg hindex hs
    obtain ⟨hsame, heq⟩ := hnumber.unify hcfg
    obtain ⟨hsame', elements, htuple⟩ := inferElement_sound hcfg hrest
    rw [← heq] at ht
    rw [htuple, hsame'.registry, hsame.registry]
    exact ⟨.index ht, (hst.same hsame).same hsame'⟩
  | .call _ args, _, _, _, _, h, hs => by
    obtain ⟨ts, s₁, hargs, hrest⟩ := h.bind
    obtain ⟨r, s₂, hfresh, hrest⟩ := hrest.bind
    obtain ⟨_, s₃, hunify, hend⟩ := hrest.bind
    obtain ⟨rfl, rfl⟩ := hend.pure
    obtain ⟨hts, hst⟩ := inferExprs_sound hcfg hargs hs
    have hsame := hfresh.fresh
    obtain ⟨hsame', heq⟩ := hunify.unify hcfg
    rw [heq, Ty.subst_fn, hsame'.registry, hsame.registry]
    exact ⟨.call hts, (hst.same hsame).same hsame'⟩
  | .operation _ op rhs, _, _, _, _, h, hs => by
    obtain ⟨right, s₁, hrhs, hrest⟩ := h.bind
    obtain ⟨hr, hst⟩ := inferExpr_sound hcfg hrhs hs
    obtain ⟨hsame, hop⟩ := inferOperation_sound hcfg hrest
    rw [hsame.registry]
    exact ⟨.operation hr hop, hst.same hsame⟩

theorem inferMarkup_sound (hcfg : cfg.dynamicImports = false) :
    ∀ {element : Markup} {s s' : Run} {t : Ty},
    Clean cfg A θ (inferMarkup element) s t s' → s.Agrees A θ →
    t = .jsx ∧ MarkupTyped cfg A s.names s.registry element s'.registry ∧ Stays A θ s s'
  | ⟨_, name, attributes, children, closing⟩, _, _, _, h, hs => by
    obtain ⟨_, s₁, hclosing, hrest⟩ := h.bind
    obtain ⟨props, s₂, hattributes, hrest⟩ := hrest.bind
    obtain ⟨_, s₃, hcomponent, hrest⟩ := hrest.bind
    obtain ⟨_, s₄, hchildren, hend⟩ := hrest.bind
    obtain ⟨rfl, rfl⟩ := hend.pure
    obtain ⟨rfl, hclose⟩ := checkClosing_sound hclosing
    obtain ⟨has, hst₂⟩ := inferAttributes_sound hcfg hattributes hs
    obtain ⟨hsame, hc⟩ := checkComponent_sound hcfg hcomponent hst₂.agrees
    have hst₃ := hst₂.same hsame
    obtain ⟨hcs, hst₄⟩ := checkChildren_sound hcfg hchildren hst₃.agrees
    rw [hst₂.names, Ty.subst_ofList] at hc
    rw [hst₃.names, hsame.registry] at hcs
    exact ⟨rfl, .intro hclose has hc hcs, hst₃.trans hst₄⟩

theorem inferAttributes_sound (hcfg : cfg.dynamicImports = false) :
    ∀ {attrs : List Attribute} {s s' : Run} {props : List (String × Ty)},
    Clean cfg A θ (inferAttributes attrs) s props s' → s.Agrees A θ →
    AttributesTyped cfg A s.names s.registry attrs
      (props.map fun field => (field.1, field.2.subst θ)) s'.registry ∧ Stays A θ s s'
  | [], _, _, _, h, hs => by
    obtain ⟨rfl, rfl⟩ := h.pure
    exact ⟨.nil, hs, rfl⟩
  | .string name value :: attrs, _, _, _, h, hs => by
    obtain ⟨field, s₁, hfield, hrest⟩ := h.bind
    obtain ⟨props, s₂, hprops, hend⟩ := hrest.bind
    obtain ⟨rfl, rfl⟩ := hend.pure
    obtain ⟨rfl, rfl⟩ := Clean.pure hfield
    obtain ⟨has, hst⟩ := inferAttributes_sound hcfg hprops hs
    exact ⟨.string has, hst⟩
  | .number name value :: attrs, _, _, _, h, hs => by
    obtain ⟨field, s₁, hfield, hrest⟩ := h.bind
    obtain ⟨props, s₂, hprops, hend⟩ := hrest.bind
    obtain ⟨rfl, rfl⟩ := hend.pure
    obtain ⟨rfl, rfl⟩ := Clean.pure hfield
    obtain ⟨has, hst⟩ := inferAttributes_sound hcfg hprops hs
    exact ⟨.number has, hst⟩
  | .expr name value :: attrs, _, _, _, h, hs => by
    obtain ⟨field, s₁, hfield, hrest⟩ := h.bind
    obtain ⟨props, s₂, hprops, hend⟩ := hrest.bind
    obtain ⟨rfl, rfl⟩ := hend.pure
    obtain ⟨t, s₃, hvalue, hend⟩ := Clean.bind hfield
    obtain ⟨rfl, rfl⟩ := hend.pure
    obtain ⟨ht, hst₁⟩ := inferExpr_sound hcfg hvalue hs
    obtain ⟨has, hst₂⟩ := inferAttributes_sound hcfg hprops hst₁.agrees
    rw [hst₁.names] at has
    exact ⟨.expr ht has, hst₁.trans hst₂⟩

theorem checkChildren_sound (hcfg : cfg.dynamicImports = false) :
    ∀ {children : List Child} {s s' : Run} {a : Unit},
    Clean cfg A θ (checkChildren children) s a s' → s.Agrees A θ →
    ChildrenTyped cfg A s.names s.registry children s'.registry ∧ Stays A θ s s'
  | [], _, _, _, h, hs => by
    obtain ⟨-, rfl⟩ := h.pure
    exact ⟨.nil, hs, rfl⟩
  | .text value :: children, _, _, _, h, hs => by
    obtain ⟨_, s₁, hchild, hrest⟩ := h.bind
    obtain ⟨-, rfl⟩ := Clean.pure hchild
    obtain ⟨hcs, hst⟩ := checkChildren_sound hcfg hrest hs
    exact ⟨.text hcs, hst⟩
  | .expr value :: children, _, _, _, h, hs => by
    obtain ⟨_, s₁, hchild, hrest⟩ := h.bind
    obtain ⟨t, s₂, hvalue, hend⟩ := Clean.bind hchild
    obtain ⟨-, rfl⟩ := hend.pure
    obtain ⟨ht, hst₁⟩ := inferExpr_sound hcfg hvalue hs
    obtain ⟨hcs, hst₂⟩ := checkChildren_sound hcfg hrest hst₁.agrees
    rw [hst₁.names] at hcs
    exact ⟨.expr ht hcs, hst₁.trans hst₂⟩
  | .element value :: children, _, _, _, h, hs => by
    obtain ⟨_, s₁, hchild, hrest⟩ := h.bind
    obtain ⟨t, s₂, hvalue, hend⟩ := Clean.bind hchild
    obtain ⟨-, rfl⟩ := hend.pure
    obtain ⟨-, hm, hst₁⟩ := inferMarkup_sound hcfg hvalue hs
    obtain ⟨hcs, hst₂⟩ := checkChildren_sound hcfg hrest hst₁.agrees
    rw [hst₁.names] at hcs
    exact ⟨.element hm hcs, hst₁.trans hst₂⟩

theorem checkStmts_sound (hcfg : cfg.dynamicImports = false) :
    ∀ {stmts : List Stmt} {s s' : Run} {a : Unit},
    Clean cfg A θ (checkStmts stmts) s a s' → s.Agrees A θ →
    StmtsTyped cfg A s.names s.registry stmts s'.names s'.registry ∧ s'.Agrees A θ
  | [], _, _, _, h, hs => by
    obtain ⟨-, rfl⟩ := h.pure
    exact ⟨.nil, hs⟩
  | stmt :: stmts, _, _, _, h, hs => by
    obtain ⟨_, s₁, hstmt, hrest⟩ := h.bind
    obtain ⟨ht, hs₁⟩ := checkStmt_sound hcfg hstmt hs
    obtain ⟨hts, hs₂⟩ := checkStmts_sound hcfg hrest hs₁
    exact ⟨.cons ht hts, hs₂⟩

theorem checkStmt_sound (hcfg : cfg.dynamicImports = false) :
    ∀ {stmt : Stmt} {s s' : Run} {a : Unit},
    Clean cfg A θ (checkStmt stmt) s a s' → s.Agrees A θ →
    StmtTyped cfg A s.names s.registry stmt s'.names s'.registry ∧ s'.Agrees A θ
  | .assign _ _ name value, _, _, _, h, hs => by
    obtain ⟨t, s₁, hvalue, hrest⟩ := h.bind
    obtain ⟨ht, hst⟩ := inferExpr_sound hcfg hvalue hs
    obtain ⟨hs₂, hn₂, hr₂, hname⟩ := declareAssigned_sound hrest hst.agrees
    rw [hn₂, hst.names, hr₂]
    exact ⟨.assign ht hname, hs₂⟩
  | .typeDecl _ name ty, _, _, _, h, hs => by
    obtain ⟨hd, hagrees, hnames⟩ := declareType_sound h hs
    rw [hnames]
    exact ⟨.typeDecl hd, hagrees⟩
  | .importFrom _ none names path, _, _, _, h, hs => by
    obtain ⟨_, s₁, hdefault, hrest⟩ := h.bind
    obtain ⟨-, rfl⟩ := Clean.pure hdefault
    obtain ⟨hagrees, hnames, hregistry, ht⟩ := declareImports_sound hrest hs
    rw [hnames, hregistry]
    exact ⟨.importFrom ht, hagrees⟩
  | .importFrom _ (some name) names path, s, s', a, h, hs => by
    have hall : Clean cfg A θ ((name :: names).forM (declareImport path)) s a s' := h
    obtain ⟨hagrees, hnames, hregistry, ht⟩ := declareImports_sound hall hs
    rw [hnames, hregistry]
    exact ⟨.importFrom ht, hagrees⟩
  | .exportNames _ names, _, _, _, h, hs => by
    obtain ⟨rfl, hnames⟩ := checkExports_sound h hs
    exact ⟨.exportNames hnames, hs⟩
  | .expr _ value, _, _, _, h, hs => by
    obtain ⟨t, s₁, hvalue, hend⟩ := h.bind
    obtain ⟨-, rfl⟩ := hend.pure
    obtain ⟨ht, hst⟩ := inferExpr_sound hcfg hvalue hs
    rw [hst.names]
    exact ⟨.expr ht, hst.agrees⟩
end

end Monotype.Check
