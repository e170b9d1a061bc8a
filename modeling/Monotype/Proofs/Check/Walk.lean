import Monotype.Proofs.Check.Vocabulary

/-! The walk over a program under a vocabulary. From a run that obeys it, every part of the walk
keeps to it at each of its steps, and gives types that fit the world there is then. The recursion
through the tree is gone through here once, for all vocabularies. -/
namespace Monotype.Vocabulary
open Check
variable {V : Vocabulary} {α β : Type} {cfg : Config} {w : World}

/-- The run obeys the vocabulary, and a variable that is about to be bound is an unbound one. -/
def Safe (V : Vocabulary) (act : Act) (run : Run) : Prop :=
  run.Obeys V ∧ ∀ v t, act = .store (.bind v t) → v < run.store.size ∧ run.store.lookup v = none

/-- From every run that obeys and whose world is at least `w`, `x` is safe at every step and leaves
such a run. Its answer then satisfies `post` in the world there is. -/
def Keeps (V : Vocabulary) (cfg : Config) (w : World) (x : Check α) (post : World → α → Prop) :
    Prop :=
  ∀ run : Run, run.Obeys V → w ≤ V.world run →
    Plan.Safe (Act.perform cfg) V.Safe x run fun r run' =>
      run'.Obeys V ∧ V.world run ≤ V.world run' ∧ ∀ a, r = .ok a → post (V.world run') a

/-- For parts that only change the state. -/
abbrev Runs (V : Vocabulary) (cfg : Config) (w : World) (x : Check α) : Prop :=
  V.Keeps cfg w x fun _ _ => True

namespace Keeps
variable {post mid : World → α → Prop} {goal : World → β → Prop}

theorem pure {a : α} (h : ∀ w', w ≤ w' → post w' a) : V.Keeps cfg w (pure a) post := by
  intro run hrun hle
  refine ⟨hrun, le_rfl, fun _ ha => ?_⟩
  obtain rfl := Except.ok.inj ha
  exact h _ hle

theorem throw (e : Malformed) : V.Keeps cfg w (throw e) post :=
  fun _ hrun _ => ⟨hrun, le_rfl, fun _ ha => by cases ha⟩

theorem bind {x : Check α} {f : α → Check β} (hx : V.Keeps cfg w x mid)
    (hf : ∀ a w', w ≤ w' → mid w' a → V.Keeps cfg w' (f a) goal) :
    V.Keeps cfg w (x >>= f) goal := by
  intro run hrun hle
  refine Plan.Safe.bind (f := ExceptT.bindCont f) (hx run hrun hle) ?_
  rintro (e | a) run' ⟨hrun', hgrow, hmid⟩
  · exact ⟨hrun', hgrow, fun _ ha => by cases ha⟩
  · refine (hf a _ (hle.trans hgrow) (hmid a rfl) run' hrun' le_rfl).mono ?_
    exact fun r run'' h => ⟨h.1, hgrow.trans h.2.1, h.2.2⟩

/-- An action that is asked for in terms of the world there is. -/
theorem act {a : Act} (hask : a.Asks w) : V.Keeps cfg w (act a) fun w' r => a.Gives w' r := by
  intro run hrun hle
  obtain ⟨hnext, hgrow, hgives⟩ := hrun.perform cfg a (hask.mono hle)
  refine ⟨⟨hrun, ?_⟩, hnext, hgrow, fun r hr => ?_⟩
  · rintro v t rfl
    exact hask.elim
  · obtain rfl := Except.ok.inj hr
    exact hgives

theorem imp {x : Check α} (h : V.Keeps cfg w x mid) (himp : ∀ w' a, mid w' a → post w' a) :
    V.Keeps cfg w x post := by
  intro run hrun hle
  refine (h run hrun hle).mono fun r run' hr => ?_
  exact ⟨hr.1, hr.2.1, fun a ha => himp _ a (hr.2.2 a ha)⟩

/-- An action whose answer does not matter. -/
theorem does {a : Act} (hask : a.Asks w) : V.Runs cfg w (Check.act a) :=
  (act hask).imp fun _ _ _ => trivial

/-- Going on with what the state is now. -/
theorem state {f : Run → Check β}
    (hf : ∀ run w', w ≤ w' → run.All (Ty.Fits w') →
      (∀ name d, run.registry.type? name = some d → name ∈ w'.names) →
      V.Keeps cfg w' (f run) goal) :
    V.Keeps cfg w (Check.state >>= f) goal :=
  .bind (.act (a := .state) trivial) fun run w' hle h => hf run w' hle h.1 h.2

theorem config {f : Config → Check β} (hf : V.Keeps cfg w (f cfg) goal) :
    V.Keeps cfg w (Check.config >>= f) goal := by
  intro run hrun hle
  exact ⟨⟨hrun, by simp⟩, hf run hrun hle⟩

theorem fresh : V.Keeps cfg w fresh Ty.Fits := .act (a := .store .fresh) trivial

theorem resolve {t : Ty} (ht : t.Fits w) : V.Keeps cfg w (resolve t) Ty.Fits :=
  .act (a := .store (.resolve t)) ht

theorem apply {t : Ty} (ht : t.Fits w) : V.Keeps cfg w (apply t) Ty.Fits :=
  .act (a := .store (.apply t)) ht

theorem reportWith (labels : List Label) (site : Site) (error : TypeError Ty) :
    V.Runs cfg w (reportWith labels site error) :=
  .does trivial

theorem report (site : Site) (error : TypeError Ty) : V.Runs cfg w (report site error) :=
  .reportWith [] site error

theorem recover (site : Site) (error : TypeError Ty) : V.Keeps cfg w (recover site error) Ty.Fits :=
  .bind (.report site error) fun _ _ _ _ => .fresh

theorem recordType (node : NodeId) {t : Ty} (ht : t.Fits w) : V.Runs cfg w (recordType node t) :=
  .does (a := .note node t) ht

theorem addSymbol (name : Ident) {t : Ty} (kind : SymbolKind) (ht : t.Fits w) :
    V.Runs cfg w (addSymbol name t kind) :=
  .does (a := .symbol _) ht

theorem bindLocal (name : Ident) {t : Ty} (ht : t.Fits w) : V.Runs cfg w (bindLocal name t) :=
  .does (a := .bindName _ _) ht

theorem declare (name : Ident) {t : Ty} (kind : SymbolKind) (ht : t.Fits w) :
    V.Runs cfg w (declare name t kind) :=
  .bind (.bindLocal name ht) fun _ _ hle _ => .addSymbol name kind (ht.mono hle)

theorem inScope {body : Check α} (h : ∀ w', w ≤ w' → V.Keeps cfg w' body post)
    (hpost : ∀ a w₁ w₂, w₁ ≤ w₂ → post w₁ a → post w₂ a) :
    V.Keeps cfg w (inScope body) post := by
  apply Keeps.bind (.does (a := .enter) trivial)
  intro _ w₁ hle _
  apply Keeps.bind (h w₁ hle)
  intro a w₂ _ ha
  apply Keeps.bind (.does (a := .leave) trivial)
  intro _ w₃ hle' _
  exact .pure fun w₄ hle'' => hpost a w₂ w₄ (hle'.trans hle'') ha

end Keeps

/-! ## Unification -/

/-- Where a unification that is safe by itself begins, the store fits. -/
theorem fits_of_keeps {x : Solve Unit} {st : Solving} (h : Solve.Keeps w x st) :
    st.store.Fits w := by
  cases x with
  | done a => exact h
  | step act next => exact h.1.1

/-- A unification that is safe by itself is safe as part of a run: it only replaces the store, by
one of the same variables. -/
theorem solving_safe (site : Site) {x : Solve Unit} {errors : Array (TypeError Ty)} {run : Run}
    (hrun : run.Obeys V) (h : Solve.Keeps (V.world run) x ⟨run.store, errors⟩) :
    Plan.Safe (Act.perform cfg) V.Safe (solving site x) run fun _ run' =>
      run'.Obeys V ∧ V.world run ≤ V.world run' := by
  induction x generalizing errors run with
  | done a => exact ⟨hrun, le_rfl⟩
  | step act next ih =>
    obtain ⟨⟨-, hbind⟩, hnext⟩ := h
    cases act with
    | store act =>
      obtain ⟨hrun', hworld⟩ := hrun.withStore (fits_of_keeps hnext)
      refine ⟨⟨hrun, fun v t heq => hbind v t (by cases heq; rfl)⟩, ?_⟩
      refine (ih _ hrun' (hworld ▸ hnext)).mono fun _ run' hr => ?_
      exact ⟨hr.1, hworld.ge.trans hr.2⟩
    | fail e =>
      have hrun' := (hrun.perform cfg (.report ⟨e, site, []⟩) trivial).1
      exact ⟨⟨hrun, by simp⟩, ih () hrun' hnext⟩

theorem Keeps.unify {l r : Ty} (site : Site) (hl : l.Fits w) (hr : r.Fits w) :
    V.Runs cfg w (unify l r site) := by
  apply Keeps.state
  intro run w' hle _ _
  apply Keeps.config
  intro run' hrun hle'
  have hkeeps : Solve.Keeps (V.world run') (Solve.unify run.store cfg.dynamicImports l r)
      { store := run'.store } :=
    Solve.unify_keeps run.store hrun.store (hl.mono (hle.trans hle')) (hr.mono (hle.trans hle'))
  refine Plan.Safe.bind (solving_safe site hrun hkeeps) fun _ run'' h => ?_
  exact ⟨h.1, h.2, fun _ _ => trivial⟩

theorem lookupValue_keeps (name : String) :
    V.Keeps cfg w (lookupValue name) fun w' t => ∀ u, t = some u → u.Fits w' := by
  apply Keeps.state
  intro run w' _ hall _
  split
  · next b hb => exact .pure fun _ hle u hu => Option.some.inj hu ▸ (hall.lookup hb).mono hle
  · apply Keeps.pure
    intro _ hle u hu
    obtain ⟨c, hc, rfl⟩ := Option.map_eq_some_iff.1 hu
    exact (hall.constructors name c hc).mono hle

theorem declaredHere_keeps (name : String) : V.Runs cfg w (declaredHere name) :=
  .state fun _ _ _ _ _ => .pure fun _ _ => trivial

theorem earlierBinding_keeps (name : String) : V.Runs cfg w (earlierBinding name) := by
  apply Keeps.state
  intro run w' _ _ _
  split <;> exact .pure fun _ _ => trivial

/-! ## Type declarations

What is written in a declaration is lowered before its name is declared, so the types that come out
may name one sum type more than the world has. -/

section TypeDecl
variable (self : Option String)

theorem lookupType_keeps (name : Ident) :
    V.Keeps cfg w (lookupType self name) fun w' t => t.Fits (w'.naming self) := by
  apply Keeps.state
  intro run w' _ hall hnames
  split
  · next declared hd =>
    have hfits : (declared.definition.toTy name.name).Fits w' :=
      TypeDef.fits_toTy (hall.types name.name declared hd) (hnames name.name declared hd)
    exact .pure fun w'' hle => hfits.mono (hle.trans (w''.le_naming self))
  · split
    · next hself => exact .pure fun _ _ => Ty.fits_adt.2 (.inl hself)
    · exact (Keeps.recover _ _).imp fun w'' _ ht => ht.mono (w''.le_naming self)

mutual
theorem lower_keeps : ∀ (w : World) (t : TypeExpr),
    V.Keeps cfg w (lower self t) fun w' u => u.Fits (w'.naming self)
  | _, .prim _ _ => .pure fun _ _ => Ty.fits_prim
  | _, .named _ name => lookupType_keeps self name
  | w, .record _ fields =>
    .bind (lowerFields_keeps w fields) fun _ _ _ hfs => .pure fun _ hle =>
      (Ty.fits_ofList hfs).naming_mono hle
  | w, .tuple _ items =>
    .bind (lowerList_keeps w items) fun _ _ _ hts => .pure fun _ hle =>
      (Ty.fits_tuple.2 hts).naming_mono hle
  | w, .fn _ params result =>
    .bind (lowerList_keeps w params) fun _ _ _ hps => .bind (lower_keeps _ result)
      fun _ _ hle hr => .pure fun _ hle' =>
        (Ty.fits_fn.2 ⟨fun t ht => (hps t ht).naming_mono hle, hr⟩).naming_mono hle'
  | _, .adt _ _ => (Keeps.recover _ _).imp fun w' _ ht => ht.mono (w'.le_naming self)

theorem lowerList_keeps : ∀ (w : World) (ts : List TypeExpr),
    V.Keeps cfg w (lowerList self ts) fun w' us => ∀ u ∈ us, u.Fits (w'.naming self)
  | _, [] => .pure fun _ _ => by simp
  | w, t :: ts =>
    .bind (lower_keeps w t) fun _ _ _ hu => .bind (lowerList_keeps _ ts) fun _ _ hle hus =>
      .pure fun _ hle' => List.forall_mem_cons.2
        ⟨hu.naming_mono (hle.trans hle'), fun u hmem => (hus u hmem).naming_mono hle'⟩

theorem lowerFields_keeps : ∀ (w : World) (fields : List TypeField),
    V.Keeps cfg w (lowerFields self fields) fun w' us => ∀ u ∈ us, u.2.Fits (w'.naming self)
  | _, [] => .pure fun _ _ => by simp
  | w, ⟨_, t⟩ :: fields =>
    .bind (lower_keeps w t) fun _ _ _ hu => .bind (lowerFields_keeps _ fields) fun _ _ hle hus =>
      .pure fun _ hle' => List.forall_mem_cons.2
        ⟨hu.naming_mono (hle.trans hle'), fun u hmem => (hus u hmem).naming_mono hle'⟩
end

end TypeDecl

theorem lowerPayload_keeps (adt : String) (payload : Payload) :
    V.Keeps cfg w (lowerPayload adt payload) fun w' ts =>
      (∀ t ∈ ts, t.Fits (w'.naming (some adt))) ∧ ts.length ≤ 1 := by
  cases payload with
  | none => exact .pure fun _ _ => by simp
  | prim p => exact .pure fun _ _ => by simp
  | named name =>
    exact .bind (lookupType_keeps _ name) fun _ _ _ ht => .pure fun _ hle => by
      simpa using ht.naming_mono hle
  | record fields =>
    exact .bind (lowerFields_keeps _ w fields) fun _ _ _ hfs => .pure fun _ hle => by
      simpa only [List.mem_singleton, forall_eq, List.length_singleton, le_refl, and_true] using
        (Ty.fits_ofList hfs).naming_mono hle

theorem lowerOptions_keeps (adt : String) : ∀ (w : World) (options : List AdtOption),
    V.Keeps cfg w (lowerOptions adt options) fun w' cs =>
      ∀ c ∈ cs, c.ty.Fits (w'.naming (some adt)) ∧ c.Formed adt
  | _, [] => .pure fun _ _ => by simp
  | w, option :: options => by
    apply Keeps.bind (lowerPayload_keeps adt option.payload)
    rintro params w₁ - ⟨hparams, hlength⟩
    apply Keeps.bind (lowerOptions_keeps adt w₁ options)
    intro cs w₂ hle hcs
    apply Keeps.pure
    intro w₃ hle'
    refine List.forall_mem_cons.2 ⟨⟨?_, Constructor.formed_ofParams adt _ _ hlength⟩, ?_⟩
    · exact Ty.fits_fn.2 ⟨fun t ht => (hparams t ht).naming_mono (hle.trans hle'),
        Ty.fits_adt.2 (.inl rfl)⟩
    · exact fun c hc => (hcs c hc).imp_left (·.naming_mono hle')

/-- What is lowered with no sum type in sight names none beside those of the world, so it may be
part of any declaration. -/
theorem lowerDef_keeps (name : String) (t : TypeExpr) :
    V.Keeps cfg w (lowerDef name t) fun w' d =>
      (∀ t ∈ d.parts, t.Fits (w'.naming (some name))) ∧ d.Formed name := by
  have hnone : ∀ {w' w'' : World} {t : Ty}, t.Fits (w'.naming none) → w' ≤ w'' →
      t.Fits (w''.naming (some name)) := fun {w' w'' _} ht hle =>
    (ht.naming_mono hle).mono (w''.naming_none_le _)
  cases t with
  | prim site p => exact .pure fun _ _ => ⟨by simp [TypeDef.parts], trivial⟩
  | named site other =>
    exact .bind (lookupType_keeps none other) fun _ _ _ ht => .pure fun _ hle =>
      ⟨by simpa [TypeDef.parts] using hnone ht hle, trivial⟩
  | record site fields =>
    refine .bind (lowerFields_keeps none w fields) fun fs _ _ hfs => .pure fun _ hle =>
      ⟨?_, trivial⟩
    intro t ht
    obtain ⟨field, hf, rfl⟩ := List.mem_map.1 ht
    exact hnone (Ty.fits_record.1 (Ty.fits_ofList hfs) field hf) hle
  | tuple site items =>
    exact .bind (lowerList_keeps none w items) fun ts _ _ hts => .pure fun _ hle =>
      ⟨fun t ht => hnone (hts t ht) hle, trivial⟩
  | fn site params result =>
    exact .bind (lowerList_keeps none w params) fun ps _ _ hps =>
      .bind (lower_keeps none _ result) fun r _ hle hr => .pure fun _ hle' =>
        ⟨List.forall_mem_cons.2 ⟨hnone hr hle', fun t ht => hnone (hps t ht) (hle.trans hle')⟩,
          trivial⟩
  | adt site options =>
    refine .bind (lowerOptions_keeps name w options) fun cs _ _ hcs => .pure fun _ hle =>
      ⟨?_, fun c hc => (hcs c hc).2⟩
    intro t ht
    obtain ⟨c, hc, rfl⟩ := List.mem_map.1 ht
    exact (hcs c hc).1.naming_mono hle

theorem declareConstructor_keeps (adt : String) (option : Ident) {c : Constructor}
    (hc : c.ty.Fits w) (hformed : c.Formed adt) :
    V.Runs cfg w (declareConstructor adt option c) := by
  apply Keeps.bind (.does (a := .register c) ⟨hc, hformed.self⟩)
  intro displaced w₁ hle _
  have hsymbol : ∀ w₂, w₁ ≤ w₂ → V.Runs cfg w₂ (addSymbol option c.ty .constructor) :=
    fun w₂ hle' => .addSymbol option .constructor (hc.mono (hle.trans hle'))
  apply Keeps.config
  split
  · split
    · split
      · exact .bind (.report _ _) fun _ w₂ hle' _ => hsymbol w₂ hle'
      · exact hsymbol w₁ le_rfl
    · exact hsymbol w₁ le_rfl
  · exact hsymbol w₁ le_rfl

theorem declareConstructors_keeps (adt : String) : ∀ (w : World) (options : List AdtOption)
    (cs : List Constructor), (∀ c ∈ cs, c.ty.Fits w ∧ c.Formed adt) →
    V.Runs cfg w (declareConstructors adt options cs)
  | _, [], _, _ => .pure fun _ _ => trivial
  | _, _ :: _, [], _ => .pure fun _ _ => trivial
  | w, option :: options, c :: cs, h => by
    rw [List.forall_mem_cons] at h
    apply Keeps.bind (declareConstructor_keeps adt option.name h.1.1 h.1.2)
    intro _ w' hle _
    exact declareConstructors_keeps adt w' options cs fun d hd => (h.2 d hd).imp_left (·.mono hle)

theorem declareType_keeps (name : Ident) (t : TypeExpr) :
    V.Runs cfg w (declareType name t) := by
  apply Keeps.bind (lowerDef_keeps name.name t)
  rintro d w₁ - ⟨hparts, hformed⟩
  apply Keeps.bind (.act (a := .declareType name.name d name.site.node) ⟨hparts, hformed⟩)
  intro _ w₂ hle hname
  -- from here on the name is declared, and the definition speaks of the world there is
  have hworld : w₁.naming (some name.name) ≤ w₂ :=
    (World.naming_mono hle _).trans (World.naming_le hname)
  have hfits : ∀ t ∈ d.parts, t.Fits w₂ := fun t ht => (hparts t ht).mono hworld
  apply Keeps.bind (.addSymbol name .type (TypeDef.fits_toTy hfits hname))
  intro _ w₃ hle' _
  split
  · next options cs =>
    apply declareConstructors_keeps name.name
    exact fun c hc => ⟨(hfits c.ty (List.mem_map_of_mem hc)).mono hle', hformed c hc⟩
  · exact .pure fun _ _ => trivial

/-! ## Patterns -/

theorem fits_literal (l : Literal) : l.ty.Fits w := by
  unfold Literal.ty
  split <;> exact Ty.fits_prim

theorem acceptPayload_keeps {param : Ty} (hp : param.Fits w) (pattern : Pattern) :
    V.Runs cfg w (acceptPayload param pattern) := by
  cases pattern with
  | wildcard site => exact .pure fun _ _ => trivial
  | literal site l => exact .unify site hp (fits_literal l)
  | binding site name => exact .declare name .var hp
  | constructor site name args => exact .report site _

theorem acceptArgs_keeps (site : Site) (name : String) {params : List Ty}
    (hps : ∀ t ∈ params, t.Fits w) (args : List Pattern) :
    V.Runs cfg w (acceptArgs site name params args) := by
  unfold acceptArgs
  split
  · split
    · exact .pure fun _ _ => trivial
    · exact .report _ _
  · split
    · exact acceptPayload_keeps (hps _ (by simp)) _
    · apply Keeps.bind (.report _ _)
      intro _ w' _ _
      split
      · exact .bind .fresh fun _ _ _ ht => .bindLocal _ ht
      · exact .pure fun _ _ => trivial
  · exact .report _ _

theorem acceptSum_keeps (adt : String) {scrutinee : Ty} (hs : scrutinee.Fits w)
    (pattern : Pattern) : V.Runs cfg w (acceptSum adt scrutinee pattern) := by
  cases pattern with
  | wildcard site => exact .pure fun _ _ => trivial
  | literal site l => exact .unify site (fits_literal l) hs
  | binding site name => exact .report site _
  | constructor site name args =>
    apply Keeps.state
    intro run w' _ hall _
    split
    · next c hc =>
      exact acceptArgs_keeps site _ (Constructor.fits_params (hall.constructorOf hc)) args
    · exact .report _ _

theorem acceptLiteral_keeps {scrutinee : Ty} (hs : scrutinee.Fits w) (pattern : Pattern) :
    V.Runs cfg w (acceptLiteral scrutinee pattern) := by
  unfold acceptLiteral
  split
  · exact .unify _ (fits_literal _) hs
  · exact .pure fun _ _ => trivial

theorem checkExhaustive_keeps (site : Site) (adt : String) (patterns : List Pattern) :
    V.Runs cfg w (checkExhaustive site adt patterns) := by
  unfold checkExhaustive
  split
  · exact .pure fun _ _ => trivial
  · apply Keeps.state
    intro run w' _ _ _
    split
    · exact .pure fun _ _ => trivial
    · dsimp only
      split
      · exact .pure fun _ _ => trivial
      · exact .report _ _

/-! ## Inference -/

theorem inferIdent_keeps (name : Ident) : V.Keeps cfg w (inferIdent name) Ty.Fits := by
  apply Keeps.bind (lookupValue_keeps name.name)
  intro t w' _ ht
  split
  · exact .pure fun _ hle => (ht _ rfl).mono hle
  · exact .recover _ _

theorem inferMember_keeps (site : Site) {current : Ty} (member : String) (hc : current.Fits w) :
    V.Keeps cfg w (inferMember site current member) Ty.Fits := by
  apply Keeps.bind (.resolve hc)
  intro t w' _ ht
  split
  · split
    · next hlookup => exact .pure fun _ hle => (ht.lookup hlookup).mono hle
    · exact .recover _ _
  · apply Keeps.config
    split
    · exact .fresh
    · exact .bind (.apply ht) fun _ _ _ _ => .recover _ _

theorem inferElement_keeps (site : Site) {current : Ty} (hc : current.Fits w) :
    V.Keeps cfg w (inferElement site current) Ty.Fits := by
  apply Keeps.bind (.resolve hc)
  intro t w' _ ht
  split
  · exact .fresh
  · apply Keeps.config
    split
    · exact .fresh
    · exact .bind (.apply ht) fun _ _ _ _ => .recover _ _

theorem inferOperation_keeps (site rhs : Site) (op : String) {left right : Ty}
    (hl : left.Fits w) (hr : right.Fits w) :
    V.Keeps cfg w (inferOperation site rhs op left right) Ty.Fits := by
  -- both operands are compared with one ground type
  have hboth : ∀ p q : Prim, V.Keeps cfg w (do
      unify (.prim p) left site
      unify (.prim p) right rhs
      return .prim q) Ty.Fits := fun p q =>
    .bind (.unify site Ty.fits_prim hl) fun _ _ hle _ =>
      .bind (.unify rhs Ty.fits_prim (hr.mono hle)) fun _ _ _ _ => .pure fun _ _ => Ty.fits_prim
  unfold inferOperation
  split
  · exact hboth _ _
  · exact hboth _ _
  · exact .bind (.unify rhs hl hr) fun _ _ _ _ => .pure fun _ _ => Ty.fits_prim
  · exact hboth _ _
  · exact .recover _ _

theorem declareParams_keeps : ∀ (w : World) (params : List Ident),
    V.Keeps cfg w (declareParams params) fun w' ts => ∀ t ∈ ts, t.Fits w'
  | _, [] => .pure fun _ _ => by simp
  | w, param :: params => by
    apply Keeps.bind .fresh
    intro t w₁ _ ht
    apply Keeps.bind (.declare param .param ht)
    intro _ w₂ hle _
    apply Keeps.bind (declareParams_keeps w₂ params)
    intro ts w₃ hle' hts
    apply Keeps.pure
    intro w₄ hle''
    exact List.forall_mem_cons.2
      ⟨ht.mono (hle.trans (hle'.trans hle'')), fun u hu => (hts u hu).mono hle''⟩

theorem declareImport_keeps (path : String) (name : Ident) :
    V.Runs cfg w (declareImport path name) := by
  apply Keeps.bind (declaredHere_keeps name.name)
  intro here w' _ _
  split
  · exact .bind (earlierBinding_keeps name.name) fun _ _ _ _ => .reportWith _ _ _
  · exact .declare name .imported Ty.fits_external

theorem checkExport_keeps (name : Ident) : V.Runs cfg w (checkExport name) := by
  apply Keeps.bind (lookupValue_keeps name.name)
  intro t w' _ _
  split
  · exact .report _ _
  · exact .pure fun _ _ => trivial

theorem declareAssigned_keeps (name : Ident) {t : Ty} (ht : t.Fits w) :
    V.Runs cfg w (declareAssigned name t) := by
  apply Keeps.config
  apply Keeps.bind (declaredHere_keeps name.name)
  intro here w₁ hle _
  dsimp only
  split
  · apply Keeps.bind (earlierBinding_keeps name.name)
    intro labels w₂ hle' _
    apply Keeps.bind (.reportWith _ _ _)
    intro _ w₃ hle'' _
    exact .declare name .var (ht.mono (hle.trans (hle'.trans hle'')))
  · exact .declare name .var (ht.mono hle)

theorem checkClosing_keeps (site : Site) (name : Ident) (closing : Option Ident) :
    V.Runs cfg w (checkClosing site name closing) := by
  cases closing with
  | none => exact .pure fun _ _ => trivial
  | some closing =>
    simp only [checkClosing]
    split
    · exact .pure fun _ _ => trivial
    · exact .throw _

theorem checkComponent_keeps (name : Ident) {props : Ty} (hp : props.Fits w) :
    V.Runs cfg w (checkComponent name props) := by
  apply Keeps.config
  split
  · exact .pure fun _ _ => trivial
  · apply Keeps.bind (lookupValue_keeps name.name)
    intro t w' hle ht
    split
    · refine .unify _ (ht _ rfl) (Ty.fits_fn.2 ⟨?_, Ty.fits_prim⟩)
      simpa using hp.mono hle
    · exact .report _ _

theorem forM_keeps {xs : List α} {f : α → Check Unit}
    (h : ∀ w', ∀ x ∈ xs, V.Runs cfg w' (f x)) : V.Runs cfg w (xs.forM f) := by
  induction xs generalizing w with
  | nil => exact .pure fun _ _ => trivial
  | cons x xs ih =>
    apply Keeps.bind (h w x List.mem_cons_self)
    intro _ w' _ _
    exact ih fun w'' y hy => h w'' y (List.mem_cons_of_mem _ hy)

theorem fits_inScope {body : Check Ty} (h : ∀ w', w ≤ w' → V.Keeps cfg w' body Ty.Fits) :
    V.Keeps cfg w (inScope body) Ty.Fits :=
  .inScope h fun _ _ _ hle ht => ht.mono hle

mutual
theorem inferExpr_keeps : ∀ (w : World) (e : Expr), V.Keeps cfg w (inferExpr e) Ty.Fits
  | w, ⟨site, primary, tails⟩ => by
    apply Keeps.bind (inferPrimary_keeps w primary)
    intro t w₁ _ ht
    apply Keeps.bind (.recordType primary.site.node ht)
    intro _ w₂ hle _
    apply Keeps.bind (inferTails_keeps w₂ (ht.mono hle) tails)
    intro u w₃ _ hu
    apply Keeps.bind (.recordType site.node hu)
    intro _ w₄ hle' _
    exact .pure fun _ hle'' => hu.mono (hle'.trans hle'')

theorem inferExprs_keeps : ∀ (w : World) (es : List Expr),
    V.Keeps cfg w (inferExprs es) fun w' ts => ∀ t ∈ ts, t.Fits w'
  | _, [] => .pure fun _ _ => by simp
  | w, e :: es => by
    apply Keeps.bind (inferExpr_keeps w e)
    intro t w₁ _ ht
    apply Keeps.bind (inferExprs_keeps w₁ es)
    intro ts w₂ hle hts
    apply Keeps.pure
    intro w₃ hle'
    exact List.forall_mem_cons.2 ⟨ht.mono (hle.trans hle'), fun u hu => (hts u hu).mono hle'⟩

theorem inferPrimary_keeps : ∀ (w : World) (p : Primary), V.Keeps cfg w (inferPrimary p) Ty.Fits
  | _, .ident _ name => inferIdent_keeps name
  | _, .literal _ l => .pure fun _ _ => fits_literal l
  | w, .paren _ inner => inferExpr_keeps w inner
  | w, .block _ body => inferBlock_keeps w body
  | w, .record _ entries =>
    .bind (inferEntries_keeps w entries) fun _ _ _ hfs => .pure fun _ hle =>
      (Ty.fits_ofList hfs).mono hle
  | w, .array _ items =>
    .bind (inferExprs_keeps w items) fun _ _ _ hts => .pure fun _ hle =>
      (Ty.fits_tuple.2 hts).mono hle
  | w, .function _ params body => by
    apply fits_inScope
    intro w₁ _
    apply Keeps.bind (declareParams_keeps w₁ params)
    intro ts w₂ _ hts
    apply Keeps.bind (inferExpr_keeps w₂ body)
    intro t w₃ hle ht
    apply Keeps.pure
    intro w₄ hle'
    exact (Ty.fits_fn.2 ⟨fun u hu => (hts u hu).mono hle, ht⟩).mono hle'
  | w, .ifChain site branches otherwise => by
    have hrest : ∀ w', V.Keeps cfg w' (do
        let result ← Check.fresh
        inferBranches result branches
        inferOtherwise result otherwise
        return result) Ty.Fits := fun w' =>
      .bind .fresh fun _ _ _ ht => .bind (inferBranches_keeps _ ht branches) fun _ _ hle _ =>
        .bind (inferOtherwise_keeps _ (ht.mono hle) otherwise) fun _ _ hle' _ =>
          .pure fun _ hle'' => ht.mono (hle.trans (hle'.trans hle''))
    simp only [inferPrimary]
    split
    · have hthrow : V.Runs cfg w (throw (.noBranches site.node) : Check Unit) := .throw _
      exact .bind hthrow fun _ w' _ _ => hrest w'
    · exact hrest w
  | w, .matchOn site scrutinee arms => by
    apply Keeps.bind (inferExpr_keeps w scrutinee)
    intro t w₁ _ ht
    apply Keeps.bind (.resolve ht)
    intro u w₂ hle hu
    apply Keeps.state
    intro run w₃ hle' _ _
    have ht' := ht.mono (hle.trans hle')
    dsimp only
    split
    · next adt _ =>
      apply Keeps.bind .fresh
      intro result w₄ hle'' hr
      apply Keeps.bind (inferArms_keeps w₄
        (fun _ hk => acceptSum_keeps adt (ht'.mono (hle''.trans hk))) hr arms)
      intro _ w₅ hk _
      apply Keeps.config
      split
      · exact .bind (checkExhaustive_keeps _ _ _) fun _ _ hk' _ => .apply (hr.mono (hk.trans hk'))
      · exact .apply (hr.mono hk)
    · apply Keeps.bind .fresh
      intro result w₄ hle'' hr
      apply Keeps.bind (inferArms_keeps w₄
        (fun _ hk => acceptLiteral_keeps (ht'.mono (hle''.trans hk))) hr arms)
      intro _ w₅ hk _
      exact .apply (hr.mono hk)
    · exact .bind (.apply (hu.mono hle')) fun _ _ _ _ => .recover _ _
  | w, .markup _ element => inferMarkup_keeps w element

theorem inferBlock_keeps : ∀ (w : World) (b : Block), V.Keeps cfg w (inferBlock b) Ty.Fits
  | _, ⟨_, statements, result⟩ =>
    fits_inScope fun w' _ => .bind (checkStmts_keeps w' statements) fun _ _ _ _ =>
      inferResult_keeps _ result

theorem inferResult_keeps : ∀ (w : World) (result : Option Expr),
    V.Keeps cfg w (inferResult result) Ty.Fits
  | w, some e => inferExpr_keeps w e
  | _, none => .fresh

theorem inferEntries_keeps : ∀ (w : World) (entries : List Entry),
    V.Keeps cfg w (inferEntries entries) fun w' fs => ∀ f ∈ fs, f.2.Fits w'
  | _, [] => .pure fun _ _ => by simp
  | w, ⟨_, value⟩ :: entries => by
    apply Keeps.bind (inferExpr_keeps w value)
    intro t w₁ _ ht
    apply Keeps.bind (inferEntries_keeps w₁ entries)
    intro fs w₂ hle hfs
    apply Keeps.pure
    intro w₃ hle'
    exact List.forall_mem_cons.2 ⟨ht.mono (hle.trans hle'), fun f hf => (hfs f hf).mono hle'⟩

theorem inferBranches_keeps : ∀ (w : World) {result : Ty}, result.Fits w →
    ∀ branches : List Branch, V.Runs cfg w (inferBranches result branches)
  | _, _, _, [] => .pure fun _ _ => trivial
  | w, _, hr, ⟨_, condition, body⟩ :: branches => by
    apply Keeps.bind (inferExpr_keeps w condition)
    intro t w₁ hle ht
    apply Keeps.bind (.unify condition.site Ty.fits_prim ht)
    intro _ w₂ hle' _
    apply Keeps.bind (inferExpr_keeps w₂ body)
    intro u w₃ hle'' hu
    have hr' := hr.mono (hle.trans (hle'.trans hle''))
    apply Keeps.bind (.unify body.site hr' hu)
    intro _ w₄ hk _
    exact inferBranches_keeps w₄ (hr'.mono hk) branches

theorem inferOtherwise_keeps : ∀ (w : World) {result : Ty}, result.Fits w →
    ∀ otherwise : Option Expr, V.Runs cfg w (inferOtherwise result otherwise)
  | _, _, _, none => .pure fun _ _ => trivial
  | w, _, hr, some body =>
    .bind (inferExpr_keeps w body) fun _ _ hle hu => .unify body.site (hr.mono hle) hu

theorem inferArms_keeps : ∀ (w : World) {accept : Pattern → Check Unit} {result : Ty},
    (∀ w', w ≤ w' → ∀ pattern, V.Runs cfg w' (accept pattern)) → result.Fits w →
    ∀ arms : List Arm, V.Runs cfg w (inferArms accept result arms)
  | _, _, _, _, _, [] => .pure fun _ _ => trivial
  | w, accept, result, ha, hr, ⟨_, pattern, body⟩ :: arms => by
    have harm : ∀ w', w ≤ w' → V.Runs cfg w' (do
        accept pattern
        let t ← inferExpr body
        unify result t body.site) := fun w' hle =>
      .bind (ha w' hle pattern) fun _ w₁ hk _ => .bind (inferExpr_keeps w₁ body) fun _ _ hk' hu =>
        .unify body.site (hr.mono (hle.trans (hk.trans hk'))) hu
    apply Keeps.bind (.inScope harm fun _ _ _ _ h => h)
    intro _ w₁ hle _
    exact inferArms_keeps w₁ (fun w' hk => ha w' (hle.trans hk)) (hr.mono hle) arms

theorem inferTails_keeps : ∀ (w : World) {current : Ty}, current.Fits w →
    ∀ tails : List Tail, V.Keeps cfg w (inferTails current tails) Ty.Fits
  | _, _, hc, [] => .pure fun _ hle => hc.mono hle
  | w, _, hc, tail :: tails => by
    apply Keeps.bind (inferTail_keeps w hc tail)
    intro t w₁ _ ht
    apply Keeps.bind (.recordType tail.site.node ht)
    intro _ w₂ hle _
    exact inferTails_keeps w₂ (ht.mono hle) tails

theorem inferTail_keeps : ∀ (w : World) {current : Ty}, current.Fits w →
    ∀ tail : Tail, V.Keeps cfg w (inferTail current tail) Ty.Fits
  | _, _, hc, .member site name => inferMember_keeps site name.name hc
  | w, _, hc, .index site index => by
    apply Keeps.bind (inferExpr_keeps w index)
    intro t w₁ hle ht
    apply Keeps.bind (.unify index.site Ty.fits_prim ht)
    intro _ w₂ hle' _
    exact inferElement_keeps site (hc.mono (hle.trans hle'))
  | w, _, hc, .call site args => by
    apply Keeps.bind (inferExprs_keeps w args)
    intro ts w₁ hle hts
    apply Keeps.bind .fresh
    intro result w₂ hle' hr
    apply Keeps.bind (.unify site (hc.mono (hle.trans hle'))
      (Ty.fits_fn.2 ⟨fun t ht => (hts t ht).mono hle', hr⟩))
    intro _ w₃ hk _
    exact .pure fun _ hk' => hr.mono (hk.trans hk')
  | w, _, hc, .operation site op rhs =>
    .bind (inferExpr_keeps w rhs) fun _ _ hle hr =>
      inferOperation_keeps site rhs.site op (hc.mono hle) hr

theorem inferMarkup_keeps : ∀ (w : World) (element : Markup),
    V.Keeps cfg w (inferMarkup element) Ty.Fits
  | w, ⟨site, name, attributes, children, closing⟩ => by
    apply Keeps.bind (checkClosing_keeps site name closing)
    intro _ w₁ _ _
    apply Keeps.bind (inferAttributes_keeps w₁ attributes)
    intro props w₂ _ hp
    apply Keeps.bind (checkComponent_keeps name (Ty.fits_ofList hp))
    intro _ w₃ _ _
    exact .bind (checkChildren_keeps w₃ children) fun _ _ _ _ => .pure fun _ _ => Ty.fits_prim

theorem inferAttributes_keeps : ∀ (w : World) (attrs : List Attribute),
    V.Keeps cfg w (inferAttributes attrs) fun w' fs => ∀ f ∈ fs, f.2.Fits w'
  | _, [] => .pure fun _ _ => by simp
  | w, attr :: attrs => by
    apply Keeps.bind (inferAttribute_keeps w attr)
    intro field w₁ _ hf
    apply Keeps.bind (inferAttributes_keeps w₁ attrs)
    intro fs w₂ hle hfs
    apply Keeps.pure
    intro w₃ hle'
    exact List.forall_mem_cons.2 ⟨hf.mono (hle.trans hle'), fun f hf => (hfs f hf).mono hle'⟩

theorem inferAttribute_keeps : ∀ (w : World) (attr : Attribute),
    V.Keeps cfg w (inferAttribute attr) fun w' f => f.2.Fits w'
  | _, .string _ _ => .pure fun _ _ => Ty.fits_prim
  | _, .number _ _ => .pure fun _ _ => Ty.fits_prim
  | w, .expr _ value =>
    .bind (inferExpr_keeps w value) fun _ _ _ ht => .pure fun _ hle => ht.mono hle

theorem checkChildren_keeps : ∀ (w : World) (children : List Child),
    V.Runs cfg w (checkChildren children)
  | _, [] => .pure fun _ _ => trivial
  | w, child :: children =>
    .bind (checkChild_keeps w child) fun _ _ _ _ => checkChildren_keeps _ children

theorem checkChild_keeps : ∀ (w : World) (child : Child), V.Runs cfg w (checkChild child)
  | _, .text _ => .pure fun _ _ => trivial
  | w, .expr value => .bind (inferExpr_keeps w value) fun _ _ _ _ => .pure fun _ _ => trivial
  | w, .element value => .bind (inferMarkup_keeps w value) fun _ _ _ _ => .pure fun _ _ => trivial

theorem checkStmts_keeps : ∀ (w : World) (stmts : List Stmt), V.Runs cfg w (checkStmts stmts)
  | _, [] => .pure fun _ _ => trivial
  | w, stmt :: stmts =>
    .bind (checkStmt_keeps w stmt) fun _ _ _ _ => checkStmts_keeps _ stmts

theorem checkStmt_keeps : ∀ (w : World) (stmt : Stmt), V.Runs cfg w (checkStmt stmt)
  | w, .assign _ _ name value =>
    .bind (inferExpr_keeps w value) fun _ _ _ ht => declareAssigned_keeps name ht
  | _, .typeDecl _ name ty => declareType_keeps name ty
  | w, .importFrom _ default names path => by
    have hdefault : V.Runs cfg w (default.forM (declareImport path)) := by
      cases default with
      | none => exact .pure fun _ _ => trivial
      | some name => exact declareImport_keeps path name
    exact .bind hdefault fun _ _ _ _ => forM_keeps fun _ name _ => declareImport_keeps path name
  | _, .exportNames _ _ => forM_keeps fun _ name _ => checkExport_keeps name
  | w, .expr _ value => .bind (inferExpr_keeps w value) fun _ _ _ _ => .pure fun _ _ => trivial
end

/-! ## The whole run -/

theorem applySymbols_keeps : ∀ (w : World) (symbols : List Symbol),
    (∀ symbol ∈ symbols, symbol.ty.Fits w) → V.Runs cfg w (applySymbols symbols)
  | _, [], _ => .pure fun _ _ => trivial
  | w, symbol :: symbols, h => by
    rw [List.forall_mem_cons] at h
    apply Keeps.bind (.apply h.1)
    intro _ w' hle _
    apply Keeps.bind (applySymbols_keeps w' symbols fun other ho => (h.2 other ho).mono hle)
    exact fun _ _ _ _ => .pure fun _ _ => trivial

theorem applyNodeTypes_keeps : ∀ (w : World) (notes : List (NodeId × Ty)),
    (∀ note ∈ notes, note.2.Fits w) → V.Runs cfg w (applyNodeTypes notes)
  | _, [], _ => .pure fun _ _ => trivial
  | w, (_, _) :: notes, h => by
    rw [List.forall_mem_cons] at h
    apply Keeps.bind (.apply h.1)
    intro _ w' hle _
    apply Keeps.bind (applyNodeTypes_keeps w' notes fun other ho => (h.2 other ho).mono hle)
    exact fun _ _ _ _ => .pure fun _ _ => trivial

theorem finish_keeps : V.Runs cfg w finish := by
  apply Keeps.state
  intro run w' _ hall _
  apply Keeps.bind (applySymbols_keeps w' _ fun symbol hs => ?_)
  · intro _ w'' hle _
    apply Keeps.bind (applyNodeTypes_keeps w'' _ fun note hn => ?_)
    · exact fun _ _ _ _ => .pure fun _ _ => trivial
    · have hget := Std.TreeMap.mem_toList_iff_getElem?_eq_some.1 hn
      exact (hall.nodeTypes note.1 note.2 hget).mono hle
  · exact hall.symbols symbol (Array.mem_toList_iff.1 hs)

theorem program_keeps (p : Program) : V.Runs cfg w (program p) :=
  .bind (checkStmts_keeps w p) fun _ _ _ _ => finish_keeps

/-- Statements that are gone through without an end of the run leave a run that obeys. -/
theorem obeys_checkStmts {stmts : List Stmt} {s s' : Run} (h : s.Obeys V)
    (hrun : (checkStmts stmts).run cfg s = (.ok (), s')) : s'.Obeys V := by
  have hend : ((checkStmts stmts).run cfg s).2.Obeys V :=
    (checkStmts_keeps (V.world s) stmts s h le_rfl).run.1
  rw [hrun] at hend
  exact hend

end Monotype.Vocabulary
