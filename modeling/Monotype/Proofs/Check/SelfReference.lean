import Monotype.Proofs.Check.Exhaustive

/-! What the names in a declaration of a sum type stand for. They are looked up before the sum type
is entered: a name that is declared is what it was declared as, and only where it is not, it can be
the sum type itself. So a declaration that takes over the name of another type refers to that. -/
namespace Monotype

/-! ## Written types -/

mutual
/-- Read with `R` for names, the written type can be `t`. A sum type inside another type has no
meaning. -/
def TypeExpr.Reads (R : String → Ty → Prop) : TypeExpr → Ty → Prop
  | .prim _ p, t => t = .prim p
  | .named _ name, t => R name.name t
  | .record _ fields, t =>
    ∃ entries, t = .record (Fields.ofList entries) ∧ TypeField.ReadsAll R fields entries
  | .tuple _ items, t => ∃ ts, t = .tuple ts ∧ TypeExpr.ReadsAll R items ts
  | .fn _ params result, t =>
    ∃ ps r, t = .fn ps r ∧ TypeExpr.ReadsAll R params ps ∧ result.Reads R r
  | .adt _ _, t => ∃ v, t = .var v

def TypeExpr.ReadsAll (R : String → Ty → Prop) : List TypeExpr → List Ty → Prop
  | [], ts => ts = []
  | item :: items, ts => ∃ t rest, ts = t :: rest ∧ item.Reads R t ∧ TypeExpr.ReadsAll R items rest

def TypeField.ReadsAll (R : String → Ty → Prop) : List TypeField → List (String × Ty) → Prop
  | [], entries => entries = []
  | ⟨name, ty⟩ :: fields, entries =>
    ∃ t rest, entries = (name.name, t) :: rest ∧ ty.Reads R t ∧ TypeField.ReadsAll R fields rest
end

/-- Read with `R` for names, a payload can make these parameters. -/
def Payload.Reads (R : String → Ty → Prop) : Payload → List Ty → Prop
  | .none, params => params = []
  | .prim p, params => params = [.prim p]
  | .named name, params => ∃ t, params = [t] ∧ R name.name t
  | .record fields, params =>
    ∃ entries, params = [.record (Fields.ofList entries)] ∧ TypeField.ReadsAll R fields entries

/-- The option can make the constructor `c` of the sum type `adt`, with `R` for names. -/
def AdtOption.Makes (R : String → Ty → Prop) (adt : String) (option : AdtOption)
    (c : Constructor) : Prop :=
  ∃ params, c = .ofParams adt option.name.name params option.name.site.node ∧
    option.payload.Reads R params

mutual
theorem TypeExpr.Reads.mono {R R' : String → Ty → Prop} (hle : ∀ n t, R n t → R' n t) :
    ∀ {ty : TypeExpr} {t : Ty}, ty.Reads R t → ty.Reads R' t
  | .prim _ _, _, h => h
  | .named _ _, _, h => hle _ _ h
  | .record _ _, _, ⟨entries, ht, h⟩ => ⟨entries, ht, TypeField.ReadsAll.mono hle h⟩
  | .tuple _ _, _, ⟨ts, ht, h⟩ => ⟨ts, ht, TypeExpr.ReadsAll.mono hle h⟩
  | .fn _ _ _, _, ⟨ps, r, ht, hps, hr⟩ =>
    ⟨ps, r, ht, TypeExpr.ReadsAll.mono hle hps, TypeExpr.Reads.mono hle hr⟩
  | .adt _ _, _, h => h

theorem TypeExpr.ReadsAll.mono {R R' : String → Ty → Prop} (hle : ∀ n t, R n t → R' n t) :
    ∀ {items : List TypeExpr} {ts : List Ty}, TypeExpr.ReadsAll R items ts →
      TypeExpr.ReadsAll R' items ts
  | [], _, h => h
  | _ :: _, _, ⟨t, rest, hts, ht, hrest⟩ =>
    ⟨t, rest, hts, TypeExpr.Reads.mono hle ht, TypeExpr.ReadsAll.mono hle hrest⟩

theorem TypeField.ReadsAll.mono {R R' : String → Ty → Prop} (hle : ∀ n t, R n t → R' n t) :
    ∀ {fields : List TypeField} {entries : List (String × Ty)},
      TypeField.ReadsAll R fields entries → TypeField.ReadsAll R' fields entries
  | [], _, h => h
  | ⟨_, _⟩ :: _, _, ⟨t, rest, hentries, ht, hrest⟩ =>
    ⟨t, rest, hentries, TypeExpr.Reads.mono hle ht, TypeField.ReadsAll.mono hle hrest⟩
end

theorem Payload.Reads.mono {R R' : String → Ty → Prop} (hle : ∀ n t, R n t → R' n t)
    {payload : Payload} {params : List Ty} (h : payload.Reads R params) :
    payload.Reads R' params := by
  cases payload with
  | none => exact h
  | prim p => exact h
  | named name =>
    obtain ⟨t, hparams, ht⟩ := h
    exact ⟨t, hparams, hle _ _ ht⟩
  | record fields =>
    obtain ⟨entries, hparams, hentries⟩ := h
    exact ⟨entries, hparams, hentries.mono hle⟩

theorem AdtOption.Makes.mono {R R' : String → Ty → Prop} {adt : String} {option : AdtOption}
    {c : Constructor} (hle : ∀ n t, R n t → R' n t) (h : option.Makes R adt c) :
    option.Makes R' adt c := by
  obtain ⟨params, hc, hparams⟩ := h
  exact ⟨params, hc, hparams.mono hle⟩

/-- What a name can stand for in a type that is written in the declaration of `self`. -/
def Registry.Means (r : Registry) (self : String) (name : String) (t : Ty) : Prop :=
  match r.type? name with
  | some declared => t = declared.definition.toTy name
  | none => if self = name then t = .adt name else ∃ v, t = .var v

/-- What `name` stands for in its own declaration as a sum type. -/
def Registry.selfType (r : Registry) (name : String) : Ty :=
  match r.type? name with
  | some declared => declared.definition.toTy name
  | none => .adt name

theorem Registry.means_self_iff {r : Registry} {name : String} {t : Ty} :
    r.Means name name t ↔ t = r.selfType name := by
  unfold Means selfType
  split
  · rfl
  · rw [if_pos rfl]

/-- The name stands for the sum type that is being declared unless it is declared already, and not
as a sum type or as another name for one of this name. -/
theorem Registry.selfType_eq_iff {r : Registry} {name : String} :
    r.selfType name = .adt name ↔
      ∀ declared, r.type? name = some declared →
        (∃ constructors, declared.definition = .adt constructors) ∨
          declared.definition = .synonym (.adt name) := by
  unfold selfType
  cases r.type? name with
  | none => simp
  | some declared =>
    simp only [Option.some.injEq, forall_eq']
    cases declared.definition <;> simp [TypeDef.toTy]

namespace Check
variable {α β : Type} {cfg : Config} {r : Registry} {self : String}

/-- With the types of `r`, `x` always ends well, with an answer as `P` says, leaves the types as
they are, and does not complain that `self` is undefined. -/
def Lowers (cfg : Config) (r : Registry) (self : String) (x : Check α) (P : α → Prop) : Prop :=
  ∀ s : Run, s.registry.types = r.types →
    ∃ a s', x.run cfg s = (.ok a, s') ∧ s'.registry.types = r.types ∧
      (∀ report ∈ reported (log cfg x s), report.error ≠ .undefinedType self) ∧ P a

namespace Lowers
variable {P : α → Prop} {Q : β → Prop}

theorem pure {a : α} (h : P a) : Lowers cfg r self (pure a) P :=
  fun s hs => ⟨a, s, rfl, hs, by simp [reported], h⟩

theorem bind {x : Check α} {f : α → Check β} (hx : Lowers cfg r self x P)
    (hf : ∀ a, P a → Lowers cfg r self (f a) Q) : Lowers cfg r self (x >>= f) Q := by
  intro s hs
  obtain ⟨a, s₁, hfirst, hs₁, hquiet, ha⟩ := hx s hs
  obtain ⟨b, s₂, hrest, hs₂, hquiet', hb⟩ := hf a ha s₁ hs₁
  obtain ⟨hrun, hreported⟩ := run_bind_of_ok (f := f) hfirst
  refine ⟨b, s₂, hrun.trans hrest, hs₂, ?_, hb⟩
  rw [hreported, List.forall_mem_append]
  exact ⟨hquiet, hquiet'⟩

theorem recover (site : Site) {error : TypeError Ty} (h : error ≠ .undefinedType self) :
    Lowers cfg r self (recover site error) fun t => ∃ v, t = .var v := by
  intro s hs
  exact ⟨_, _, rfl, hs, List.forall_mem_singleton.2 h, _, rfl⟩

end Lowers

/-- An action that leaves the types as they are and does not report anything. -/
theorem Lowers.act {a : Act} (htypes : ∀ s, (a.perform cfg s).2.registry.types = s.registry.types)
    (hquiet : reported [a] = []) : Lowers cfg r self (act a) fun _ => True := by
  intro s hs
  refine ⟨_, _, rfl, (htypes s).trans hs, ?_, trivial⟩
  rw [log_act, hquiet]
  exact List.forall_mem_nil _

theorem Lowers.report (labels : List Label) (site : Site) {error : TypeError Ty}
    (h : error ≠ .undefinedType self) :
    Lowers cfg r self (reportWith labels site error) fun _ => True :=
  fun _ hs => ⟨_, _, rfl, hs, List.forall_mem_singleton.2 h, trivial⟩

/-- A question about the state is answered from the types of `r`. -/
theorem Lowers.state {f : Run → Check β} {Q : β → Prop}
    (hf : ∀ run : Run, run.registry.types = r.types → Lowers cfg r self (f run) Q) :
    Lowers cfg r self (Check.state >>= f) Q := by
  intro s hs
  have hstate : Check.state.run cfg s = (.ok s, s) := rfl
  obtain ⟨hrun, hreported⟩ := run_bind_of_ok (f := f) hstate
  rw [hrun, hreported]
  exact hf s hs s hs

theorem lookupType_lowers (name : Ident) :
    Lowers cfg r self (lookupType (some self) name) (r.Means self name.name) := by
  refine .state fun run hrun => ?_
  have htype : run.registry.type? name.name = r.type? name.name := congrArg (·[name.name]?) hrun
  rw [htype]
  unfold Registry.Means
  cases r.type? name.name with
  | some declared => exact .pure rfl
  | none =>
    by_cases hself : self = name.name
    · simp only [hself, if_true]
      exact .pure rfl
    · simp only [hself, if_false, Option.some.injEq]
      refine .recover _ fun h => hself ?_
      exact (TypeError.undefinedType.inj h).symm

mutual
theorem lower_lowers : ∀ ty : TypeExpr,
    Lowers cfg r self (lower (some self) ty) (ty.Reads (r.Means self))
  | .prim _ _ => .pure rfl
  | .named _ name => lookupType_lowers name
  | .record _ fields => .bind (lowerFields_lowers fields) fun _ h => .pure ⟨_, rfl, h⟩
  | .tuple _ items => .bind (lowerList_lowers items) fun _ h => .pure ⟨_, rfl, h⟩
  | .fn _ params result =>
    .bind (lowerList_lowers params) fun _ hps => .bind (lower_lowers result) fun _ hr =>
      .pure ⟨_, _, rfl, hps, hr⟩
  | .adt _ _ => .recover _ (by simp)

theorem lowerList_lowers : ∀ items : List TypeExpr,
    Lowers cfg r self (lowerList (some self) items) (TypeExpr.ReadsAll (r.Means self) items)
  | [] => .pure rfl
  | item :: items =>
    .bind (lower_lowers item) fun _ ht => .bind (lowerList_lowers items) fun _ hts =>
      .pure ⟨_, _, rfl, ht, hts⟩

theorem lowerFields_lowers : ∀ fields : List TypeField,
    Lowers cfg r self (lowerFields (some self) fields) (TypeField.ReadsAll (r.Means self) fields)
  | [] => .pure rfl
  | ⟨_, ty⟩ :: fields =>
    .bind (lower_lowers ty) fun _ ht => .bind (lowerFields_lowers fields) fun _ hrest =>
      .pure ⟨_, _, rfl, ht, hrest⟩
end

theorem lowerPayload_lowers (payload : Payload) :
    Lowers cfg r self (lowerPayload self payload) (payload.Reads (r.Means self)) := by
  cases payload with
  | none => exact .pure rfl
  | prim p => exact .pure rfl
  | named name => exact .bind (lookupType_lowers name) fun t ht => .pure ⟨t, rfl, ht⟩
  | record fields =>
    exact .bind (lowerFields_lowers fields) fun entries h => .pure ⟨entries, rfl, h⟩

theorem lowerOptions_lowers : ∀ options : List AdtOption,
    Lowers cfg r self (lowerOptions self options)
      (List.Forall₂ (AdtOption.Makes (r.Means self) self) options)
  | [] => .pure .nil
  | option :: options =>
    .bind (lowerPayload_lowers option.payload) fun params hparams =>
      .bind (lowerOptions_lowers options) fun _ hrest => .pure (.cons ⟨params, rfl, hparams⟩ hrest)

theorem lowerDef_lowers (site : Site) (options : List AdtOption) :
    Lowers cfg r self (lowerDef self (.adt site options)) fun d =>
      ∃ constructors, d = .adt constructors ∧
        List.Forall₂ (AdtOption.Makes (r.Means self) self) options constructors :=
  .bind (lowerOptions_lowers options) fun constructors h => .pure ⟨constructors, rfl, h⟩

/-! ## Declarations -/

theorem declareConstructor_lowers (adt : String) (option : Ident) (c : Constructor) :
    Lowers cfg r self (declareConstructor adt option c) fun _ => True := by
  have hlist : Lowers cfg r self (addSymbol option c.ty .constructor) fun _ => True :=
    .act (fun _ => rfl) rfl
  refine .bind (.act (a := .register c) (fun _ => rfl) rfl) fun displaced _ => ?_
  refine .bind (.act (a := .config) (fun _ => rfl) rfl) fun config _ => ?_
  split
  · split
    · split
      · exact .bind (.report [] _ (by simp)) fun _ _ => hlist
      · exact hlist
    · exact hlist
  · exact hlist

theorem declareConstructors_lowers (adt : String) : ∀ (options : List AdtOption)
    (constructors : List Constructor),
    Lowers cfg r self (declareConstructors adt options constructors) fun _ => True
  | [], _ => .pure trivial
  | _ :: _, [] => .pure trivial
  | option :: options, c :: constructors =>
    .bind (declareConstructor_lowers adt option.name c) fun _ _ =>
      declareConstructors_lowers adt options constructors

/-- The declaration of a sum type always ends well, and enters what its options make when names are
read as they were declared before. -/
theorem run_declareType (cfg : Config) (s : Run) (site : Site) (name : Ident)
    (options : List AdtOption) :
    ∃ s' constructors, (declareType name (.adt site options)).run cfg s = (.ok (), s') ∧
      s'.registry.constructorsOf? name.name = some constructors ∧
      (∀ report ∈ reported (log cfg (declareType name (.adt site options)) s),
        report.error ≠ .undefinedType name.name) ∧
      List.Forall₂ (AdtOption.Makes (s.registry.Means name.name) name.name) options
        constructors := by
  have hdef : Lowers cfg s.registry name.name (lowerDef name.name (.adt site options)) _ :=
    lowerDef_lowers site options
  obtain ⟨d, s₁, hlower, -, hquiet, constructors, rfl, hmade⟩ := hdef s rfl
  let s₂ := (Act.perform cfg (.declareType name.name (.adt constructors) name.site.node) s₁).2
  have hdeclare : (act (.declareType name.name (.adt constructors) name.site.node)).run cfg s₁ =
      (.ok (), s₂) := rfl
  have hentered : Lowers cfg s₂.registry name.name (do
      addSymbol name (.adt name.name) .type
      declareConstructors name.name options constructors) fun _ => True :=
    .bind (.act (fun _ => rfl) rfl) fun _ _ => declareConstructors_lowers _ _ _
  obtain ⟨⟨⟩, s₃, hrest, htypes, hquiet', -⟩ := hentered s₂ rfl
  obtain ⟨hrun₁, hreported₁⟩ := run_bind_of_ok hlower
  obtain ⟨hrun₂, hreported₂⟩ := run_bind_of_ok hdeclare
  refine ⟨s₃, constructors, ?_, ?_, ?_, hmade⟩
  · rw [declareType, hrun₁, hrun₂]
    exact hrest
  · have htype : s₃.registry.type? name.name = s₂.registry.type? name.name :=
      congrArg (·[name.name]?) htypes
    have hlisted : s₂.registry.type? name.name =
        some ⟨.adt constructors, name.site.node⟩ :=
      (s₁.registry.type?_declare _ _ _ _).trans (if_pos rfl)
    rw [Registry.constructorsOf?_congr htype, Registry.constructorsOf?, hlisted]
  · rw [declareType, hreported₁, hreported₂, List.forall_mem_append]
    exact ⟨hquiet, hquiet'⟩

/-- However the declaration of a sum type refers to the name that it declares, the name stands for
one and the same type, and is not undefined. This is the sum type itself exactly if the name was not
declared before, or was declared as a sum type or as another name for one of this name; otherwise
it is what the name was declared as. -/
theorem self_read (cfg : Config) (s : Run) (site adtSite : Site) (name : Ident)
    (options : List AdtOption) :
    ∃ s' constructors,
      (checkStmt (.typeDecl site name (.adt adtSite options))).run cfg s = (.ok (), s') ∧
      s'.registry.constructorsOf? name.name = some constructors ∧
      (∀ report ∈ reported (log cfg (checkStmt (.typeDecl site name (.adt adtSite options))) s),
        report.error ≠ .undefinedType name.name) ∧
      List.Forall₂ (AdtOption.Makes (s.registry.Means name.name) name.name) options
        constructors ∧
      List.Forall₂ (AdtOption.Makes
        (fun other t => other = name.name → t = s.registry.selfType name.name) name.name) options
        constructors ∧
      (s.registry.selfType name.name = .adt name.name ↔
        ∀ declared, s.registry.type? name.name = some declared →
          (∃ constructors, declared.definition = .adt constructors) ∨
            declared.definition = .synonym (.adt name.name)) := by
  obtain ⟨s', constructors, hrun, hlisted, hquiet, hmade⟩ :=
    run_declareType cfg s adtSite name options
  refine ⟨s', constructors, hrun, hlisted, hquiet, hmade, ?_, Registry.selfType_eq_iff⟩
  refine hmade.imp fun option c hc => hc.mono ?_
  rintro other t ht rfl
  exact Registry.means_self_iff.1 ht

def numberDeclaration : Stmt := .typeDecl {} ⟨"D", {}⟩ (.prim {} .number)

def wrapOption : AdtOption := ⟨{}, ⟨"X", {}⟩, .named ⟨"D", {}⟩⟩

/-- After `type D = number`, the declaration `type D = X(D)` makes a constructor of a number, and
not one of a value of the type that it declares. -/
theorem self_read_number :
    ∃ s s' constructors,
      (checkStmts [numberDeclaration]).run {} (Run.reset {}) = (.ok (), s) ∧
      (checkStmt (.typeDecl {} ⟨"D", {}⟩ (.adt {} [wrapOption]))).run {} s = (.ok (), s') ∧
      s'.registry.constructorsOf? "D" = some constructors ∧
      constructors.map (·.ty) = [.fn [.number] (.adt "D")] ∧
      ¬ List.Forall₂ (AdtOption.Makes (fun other t => other = "D" → t = .adt "D") "D")
        [wrapOption] constructors := by
  let s := ((checkStmts [numberDeclaration]).run {} (Run.reset {})).2
  let s' := ((checkStmt (.typeDecl {} ⟨"D", {}⟩ (.adt {} [wrapOption]))).run {} s).2
  have hlisted : s'.registry.constructorsOf? "D" = some [.ofParams "D" "X" [.number] 0] := by
    decide +kernel
  refine ⟨s, s', _, rfl, rfl, hlisted, rfl, fun hmade => ?_⟩
  obtain ⟨params, hc, t, hparams, ht⟩ := (List.forall₂_cons.1 hmade).1
  have hself : params = [.adt "D"] := by rw [hparams, ht rfl]
  rw [hself] at hc
  exact absurd hc (by decide)

end Check

end Monotype
