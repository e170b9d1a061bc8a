import Monotype.Proofs.Check.Trace
import Monotype.Proofs.Tree.Sites

/-! A run writes down the sites of the tree and no others. It leaves some out only after complaints
that say so. -/
namespace Monotype

/-- A symbol without its type. -/
def Symbol.declares (sym : Symbol) : Ident × SymbolKind := (⟨sym.name, sym.site⟩, sym.kind)

/-- Only literals and wildcards are matched by comparing. -/
theorem MatchForm.plain_of_onLiterals {registry : Registry} {t : Ty} {patterns : List Pattern}
    (h : MatchForm.of registry t patterns = .onLiterals) :
    ∀ pattern ∈ patterns, pattern.isPlain = true := by
  unfold MatchForm.of at h
  split at h
  · split at h <;> cases h
  · split at h
    · next hplain =>
      rw [Bool.and_eq_true, List.all_eq_true] at hplain
      exact hplain.2
    · cases h

theorem MatchForm.sum_of_onSum {registry : Registry} {t : Ty} {patterns : List Pattern}
    {adt : String} (h : MatchForm.of registry t patterns = .onSum adt) :
    t = .adt adt ∧ (registry.constructorsOf? adt).isSome := by
  unfold MatchForm.of at h
  split at h
  · split at h
    · next hdeclared =>
      cases h
      exact ⟨rfl, hdeclared⟩
    · cases h
  · split at h <;> cases h

theorem MatchForm.ne_nil_of_onLiterals {registry : Registry} {t : Ty} {patterns : List Pattern}
    (h : MatchForm.of registry t patterns = .onLiterals) : patterns ≠ [] := by
  unfold MatchForm.of at h
  split at h
  · split at h <;> cases h
  · split at h
    · next hplain =>
      rintro rfl
      simp at hplain
    · cases h

namespace Check
variable {α β : Type} {cfg : Config}

/-- The code of the one complaint after which a run passes over nodes. -/
def skipsNodes : String := "E3014"

/-- The codes of the complaints after which a run passes over names. -/
def skipsNames : List String := ["E3002", "E3012", "E3013", "E3014"]

/-- The actions write down no other sites than the given ones; when they end well, without the
complaints after which something is passed over, they write down all of them. -/
structure Wrote (acts : List Act) (ended : Prop) (sites : Sites) : Prop where
  nodes : ((noted acts).map (·.1)).Sublist sites.nodes
  names : ((listed acts).map (·.declares)).Sublist sites.names
  allNodes : ended → (∀ r ∈ reported acts, r.error.code ≠ skipsNodes) →
    (noted acts).map (·.1) = sites.nodes
  allNames : ended → (∀ r ∈ reported acts, r.error.code ∉ skipsNames) →
    (listed acts).map (·.declares) = sites.names

/-- From every state, `x` writes down the given sites. -/
def Writes (cfg : Config) (x : Check α) (sites : Sites) : Prop :=
  ∀ s, Wrote (log cfg x s) (∃ a, (x.run cfg s).1 = .ok a) sites

namespace Writes
variable {S T : Sites}

theorem pure (a : α) : Writes cfg (pure a) {} :=
  fun _ => ⟨.slnil, .slnil, fun _ _ => rfl, fun _ _ => rfl⟩

theorem throw (e : Malformed) (S : Sites) : Writes cfg (throw e : Check α) S := by
  intro s
  have hnot : ¬ ∃ a, ((MonadExcept.throw e : Check α).run cfg s).1 = .ok a := by
    rintro ⟨a, ⟨⟩⟩
  exact ⟨List.nil_sublist _, List.nil_sublist _, fun h => absurd h hnot, fun h => absurd h hnot⟩

/-- The second part only counts for answers that the first part can give. -/
theorem bind_of {x : Check α} {f : α → Check β} (hx : Writes cfg x S)
    (hf : ∀ s a s', x.run cfg s = (.ok a, s') → Writes cfg (f a) T) :
    Writes cfg (x >>= f) (S ++ T) := by
  intro s
  have hS := hx s
  rw [run_bind, log_bind]
  cases hrun : x.run cfg s with
  | mk r s' =>
    rw [hrun] at hS
    cases r with
    | error e =>
      have hnot : ¬ ∃ b : β, (.error e : Except Malformed β) = .ok b := by simp
      simp only [List.append_nil]
      exact ⟨hS.nodes.trans (List.sublist_append_left _ _),
        hS.names.trans (List.sublist_append_left _ _), fun h => absurd h hnot,
        fun h => absurd h hnot⟩
    | ok a =>
      have hT := hf s a s' hrun s'
      refine ⟨?_, ?_, fun hend hr => ?_, fun hend hr => ?_⟩
      · simpa using hS.nodes.append hT.nodes
      · simpa using hS.names.append hT.names
      · rw [reported_append] at hr
        simp [hS.allNodes ⟨a, rfl⟩ fun r h => hr r (List.mem_append_left _ h),
          hT.allNodes hend fun r h => hr r (List.mem_append_right _ h)]
      · rw [reported_append] at hr
        simp [hS.allNames ⟨a, rfl⟩ fun r h => hr r (List.mem_append_left _ h),
          hT.allNames hend fun r h => hr r (List.mem_append_right _ h)]

theorem bind {x : Check α} {f : α → Check β} (hx : Writes cfg x S)
    (hf : ∀ a, Writes cfg (f a) T) : Writes cfg (x >>= f) (S ++ T) :=
  hx.bind_of fun _ a _ _ => hf a

/-- A part that writes nothing may come before. -/
theorem after {x : Check α} {f : α → Check β} (hx : Writes cfg x {})
    (hf : ∀ a, Writes cfg (f a) T) : Writes cfg (x >>= f) T :=
  hx.bind hf

theorem before {x : Check α} {f : α → Check β} (hx : Writes cfg x S)
    (hf : ∀ a, Writes cfg (f a) {}) : Writes cfg (x >>= f) S :=
  S.append_empty ▸ hx.bind hf

/-- Names may be passed over after a complaint that says so. -/
theorem skipNames {x : Check α} (hx : Writes cfg x {}) {names : List (Ident × SymbolKind)}
    (h : ∀ s, ∃ r ∈ reported (log cfg x s), r.error.code ∈ skipsNames) :
    Writes cfg x { names } := by
  intro s
  obtain ⟨r, hr, hcode⟩ := h s
  exact ⟨(hx s).nodes, (hx s).names.trans (List.nil_sublist _), (hx s).allNodes,
    fun _ hnone => absurd hcode (hnone r hr)⟩

/-- Everything may be passed over where the value of a match is none that can be matched. -/
theorem skipAll {x : Check α} (hx : Writes cfg x {}) (S : Sites)
    (h : ∀ s, ∃ r ∈ reported (log cfg x s), r.error.code = skipsNodes) : Writes cfg x S := by
  intro s
  obtain ⟨r, hr, hcode⟩ := h s
  refine ⟨(hx s).nodes.trans (List.nil_sublist _), (hx s).names.trans (List.nil_sublist _),
    fun _ hnone => absurd hcode (hnone r hr), fun _ hnone => absurd ?_ (hnone r hr)⟩
  rw [hcode]
  decide

/-- Actions other than notes and symbols. -/
theorem act {a : Act} (hnote : ∀ node t, a ≠ .note node t) (hsym : ∀ sym, a ≠ .symbol sym) :
    Writes cfg (act a) {} := by
  intro s
  have hn : noted [a] = [] := by cases a <;> simp_all [noted]
  have hl : listed [a] = [] := by cases a <;> simp_all [listed]
  simp only [log_act]
  exact ⟨by simp [hn], by simp [hl], fun _ _ => by simp [hn], fun _ _ => by simp [hl]⟩

theorem recordType (site : Site) (t : Ty) : Writes cfg (recordType site.node t) (.node site) :=
  fun _ => ⟨.refl _, .slnil, fun _ _ => rfl, fun _ _ => rfl⟩

theorem addSymbol (name : Ident) (t : Ty) (kind : SymbolKind) :
    Writes cfg (addSymbol name t kind) (.name name kind) :=
  fun _ => ⟨.slnil, .refl _, fun _ _ => rfl, fun _ _ => rfl⟩

theorem solving (site : Site) (x : Solve Unit) :
    Writes cfg (ExceptT.lift (solving site x)) {} := by
  intro s
  have hlog : ∀ (x : Solve Unit) (s : Run),
      noted (Plan.log (Act.perform cfg) (Check.solving site x) s) = [] ∧
      listed (Plan.log (Act.perform cfg) (Check.solving site x) s) = [] := by
    intro x
    induction x with
    | done a => exact fun _ => ⟨rfl, rfl⟩
    | step act next ih =>
      intro s
      cases act with
      | store act => exact ih _ _
      | fail e => exact ih () _
  have heq : log cfg (ExceptT.lift (Check.solving site x)) s =
      Plan.log (Act.perform cfg) (Check.solving site x) s :=
    (Plan.log_bind (Act.perform cfg) (Check.solving site x) _ s).trans (List.append_nil _)
  obtain ⟨hn, hl⟩ := hlog x s
  rw [heq]
  exact ⟨by simp [hn], by simp [hl], fun _ _ => by simp [hn], fun _ _ => by simp [hl]⟩

theorem state {f : Run → Check β} (hf : ∀ run, Writes cfg (f run) S) :
    Writes cfg (Check.state >>= f) S :=
  .after (.act (by simp) (by simp)) hf

theorem config {f : Config → Check β} (hf : Writes cfg (f cfg) S) :
    Writes cfg (Check.config >>= f) S := by
  refine (bind_of (S := {}) (.act (by simp) (by simp)) fun s a s' hrun => ?_)
  cases hrun
  exact hf

theorem fresh : Writes cfg fresh {} := .act (by simp) (by simp)

theorem resolve (t : Ty) : Writes cfg (resolve t) {} := .act (by simp) (by simp)

theorem apply (t : Ty) : Writes cfg (apply t) {} := .act (by simp) (by simp)

theorem reportWith (labels : List Label) (site : Site) (error : TypeError Ty) :
    Writes cfg (reportWith labels site error) {} := .act (by simp) (by simp)

theorem report (site : Site) (error : TypeError Ty) : Writes cfg (report site error) {} :=
  .reportWith [] site error

theorem recover (site : Site) (error : TypeError Ty) : Writes cfg (recover site error) {} :=
  .after (.report site error) fun _ => .fresh

theorem unify (l r : Ty) (site : Site) : Writes cfg (unify l r site) {} :=
  .state fun _ => .config (.solving site _)

theorem bindLocal (name : Ident) (t : Ty) : Writes cfg (bindLocal name t) {} :=
  .act (by simp) (by simp)

theorem declare (name : Ident) (t : Ty) (kind : SymbolKind) :
    Writes cfg (declare name t kind) (.name name kind) :=
  .after (.bindLocal name t) fun _ => .addSymbol name t kind

theorem inScope {body : Check α} (h : Writes cfg body S) : Writes cfg (inScope body) S :=
  .after (.act (by simp) (by simp)) fun _ => h.before fun a =>
    .after (.act (by simp) (by simp)) fun _ => .pure a

end Writes

theorem lookupValue_writes (name : String) : Writes cfg (lookupValue name) {} := by
  refine .state fun run => ?_
  split <;> exact .pure _

theorem declaredHere_writes (name : String) : Writes cfg (declaredHere name) {} :=
  .state fun _ => .pure _

theorem earlierBinding_writes (name : String) : Writes cfg (earlierBinding name) {} := by
  refine .state fun run => ?_
  split <;> exact .pure _

/-! ## Type declarations -/

section TypeDecl
variable (self : Option String)

theorem lookupType_writes (name : Ident) : Writes cfg (lookupType self name) {} := by
  refine .state fun run => ?_
  split
  · exact .pure _
  · split
    · exact .pure _
    · exact .recover _ _

mutual
theorem lower_writes : ∀ t : TypeExpr, Writes cfg (lower self t) {}
  | .prim _ _ => .pure _
  | .named _ name => lookupType_writes self name
  | .record _ fields => .after (lowerFields_writes fields) fun _ => .pure _
  | .tuple _ items => .after (lowerList_writes items) fun _ => .pure _
  | .fn _ params result =>
    .after (lowerList_writes params) fun _ => .after (lower_writes result) fun _ => .pure _
  | .adt _ _ => .recover _ _

theorem lowerList_writes : ∀ ts : List TypeExpr, Writes cfg (lowerList self ts) {}
  | [] => .pure _
  | t :: ts => .after (lower_writes t) fun _ => .after (lowerList_writes ts) fun _ => .pure _

theorem lowerFields_writes : ∀ fields : List TypeField, Writes cfg (lowerFields self fields) {}
  | [] => .pure _
  | ⟨_, t⟩ :: fields =>
    .after (lower_writes t) fun _ => .after (lowerFields_writes fields) fun _ => .pure _
end

end TypeDecl

theorem lowerPayload_writes (adt : String) (payload : Payload) :
    Writes cfg (lowerPayload adt payload) {} := by
  cases payload with
  | none => exact .pure _
  | prim p => exact .pure _
  | named name => exact .after (lookupType_writes _ name) fun _ => .pure _
  | record fields => exact .after (lowerFields_writes _ fields) fun _ => .pure _

theorem lowerOptions_writes (adt : String) : ∀ options : List AdtOption,
    Writes cfg (lowerOptions adt options) {}
  | [] => .pure _
  | option :: options =>
    .after (lowerPayload_writes adt option.payload) fun _ =>
      .after (lowerOptions_writes adt options) fun _ => .pure _

theorem lowerDef_writes (name : String) (t : TypeExpr) : Writes cfg (lowerDef name t) {} := by
  cases t with
  | prim site p => exact .pure _
  | named site other => exact .after (lookupType_writes none other) fun _ => .pure _
  | record site fields => exact .after (lowerFields_writes none fields) fun _ => .pure _
  | tuple site items => exact .after (lowerList_writes none items) fun _ => .pure _
  | fn site params result =>
    exact .after (lowerList_writes none params) fun _ =>
      .after (lower_writes none result) fun _ => .pure _
  | adt site options => exact .after (lowerOptions_writes name options) fun _ => .pure _

theorem lowerOptions_length (adt : String) : ∀ {options : List AdtOption} {s s' : Run}
    {cs : List Constructor}, (lowerOptions adt options).run cfg s = (.ok cs, s') →
    cs.length = options.length
  | [], _, _, _, h => by cases h; rfl
  | option :: options, _, _, _, h => by
    obtain ⟨ps, s₁, -, h, -⟩ := run_bind_eq_ok h
    obtain ⟨cs, s₂, hcs, h, -⟩ := run_bind_eq_ok h
    cases h
    simp [lowerOptions_length adt hcs]

theorem declareConstructor_writes (adt : String) (option : Ident) (c : Constructor) :
    Writes cfg (declareConstructor adt option c) (.name option .constructor) := by
  refine .after (.act (by simp) (by simp)) fun displaced => .config ?_
  split
  · split
    · split
      · exact .after (.report _ _) fun _ => .addSymbol _ _ _
      · exact .addSymbol _ _ _
    · exact .addSymbol _ _ _
  · exact .addSymbol _ _ _

theorem declareConstructors_writes (adt : String) : ∀ (options : List AdtOption)
    (cs : List Constructor), cs.length = options.length →
    Writes cfg (declareConstructors adt options cs)
      (.nameAll (options.map (·.name)) .constructor)
  | [], _, _ => .pure _
  | _ :: _, [], h => by simp at h
  | option :: options, c :: cs, h =>
    (declareConstructor_writes adt option.name c).bind fun _ =>
      declareConstructors_writes adt options cs (by simpa using h)

theorem declareType_writes (name : Ident) (t : TypeExpr) :
    Writes cfg (declareType name t) (t.sites name) := by
  have hhead : ∀ (d : TypeDef) (rest : Check Unit) (S : Sites), Writes cfg rest S →
      Writes cfg (do
        act (.declareType name.name d name.site.node)
        addSymbol name (d.toTy name.name) .type
        rest) (.name name .type ++ S) := fun d rest S h =>
    .after (.act (by simp) (by simp)) fun _ => .bind (.addSymbol _ _ _) fun _ => h
  refine (Writes.bind_of (S := {}) (lowerDef_writes name.name t) fun s d s' hd => ?_)
  cases t with
  | adt site options =>
    obtain ⟨cs, s₁, hcs, h, -⟩ := run_bind_eq_ok hd
    cases h
    exact hhead _ _ _ (declareConstructors_writes name.name options cs
      (lowerOptions_length name.name hcs))
  | _ => exact hhead _ _ {} (.pure ())

/-! ## Patterns -/

theorem acceptPayload_writes (param : Ty) (pattern : Pattern) (site : Site) (name : Ident) :
    Writes cfg (acceptPayload param pattern) (Pattern.constructor site name [pattern]).sites := by
  cases pattern with
  | wildcard site => exact .pure _
  | literal site l => exact .unify _ _ _
  | binding site name => exact .declare _ _ _
  | constructor site name args => exact .report _ _

/-- With a wrong number of arguments the binder gets a type, but is not listed. -/
theorem acceptArgs_writes (site : Site) (name : Ident) (params : List Ty) (args : List Pattern) :
    Writes cfg (acceptArgs site name.name params args)
      (Pattern.constructor site name args).sites := by
  unfold acceptArgs
  split
  · split
    · exact .pure _
    · exact .report _ _
  · next arg =>
    split
    · exact acceptPayload_writes _ arg site name
    · next hparams =>
      cases arg with
      | binding _ binder =>
        refine .skipNames (.after (.report _ _) fun _ => .after .fresh fun _ => .bindLocal _ _) ?_
        exact fun s => ⟨_, List.mem_cons_self, by simp [TypeError.code, skipsNames]⟩
      | _ => exact .after (.report _ _) fun _ => .pure _
  · next hargs =>
    have hsites : (Pattern.constructor site name args).sites = {} := by
      cases args with
      | nil => rfl
      | cons arg args =>
        cases args with
        | nil => simp at hargs
        | cons other args => cases arg <;> rfl
    rw [hsites]
    exact .report _ _

theorem acceptSum_writes (adt : String) (scrutinee : Ty) (pattern : Pattern) :
    Writes cfg (acceptSum adt scrutinee pattern) pattern.sites := by
  cases pattern with
  | wildcard site => exact .pure _
  | literal site l => exact .unify _ _ _
  | binding site name => exact .report _ _
  | constructor site name args =>
    refine .state fun run => ?_
    split
    · exact acceptArgs_writes _ _ _ _
    · have hnodes : (Pattern.constructor site name args).sites =
          { names := (Pattern.constructor site name args).sites.names } := by
        unfold Pattern.sites
        split <;> rfl
      rw [hnodes]
      refine .skipNames (.report _ _) fun s => ?_
      exact ⟨_, List.mem_cons_self, by simp [TypeError.code, skipsNames]⟩

theorem acceptLiteral_writes (scrutinee : Ty) {pattern : Pattern} (h : pattern.isPlain = true) :
    Writes cfg (acceptLiteral scrutinee pattern) pattern.sites := by
  cases pattern with
  | wildcard site => exact .pure _
  | literal site l => exact .unify _ _ _
  | binding site name => simp [Pattern.isPlain] at h
  | constructor site name args => simp [Pattern.isPlain] at h

theorem checkExhaustive_writes (site : Site) (adt : String) (patterns : List Pattern) :
    Writes cfg (checkExhaustive site adt patterns) {} := by
  unfold checkExhaustive
  split
  · exact .pure _
  · refine .state fun run => ?_
    split
    · exact .pure _
    · dsimp only
      split
      · exact .pure _
      · exact .report _ _

/-! ## Inference -/

theorem inferIdent_writes (name : Ident) : Writes cfg (inferIdent name) {} := by
  refine .after (lookupValue_writes _) fun t => ?_
  split
  · exact .pure _
  · exact .recover _ _

theorem inferMember_writes (site : Site) (current : Ty) (member : String) :
    Writes cfg (inferMember site current member) {} := by
  refine .after (.resolve _) fun t => ?_
  split
  · split
    · exact .pure _
    · exact .recover _ _
  · refine .config ?_
    split
    · exact .fresh
    · exact .after (.apply _) fun _ => .recover _ _

theorem inferElement_writes (site : Site) (current : Ty) :
    Writes cfg (inferElement site current) {} := by
  refine .after (.resolve _) fun t => ?_
  split
  · exact .fresh
  · refine .config ?_
    split
    · exact .fresh
    · exact .after (.apply _) fun _ => .recover _ _

theorem inferOperation_writes (site rhs : Site) (op : String) (left right : Ty) :
    Writes cfg (inferOperation site rhs op left right) {} := by
  unfold inferOperation
  split
  · exact .after (.unify _ _ _) fun _ => .after (.unify _ _ _) fun _ => .pure _
  · exact .after (.unify _ _ _) fun _ => .after (.unify _ _ _) fun _ => .pure _
  · exact .after (.unify _ _ _) fun _ => .pure _
  · exact .after (.unify _ _ _) fun _ => .after (.unify _ _ _) fun _ => .pure _
  · exact .recover _ _

theorem declareParams_writes : ∀ params : List Ident,
    Writes cfg (declareParams params) (.nameAll params .param)
  | [] => .pure _
  | param :: params =>
    .after .fresh fun t => (Writes.declare param t .param).bind fun _ =>
      (declareParams_writes params).before fun _ => .pure _

theorem earlierBinding_run (cfg : Config) (name : String) (s : Run) :
    ∃ labels, (earlierBinding name).run cfg s = (.ok labels, s) := by
  have hstate : state.run cfg s = (.ok s, s) := rfl
  rw [earlierBinding, run_bind, hstate]
  dsimp only
  cases s.scopes.lookup name with
  | some b => exact ⟨_, rfl⟩
  | none => exact ⟨_, rfl⟩

theorem declareImport_writes (path : String) (name : Ident) :
    Writes cfg (declareImport path name) (.name name .imported) := by
  refine .after (declaredHere_writes _) fun here => ?_
  split
  · refine .skipNames (.after (earlierBinding_writes _) fun _ => .reportWith _ _ _) fun s => ?_
    obtain ⟨labels, hlabels⟩ := earlierBinding_run cfg name.name s
    rw [log_bind, hlabels, reported_append]
    exact ⟨_, List.mem_append_right _ List.mem_cons_self, by simp [TypeError.code, skipsNames]⟩
  · exact .declare _ _ _

theorem forM_writes (kind : SymbolKind) {f : Ident → Check Unit}
    (hf : ∀ name, Writes cfg (f name) (.name name kind)) :
    ∀ names : List Ident, Writes cfg (names.forM f) (.nameAll names kind)
  | [] => .pure _
  | name :: names => (hf name).bind fun _ => forM_writes kind hf names

theorem checkExport_writes (name : Ident) : Writes cfg (checkExport name) {} := by
  refine .after (lookupValue_writes _) fun t => ?_
  split
  · exact .report _ _
  · exact .pure _

theorem checkExports_writes : ∀ names : List Ident, Writes cfg (names.forM checkExport) {}
  | [] => .pure _
  | name :: names => .after (checkExport_writes name) fun _ => checkExports_writes names

theorem declareAssigned_writes (name : Ident) (t : Ty) :
    Writes cfg (declareAssigned name t) (.name name .var) := by
  refine .config (.after (declaredHere_writes _) fun here => ?_)
  dsimp only
  split
  · exact .after (earlierBinding_writes _) fun _ => .after (.reportWith _ _ _) fun _ =>
      .declare _ _ _
  · exact .declare _ _ _

theorem checkClosing_writes (site : Site) (name : Ident) (closing : Option Ident) :
    Writes cfg (checkClosing site name closing) {} := by
  cases closing with
  | none => exact .pure _
  | some closing =>
    simp only [checkClosing]
    split
    · exact .pure _
    · exact .throw _ _

theorem checkComponent_writes (name : Ident) (props : Ty) :
    Writes cfg (checkComponent name props) {} := by
  refine .config ?_
  split
  · exact .pure _
  · refine .after (lookupValue_writes _) fun t => ?_
    split
    · exact .unify _ _ _
    · exact .report _ _

mutual
theorem inferExpr_writes : ∀ e : Expr, Writes cfg (inferExpr e) e.sites
  | ⟨site, primary, tails⟩ => by
    refine (inferPrimary_writes primary).bind fun t => ?_
    refine (Writes.recordType primary.site t).bind fun _ => ?_
    refine (inferTails_writes t tails).bind fun u => ?_
    exact (Writes.recordType site u).before fun _ => .pure u

theorem inferExprs_writes : ∀ es : List Expr, Writes cfg (inferExprs es) (Expr.sitesAll es)
  | [] => .pure _
  | e :: es => (inferExpr_writes e).bind fun _ => (inferExprs_writes es).before fun _ => .pure _

theorem inferPrimary_writes : ∀ p : Primary, Writes cfg (inferPrimary p) p.sites
  | .ident _ name => inferIdent_writes name
  | .literal _ _ => .pure _
  | .paren _ inner => inferExpr_writes inner
  | .block _ body => inferBlock_writes body
  | .record _ entries => (inferEntries_writes entries).before fun _ => .pure _
  | .array _ items => (inferExprs_writes items).before fun _ => .pure _
  | .function _ params body =>
    .inScope ((declareParams_writes params).bind fun _ =>
      (inferExpr_writes body).before fun _ => .pure _)
  | .ifChain site branches otherwise => by
    have hrest : Writes cfg (do
        let result ← Check.fresh
        inferBranches result branches
        inferOtherwise result otherwise
        return result) (Branch.sitesAll branches ++ Expr.sitesOption otherwise) :=
      .after .fresh fun t => (inferBranches_writes t branches).bind fun _ =>
        (inferOtherwise_writes t otherwise).before fun _ => .pure _
    simp only [inferPrimary]
    split
    · exact .after (.throw _ _) fun _ => hrest
    · exact hrest
  | .matchOn site scrutinee arms => by
    refine (inferExpr_writes scrutinee).bind fun t => .after (.resolve t) fun u =>
      .state fun run => ?_
    dsimp only
    split
    · refine .after .fresh fun r => ?_
      refine (inferArms_writes _ r arms fun pattern _ => acceptSum_writes _ t pattern).before
        fun _ => .config ?_
      split
      · exact .after (checkExhaustive_writes _ _ _) fun _ => .apply _
      · exact .apply _
    · next hform =>
      refine .after .fresh fun r => (inferArms_writes _ r arms fun pattern hp => ?_).before
        fun _ => .apply _
      exact acceptLiteral_writes t (MatchForm.plain_of_onLiterals hform pattern hp)
    · refine .skipAll (.after (.apply _) fun _ => .recover _ _) _ fun s => ?_
      exact ⟨_, List.mem_cons_self, rfl⟩
  | .markup _ element => inferMarkup_writes element

theorem inferBlock_writes : ∀ b : Block, Writes cfg (inferBlock b) b.sites
  | ⟨_, statements, result⟩ =>
    .inScope ((checkStmts_writes statements).bind fun _ => inferResult_writes result)

theorem inferResult_writes : ∀ result : Option Expr,
    Writes cfg (inferResult result) (Expr.sitesOption result)
  | some e => inferExpr_writes e
  | none => .fresh

theorem inferEntries_writes : ∀ entries : List Entry,
    Writes cfg (inferEntries entries) (Entry.sitesAll entries)
  | [] => .pure _
  | ⟨_, value⟩ :: entries =>
    (inferExpr_writes value).bind fun _ => (inferEntries_writes entries).before fun _ => .pure _

theorem inferBranches_writes (result : Ty) : ∀ branches : List Branch,
    Writes cfg (inferBranches result branches) (Branch.sitesAll branches)
  | [] => .pure _
  | ⟨_, condition, body⟩ :: branches => by
    refine (inferExpr_writes condition).bind fun t => .after (.unify _ _ _) fun _ => ?_
    refine (inferExpr_writes body).bind fun u => .after (.unify _ _ _) fun _ => ?_
    exact inferBranches_writes result branches

theorem inferOtherwise_writes (result : Ty) : ∀ otherwise : Option Expr,
    Writes cfg (inferOtherwise result otherwise) (Expr.sitesOption otherwise)
  | none => .pure _
  | some body => (inferExpr_writes body).before fun _ => .unify _ _ _

theorem inferArms_writes (accept : Pattern → Check Unit) (result : Ty) : ∀ arms : List Arm,
    (∀ pattern ∈ arms.map (·.pattern), Writes cfg (accept pattern) pattern.sites) →
    Writes cfg (inferArms accept result arms) (Arm.sitesAll arms)
  | [], _ => .pure _
  | ⟨_, pattern, body⟩ :: arms, h => by
    rw [List.map_cons, List.forall_mem_cons] at h
    have hbody : Writes cfg (do unify result (← inferExpr body) body.site) body.sites :=
      (inferExpr_writes body).before fun _ => .unify _ _ _
    refine (Writes.inScope (h.1.bind fun _ => hbody)).bind fun _ => ?_
    exact inferArms_writes accept result arms h.2

theorem inferTails_writes (current : Ty) : ∀ tails : List Tail,
    Writes cfg (inferTails current tails) (Tail.sitesAll tails)
  | [] => .pure _
  | tail :: tails => by
    refine (inferTail_writes current tail).bind fun t => ?_
    exact (Writes.recordType tail.site t).bind fun _ => inferTails_writes t tails

theorem inferTail_writes (current : Ty) : ∀ tail : Tail,
    Writes cfg (inferTail current tail) tail.sites
  | .member site name => inferMember_writes site current name.name
  | .index site index =>
    (inferExpr_writes index).before fun _ => .after (.unify _ _ _) fun _ =>
      inferElement_writes site current
  | .call _ args =>
    (inferExprs_writes args).before fun _ => .after .fresh fun _ => .after (.unify _ _ _) fun _ =>
      .pure _
  | .operation site op rhs =>
    (inferExpr_writes rhs).before fun _ => inferOperation_writes site rhs.site op current _

theorem inferMarkup_writes : ∀ element : Markup, Writes cfg (inferMarkup element) element.sites
  | ⟨site, name, attributes, children, closing⟩ =>
    .after (checkClosing_writes site name closing) fun _ =>
      (inferAttributes_writes attributes).bind fun _ => .after (checkComponent_writes name _)
        fun _ => (checkChildren_writes children).before fun _ => .pure _

theorem inferAttributes_writes : ∀ attrs : List Attribute,
    Writes cfg (inferAttributes attrs) (Attribute.sitesAll attrs)
  | [] => .pure _
  | attr :: attrs =>
    (inferAttribute_writes attr).bind fun _ => (inferAttributes_writes attrs).before fun _ =>
      .pure _

theorem inferAttribute_writes : ∀ attr : Attribute, Writes cfg (inferAttribute attr) attr.sites
  | .string _ _ => .pure _
  | .number _ _ => .pure _
  | .expr _ value => (inferExpr_writes value).before fun _ => .pure _

theorem checkChildren_writes : ∀ children : List Child,
    Writes cfg (checkChildren children) (Child.sitesAll children)
  | [] => .pure _
  | child :: children => (checkChild_writes child).bind fun _ => checkChildren_writes children

theorem checkChild_writes : ∀ child : Child, Writes cfg (checkChild child) child.sites
  | .text _ => .pure _
  | .expr value => (inferExpr_writes value).before fun _ => .pure _
  | .element value => (inferMarkup_writes value).before fun _ => .pure _

theorem checkStmts_writes : ∀ stmts : List Stmt, Writes cfg (checkStmts stmts) (Stmt.sitesAll stmts)
  | [] => .pure _
  | stmt :: stmts => (checkStmt_writes stmt).bind fun _ => checkStmts_writes stmts

theorem checkStmt_writes : ∀ stmt : Stmt, Writes cfg (checkStmt stmt) stmt.sites
  | .assign _ _ name value =>
    (inferExpr_writes value).bind fun t => declareAssigned_writes name t
  | .typeDecl _ name ty => declareType_writes name ty
  | .importFrom _ default names path => by
    have hnames : Writes cfg (names.forM (declareImport path)) (.nameAll names .imported) :=
      forM_writes .imported (declareImport_writes path) names
    cases default with
    | none => exact hnames
    | some name => exact (declareImport_writes path name).bind fun _ => hnames
  | .exportNames _ names => checkExports_writes names
  | .expr _ value => (inferExpr_writes value).before fun _ => .pure _
end

end Check

end Monotype
