import Monotype.Proofs.Unify.Ending
import Monotype.Proofs.Unify.Leniency
import Monotype.Proofs.Unify.Locality
import Monotype.Proofs.Unify.Sequence

/-! What a unification that cannot succeed has to answer for. Two functions or two tuples that differ
in a count are one failure and bind nothing; two records are gone through name by name, and what only
one of them has is one failure each and leaves its variables alone. -/
namespace Monotype

namespace Fields
variable {α : Type}

instance (fields : Fields α) : Decidable (Ascending fields) :=
  inferInstanceAs (Decidable (List.Pairwise (fun a b => a.1 < b.1) fields))

/-- The names of two lists of fields, each once, in ascending order. -/
def names (fs gs : Fields α) : List String := (ofList (fs ++ gs)).map (·.1)

theorem names_pairwise (fs gs : Fields α) : (names fs gs).Pairwise (· < ·) :=
  List.pairwise_map.2 (ascending_ofList (fs ++ gs))

theorem mem_map_insert {name key : String} {a : α} {fields : Fields α} :
    key ∈ (insert name a fields).map (·.1) ↔ key = name ∨ key ∈ fields.map (·.1) := by
  induction fields with
  | nil => simp [insert]
  | cons field fields ih =>
    simp only [insert]
    split
    · simp
    · split
      · next h =>
        subst h
        simp
      · simp only [List.map_cons, List.mem_cons, ih]
        tauto

theorem mem_map_ofList {entries : List (String × α)} {key : String} :
    key ∈ (ofList entries).map (·.1) ↔ key ∈ entries.map (·.1) := by
  have step : ∀ fields : Fields α,
      key ∈ (entries.foldl (fun fields entry => insert entry.1 entry.2 fields) fields).map (·.1) ↔
        key ∈ fields.map (·.1) ∨ key ∈ entries.map (·.1) := by
    induction entries with
    | nil => simp
    | cons entry entries ih =>
      intro fields
      rw [List.foldl_cons, ih, mem_map_insert, List.map_cons, List.mem_cons]
      tauto
  have hall := step []
  rwa [List.map_nil, List.mem_nil_iff, false_or] at hall

theorem mem_names {fs gs : Fields α} {key : String} :
    key ∈ names fs gs ↔ key ∈ fs.map (·.1) ∨ key ∈ gs.map (·.1) := by
  rw [names, mem_map_ofList, List.map_append, List.mem_append]

/-- The fields `rest` come after `name`, and `fs` has no others but possibly one of that name. -/
structure After (name : String) (fs rest : Fields α) : Prop where
  eq_or : fs = rest ∨ ∃ a, fs = (name, a) :: rest
  later : ∀ field ∈ rest, name < field.1

/-- Where no field comes before `name`. -/
theorem Ascending.after {fs : Fields α} (h : fs.Ascending) {name : String}
    (hleast : ∀ field ∈ fs, ¬ field.1 < name) : ∃ rest, rest.Ascending ∧ After name fs rest := by
  cases fs with
  | nil => exact ⟨[], h, .inl rfl, by simp⟩
  | cons field fs =>
    obtain ⟨key, a⟩ := field
    obtain ⟨hlater, hrest⟩ := List.pairwise_cons.1 h
    by_cases heq : name = key
    · subst heq
      exact ⟨fs, hrest, .inr ⟨a, rfl⟩, hlater⟩
    · have hle : ¬ key < name := hleast _ List.mem_cons_self
      have hlt : name < key := Std.lt_of_le_of_ne (String.not_lt.1 hle) heq
      refine ⟨_, h, .inl rfl, List.forall_mem_cons.2 ⟨hlt, fun other ho => ?_⟩⟩
      exact String.lt_trans hlt (hlater other ho)

namespace After
variable {name key : String} {fs rest : Fields α}

theorem not_mem (h : After name fs rest) : name ∉ rest.map (·.1) := by
  intro hmem
  obtain ⟨field, hf, rfl⟩ := List.mem_map.1 hmem
  exact String.lt_irrefl _ (h.later field hf)

theorem mem_iff (h : After name fs rest) (hne : key ≠ name) :
    key ∈ fs.map (·.1) ↔ key ∈ rest.map (·.1) := by
  rcases h.eq_or with rfl | ⟨a, rfl⟩
  · rfl
  · rw [List.map_cons, List.mem_cons, or_iff_right hne]

theorem lookup_eq (h : After name fs rest) (hne : key ≠ name) :
    fs.lookup key = rest.lookup key := by
  rcases h.eq_or with rfl | ⟨a, rfl⟩
  · rfl
  · rw [List.lookup_cons, beq_eq_false_iff_ne.2 hne]

theorem lookup_rest (h : After name fs rest) : rest.lookup name = none := by
  refine List.lookup_eq_none_iff.2 fun field hf => bne_iff_ne.2 ?_
  rintro rfl
  exact h.not_mem (List.mem_map_of_mem hf)

end After

end Fields

namespace Store
variable {lenient : Bool} {s s' : Store} {errors : List (TypeError Ty)}

namespace FieldsUnify
variable {name : String} {t u : Ty} {fields others : Fields Ty}

/-- The first of all names is on the right side only. -/
theorem inv_rightOnly (h : FieldsUnify lenient s fields ((name, u) :: others) errors s')
    (hlater : ∀ field ∈ fields, name < field.1) :
    ∃ errors', FieldsUnify lenient s fields others errors' s' ∧
      errors = .recordField name :: errors' := by
  cases fields with
  | nil =>
    obtain ⟨rfl, rfl⟩ := h.inv_nil
    exact ⟨_, .nil, rfl⟩
  | cons field fields => exact h.inv_skipRight (hlater field List.mem_cons_self)

/-- The first of all names is on the left side only. -/
theorem inv_leftOnly (h : FieldsUnify lenient s ((name, t) :: fields) others errors s')
    (hlater : ∀ field ∈ others, name < field.1) :
    ∃ errors', FieldsUnify lenient s fields others errors' s' ∧
      errors = .recordField name :: errors' := by
  obtain ⟨hdrop, htake⟩ :
      others.dropWhile (·.1 < name) = others ∧ others.takeWhile (·.1 < name) = [] := by
    cases others with
    | nil => exact ⟨rfl, rfl⟩
    | cons other others =>
      have hnot : ¬ other.1 < name := String.lt_asymm (hlater other List.mem_cons_self)
      exact ⟨List.dropWhile_cons_of_neg (by simpa using hnot),
        List.takeWhile_cons_of_neg (by simpa using hnot)⟩
  obtain ⟨errors', hfields, rfl⟩ := h.inv_missing hdrop fun u tail heq => by
    subst heq
    exact String.lt_irrefl name (hlater _ List.mem_cons_self)
  exact ⟨errors', hfields, by rw [htake]; rfl⟩

/-- In stores that differ in how far ways have been shortened, unifying the same fields fails alike
and leaves stores that differ no more than that. -/
theorem unique_of_sameEnds {fs gs : Fields Ty} {s₁ s₁' : Store} {errors' : List (TypeError Ty)}
    (h : FieldsUnify lenient s fs gs errors s₁) (h' : FieldsUnify lenient s' fs gs errors' s₁')
    (hs : s.Acyclic) (hs' : s'.Acyclic) (hsame : SameEnds s s') :
    errors' = errors ∧ SameEnds s₁ s₁' := by
  -- each list of failures is what a configuration asks for of the other
  have hlaxer := Config.Laxer.refl { dynamicImports := lenient }
  obtain ⟨herrors, hends⟩ := FieldsUnify.hushed hlaxer h h' hs hs' hsame
  obtain ⟨herrors', -⟩ := FieldsUnify.hushed hlaxer h' h hs' hs hsame.symm
  refine ⟨?_, hends⟩
  rw [herrors', herrors, List.filter_filter]
  simp

end FieldsUnify

section
variable {l r t : Ty} {v : TyVar}

/-- The unbound variables other than `v`. -/
def besides (s : Store) (v : TyVar) : Set TyVar := { w | s.lookup w = none ∧ w ≠ v }

theorem closed_besides (s : Store) (v : TyVar) : s.Closed (s.besides v) := by
  intro w hw u hu
  rw [full, Ty.subst_var, form_of_unbound hw.1, Ty.vars_var, List.mem_singleton] at hu
  exact hu ▸ hw

theorem Acyclic.over_besides (hs : s.Acyclic) (h : v ∉ (s.full t).vars) :
    s.Over (s.besides v) t :=
  fun _ hw => ⟨hs.unbound_of_mem_full hw, fun heq => h (heq ▸ hw)⟩

/-- A variable that is open in neither side stays unbound. -/
theorem Unifies.unbound (h : Unifies lenient s l r errors s') (hs : s.Acyclic)
    (hv : s.lookup v = none) (hl : v ∉ (s.full l).vars) (hr : v ∉ (s.full r).vars) :
    s'.lookup v = none :=
  (h.localTo hs (s.closed_besides v) (hs.over_besides hl) (hs.over_besides hr)).unbound v
    (fun hmem => hmem.2 rfl) hv

/-- What meets is where both ways end, once both have been shortened. -/
theorem Unifies.meets (h : Unifies lenient s l r errors s') (hs : s.Acyclic) :
    ∃ s₁, Compresses s s₁ ∧
      Meets lenient s₁ (Store.resolve l s).1 (Store.resolve r s).1 errors s' := by
  cases h with
  | intro h =>
    have hcl := (hs.resolve l).compresses
    have hcr := ((hcl.acyclic hs).resolve r).compresses
    rw [hcl.ends r] at h
    exact ⟨_, hcl.trans hcr, h⟩

theorem Unifies.arity (h : Unifies lenient s l r errors s') (hs : s.Acyclic) {ps qs : List Ty}
    {p q : Ty} (hl : (Store.resolve l s).1 = .fn ps p) (hr : (Store.resolve r s).1 = .fn qs q)
    (hlen : ps.length ≠ qs.length) :
    errors = [.functionArity ps.length qs.length] ∧ Compresses s s' := by
  obtain ⟨s₁, hc, hmeets⟩ := h.meets hs
  rw [hl, hr] at hmeets
  obtain ⟨rfl, rfl⟩ := hmeets.inv_arity hlen
  exact ⟨rfl, hc⟩

theorem Unifies.length (h : Unifies lenient s l r errors s') (hs : s.Acyclic) {ts us : List Ty}
    (hl : (Store.resolve l s).1 = .tuple ts) (hr : (Store.resolve r s).1 = .tuple us)
    (hlen : ts.length ≠ us.length) :
    errors = [.tupleLength ts.length us.length] ∧ Compresses s s' := by
  obtain ⟨s₁, hc, hmeets⟩ := h.meets hs
  rw [hl, hr] at hmeets
  obtain ⟨rfl, rfl⟩ := hmeets.inv_length hlen
  exact ⟨rfl, hc⟩

theorem Unifies.fields (h : Unifies lenient s l r errors s') (hs : s.Acyclic) {fs gs : Fields Ty}
    (hl : (Store.resolve l s).1 = .record fs) (hr : (Store.resolve r s).1 = .record gs) :
    ∃ s₁, Compresses s s₁ ∧ FieldsUnify lenient s₁ fs gs errors s' := by
  obtain ⟨s₁, hc, hmeets⟩ := h.meets hs
  rw [hl, hr] at hmeets
  exact ⟨s₁, hc, hmeets.inv_record⟩

/-- A variable of two records that is open in no field of a shared name stays unbound. -/
theorem Unifies.unbound_of_fields (h : Unifies lenient s l r errors s') (hs : s.Acyclic)
    {fs gs : Fields Ty} (hl : (Store.resolve l s).1 = .record fs)
    (hr : (Store.resolve r s).1 = .record gs) (hv : s.lookup v = none)
    (hfree : ∀ name t u, (name, t) ∈ fs → (name, u) ∈ gs →
      v ∉ (s.full t).vars ∧ v ∉ (s.full u).vars) :
    s'.lookup v = none := by
  obtain ⟨s₁, hc, hfields⟩ := h.fields hs hl hr
  have hlocal := hc.localTo hs (s.closed_besides v)
  refine (hlocal.trans (hfields.localTo hlocal.acyclic hlocal.closed ?_)).unbound v
    (fun hmem => hmem.2 rfl) hv
  intro name t u ht hu
  obtain ⟨hvt, hvu⟩ := hfree name t u ht hu
  exact ⟨hlocal.over hs (hs.over_besides hvt), hlocal.over hs (hs.over_besides hvu)⟩

/-- Between two records nothing happens but what their fields ask for. -/
theorem Unifies.fields_sameEnds (h : Unifies lenient s l r errors s') (hs : s.Acyclic)
    {fs gs : Fields Ty} (hl : (Store.resolve l s).1 = .record fs)
    (hr : (Store.resolve r s).1 = .record gs) :
    ∃ s₁, FieldsUnify lenient s fs gs errors s₁ ∧ SameEnds s₁ s' := by
  obtain ⟨s₀, hc, hfields⟩ := h.fields hs hl hr
  -- neither record is a variable, so that from `s` on no way is shortened before they meet
  obtain ⟨hmeets⟩ := hs.unifies lenient (.record fs) (.record gs)
  obtain ⟨rfl, hends⟩ :=
    hmeets.inv_record.unique_of_sameEnds hfields hs (hc.acyclic hs) hc.sameEnds
  exact ⟨_, hmeets.inv_record, hends⟩

end

end Store

namespace Check

/-- What is to be done for one name of two records. -/
def unifyName (fs gs : Fields Ty) (site : Site) (name : String) : Check Unit :=
  match fs.lookup name, gs.lookup name with
  | some t, some u => unify t u site
  | _, _ => report site (.recordField name)

/-- Goes through names of two records: a type on both sides is unified, a name that one side lacks is
a failure. -/
def unifyNames (fs gs : Fields Ty) (site : Site) (names : List String) : Check Unit :=
  names.forM (unifyName fs gs site)

section
variable {cfg : Config} {site : Site} {fs gs fs₁ gs₁ : Fields Ty} {name : String}
  {names : List String} {run : Run} {s' : Store} {errors : List (TypeError Ty)}

theorem unifyNames_congr (h : ∀ name ∈ names, fs.lookup name = fs₁.lookup name ∧
    gs.lookup name = gs₁.lookup name) :
    unifyNames fs gs site names = unifyNames fs₁ gs₁ site names := by
  induction names with
  | nil => rfl
  | cons name names ih =>
    rw [List.forall_mem_cons] at h
    have hfirst : unifyName fs gs site name = unifyName fs₁ gs₁ site name := by
      rw [unifyName, unifyName, h.1.1, h.1.2]
    have hrest := ih h.2
    rw [unifyNames] at hrest ⊢
    rw [List.forM, hfirst, hrest]
    rfl

/-- The first of all names, and what is left for the others. -/
theorem run_unifyName (site : Site)
    (h : run.store.FieldsUnify cfg.dynamicImports fs gs errors s')
    (hs : run.store.Acyclic) (hfs : Fields.After name fs fs₁) (hgs : Fields.After name gs gs₁)
    (hmem : name ∈ fs.map (·.1) ∨ name ∈ gs.map (·.1)) :
    ∃ errors₁ s₁ errors₂,
      (unifyName fs gs site name).run cfg run =
        (.ok (), run.solved s₁ (errors₁.map (failureReport site)).toArray) ∧
      s₁.Acyclic ∧ s₁.FieldsUnify cfg.dynamicImports fs₁ gs₁ errors₂ s' ∧
      errors = errors₁ ++ errors₂ := by
  rcases hfs.eq_or with rfl | ⟨t, rfl⟩ <;> rcases hgs.eq_or with rfl | ⟨u, rfl⟩
  · exact absurd hmem (not_or.2 ⟨hfs.not_mem, hgs.not_mem⟩)
  · obtain ⟨errors₂, hrest, rfl⟩ := h.inv_rightOnly hfs.later
    refine ⟨[.recordField name], _, errors₂, ?_, hs, hrest, rfl⟩
    rw [unifyName, hfs.lookup_rest]
    exact run_report cfg site _ run
  · obtain ⟨errors₂, hrest, rfl⟩ := h.inv_leftOnly hgs.later
    refine ⟨[.recordField name], _, errors₂, ?_, hs, hrest, rfl⟩
    rw [unifyName, List.lookup_cons_self, hgs.lookup_rest]
    exact run_report cfg site _ run
  · obtain ⟨errors₁, s₁, errors₂, hfield, hrest, rfl⟩ := h.inv_head
    refine ⟨errors₁, s₁, errors₂, ?_, (hfield.outcome hs).acyclic, hrest, rfl⟩
    rw [unifyName, List.lookup_cons_self, List.lookup_cons_self]
    exact (run_unify_solved ..).trans (by rw [hs.unifies_iff.1 hfield])

/-- Going through all names of both sides is what unifying the fields does. -/
theorem run_unifyNames (hasc : names.Pairwise (· < ·))
    (hmem : ∀ key, key ∈ names ↔ key ∈ fs.map (·.1) ∨ key ∈ gs.map (·.1))
    (h : run.store.FieldsUnify cfg.dynamicImports fs gs errors s') (hs : run.store.Acyclic)
    (hfs : fs.Ascending) (hgs : gs.Ascending) :
    (unifyNames fs gs site names).run cfg run =
      (.ok (), run.solved s' (errors.map (failureReport site)).toArray) := by
  -- `names` stays the list of all names of what is left on the two sides
  induction names generalizing fs gs run errors with
  | nil =>
    obtain rfl : fs = [] := List.map_eq_nil_iff.1 (List.eq_nil_iff_forall_not_mem.2 fun key hk =>
      List.not_mem_nil ((hmem key).2 (.inl hk)))
    obtain rfl : gs = [] := List.map_eq_nil_iff.1 (List.eq_nil_iff_forall_not_mem.2 fun key hk =>
      List.not_mem_nil ((hmem key).2 (.inr hk)))
    obtain ⟨rfl, rfl⟩ := h.inv_nil
    exact congrArg _ run.solved_self.symm
  | cons name names ih =>
    obtain ⟨hlater, hasc⟩ := List.pairwise_cons.1 hasc
    have hne : ∀ key ∈ names, key ≠ name := fun key hk heq =>
      String.lt_irrefl name (heq ▸ hlater key hk)
    have hleast : ∀ key ∈ name :: names, ¬ key < name := by
      rw [List.forall_mem_cons]
      exact ⟨String.lt_irrefl name, fun key hk => String.lt_asymm (hlater key hk)⟩
    obtain ⟨fs₁, hasc₁, hfs₁⟩ := hfs.after fun field hf =>
      hleast _ ((hmem _).2 (.inl (List.mem_map_of_mem hf)))
    obtain ⟨gs₁, hasc₂, hgs₁⟩ := hgs.after fun field hf =>
      hleast _ ((hmem _).2 (.inr (List.mem_map_of_mem hf)))
    have hmem₁ : ∀ key, key ∈ names ↔ key ∈ fs₁.map (·.1) ∨ key ∈ gs₁.map (·.1) := by
      intro key
      by_cases heq : key = name
      · subst heq
        exact iff_of_false (fun hk => hne key hk rfl) (not_or.2 ⟨hfs₁.not_mem, hgs₁.not_mem⟩)
      · rw [← hfs₁.mem_iff heq, ← hgs₁.mem_iff heq, ← hmem, List.mem_cons, or_iff_right heq]
    obtain ⟨errors₁, s₁, errors₂, hfirst, hs₁, hrest, rfl⟩ :=
      run_unifyName site h hs hfs₁ hgs₁ ((hmem name).1 List.mem_cons_self)
    have htail := @ih fs₁ gs₁ (run.solved s₁ (errors₁.map (failureReport site)).toArray) errors₂
      hasc hmem₁ hrest hs₁ hasc₁ hasc₂
    rw [Run.solved_solved, List.append_toArray, ← List.map_append] at htail
    rw [unifyNames, List.forM, run_bind, hfirst]
    -- the other names are still looked up in `fs` and `gs`, where they have the same types
    refine Eq.trans ?_ htail
    exact congrArg (fun x : Check Unit => x.run cfg _) (unifyNames_congr fun key hk =>
      ⟨hfs₁.lookup_eq (hne key hk), hgs₁.lookup_eq (hne key hk)⟩)

end

/-- Whatever `l` and `r` are, requiring them to be equal binds only variables that are open in one of
the two. Counts that differ are reported once, and nothing is bound. Two records come to the same as
going through their names: a name on one side only is reported once, the types of a name on both
sides are required to be equal, and a variable that is open in none of these stays unbound. -/
theorem unify_accounted (cfg : Config) {run : Run} (hs : run.store.Acyclic) (l r : Ty)
    (site : Site) :
    ∃ store new, (unify l r site).run cfg run = (.ok (), run.solved store new) ∧
      (∀ v, run.store.lookup v = none → store.lookup v ≠ none →
        v ∈ (run.store.apply l).1.vars ∨ v ∈ (run.store.apply r).1.vars) ∧
      (∀ ps p qs q, (run.store.resolve l).1 = .fn ps p → (run.store.resolve r).1 = .fn qs q →
        ps.length ≠ qs.length →
        new = #[failureReport site (.functionArity ps.length qs.length)] ∧
          run.store.Compresses store) ∧
      (∀ ts us, (run.store.resolve l).1 = .tuple ts → (run.store.resolve r).1 = .tuple us →
        ts.length ≠ us.length →
        new = #[failureReport site (.tupleLength ts.length us.length)] ∧
          run.store.Compresses store) ∧
      ∀ fs gs : Fields Ty,
        (run.store.resolve l).1 = .record fs → (run.store.resolve r).1 = .record gs →
        (fs.Ascending → gs.Ascending →
          ∃ store', (unifyNames fs gs site (Fields.names fs gs)).run cfg run =
              (.ok (), run.solved store' new) ∧
            store'.SameEnds store) ∧
        ∀ v, run.store.lookup v = none →
          (∀ field ∈ fs, ∀ other ∈ gs, field.1 = other.1 →
            v ∉ (run.store.apply field.2).1.vars ∧ v ∉ (run.store.apply other.2).1.vars) →
          store.lookup v = none := by
  have h := hs.unifies cfg.dynamicImports l r
  refine ⟨_, _, run_unify_solved cfg l r site run, fun v hv hbound => ?_, ?_, ?_, ?_⟩
  · rw [(hs.answers_apply l).1, (hs.answers_apply r).1]
    by_contra hout
    obtain ⟨hl, hr⟩ := not_or.1 hout
    exact hbound (h.unbound hs hv hl hr)
  · intro ps p qs q hl hr hlen
    obtain ⟨herrors, hc⟩ := h.arity hs hl hr hlen
    exact ⟨by rw [herrors]; rfl, hc⟩
  · intro ts us hl hr hlen
    obtain ⟨herrors, hc⟩ := h.length hs hl hr hlen
    exact ⟨by rw [herrors]; rfl, hc⟩
  · intro fs gs hl hr
    refine ⟨fun hfs hgs => ?_, fun v hv hfree => ?_⟩
    · obtain ⟨store', hfields, hends⟩ := h.fields_sameEnds hs hl hr
      exact ⟨store', run_unifyNames (Fields.names_pairwise fs gs) (fun _ => Fields.mem_names)
        hfields hs hfs hgs, hends⟩
    · refine h.unbound_of_fields hs hl hr hv fun name t u ht hu => ?_
      rw [← (hs.answers_apply t).1, ← (hs.answers_apply u).1]
      exact hfree (name, t) ht (name, u) hu rfl

/-- A variable stands for a record. -/
def recordStore : Store :=
  ({} : Store).bind 0 (.record [("a", .var 1), ("b", .var 2), ("d", .fn [] .number)])

/-- What the other side is to be. -/
def recordDemand : Fields Ty :=
  [("b", .number), ("c", .var 3), ("d", .fn [.var 4] .number)]

theorem recordStore_acyclic : recordStore.Acyclic :=
  Store.acyclic_empty.bind rfl (by decide)

/-- Two names have no counterpart, one field becomes a number, and in the last one the parameters
are not as many. -/
theorem unify_accounted_records :
    recordStore.Acyclic ∧
    ∃ store new,
      (unify (.var 0) (.record recordDemand) {}).run {} { store := recordStore } =
        (.ok (), Run.solved { store := recordStore } store new) ∧
      new.map (·.error.code) = #["E3006", "E3006", "E3004"] ∧
      (∃ store', (unifyNames [("a", .var 1), ("b", .var 2), ("d", .fn [] .number)] recordDemand {}
          ["a", "b", "c", "d"]).run {} { store := recordStore } =
            (.ok (), Run.solved { store := recordStore } store' new) ∧ store'.SameEnds store) ∧
      store.lookup 1 = none ∧ store.lookup 2 ≠ none ∧ store.lookup 3 = none := by
  obtain ⟨store, new, hrun, -, -, -, hrecords⟩ :=
    @unify_accounted {} { store := recordStore } recordStore_acyclic (.var 0)
      (.record recordDemand) {}
  obtain ⟨hnames, hfree⟩ := hrecords [("a", .var 1), ("b", .var 2), ("d", .fn [] .number)]
    recordDemand (by rfl) (by rfl)
  have hcodes := congrArg (fun outcome => outcome.2.reports.items.map (·.error.code)) hrun
  have hbound := congrArg (fun outcome => outcome.2.store.lookup 2) hrun
  simp only [Run.solved, Array.empty_append] at hcodes hbound
  exact ⟨recordStore_acyclic, store, new, hrun, hcodes.symm.trans (by decide +kernel),
    hnames (by decide +kernel) (by decide +kernel),
    hfree 1 rfl (by decide +kernel), by rw [← hbound]; decide +kernel,
    hfree 3 rfl (by decide +kernel)⟩

end Check

end Monotype
