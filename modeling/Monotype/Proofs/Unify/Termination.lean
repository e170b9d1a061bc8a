import Monotype.Proofs.Unify.Outcome

/-! Unification comes to an end: for acyclic stores the function gives what the rules derive. The
variables that are followed one inside the other stand for ever smaller types in every solution, so
none is followed twice, and there are no more of them than variables. -/
namespace Monotype

namespace Solve
variable {α β : Type}

/-- The failures of a unification that starts with none. -/
def errorsOf (x : Solve α) (s : Store) : List (TypeError Ty) :=
  (x.run Act.perform { store := s }).2.errors.toList

/-- The store that a unification leaves. -/
def storeAfter (x : Solve α) (s : Store) : Store :=
  (x.run Act.perform { store := s }).2.store

/-- Failures met before are kept, and change nothing else. -/
theorem run_append (x : Solve α) (s : Store) (errors : Array (TypeError Ty)) :
    x.run Act.perform ⟨s, errors⟩ =
      ((x.run Act.perform ⟨s, #[]⟩).1,
        ⟨x.storeAfter s, errors ++ (x.run Act.perform ⟨s, #[]⟩).2.errors⟩) := by
  induction x generalizing s errors with
  | done a => simp [Plan.run, storeAfter]
  | step act next ih =>
    cases act with
    | store act => exact ih _ _ _
    | fail e =>
      simp only [Plan.run, Act.perform, storeAfter]
      rw [ih, ih () s (#[].push e)]
      simp [storeAfter]

@[simp] theorem errorsOf_pure (a : α) (s : Store) : errorsOf (pure a) s = [] := rfl

@[simp] theorem storeAfter_pure (a : α) (s : Store) : storeAfter (pure a) s = s := rfl

@[simp] theorem errorsOf_fail (e : TypeError Ty) (s : Store) : errorsOf (fail e) s = [e] := rfl

@[simp] theorem storeAfter_fail (e : TypeError Ty) (s : Store) : storeAfter (fail e) s = s := rfl

theorem errorsOf_store (act : Store.Act) (f : act.Answer → Solve α) (s : Store) :
    errorsOf (Solve.act (.store act) >>= f) s =
      errorsOf (f (act.perform s).1) (act.perform s).2 := rfl

theorem storeAfter_store (act : Store.Act) (f : act.Answer → Solve α) (s : Store) :
    storeAfter (Solve.act (.store act) >>= f) s =
      storeAfter (f (act.perform s).1) (act.perform s).2 := rfl

theorem errorsOf_resolve (t : Ty) (f : Ty → Solve α) (s : Store) :
    errorsOf (resolve t >>= f) s =
      errorsOf (f (Store.resolve t s).1) (Store.resolve t s).2 := rfl

theorem storeAfter_resolve (t : Ty) (f : Ty → Solve α) (s : Store) :
    storeAfter (resolve t >>= f) s =
      storeAfter (f (Store.resolve t s).1) (Store.resolve t s).2 := rfl

@[simp] theorem errorsOf_bind (x : Solve Unit) (f : Unit → Solve α) (s : Store) :
    errorsOf (x >>= f) s = errorsOf x s ++ errorsOf (f ()) (x.storeAfter s) := by
  simp only [errorsOf, Plan.run_bind]
  rw [run_append]
  simp [storeAfter]

@[simp] theorem storeAfter_bind (x : Solve Unit) (f : Unit → Solve α) (s : Store) :
    storeAfter (x >>= f) s = storeAfter (f ()) (x.storeAfter s) := by
  simp only [storeAfter, Plan.run_bind]
  rw [run_append]
  rfl

theorem errorsOf_fails (fields : Fields Ty) (s : Store) :
    errorsOf (fields.forM fun field => fail (.recordField field.1)) s =
      fields.map fun field => .recordField field.1 := by
  induction fields with
  | nil => rfl
  | cons field fields ih =>
    rw [List.forM, errorsOf_bind, errorsOf_fail, storeAfter_fail, ih]
    rfl

theorem storeAfter_fails (fields : Fields Ty) (s : Store) :
    storeAfter (fields.forM fun field => fail (.recordField field.1)) s = s := by
  induction fields with
  | nil => rfl
  | cons field fields ih => rw [List.forM, storeAfter_bind, storeAfter_fail, ih]

/-- The plan `x` unifies `l` and `r` in `s` as the rules say. -/
def Derives (lenient : Bool) (x : Solve Unit) (s : Store) (l r : Ty) : Prop :=
  s.Unifies lenient l r (errorsOf x s) (storeAfter x s)

/-- In every solution of `s` each of the variables `vs` stands for something smaller than each
variable of `path` does. -/
def Under (s : Store) (path vs : List TyVar) : Prop :=
  ∀ θ, s.Solves θ → ∀ x ∈ path, ∀ w ∈ vs, (θ w).size < (θ x).size

theorem Under.mono {s s' : Store} {path vs ws : List TyVar} (h : Under s path vs)
    (hs : ∀ θ, s'.Solves θ → s.Solves θ) (hws : ∀ w ∈ ws, w ∈ vs) : Under s' path ws :=
  fun θ hθ x hx w hw => h θ (hs θ hθ) x hx w (hws w hw)

section Derivation
variable {lenient : Bool} {n : Nat} {s : Store}

theorem assigns (s : Store) (v : TyVar) (t : Ty) :
    s.Assigns v t (errorsOf (assign v t) s) (storeAfter (assign v t) s) := by
  unfold assign occurs
  rw [errorsOf_store, storeAfter_store]
  cases ho : (Store.occurs v t s).1 with
  | true =>
    simp only [Store.Act.perform, ho, if_true]
    exact .refuse ho
  | false =>
    simp only [Store.Act.perform, ho, Bool.false_eq_true, if_false]
    exact .bind ho

/-- The left type is no variable, the right one is resolved, and their parts need not be
compared. -/
theorem meets {l r : Ty} (hl : ∀ w, l ≠ .var w) (halike : l.Alike r → False)
    (hleaf : l = r → l.IsLeaf) :
    s.Meets lenient l r (errorsOf (meet lenient l r) s) (storeAfter (meet lenient l r) s) := by
  by_cases hvar : ∃ v, r = .var v
  · obtain ⟨v, rfl⟩ := hvar
    exact .assignRight hl (assigns s v l)
  · have hr : ∀ w, r ≠ .var w := fun w hw => hvar ⟨w, hw⟩
    have hmeet : meet lenient l r = if l = r then pure () else
        if lenient && (l.isExternal || r.isExternal) then pure () else mismatch l r := by
      cases r with
      | var v => exact absurd rfl (hr v)
      | _ => rfl
    rw [hmeet]
    by_cases heq : l = r
    · subst heq
      rw [if_pos rfl]
      exact .sameLeaf (hleaf rfl)
    · rw [if_neg heq]
      by_cases hext : (lenient && (l.isExternal || r.isExternal)) = true
      · rw [if_pos hext]
        simp only [Bool.and_eq_true, Bool.or_eq_true] at hext
        exact .agree hl hr heq hext.1 hext.2
      · rw [if_neg hext]
        simp only [Bool.and_eq_true, Bool.or_eq_true] at hext
        exact .mismatch hl hr heq halike hext

/-- A left type that is no variable stays as it is, so only the right one is resolved. -/
theorem derives_resolved {l r : Ty} {next : Ty → Solve Unit} (hl : ∀ w, l ≠ .var w)
    (h : (Store.resolve r s).2.Meets lenient l (Store.resolve r s).1
      (errorsOf (next (Store.resolve r s).1) (Store.resolve r s).2)
      (storeAfter (next (Store.resolve r s).1) (Store.resolve r s).2)) :
    Derives lenient (resolve r >>= next) s l r := by
  refine .intro ?_
  rw [Store.resolve_of_not_var hl]
  exact h

/-- From every acyclic store whose variables are below `n`, `x r` unifies `t` with `r` as the rules
say, as long as the variables of `t` are smaller than those of `path`. -/
def Settles (lenient : Bool) (n : Nat) (path : List TyVar) (x : Ty → Solve Unit) (t : Ty) : Prop :=
  t.Below n → ∀ (s : Store) (r : Ty), s.Acyclic → s.Within n → r.Below n → Under s path t.vars →
    Derives lenient (x r) s t r

variable {path : List TyVar} {follow : TyVar → Ty → Solve Unit}

theorem meet_settles {t : Ty} (ht : t.IsLeaf) :
    Settles lenient n path (fun r => resolve r >>= meet lenient t) t := by
  intro _ s r _ _ _ _
  have hvar : ∀ w, t ≠ .var w := by
    rintro w rfl
    exact ht
  refine derives_resolved hvar (meets hvar (fun halike => ?_) fun _ => ht)
  cases t <;> simp [Ty.IsLeaf, Ty.Alike] at ht halike

theorem unifyLists_settles {ts us : List Ty}
    (h : ∀ t ∈ ts, Settles lenient n path (unifyWith lenient follow t) t)
    (hts : ∀ t ∈ ts, t.Below n) (hus : ∀ u ∈ us, u.Below n) (hlen : ts.length = us.length)
    (hs : s.Acyclic) (hn : s.Within n) (hu : Under s path (Ty.varsList ts)) :
    s.AllUnify lenient ts us (errorsOf (unifyLists lenient follow ts us) s)
      (storeAfter (unifyLists lenient follow ts us) s) := by
  induction ts generalizing us s with
  | nil =>
    cases us with
    | nil => exact .nil
    | cons u us => simp at hlen
  | cons t ts ih =>
    cases us with
    | nil => simp at hlen
    | cons u us =>
      rw [List.forall_mem_cons] at h hts hus
      have hhead := h.1 hts.1 s u hs hn hus.1 (hu.mono (fun _ h => h) (by simp +contextual
        [Ty.varsList]))
      have hout := hhead.outcome hs
      simp only [unifyLists, errorsOf_bind, storeAfter_bind]
      refine .cons hhead (ih h.2 hts.2 hus.2 (by simpa using hlen) hout.acyclic
        (hhead.within hs hn hts.1 hus.1) (hu.mono hout.shrinks ?_))
      simp +contextual [Ty.varsList]

theorem unifyFields_settles {fields others : Fields Ty}
    (h : ∀ field ∈ fields, Settles lenient n path (unifyWith lenient follow field.2) field.2)
    (hfs : ∀ field ∈ fields, field.2.Below n) (hos : ∀ field ∈ others, field.2.Below n)
    (hs : s.Acyclic) (hn : s.Within n) (hu : Under s path (Ty.varsFields fields)) :
    s.FieldsUnify lenient fields others (errorsOf (unifyFields lenient follow fields others) s)
      (storeAfter (unifyFields lenient follow fields others) s) := by
  induction fields generalizing others s with
  | nil =>
    rw [unifyFields, errorsOf_fails, storeAfter_fails]
    exact .nil
  | cons field fields ih =>
    obtain ⟨name, t⟩ := field
    rw [List.forall_mem_cons] at h hfs
    have hrest := Store.below_dropWhile hos (·.1 < name)
    have hut : Under s path t.vars := hu.mono (fun _ h => h) (by simp +contextual [Ty.varsFields])
    have huf : ∀ w ∈ Ty.varsFields fields, w ∈ Ty.varsFields ((name, t) :: fields) := by
      simp +contextual [Ty.varsFields]
    simp only [unifyFields, errorsOf_bind, storeAfter_bind, errorsOf_fails, storeAfter_fails]
    -- what is left on the other side starts with `name`, or that side does not have it
    cases hd : others.dropWhile (·.1 < name) with
    | nil =>
      simp only [errorsOf_bind, storeAfter_bind, errorsOf_fail, storeAfter_fail]
      exact .missing hd (by simp) (ih h.2 hfs.2 (by simp) hs hn (hu.mono (fun _ h => h) huf))
    | cons other rest =>
      obtain ⟨name', u⟩ := other
      rw [hd, List.forall_mem_cons] at hrest
      by_cases heq : name = name'
      · subst heq
        have hfield := h.1 hfs.1 s u hs hn hrest.1 hut
        have hout := hfield.outcome hs
        simp only [if_true, errorsOf_bind, storeAfter_bind]
        exact .shared hd hfield (ih h.2 hfs.2 hrest.2 hout.acyclic
          (hfield.within hs hn hfs.1 hrest.1) (hu.mono hout.shrinks huf))
      · simp only [if_neg heq, errorsOf_bind, storeAfter_bind, errorsOf_fail, storeAfter_fail]
        refine .missing hd ?_ (ih h.2 hfs.2 (List.forall_mem_cons.2 hrest) hs hn
          (hu.mono (fun _ h => h) huf))
        rintro u' tail heq'
        exact heq (congrArg Prod.fst (List.cons.inj heq').1).symm

/-- The recursion on the left type is right when what it does at variables is. -/
theorem unifyWith_settles (hfollow : ∀ v, Settles lenient n path (follow v) (.var v)) (t : Ty) :
    Settles lenient n path (unifyWith lenient follow t) t := by
  induction t using Ty.induct with
  | var v => exact hfollow v
  | prim p => exact meet_settles trivial
  | external path => exact meet_settles trivial
  | adt name => exact meet_settles trivial
  | fn params result hparams hresult =>
    intro ht s r hs hn hr hu
    have hc := (hs.resolve r).compresses
    have hs' := hc.acyclic hs
    have hn' := hn.compresses hc
    have hr' := hn.resolve hs hr
    have hu' : Under (Store.resolve r s).2 path (Ty.fn params result).vars :=
      hu.mono (fun θ => (hc.solves_iff θ).1) fun _ h => h
    rw [Ty.below_fn] at ht
    refine derives_resolved (by simp) ?_
    -- only another function is taken apart, everything else is met as a whole
    cases hres : (Store.resolve r s).1 with
    | fn params' result' =>
      rw [hres, Ty.below_fn] at hr'
      by_cases hlen : params.length = params'.length
      · have hps := unifyLists_settles hparams ht.1 hr'.1 hlen hs' hn'
          (hu'.mono (fun _ h => h) (by simp +contextual [Ty.vars]))
        have hout := hps.outcome hs'
        simp only [if_pos hlen, errorsOf_bind, storeAfter_bind]
        exact .fn hlen hps (hresult ht.2 _ _ hout.acyclic (hps.within hs' hn' ht.1 hr'.1) hr'.2
          (hu'.mono hout.shrinks (by simp +contextual [Ty.vars])))
      · simp only [if_neg hlen, errorsOf_fail, storeAfter_fail]
        exact .arity hlen
    | _ => exact meets (by simp) id (by simp)
  | tuple elements helements =>
    intro ht s r hs hn hr hu
    have hc := (hs.resolve r).compresses
    have hr' := hn.resolve hs hr
    rw [Ty.below_tuple] at ht
    refine derives_resolved (by simp) ?_
    cases hres : (Store.resolve r s).1 with
    | tuple elements' =>
      rw [hres, Ty.below_tuple] at hr'
      by_cases hlen : elements.length = elements'.length
      · simp only [if_pos hlen]
        exact .tuple hlen (unifyLists_settles helements ht hr' hlen (hc.acyclic hs)
          (hn.compresses hc) (hu.mono (fun θ => (hc.solves_iff θ).1) fun _ h => h))
      · simp only [if_neg hlen, errorsOf_fail, storeAfter_fail]
        exact .length hlen
    | _ => exact meets (by simp) id (by simp)
  | record fields hfields =>
    intro ht s r hs hn hr hu
    have hc := (hs.resolve r).compresses
    have hr' := hn.resolve hs hr
    rw [Ty.below_record] at ht
    refine derives_resolved (by simp) ?_
    cases hres : (Store.resolve r s).1 with
    | record fields' =>
      rw [hres, Ty.below_record] at hr'
      exact .record (unifyFields_settles hfields ht hr' (hc.acyclic hs) (hn.compresses hc)
        (hu.mono (fun θ => (hc.solves_iff θ).1) fun _ h => h))
    | _ => exact meets (by simp) id (by simp)

/-- Steps enough to follow one more variable than are on the path: each variable that is followed
inside another is new, and there are only `n` of them. -/
theorem unifyVar_settles : ∀ (fuel : Nat) (path : List TyVar), path.Nodup → (∀ x ∈ path, x < n) →
    n < fuel + path.length → ∀ v, Settles lenient n path (unifyVar lenient fuel v) (.var v)
  | 0, path, hnodup, hpath, hfuel, v => by
    -- the path already has more variables than there are
    have hle : path.length ≤ (List.range n).length :=
      (hnodup.subperm fun x hx => List.mem_range.2 (hpath x hx)).length_le
    rw [List.length_range] at hle
    omega
  | fuel + 1, path, hnodup, hpath, hfuel, v => by
    intro hv s r hs hn hr hu
    have hres := hs.resolve (.var v)
    have hc := hres.compresses
    have hs' := hc.acyclic hs
    have hn' := hn.compresses hc
    have hbelow := hn.resolve hs hv
    rw [Derives, unifyVar, errorsOf_resolve, storeAfter_resolve]
    split
    · next w hleft =>
      refine .intro ?_
      rw [hleft, errorsOf_resolve, storeAfter_resolve]
      by_cases heq : (Store.resolve r (Store.resolve (.var v) s).2).1 = .var w
      · rw [if_pos heq, heq]
        exact .sameVar
      · rw [if_neg heq]
        exact .assignLeft heq (assigns _ w _)
    · next hvar =>
      -- the type behind `v` is no variable, so all that is inside it is smaller than `v`
      have hbehind : ∀ θ, s.Solves θ → ∀ w ∈ (Store.resolve (.var v) s).1.vars,
          (θ w).size < (θ v).size := by
        intro θ hθ w hw
        rcases Ty.eq_var_or_size_lt (θ := θ) hw with heq | hlt
        · exact absurd heq (hvar w)
        · rwa [hres.subst_eq θ hθ, Ty.subst_var] at hlt
      -- on the path `v` would stand for something smaller than itself
      have hnew : v ∉ path := fun hmem =>
        Nat.lt_irrefl _ (hu s.form hs.solves_form v hmem v (by simp))
      have hunder : Under (Store.resolve (.var v) s).2 (v :: path)
          (Store.resolve (.var v) s).1.vars := by
        intro θ hθ x hx w hw
        have hθ' := (hc.solves_iff θ).1 hθ
        have hlt := hbehind θ hθ' w hw
        rcases List.mem_cons.1 hx with rfl | hx
        · exact hlt
        · exact hlt.trans (hu θ hθ' x hx v (by simp))
      obtain ⟨hinside⟩ := unifyWith_settles (unifyVar_settles fuel (v :: path)
        (List.nodup_cons.2 ⟨hnew, hnodup⟩) (List.forall_mem_cons.2 ⟨Ty.below_var.1 hv, hpath⟩)
        (by simp only [List.length_cons]; omega)) _ hbelow _ r hs' hn' hr hunder
      rw [Store.resolve_of_not_var hvar] at hinside
      exact .intro hinside

end Derivation

end Solve

namespace Store

/-- No variable of the store is as large as its bound. -/
theorem within_varBound (s : Store) : s.Within s.varBound := by
  -- the fold never falls, and it has been at least as large as each slot
  have step : ∀ (slots : List (Option Ty)) (n : Nat),
      n ≤ slots.foldl (fun n slot => max n (slot.elim 0 Ty.varBound)) n ∧
        ∀ slot ∈ slots, slot.elim 0 Ty.varBound ≤
          slots.foldl (fun n slot => max n (slot.elim 0 Ty.varBound)) n := by
    intro slots
    induction slots with
    | nil => simp
    | cons slot slots ih =>
      intro n
      have h := ih (max n (slot.elim 0 Ty.varBound))
      rw [List.foldl_cons, List.forall_mem_cons]
      exact ⟨(Nat.le_max_left _ _).trans h.1, (Nat.le_max_right _ _).trans h.1, h.2⟩
  have h := step s.slots.toList s.size
  rw [Array.foldl_toList] at h
  refine ⟨h.1, fun v t ht => Ty.varBound_le_iff.1 (h.2 (some t) ?_)⟩
  exact Array.mem_toList_iff.2 (Array.mem_of_getElem? (Option.join_eq_some_iff.1 ht))

/-- Unification as it is run follows the rules, whatever the types. -/
theorem Acyclic.unifies {s : Store} (hs : s.Acyclic) (lenient : Bool) (l r : Ty) :
    s.Unifies lenient l r (unify lenient l r s).1 (unify lenient l r s).2 := by
  have hn := s.within_varBound.mono (Nat.le_max_left _ (max l.varBound r.varBound))
  have hl : l.varBound ≤ max s.varBound (max l.varBound r.varBound) := by omega
  have hr : r.varBound ≤ max s.varBound (max l.varBound r.varBound) := by omega
  refine Solve.unifyWith_settles
    (Solve.unifyVar_settles _ [] List.nodup_nil (by simp) (Nat.lt_succ_self _)) l
    (Ty.varBound_le_iff.1 hl) s r hs hn (Ty.varBound_le_iff.1 hr) ?_
  exact fun θ hθ x hx => absurd hx List.not_mem_nil

end Store

end Monotype
