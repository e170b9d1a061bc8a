import Monotype.Proofs.Store.Closure

/-! The walks through a store as rules. `resolve`, `apply` and `occurs` are carried out with a bound
on the number of slots they pass; the rules have no bound, so that a derivation is a walk that ends
by itself. Two rules are never open at once, and in an acyclic store the functions take the walk
that the rules describe. -/
namespace Monotype.Store
open Relation

/-- From `v` the slots of `s` are followed along `way`, to its end. -/
inductive Trails (s : Store) : TyVar → Trail → Prop where
  | unbound {v : TyVar} (h : s.lookup v = none) : Trails s v ⟨[], .var v⟩
  | onward {v w : TyVar} {way : Trail} (h : s.lookup v = some (.var w)) (rest : Trails s w way) :
      Trails s v ⟨v :: way.passed, way.last⟩
  | stop {v : TyVar} {t : Ty} (h : s.lookup v = some t) (ht : ∀ w, t ≠ .var w) :
      Trails s v ⟨[v], t⟩

/-- The outermost form of a type in `s`, and the store with the way to it shortened. -/
inductive Resolves (s : Store) : Ty → Ty → Store → Prop where
  | follow {v : TyVar} {way : Trail} (h : Trails s v way) :
      Resolves s (.var v) way.last (s.redirect way.passed.dropLast way.last)
  | stay {t : Ty} (ht : ∀ v, t ≠ .var v) : Resolves s t t s

mutual
/-- Applying the bindings of `s` to a type gives another one and leaves a store. -/
inductive Applies : Store → Ty → Ty → Store → Prop where
  | intro {s s₁ s' : Store} {t r u : Ty} (hr : s.Resolves t r s₁) (h : Rebuilds s₁ r u s') :
      Applies s t u s'

/-- The same of a type that is no bound variable. -/
inductive Rebuilds : Store → Ty → Ty → Store → Prop where
  | var {s : Store} {v : TyVar} : Rebuilds s (.var v) (.var v) s
  | prim {s : Store} {p : Prim} : Rebuilds s (.prim p) (.prim p) s
  | external {s : Store} {path : String} : Rebuilds s (.external path) (.external path) s
  | adt {s : Store} {name : String} : Rebuilds s (.adt name) (.adt name) s
  | fn {s s₁ s₂ : Store} {ps ps' : List Ty} {r r' : Ty} (hparams : AppliesAll s ps ps' s₁)
      (hresult : Applies s₁ r r' s₂) : Rebuilds s (.fn ps r) (.fn ps' r') s₂
  | tuple {s s' : Store} {ts ts' : List Ty} (helements : AppliesAll s ts ts' s') :
      Rebuilds s (.tuple ts) (.tuple ts') s'
  | record {s s' : Store} {fs fs' : Fields Ty} (hfields : AppliesFields s fs fs' s') :
      Rebuilds s (.record fs) (.record fs') s'

inductive AppliesAll : Store → List Ty → List Ty → Store → Prop where
  | nil {s : Store} : AppliesAll s [] [] s
  | cons {s s₁ s₂ : Store} {t t' : Ty} {ts ts' : List Ty} (hhead : Applies s t t' s₁)
      (htail : AppliesAll s₁ ts ts' s₂) : AppliesAll s (t :: ts) (t' :: ts') s₂

inductive AppliesFields : Store → Fields Ty → Fields Ty → Store → Prop where
  | nil {s : Store} : AppliesFields s [] [] s
  | cons {s s₁ s₂ : Store} {name : String} {t t' : Ty} {fs fs' : Fields Ty}
      (hhead : Applies s t t' s₁) (htail : AppliesFields s₁ fs fs' s₂) :
      AppliesFields s ((name, t) :: fs) ((name, t') :: fs') s₂
end

mutual
/-- Looking for `v` in a type with the bindings of `s` applied: whether it is found, and the store
that is left. -/
inductive Finds (v : TyVar) : Store → Ty → Bool → Store → Prop where
  | intro {s s₁ s' : Store} {t r : Ty} {found : Bool} (hr : s.Resolves t r s₁)
      (h : Sees v s₁ r found s') : Finds v s t found s'

/-- The same in a type that is no bound variable. -/
inductive Sees (v : TyVar) : Store → Ty → Bool → Store → Prop where
  | var {s : Store} {w : TyVar} : Sees v s (.var w) (w == v) s
  | prim {s : Store} {p : Prim} : Sees v s (.prim p) false s
  | external {s : Store} {path : String} : Sees v s (.external path) false s
  | adt {s : Store} {name : String} : Sees v s (.adt name) false s
  | params {s s' : Store} {ps : List Ty} {r : Ty} (hparams : FindsAny v s ps true s') :
      Sees v s (.fn ps r) true s'
  | result {s s₁ s₂ : Store} {ps : List Ty} {r : Ty} {found : Bool}
      (hparams : FindsAny v s ps false s₁) (hresult : Finds v s₁ r found s₂) :
      Sees v s (.fn ps r) found s₂
  | tuple {s s' : Store} {ts : List Ty} {found : Bool} (helements : FindsAny v s ts found s') :
      Sees v s (.tuple ts) found s'
  | record {s s' : Store} {fs : Fields Ty} {found : Bool}
      (hfields : FindsAny v s (fs.map (·.2)) found s') : Sees v s (.record fs) found s'

/-- The search ends at the first type in which `v` is found. -/
inductive FindsAny (v : TyVar) : Store → List Ty → Bool → Store → Prop where
  | nil {s : Store} : FindsAny v s [] false s
  | hit {s s' : Store} {t : Ty} {ts : List Ty} (hhead : Finds v s t true s') :
      FindsAny v s (t :: ts) true s'
  | miss {s s₁ s₂ : Store} {t : Ty} {ts : List Ty} {found : Bool} (hhead : Finds v s t false s₁)
      (htail : FindsAny v s₁ ts found s₂) : FindsAny v s (t :: ts) found s₂
end

/-! ## One walk at most -/

section Unique
variable {s s' s'' : Store}

theorem Trails.unique {v : TyVar} {way way' : Trail} (h : Trails s v way)
    (h' : Trails s v way') : way = way' := by
  induction h generalizing way' with
  | unbound hv => cases h' <;> simp_all
  | onward hv _ ih =>
    cases h' with
    | unbound hv' => simp [hv] at hv'
    | onward hv' rest =>
      obtain rfl : _ = _ := by simpa [hv] using hv'
      rw [ih rest]
    | stop hv' ht => exact absurd (Option.some.inj (hv'.symm.trans hv)) (ht _)
  | stop hv ht =>
    cases h' with
    | unbound hv' => simp [hv] at hv'
    | onward hv' rest => exact absurd (Option.some.inj (hv.symm.trans hv')) (ht _)
    | stop hv' => rw [Option.some.inj (hv.symm.trans hv')]

theorem Resolves.unique {t r r' : Ty} (h : Resolves s t r s') (h' : Resolves s t r' s'') :
    r = r' ∧ s' = s'' := by
  cases h with
  | follow h =>
    cases h' with
    | follow h' =>
      rw [h.unique h']
      exact ⟨rfl, rfl⟩
    | stay ht => exact absurd rfl (ht _)
  | stay ht =>
    cases h' with
    | follow => exact absurd rfl (ht _)
    | stay => exact ⟨rfl, rfl⟩

mutual
theorem Applies.unique : ∀ {s s' s'' : Store} {t u u' : Ty}, Applies s t u s' →
    Applies s t u' s'' → u = u' ∧ s' = s''
  | _, _, _, _, _, _, .intro hr h, .intro hr' h' => by
    obtain ⟨rfl, rfl⟩ := hr.unique hr'
    exact h.unique h'

theorem Rebuilds.unique : ∀ {s s' s'' : Store} {t u u' : Ty}, Rebuilds s t u s' →
    Rebuilds s t u' s'' → u = u' ∧ s' = s''
  | _, _, _, _, _, _, .var, .var => ⟨rfl, rfl⟩
  | _, _, _, _, _, _, .prim, .prim => ⟨rfl, rfl⟩
  | _, _, _, _, _, _, .external, .external => ⟨rfl, rfl⟩
  | _, _, _, _, _, _, .adt, .adt => ⟨rfl, rfl⟩
  | _, _, _, _, _, _, .fn hps hr, .fn hps' hr' => by
    obtain ⟨rfl, rfl⟩ := hps.unique hps'
    obtain ⟨rfl, rfl⟩ := hr.unique hr'
    exact ⟨rfl, rfl⟩
  | _, _, _, _, _, _, .tuple h, .tuple h' => by
    obtain ⟨rfl, rfl⟩ := h.unique h'
    exact ⟨rfl, rfl⟩
  | _, _, _, _, _, _, .record h, .record h' => by
    obtain ⟨rfl, rfl⟩ := h.unique h'
    exact ⟨rfl, rfl⟩

theorem AppliesAll.unique : ∀ {s s' s'' : Store} {ts us us' : List Ty}, AppliesAll s ts us s' →
    AppliesAll s ts us' s'' → us = us' ∧ s' = s''
  | _, _, _, _, _, _, .nil, .nil => ⟨rfl, rfl⟩
  | _, _, _, _, _, _, .cons hhead htail, .cons hhead' htail' => by
    obtain ⟨rfl, rfl⟩ := hhead.unique hhead'
    obtain ⟨rfl, rfl⟩ := htail.unique htail'
    exact ⟨rfl, rfl⟩

theorem AppliesFields.unique : ∀ {s s' s'' : Store} {fs gs gs' : Fields Ty},
    AppliesFields s fs gs s' → AppliesFields s fs gs' s'' → gs = gs' ∧ s' = s''
  | _, _, _, _, _, _, .nil, .nil => ⟨rfl, rfl⟩
  | _, _, _, _, _, _, .cons hhead htail, .cons hhead' htail' => by
    obtain ⟨rfl, rfl⟩ := hhead.unique hhead'
    obtain ⟨rfl, rfl⟩ := htail.unique htail'
    exact ⟨rfl, rfl⟩
end

mutual
theorem Finds.unique {v : TyVar} : ∀ {s s' s'' : Store} {t : Ty} {found found' : Bool},
    Finds v s t found s' → Finds v s t found' s'' → found = found' ∧ s' = s''
  | _, _, _, _, _, _, .intro hr h, .intro hr' h' => by
    obtain ⟨rfl, rfl⟩ := hr.unique hr'
    exact h.unique h'

theorem Sees.unique {v : TyVar} : ∀ {s s' s'' : Store} {t : Ty} {found found' : Bool},
    Sees v s t found s' → Sees v s t found' s'' → found = found' ∧ s' = s''
  | _, _, _, _, _, _, .var, .var => ⟨rfl, rfl⟩
  | _, _, _, _, _, _, .prim, .prim => ⟨rfl, rfl⟩
  | _, _, _, _, _, _, .external, .external => ⟨rfl, rfl⟩
  | _, _, _, _, _, _, .adt, .adt => ⟨rfl, rfl⟩
  | _, _, _, _, _, _, .params h, .params h' => ⟨rfl, (h.unique h').2⟩
  | _, _, _, _, _, _, .params h, .result h' _ => nomatch (h.unique h').1
  | _, _, _, _, _, _, .result h _, .params h' => nomatch (h.unique h').1
  | _, _, _, _, _, _, .result hps hr, .result hps' hr' => by
    obtain ⟨-, rfl⟩ := hps.unique hps'
    exact hr.unique hr'
  | _, _, _, _, _, _, .tuple h, .tuple h' => h.unique h'
  | _, _, _, _, _, _, .record h, .record h' => h.unique h'

theorem FindsAny.unique {v : TyVar} : ∀ {s s' s'' : Store} {ts : List Ty} {found found' : Bool},
    FindsAny v s ts found s' → FindsAny v s ts found' s'' → found = found' ∧ s' = s''
  | _, _, _, _, _, _, .nil, .nil => ⟨rfl, rfl⟩
  | _, _, _, _, _, _, .hit h, .hit h' => ⟨rfl, (h.unique h').2⟩
  | _, _, _, _, _, _, .hit h, .miss h' _ => nomatch (h.unique h').1
  | _, _, _, _, _, _, .miss h _, .hit h' => nomatch (h.unique h').1
  | _, _, _, _, _, _, .miss hhead htail, .miss hhead' htail' => by
    obtain ⟨-, rfl⟩ := hhead.unique hhead'
    exact htail.unique htail'
end

end Unique

/-! ## The walk that is taken -/

theorem Acyclic.trails {s : Store} (hs : s.Acyclic) :
    ∀ {n : Nat} {v : TyVar}, s.rank v ≤ n → Trails s v (s.trail n v) := by
  intro n
  induction n with
  | zero => exact fun hn => .unbound (rank_eq_zero hn)
  | succ n ih =>
    intro v hn
    unfold trail
    split
    · next hv => exact .unbound hv
    · next w hv =>
      have hlt := hs.rank_lt (.single ⟨_, hv, by simp⟩ : TransGen s.Refers v w)
      exact .onward hv (ih (by omega))
    · next t ht hv => exact .stop hv ht

theorem Acyclic.resolves {s : Store} (hs : s.Acyclic) (t : Ty) :
    s.Resolves t (Store.resolve t s).1 (Store.resolve t s).2 := by
  by_cases ht : ∃ v, t = .var v
  · obtain ⟨v, rfl⟩ := ht
    exact .follow (hs.trails (s.rank_le_size v))
  · have ht' : ∀ v, t ≠ .var v := fun v hv => ht ⟨v, hv⟩
    rw [resolve_of_not_var ht']
    exact .stay ht'

/-- The step `act` applies the bindings of `s` to `v`, for which it gives `t`. -/
structure Opens (s : Store) (v : TyVar) (t : Ty) (act : StateM Store Ty) : Prop where
  applies : Applies s (.var v) (act s).1 (act s).2
  answers : Answers s t act

mutual
theorem applies_traverse {f : TyVar → StateM Store Ty} {θ : TyVar → Ty} :
    ∀ (t : Ty) (s : Store), (∀ v ∈ t.vars, ∀ s', Compresses s s' → Opens s' v (θ v) (f v)) →
      Applies s t (t.traverse f s).1 (t.traverse f s).2
  | .var v, s, h => (h v (by simp) s (.refl s)).applies
  | .fn params result, s, h => by
    have hps : ∀ v ∈ Ty.varsList params, ∀ s', Compresses s s' → Opens s' v (θ v) (f v) :=
      fun v hv => h v (by simp [Ty.vars, hv])
    have hc := (answers_traverseList params s fun v hv s' hs' => (hps v hv s' hs').answers).2
    refine .intro (.stay (by simp)) (.fn (applies_traverseList params s hps) ?_)
    exact applies_traverse result _ fun v hv s' hs' => h v (by simp [hv]) s' (hc.trans hs')
  | .tuple elements, s, h => .intro (.stay (by simp)) (.tuple (applies_traverseList elements s h))
  | .record fields, s, h => .intro (.stay (by simp)) (.record (applies_traverseFields fields s h))
  | .prim p, s, _ => .intro (.stay (by simp)) .prim
  | .external path, s, _ => .intro (.stay (by simp)) .external
  | .adt name, s, _ => .intro (.stay (by simp)) .adt

theorem applies_traverseList {f : TyVar → StateM Store Ty} {θ : TyVar → Ty} :
    ∀ (ts : List Ty) (s : Store),
      (∀ v ∈ Ty.varsList ts, ∀ s', Compresses s s' → Opens s' v (θ v) (f v)) →
      AppliesAll s ts (Ty.traverseList f ts s).1 (Ty.traverseList f ts s).2
  | [], _, _ => .nil
  | t :: ts, s, h => by
    have ht : ∀ v ∈ t.vars, ∀ s', Compresses s s' → Opens s' v (θ v) (f v) :=
      fun v hv => h v (by simp [Ty.varsList, hv])
    have hc := (answers_traverse t s fun v hv s' hs' => (ht v hv s' hs').answers).2
    have hts : ∀ v ∈ Ty.varsList ts, ∀ s', Compresses (t.traverse f s).2 s' →
        Opens s' v (θ v) (f v) :=
      fun v hv s' hs' => h v (by simp [Ty.varsList, hv]) s' (hc.trans hs')
    exact .cons (applies_traverse t s ht) (applies_traverseList ts _ hts)

theorem applies_traverseFields {f : TyVar → StateM Store Ty} {θ : TyVar → Ty} :
    ∀ (fields : Fields Ty) (s : Store),
      (∀ v ∈ Ty.varsFields fields, ∀ s', Compresses s s' → Opens s' v (θ v) (f v)) →
      AppliesFields s fields (Ty.traverseFields f fields s).1 (Ty.traverseFields f fields s).2
  | [], _, _ => .nil
  | (name, t) :: fields, s, h => by
    have ht : ∀ v ∈ t.vars, ∀ s', Compresses s s' → Opens s' v (θ v) (f v) :=
      fun v hv => h v (by simp [Ty.varsFields, hv])
    have hc := (answers_traverse t s fun v hv s' hs' => (ht v hv s' hs').answers).2
    have hfields : ∀ v ∈ Ty.varsFields fields, ∀ s', Compresses (t.traverse f s).2 s' →
        Opens s' v (θ v) (f v) :=
      fun v hv s' hs' => h v (by simp [Ty.varsFields, hv]) s' (hc.trans hs')
    exact .cons (applies_traverse t s ht) (applies_traverseFields fields _ hfields)
end

/-- A type that is no variable is its own outermost form. -/
theorem Applies.rebuilds {s s' : Store} {t u : Ty} (h : Applies s t u s') (ht : ∀ v, t ≠ .var v) :
    Rebuilds s t u s' := by
  cases h with
  | intro hr h =>
    obtain ⟨rfl, rfl⟩ := hr.unique (.stay ht)
    exact h

/-- After a type is resolved, the walk goes on inside it. -/
theorem Acyclic.applies_bind {s : Store} (hs : s.Acyclic) (t : Ty) {f : Ty → StateM Store Ty}
    (hf : ∀ r, r = (Store.resolve t s).1 → Rebuilds (Store.resolve t s).2 r
      (f r (Store.resolve t s).2).1 (f r (Store.resolve t s).2).2) :
    Applies s t ((Store.resolve t >>= f) s).1 ((Store.resolve t >>= f) s).2 :=
  .intro (hs.resolves t) (hf _ rfl)

theorem opens_expand : ∀ (n : Nat) {s : Store} (v : TyVar), s.Acyclic → s.rank v ≤ n →
    Opens s v (s.form v) (expand n v)
  | 0, s, v, hs, hn => by
    have hv := rank_eq_zero hn
    have hstay : Applies s (.var v) (.var v) s := .intro (.follow (.unbound hv)) .var
    exact ⟨hstay, answers_expand 0 v hs hn⟩
  | n + 1, s, v, hs, hn => by
    refine ⟨hs.applies_bind (.var v) fun r hr => ?_, answers_expand (n + 1) v hs hn⟩
    have hc := (hs.resolve (.var v)).compresses
    -- inside what `v` resolves to there are only variables of smaller rank
    have hinside : (∀ w, r ≠ .var w) → ∀ w ∈ r.vars,
        ∀ s', Compresses (Store.resolve (.var v) s).2 s' → Opens s' w (s.form w) (expand n w) := by
      intro hne w hw s' hs'
      subst hr
      rw [← (hc.trans hs').form_eq hs]
      exact opens_expand n w ((hc.trans hs').acyclic hs)
        (hs.rank_of_resolved hn (hne v) hw (hc.trans hs'))
    cases r with
    | var w => exact .var
    | _ => exact (applies_traverse _ _ (hinside (by simp))).rebuilds (by simp)

/-- In an acyclic store `apply` takes the walk of the rules. -/
theorem Acyclic.applies {s : Store} (hs : s.Acyclic) (t : Ty) :
    Applies s t (apply t s).1 (apply t s).2 := by
  have hopens : ∀ v ∈ t.vars, ∀ s', Compresses s s' → Opens s' v (s.form v) (expand s.size v) := by
    intro v _ s' hs'
    rw [← hs'.form_eq hs]
    exact opens_expand s.size v (hs'.acyclic hs) ((hs'.rank_le v).trans (s.rank_le_size v))
  exact applies_traverse t s hopens

theorem Acyclic.applies_iff {s s' : Store} (hs : s.Acyclic) {t u : Ty} :
    Applies s t u s' ↔ apply t s = (u, s') := by
  constructor
  · intro h
    obtain ⟨hu, hs'⟩ := (hs.applies t).unique h
    exact Prod.ext hu hs'
  · intro h
    have happlies := hs.applies t
    rwa [h] at happlies

/-- The step `act` looks for `v` in `w` with the bindings of `s` applied; it answers `found`. -/
structure Looks (v : TyVar) (s : Store) (w : TyVar) (found : Bool) (act : StateM Store Bool) :
    Prop where
  finds : Finds v s (.var w) (act s).1 (act s).2
  answers : Answers s found act

theorem run_orElse (act rest : StateM Store Bool) (s : Store) :
    (do if ← act then return true else rest) s =
      if (act s).1 = true then (true, (act s).2) else rest (act s).2 := by
  change (if (act s).1 = true then pure true else rest) (act s).2 = _
  split <;> rfl

mutual
theorem finds_anyVar {v : TyVar} {f : TyVar → StateM Store Bool} {p : TyVar → Bool} :
    ∀ (t : Ty) (s : Store), (∀ w ∈ t.vars, ∀ s', Compresses s s' → Looks v s' w (p w) (f w)) →
      Finds v s t (t.anyVar f s).1 (t.anyVar f s).2
  | .var w, s, h => (h w (by simp) s (.refl s)).finds
  | .fn params result, s, h => by
    have hlooks : ∀ w ∈ Ty.varsList params, ∀ s', Compresses s s' → Looks v s' w (p w) (f w) :=
      fun w hw => h w (by simp [Ty.vars, hw])
    have hc := (answers_anyVarList params s fun w hw s' hs' => (hlooks w hw s' hs').answers).2
    have hparams := finds_anyVarList params s hlooks
    have hresult := finds_anyVar result _ fun w hw s' hs' => h w (by simp [hw]) s' (hc.trans hs')
    refine .intro (.stay (by simp)) ?_
    rw [Ty.anyVar, run_orElse]
    cases hfound : (Ty.anyVarList f params s).1 <;> rw [hfound] at hparams
    · exact .result hparams hresult
    · exact .params hparams
  | .tuple elements, s, h => .intro (.stay (by simp)) (.tuple (finds_anyVarList elements s h))
  | .record fields, s, h => .intro (.stay (by simp)) (.record (finds_anyVarFields fields s h))
  | .prim _, s, _ => .intro (.stay (by simp)) .prim
  | .external _, s, _ => .intro (.stay (by simp)) .external
  | .adt _, s, _ => .intro (.stay (by simp)) .adt

theorem finds_anyVarList {v : TyVar} {f : TyVar → StateM Store Bool} {p : TyVar → Bool} :
    ∀ (ts : List Ty) (s : Store),
      (∀ w ∈ Ty.varsList ts, ∀ s', Compresses s s' → Looks v s' w (p w) (f w)) →
      FindsAny v s ts (Ty.anyVarList f ts s).1 (Ty.anyVarList f ts s).2
  | [], _, _ => .nil
  | t :: ts, s, h => by
    have hlooks : ∀ w ∈ t.vars, ∀ s', Compresses s s' → Looks v s' w (p w) (f w) :=
      fun w hw => h w (by simp [Ty.varsList, hw])
    have hc := (answers_anyVar t s fun w hw s' hs' => (hlooks w hw s' hs').answers).2
    have hhead := finds_anyVar t s hlooks
    have htail := finds_anyVarList ts _ fun w hw s' hs' =>
      h w (by simp [Ty.varsList, hw]) s' (hc.trans hs')
    rw [Ty.anyVarList, run_orElse]
    cases hfound : (t.anyVar f s).1 <;> rw [hfound] at hhead
    · exact .miss hhead htail
    · exact .hit hhead

theorem finds_anyVarFields {v : TyVar} {f : TyVar → StateM Store Bool} {p : TyVar → Bool} :
    ∀ (fields : Fields Ty) (s : Store),
      (∀ w ∈ Ty.varsFields fields, ∀ s', Compresses s s' → Looks v s' w (p w) (f w)) →
      FindsAny v s (fields.map (·.2)) (Ty.anyVarFields f fields s).1 (Ty.anyVarFields f fields s).2
  | [], _, _ => .nil
  | (name, t) :: fields, s, h => by
    have hlooks : ∀ w ∈ t.vars, ∀ s', Compresses s s' → Looks v s' w (p w) (f w) :=
      fun w hw => h w (by simp [Ty.varsFields, hw])
    have hc := (answers_anyVar t s fun w hw s' hs' => (hlooks w hw s' hs').answers).2
    have hhead := finds_anyVar t s hlooks
    have htail := finds_anyVarFields fields _ fun w hw s' hs' =>
      h w (by simp [Ty.varsFields, hw]) s' (hc.trans hs')
    rw [Ty.anyVarFields, run_orElse]
    cases hfound : (t.anyVar f s).1 <;> rw [hfound] at hhead
    · exact .miss hhead htail
    · exact .hit hhead
end

theorem Finds.sees {v : TyVar} {s s' : Store} {t : Ty} {found : Bool} (h : Finds v s t found s')
    (ht : ∀ w, t ≠ .var w) : Sees v s t found s' := by
  cases h with
  | intro hr h =>
    obtain ⟨rfl, rfl⟩ := hr.unique (.stay ht)
    exact h

theorem Acyclic.finds_bind {s : Store} (hs : s.Acyclic) {v : TyVar} (t : Ty)
    {f : Ty → StateM Store Bool}
    (hf : ∀ r, r = (Store.resolve t s).1 → Sees v (Store.resolve t s).2 r
      (f r (Store.resolve t s).2).1 (f r (Store.resolve t s).2).2) :
    Finds v s t ((Store.resolve t >>= f) s).1 ((Store.resolve t >>= f) s).2 :=
  .intro (hs.resolves t) (hf _ rfl)

theorem looks_reaches (v : TyVar) : ∀ (n : Nat) {s : Store} (w : TyVar), s.Acyclic →
    s.rank w ≤ n → Looks v s w (decide (v ∈ (s.form w).vars)) (reaches v n w)
  | 0, s, w, hs, hn => by
    have hw := rank_eq_zero hn
    have hstay : Finds v s (.var w) (w == v) s := .intro (.follow (.unbound hw)) .var
    exact ⟨hstay, answers_reaches v 0 w hs hn⟩
  | n + 1, s, w, hs, hn => by
    refine ⟨hs.finds_bind (.var w) fun r hr => ?_, answers_reaches v (n + 1) w hs hn⟩
    have hc := (hs.resolve (.var w)).compresses
    have hinside : (∀ x, r ≠ .var x) → ∀ x ∈ r.vars,
        ∀ s', Compresses (Store.resolve (.var w) s).2 s' →
          Looks v s' x (decide (v ∈ (s.form x).vars)) (reaches v n x) := by
      intro hne x hx s' hs'
      subst hr
      rw [← (hc.trans hs').form_eq hs]
      exact looks_reaches v n x ((hc.trans hs').acyclic hs)
        (hs.rank_of_resolved hn (hne w) hx (hc.trans hs'))
    cases r with
    | var u => exact .var
    | _ => exact (finds_anyVar _ _ (hinside (by simp))).sees (by simp)

/-- In an acyclic store `occurs` takes the walk of the rules. -/
theorem Acyclic.finds {s : Store} (hs : s.Acyclic) (v : TyVar) (t : Ty) :
    Finds v s t (occurs v t s).1 (occurs v t s).2 := by
  have hlooks : ∀ w ∈ t.vars, ∀ s', Compresses s s' →
      Looks v s' w (decide (v ∈ (s.form w).vars)) (reaches v s.size w) := by
    intro w _ s' hs'
    rw [← hs'.form_eq hs]
    exact looks_reaches v s.size w (hs'.acyclic hs) ((hs'.rank_le w).trans (s.rank_le_size w))
  exact finds_anyVar t s hlooks

theorem Acyclic.finds_iff {s s' : Store} (hs : s.Acyclic) {v : TyVar} {t : Ty} {found : Bool} :
    Finds v s t found s' ↔ occurs v t s = (found, s') := by
  constructor
  · intro h
    obtain ⟨hfound, hs'⟩ := (hs.finds v t).unique h
    exact Prod.ext hfound hs'
  · intro h
    have hfinds := hs.finds v t
    rwa [h] at hfinds

end Monotype.Store
