import Monotype.Proofs.Unify.Rules

/-! What a derivation of unification achieves: which solutions of the store it keeps, and when it
meets no failure. -/
namespace Monotype.Store

/-- The equations `eqs` have been worked into `s`, with the failures `errors`, giving `s'`.
Solutions are only ever lost; those that satisfy the equations are kept, and there is no failure
as long as there is one of them. -/
structure Outcome (lenient : Bool) (s : Store) (eqs : (TyVar → Ty) → Prop)
    (errors : List (TypeError Ty)) (s' : Store) : Prop where
  acyclic : s'.Acyclic
  shrinks : ∀ θ, s'.Solves θ → s.Solves θ
  equal : lenient = false → errors = [] → ∀ θ, s'.Solves θ → eqs θ
  complete : ∀ θ, s.Solves θ → eqs θ → errors = [] ∧ s'.Solves θ

namespace Outcome
variable {lenient : Bool} {s s₁ s₂ : Store} {eqs eqs' : (TyVar → Ty) → Prop}
  {errors errors' : List (TypeError Ty)}

/-- Equations that say nothing. -/
theorem nothing (hs : s.Acyclic) (h : ∀ θ, eqs θ) : Outcome lenient s eqs [] s :=
  ⟨hs, fun _ h => h, fun _ _ θ _ => h θ, fun _ hθ _ => ⟨rfl, hθ⟩⟩

/-- Equations that no solution satisfies, with a failure that says so. -/
theorem hopeless (hs : s₁.Acyclic) (hsol : ∀ θ, s₁.Solves θ → s.Solves θ) (he : errors ≠ [])
    (h : ∀ θ, s.Solves θ → ¬ eqs θ) : Outcome lenient s eqs errors s₁ where
  acyclic := hs
  shrinks := hsol
  equal _ hnil := absurd hnil he
  complete θ hθ heq := absurd heq (h θ hθ)

theorem congr (h : Outcome lenient s eqs errors s₁)
    (heq : ∀ θ, s.Solves θ → (eqs θ ↔ eqs' θ)) : Outcome lenient s eqs' errors s₁ where
  acyclic := h.acyclic
  shrinks := h.shrinks
  equal hl he θ hθ := (heq θ (h.shrinks θ hθ)).1 (h.equal hl he θ hθ)
  complete θ hθ hq := h.complete θ hθ ((heq θ hθ).2 hq)

/-- Shortening ways before changes nothing. -/
theorem after_compression (hc : Compresses s s₁) (h : Outcome lenient s₁ eqs errors s₂) :
    Outcome lenient s eqs errors s₂ where
  acyclic := h.acyclic
  shrinks θ hθ := (hc.solves_iff θ).1 (h.shrinks θ hθ)
  equal := h.equal
  complete θ hθ heq := h.complete θ ((hc.solves_iff θ).2 hθ) heq

/-- First some equations, then others. -/
theorem seq (h : Outcome lenient s eqs errors s₁) (h' : Outcome lenient s₁ eqs' errors' s₂) :
    Outcome lenient s (fun θ => eqs θ ∧ eqs' θ) (errors ++ errors') s₂ where
  acyclic := h'.acyclic
  shrinks θ hθ := h.shrinks θ (h'.shrinks θ hθ)
  equal hl he θ hθ := by
    obtain ⟨he, he'⟩ := List.append_eq_nil_iff.1 he
    exact ⟨h.equal hl he θ (h'.shrinks θ hθ), h'.equal hl he' θ hθ⟩
  complete θ hθ heq := by
    obtain ⟨he, hθ₁⟩ := h.complete θ hθ heq.1
    obtain ⟨he', hθ₂⟩ := h'.complete θ hθ₁ heq.2
    exact ⟨by simp [he, he'], hθ₂⟩

/-- Without failures what is left are the solutions that satisfy the equations. -/
theorem solves_iff (h : Outcome false s eqs errors s₁) (he : errors = []) (θ : TyVar → Ty) :
    s₁.Solves θ ↔ s.Solves θ ∧ eqs θ := by
  constructor
  · exact fun hθ => ⟨h.shrinks θ hθ, h.equal rfl he θ hθ⟩
  · exact fun ⟨hθ, heq⟩ => (h.complete θ hθ heq).2

/-- There are failures only where no solution satisfies the equations. -/
theorem eq_nil_iff (h : Outcome false s eqs errors s₁) :
    errors = [] ↔ ∃ θ, s.Solves θ ∧ eqs θ := by
  constructor
  · intro he
    exact ⟨_, (h.solves_iff he _).1 h.acyclic.solves_form⟩
  · exact fun ⟨θ, hθ, heq⟩ => (h.complete θ hθ heq).1

end Outcome

/-- A type that is no bound variable, as it is once it has been resolved. -/
def Ends (s : Store) (t : Ty) : Prop := ∀ w, t = .var w → s.lookup w = none

theorem Compresses.ends_iff {s s' : Store} (h : Compresses s s') {t : Ty} :
    s'.Ends t ↔ s.Ends t :=
  forall_congr' fun w => imp_congr_right fun _ => h.unbound_iff w

/-- An unbound variable inside a resolved type, other than that type itself, cannot be made equal
to it. -/
theorem Acyclic.ne_of_mem_full {s : Store} (hs : s.Acyclic) {v : TyVar} {t : Ty} (ht : s.Ends t)
    (hne : t ≠ .var v) (hmem : v ∈ (s.full t).vars) {θ : TyVar → Ty} (hθ : s.Solves θ) :
    θ v ≠ t.subst θ := by
  have hfull : s.full t ≠ .var v := by
    intro heq
    cases t with
    | var w =>
      rw [full, Ty.subst_var, form_of_unbound (ht w rfl)] at heq
      exact hne heq
    | _ => simp [full] at heq
  rw [← hs.full_subst hθ t]
  exact Ty.subst_ne_of_mem_vars hmem hfull

theorem Assigns.outcome {lenient : Bool} {s s' : Store} {v : TyVar} {t : Ty}
    {errors : List (TypeError Ty)} (h : Assigns s v t errors s') (hs : s.Acyclic)
    (hv : s.lookup v = none) (ht : s.Ends t) (hne : t ≠ .var v) :
    Outcome lenient s (fun θ => θ v = t.subst θ) errors s' := by
  obtain ⟨hans, hc⟩ := hs.answers_occurs v t
  have hs' := hc.acyclic hs
  have hv' := (hc.unbound_iff v).2 hv
  cases h with
  | bind ho =>
    -- `v` does not occur behind `t`, so no way leads back to it
    have hmem : v ∉ ((occurs v t s).2.full t).vars := by
      rw [hc.full_eq hs]
      simpa [hans] using ho
    refine .after_compression hc ⟨hs'.bind hv' hmem, fun θ hθ => ?_, fun _ _ θ hθ => ?_,
      fun θ hθ heq => ⟨rfl, (solves_bind hv').2 ⟨hθ, heq⟩⟩⟩
    · exact ((solves_bind hv').1 hθ).1
    · exact ((solves_bind hv').1 hθ).2
  | refuse ho =>
    have hmem : v ∈ (s.full t).vars := by simpa [hans] using ho
    have hc' := hc.trans (hs'.answers_apply t).2
    refine .hopeless (hc'.acyclic hs) (fun θ => (hc'.solves_iff θ).1) (by simp) fun θ hθ => ?_
    exact hs.ne_of_mem_full ht hne hmem hθ

/-- Types of different shapes stay different whatever their variables are replaced by. -/
theorem subst_ne_of_not_alike {l r : Ty} (hl : ∀ w, l ≠ .var w) (hr : ∀ w, r ≠ .var w)
    (hne : l ≠ r) (halike : ¬ l.Alike r) (θ : TyVar → Ty) : l.subst θ ≠ r.subst θ := by
  cases l <;> cases r <;> simp_all [Ty.Alike]

mutual
theorem Unifies.outcome {lenient : Bool} : ∀ {s s' : Store} {l r : Ty}
    {errors : List (TypeError Ty)}, Unifies lenient s l r errors s' → s.Acyclic →
    Outcome lenient s (fun θ => l.subst θ = r.subst θ) errors s'
  | s, _, l, r, _, .intro h, hs => by
    have hl := hs.resolve l
    have hr := (hl.compresses.acyclic hs).resolve r
    have hc := hl.compresses.trans hr.compresses
    have hends := h.outcome (hc.acyclic hs) (hc.ends_iff.2 hl.unbound)
      (hr.compresses.ends_iff.2 hr.unbound)
    refine (hends.after_compression hc).congr fun θ hθ => ?_
    rw [hl.subst_eq θ hθ, hr.subst_eq θ ((hl.compresses.solves_iff θ).2 hθ)]

theorem Meets.outcome {lenient : Bool} : ∀ {s s' : Store} {l r : Ty}
    {errors : List (TypeError Ty)}, Meets lenient s l r errors s' → s.Acyclic → s.Ends l →
    s.Ends r → Outcome lenient s (fun θ => l.subst θ = r.subst θ) errors s'
  | _, _, _, _, _, .sameVar, hs, _, _ => .nothing hs fun _ => rfl
  | _, _, _, _, _, .assignLeft hne h, hs, hl, hr => h.outcome hs (hl _ rfl) hr hne
  | _, _, _, _, _, .assignRight hvar h, hs, hl, hr =>
    (h.outcome hs (hr _ rfl) hl (hvar _)).congr fun _ _ => eq_comm
  | _, _, _, _, _, .sameLeaf _, hs, _, _ => .nothing hs fun _ => rfl
  | _, _, _, _, _, .agree _ _ _ hlen _, hs, _, _ =>
    ⟨hs, fun _ h => h, fun hstrict => by simp [hstrict] at hlen, fun _ hθ _ => ⟨rfl, hθ⟩⟩
  | _, _, _, _, _, .fn _ hparams hresult, hs, _, _ => by
    have hps := hparams.outcome hs
    refine (hps.seq (hresult.outcome hps.acyclic)).congr fun θ _ => ?_
    simp
  | _, _, _, _, _, .arity hlen, hs, _, _ => by
    refine .hopeless hs (fun _ h => h) (by simp) fun θ _ heq => hlen ?_
    simp only [Ty.subst_fn, Ty.fn.injEq] at heq
    simpa using congrArg List.length heq.1
  | _, _, _, _, _, .tuple _ helements, hs, _, _ =>
    (helements.outcome hs).congr fun θ _ => by simp
  | _, _, _, _, _, .length hlen, hs, _, _ => by
    refine .hopeless hs (fun _ h => h) (by simp) fun θ _ heq => hlen ?_
    simp only [Ty.subst_tuple, Ty.tuple.injEq] at heq
    simpa using congrArg List.length heq
  | _, _, _, _, _, .record hfields, hs, _, _ =>
    (hfields.outcome hs).congr fun θ _ => by simp
  | _, _, l, r, _, .mismatch hl hr hne halike _, hs, _, _ => by
    have hc := (hs.answers_apply l).2
    have hc' := hc.trans ((hc.acyclic hs).answers_apply r).2
    refine .hopeless (hc'.acyclic hs) (fun θ => (hc'.solves_iff θ).1) (by simp) fun θ _ => ?_
    exact subst_ne_of_not_alike hl hr hne halike θ

theorem AllUnify.outcome {lenient : Bool} : ∀ {s s' : Store} {ts us : List Ty}
    {errors : List (TypeError Ty)}, AllUnify lenient s ts us errors s' → s.Acyclic →
    Outcome lenient s (fun θ => ts.map (Ty.subst θ) = us.map (Ty.subst θ)) errors s'
  | _, _, _, _, _, .nil, hs => .nothing hs fun _ => rfl
  | _, _, _, _, _, .cons hhead htail, hs => by
    have hh := hhead.outcome hs
    refine (hh.seq (htail.outcome hh.acyclic)).congr fun θ _ => ?_
    simp

theorem FieldsUnify.outcome {lenient : Bool} : ∀ {s s' : Store} {fields others : Fields Ty}
    {errors : List (TypeError Ty)}, FieldsUnify lenient s fields others errors s' → s.Acyclic →
    Outcome lenient s (fun θ => fields.map (fun field => (field.1, field.2.subst θ)) =
      others.map fun field => (field.1, field.2.subst θ)) errors s'
  | _, _, _, others, _, .nil, hs => by
    cases others with
    | nil => exact .nothing hs fun _ => rfl
    | cons other others => exact .hopeless hs (fun _ h => h) (by simp) (by simp)
  | s, _, _, others, _, @FieldsUnify.shared _ _ _ _ name t u fields _ rest _ _ hrest hfield
      hfields, hs => by
    have hf := hfield.outcome hs
    have hboth := hf.seq (hfields.outcome hf.acyclic)
    have happ := List.takeWhile_append_dropWhile (p := (·.1 < name)) (l := others)
    rw [hrest] at happ
    cases hbefore : others.takeWhile (·.1 < name) with
    | nil =>
      rw [hbefore, List.nil_append] at happ
      refine hboth.congr fun θ _ => ?_
      simp [← happ]
    | cons other before =>
      -- a name that only the other side has: the first names differ in every solution
      have hall := List.all_takeWhile (p := (·.1 < name)) (l := others)
      have hlt : other.1 < name := by
        simp only [hbefore, List.all_cons, Bool.and_eq_true, decide_eq_true_eq] at hall
        exact hall.1
      rw [hbefore] at happ
      refine .hopeless hboth.acyclic hboth.shrinks (by simp) fun θ _ heq => ?_
      rw [← happ, List.cons_append, List.map_cons, List.map_cons, List.cons.injEq,
        Prod.mk.injEq] at heq
      have hkey : name = other.1 := heq.1.1
      exact String.lt_irrefl name (hkey ▸ hlt)
  | s, _, _, others, _, @FieldsUnify.missing _ _ _ name t fields _ rest _ hrest habsent
      hfields, hs => by
    have hf := hfields.outcome hs
    refine .hopeless hf.acyclic hf.shrinks (by simp) fun θ _ heq => ?_
    obtain ⟨⟨key, u⟩, tail, rfl⟩ : ∃ other tail, others = other :: tail := by
      cases others with
      | nil => simp at heq
      | cons other tail => exact ⟨other, tail, rfl⟩
    simp only [List.map_cons, List.cons.injEq, Prod.mk.injEq] at heq
    -- the first names are equal, so dropping smaller names drops nothing
    have hkey := heq.1.1
    subst hkey
    refine habsent u tail ?_
    rw [← hrest, List.dropWhile_cons_of_neg]
    rw [decide_eq_true_eq]
    exact String.lt_irrefl _
end

theorem Assigns.within {n : Nat} {s s' : Store} {v : TyVar} {t : Ty}
    {errors : List (TypeError Ty)} (h : Assigns s v t errors s') (hs : s.Acyclic)
    (hn : s.Within n) (hv : v < n) (ht : t.Below n) : s'.Within n := by
  have hc := (hs.answers_occurs v t).2
  cases h with
  | bind => exact (hn.compresses hc).bind hv ht
  | refuse => exact (hn.compresses hc).compresses ((hc.acyclic hs).answers_apply t).2

theorem below_dropWhile {n : Nat} {fields : Fields Ty} (h : ∀ field ∈ fields, field.2.Below n)
    (p : String × Ty → Bool) : ∀ field ∈ fields.dropWhile p, field.2.Below n :=
  fun field hf => h field ((List.dropWhile_sublist p).subset hf)

mutual
/-- Unification brings no variable into a store that neither side nor the store has. -/
theorem Unifies.within {lenient : Bool} {n : Nat} : ∀ {s s' : Store} {l r : Ty}
    {errors : List (TypeError Ty)}, Unifies lenient s l r errors s' → s.Acyclic → s.Within n →
    l.Below n → r.Below n → s'.Within n
  | s, _, l, r, _, .intro h, hs, hn, hl, hr => by
    have hcl := (hs.resolve l).compresses
    have hsl := hcl.acyclic hs
    have hcr := (hsl.resolve r).compresses
    exact h.within (hcr.acyclic hsl) ((hn.compresses hcl).compresses hcr) (hn.resolve hs hl)
      ((hn.compresses hcl).resolve hsl hr) (hcr.ends_iff.2 (hcl.ends_iff.2 (hs.resolve l).unbound))
      (hcr.ends_iff.2 (hsl.resolve r).unbound)

theorem Meets.within {lenient : Bool} {n : Nat} : ∀ {s s' : Store} {l r : Ty}
    {errors : List (TypeError Ty)}, Meets lenient s l r errors s' → s.Acyclic → s.Within n →
    l.Below n → r.Below n → s.Ends l → s.Ends r → s'.Within n
  | _, _, _, _, _, .sameVar, _, hn, _, _, _, _ => hn
  | _, _, _, _, _, .assignLeft _ h, hs, hn, hl, hr, _, _ =>
    h.within hs hn (Ty.below_var.1 hl) hr
  | _, _, _, _, _, .assignRight _ h, hs, hn, hl, hr, _, _ =>
    h.within hs hn (Ty.below_var.1 hr) hl
  | _, _, _, _, _, .sameLeaf _, _, hn, _, _, _, _ => hn
  | _, _, _, _, _, .agree _ _ _ _ _, _, hn, _, _, _, _ => hn
  | _, _, _, _, _, .fn _ hparams hresult, hs, hn, hl, hr, _, _ => by
    rw [Ty.below_fn] at hl hr
    have hn' := hparams.within hs hn hl.1 hr.1
    exact hresult.within (hparams.outcome hs).acyclic hn' hl.2 hr.2
  | _, _, _, _, _, .arity _, _, hn, _, _, _, _ => hn
  | _, _, _, _, _, .tuple _ helements, hs, hn, hl, hr, _, _ =>
    helements.within hs hn (Ty.below_tuple.1 hl) (Ty.below_tuple.1 hr)
  | _, _, _, _, _, .length _, _, hn, _, _, _, _ => hn
  | _, _, _, _, _, .record hfields, hs, hn, hl, hr, _, _ =>
    hfields.within hs hn (Ty.below_record.1 hl) (Ty.below_record.1 hr)
  | _, _, l, r, _, .mismatch _ _ _ _ _, hs, hn, _, _, _, _ => by
    have hc := (hs.answers_apply l).2
    exact (hn.compresses hc).compresses ((hc.acyclic hs).answers_apply r).2

theorem AllUnify.within {lenient : Bool} {n : Nat} : ∀ {s s' : Store} {ts us : List Ty}
    {errors : List (TypeError Ty)}, AllUnify lenient s ts us errors s' → s.Acyclic →
    s.Within n → (∀ t ∈ ts, t.Below n) → (∀ u ∈ us, u.Below n) → s'.Within n
  | _, _, _, _, _, .nil, _, hn, _, _ => hn
  | _, _, _, _, _, .cons hhead htail, hs, hn, hts, hus => by
    rw [List.forall_mem_cons] at hts hus
    exact htail.within (hhead.outcome hs).acyclic (hhead.within hs hn hts.1 hus.1) hts.2 hus.2

theorem FieldsUnify.within {lenient : Bool} {n : Nat} : ∀ {s s' : Store}
    {fields others : Fields Ty} {errors : List (TypeError Ty)},
    FieldsUnify lenient s fields others errors s' → s.Acyclic → s.Within n →
    (∀ field ∈ fields, field.2.Below n) → (∀ field ∈ others, field.2.Below n) → s'.Within n
  | _, _, _, _, _, .nil, _, hn, _, _ => hn
  | _, _, _, _, _, .shared hrest hfield hfields, hs, hn, hl, hr => by
    rw [List.forall_mem_cons] at hl
    have hr' := List.forall_mem_cons.1 (hrest ▸ below_dropWhile hr _)
    exact hfields.within (hfield.outcome hs).acyclic (hfield.within hs hn hl.1 hr'.1) hl.2 hr'.2
  | _, _, _, _, _, .missing hrest _ hfields, hs, hn, hl, hr => by
    rw [List.forall_mem_cons] at hl
    exact hfields.within hs hn hl.2 (hrest ▸ below_dropWhile hr _)
end

end Monotype.Store
