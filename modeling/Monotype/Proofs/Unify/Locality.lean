import Monotype.Proofs.Unify.Outcome

/-! Which variables a unification binds: only such as are open in the full form of one of its sides.
Later parts are unified in a store that the earlier ones have changed, so what a part is over has to
stay closed under what its variables become. -/
namespace Monotype.Store

/-- Written out in full, `t` has variables of `X` only. -/
def Over (s : Store) (X : Set TyVar) (t : Ty) : Prop := ∀ v ∈ (s.full t).vars, v ∈ X

/-- Variables of `X` stand for types over `X`. -/
def Closed (s : Store) (X : Set TyVar) : Prop := ∀ v ∈ X, s.Over X (.var v)

/-- From `s` on only variables of `X` have been bound, and only to types over `X`. -/
structure LocalTo (X : Set TyVar) (s s' : Store) : Prop where
  acyclic : s'.Acyclic
  shrinks : ∀ θ, s'.Solves θ → s.Solves θ
  closed : s'.Closed X
  unbound : ∀ v ∉ X, s.lookup v = none → s'.lookup v = none

section
variable {X : Set TyVar} {s s' s₁ : Store} {t : Ty}

theorem over_iff_form : s.Over X t ↔ ∀ v ∈ t.vars, ∀ w ∈ (s.form v).vars, w ∈ X := by
  simp only [Over, full, Ty.mem_vars_subst]
  grind

/-- In a store that has fewer solutions a full form is the old one with variables replaced. -/
theorem Acyclic.full_of_shrinks (hs : s.Acyclic) (hs' : s'.Acyclic)
    (h : ∀ θ, s'.Solves θ → s.Solves θ) (t : Ty) : s'.full t = (s.full t).subst s'.form :=
  (hs.full_subst (h _ hs'.solves_form) t).symm

theorem LocalTo.over (h : LocalTo X s s') (hs : s.Acyclic) (ht : s.Over X t) : s'.Over X t := by
  intro w hw
  rw [hs.full_of_shrinks h.acyclic h.shrinks] at hw
  obtain ⟨v, hv, hw⟩ := Ty.mem_vars_subst.1 hw
  exact h.closed v (ht v hv) w hw

theorem LocalTo.trans (h : LocalTo X s s₁) (h' : LocalTo X s₁ s') : LocalTo X s s' where
  acyclic := h'.acyclic
  shrinks θ hθ := h.shrinks θ (h'.shrinks θ hθ)
  closed := h'.closed
  unbound v hv hu := h'.unbound v hv (h.unbound v hv hu)

theorem Compresses.over_iff (h : Compresses s s') (hs : s.Acyclic) : s'.Over X t ↔ s.Over X t := by
  rw [Over, h.full_eq hs, Over]

theorem Compresses.localTo (h : Compresses s s') (hs : s.Acyclic) (hX : s.Closed X) :
    LocalTo X s s' where
  acyclic := h.acyclic hs
  shrinks θ hθ := (h.solves_iff θ).1 hθ
  closed v hv := (h.over_iff hs).2 (hX v hv)
  unbound v _ hu := (h.unbound_iff v).2 hu

theorem Acyclic.over_resolve (hs : s.Acyclic) : s.Over X (Store.resolve t s).1 ↔ s.Over X t := by
  rw [Over, hs.full_resolve, Over]

/-- A variable of `X` becomes a type over `X` in which it does not occur. -/
theorem Acyclic.localTo_bind (hs : s.Acyclic) (hX : s.Closed X) {v : TyVar}
    (hv : s.lookup v = none) (ho : v ∉ (s.full t).vars) (hvX : v ∈ X) (ht : s.Over X t) :
    LocalTo X s (s.bind v t) := by
  have hs' := hs.bind hv ho
  have hshrinks : ∀ θ, (s.bind v t).Solves θ → s.Solves θ := fun θ hθ => ((solves_bind hv).1 hθ).1
  -- an unbound variable other than `v` stays what it is
  have hopen : ∀ u, s.lookup u = none → u ≠ v → (s.bind v t).form u = .var u := by
    intro u hu hne
    exact form_of_unbound (by simpa [lookup_bind, hne] using hu)
  have htX : (s.bind v t).Over X t := by
    intro w hw
    rw [hs.full_of_shrinks hs' hshrinks] at hw
    obtain ⟨u, hu, hw⟩ := Ty.mem_vars_subst.1 hw
    rw [hopen u (hs.unbound_of_mem_full hu) (fun heq => ho (heq ▸ hu)), Ty.vars_var,
      List.mem_singleton] at hw
    exact hw ▸ ht u hu
  refine ⟨hs', hshrinks, fun x hx w hw => ?_, fun w hw hu => ?_⟩
  · rw [hs.full_of_shrinks hs' hshrinks] at hw
    obtain ⟨u, hu, hw⟩ := Ty.mem_vars_subst.1 hw
    by_cases huv : u = v
    · subst huv
      rw [hs'.form_of_bound (t := t) (by simp [lookup_bind])] at hw
      exact htX w hw
    · rw [hopen u (hs.unbound_of_mem_full hu) huv, Ty.vars_var, List.mem_singleton] at hw
      exact hw ▸ hX x hx u hu
  · have hne : w ≠ v := fun heq => hw (heq ▸ hvX)
    simpa [lookup_bind, hne] using hu

theorem Assigns.localTo {v : TyVar} {errors : List (TypeError Ty)} (h : Assigns s v t errors s')
    (hs : s.Acyclic) (hX : s.Closed X) (hv : s.lookup v = none) (hvX : s.Over X (.var v))
    (ht : s.Over X t) : LocalTo X s s' := by
  obtain ⟨hans, hc⟩ := hs.answers_occurs v t
  have hs₁ := hc.acyclic hs
  cases h with
  | bind ho =>
    have hmem : v ∈ X := hvX v (by simp [full, form_of_unbound hv])
    have hfree : v ∉ ((occurs v t s).2.full t).vars := by
      rw [hc.full_eq hs]
      simpa [hans] using ho
    have hlocal := hc.localTo hs hX
    exact hlocal.trans (hs₁.localTo_bind hlocal.closed ((hc.unbound_iff v).2 hv) hfree hmem
      ((hc.over_iff hs).2 ht))
  | refuse ho => exact (hc.trans (hs₁.answers_apply t).2).localTo hs hX

theorem over_fn {params : List Ty} {result : Ty} :
    s.Over X (.fn params result) ↔ (∀ t ∈ params, s.Over X t) ∧ s.Over X result := by
  simp only [over_iff_form, Ty.mem_vars_fn]
  grind

theorem over_tuple {elements : List Ty} :
    s.Over X (.tuple elements) ↔ ∀ t ∈ elements, s.Over X t := by
  simp only [over_iff_form, Ty.mem_vars_tuple]
  grind

theorem over_record {fields : Fields Ty} :
    s.Over X (.record fields) ↔ ∀ field ∈ fields, s.Over X field.2 := by
  simp only [over_iff_form, Ty.mem_vars_record]
  constructor
  · intro h field hf v hv
    exact h v ⟨field, hf, hv⟩
  · rintro h v ⟨field, hf, hv⟩
    exact h field hf v hv

end

theorem mem_of_dropWhile {p : String × Ty → Bool} {fields rest : Fields Ty}
    (h : fields.dropWhile p = rest) {field : String × Ty} (hf : field ∈ rest) : field ∈ fields :=
  (List.dropWhile_sublist p).subset (h ▸ hf)

mutual
/-- A unification of types over `X` keeps to `X`. -/
theorem Unifies.localTo {lenient : Bool} {X : Set TyVar} : ∀ {s s' : Store} {l r : Ty}
    {errors : List (TypeError Ty)}, Unifies lenient s l r errors s' → s.Acyclic → s.Closed X →
    s.Over X l → s.Over X r → LocalTo X s s'
  | s, _, l, r, _, .intro h, hs, hX, hl, hr => by
    have hcl := (hs.resolve l).compresses
    have hsl := hcl.acyclic hs
    have hcr := (hsl.resolve r).compresses
    have hc := (hcl.trans hcr).localTo hs hX
    refine hc.trans (h.localTo hc.acyclic hc.closed ?_ ?_ ?_ ?_)
    · exact hc.over hs (hs.over_resolve.2 hl)
    · exact (hcr.over_iff hsl).2 (hsl.over_resolve.2 ((hcl.over_iff hs).2 hr))
    · exact hcr.ends_iff.2 (hcl.ends_iff.2 (hs.resolve l).unbound)
    · exact hcr.ends_iff.2 (hsl.resolve r).unbound
termination_by structural _ _ _ _ _ h => h

theorem Meets.localTo {lenient : Bool} {X : Set TyVar} : ∀ {s s' : Store} {l r : Ty}
    {errors : List (TypeError Ty)}, Meets lenient s l r errors s' → s.Acyclic → s.Closed X →
    s.Over X l → s.Over X r → s.Ends l → s.Ends r → LocalTo X s s'
  | s, _, _, _, _, .sameVar, hs, hX, _, _, _, _ => (Compresses.refl s).localTo hs hX
  | _, _, _, _, _, .assignLeft _ h, hs, hX, hl, hr, he, _ => h.localTo hs hX (he _ rfl) hl hr
  | _, _, _, _, _, .assignRight _ h, hs, hX, hl, hr, _, he => h.localTo hs hX (he _ rfl) hr hl
  | s, _, _, _, _, .sameLeaf _, hs, hX, _, _, _, _ => (Compresses.refl s).localTo hs hX
  | s, _, _, _, _, .agree _ _ _ _ _, hs, hX, _, _, _, _ => (Compresses.refl s).localTo hs hX
  | _, _, _, _, _, .fn _ hparams hresult, hs, hX, hl, hr, _, _ => by
    rw [over_fn] at hl hr
    have hps := hparams.localTo hs hX hl.1 hr.1
    exact hps.trans (hresult.localTo hps.acyclic hps.closed (hps.over hs hl.2) (hps.over hs hr.2))
  | s, _, _, _, _, .arity _, hs, hX, _, _, _, _ => (Compresses.refl s).localTo hs hX
  | _, _, _, _, _, .tuple _ helements, hs, hX, hl, hr, _, _ =>
    helements.localTo hs hX (over_tuple.1 hl) (over_tuple.1 hr)
  | s, _, _, _, _, .length _, hs, hX, _, _, _, _ => (Compresses.refl s).localTo hs hX
  | _, _, _, _, _, .record hfields, hs, hX, hl, hr, _, _ =>
    hfields.localTo hs hX fun _ _ _ ht hu => ⟨over_record.1 hl _ ht, over_record.1 hr _ hu⟩
  | _, _, l, r, _, .mismatch _ _ _ _ _, hs, hX, _, _, _, _ => by
    have hc := (hs.answers_apply l).2
    exact (hc.trans ((hc.acyclic hs).answers_apply r).2).localTo hs hX
termination_by structural _ _ _ _ _ h => h

theorem AllUnify.localTo {lenient : Bool} {X : Set TyVar} : ∀ {s s' : Store} {ts us : List Ty}
    {errors : List (TypeError Ty)}, AllUnify lenient s ts us errors s' → s.Acyclic →
    s.Closed X → (∀ t ∈ ts, s.Over X t) → (∀ u ∈ us, s.Over X u) → LocalTo X s s'
  | s, _, _, _, _, .nil, hs, hX, _, _ => (Compresses.refl s).localTo hs hX
  | _, _, _, _, _, .cons hhead htail, hs, hX, hts, hus => by
    rw [List.forall_mem_cons] at hts hus
    have hh := hhead.localTo hs hX hts.1 hus.1
    exact hh.trans (htail.localTo hh.acyclic hh.closed (fun t ht => hh.over hs (hts.2 t ht))
      fun u hu => hh.over hs (hus.2 u hu))
termination_by structural _ _ _ _ _ h => h

/-- Fields that only one side has do not matter. -/
theorem FieldsUnify.localTo {lenient : Bool} {X : Set TyVar} : ∀ {s s' : Store}
    {fields others : Fields Ty} {errors : List (TypeError Ty)},
    FieldsUnify lenient s fields others errors s' → s.Acyclic → s.Closed X →
    (∀ name t u, (name, t) ∈ fields → (name, u) ∈ others → s.Over X t ∧ s.Over X u) →
    LocalTo X s s'
  | s, _, _, _, _, .nil, hs, hX, _ => (Compresses.refl s).localTo hs hX
  | _, _, _, _, _, .shared hrest hfield hfields, hs, hX, h => by
    obtain ⟨ht, hu⟩ := h _ _ _ List.mem_cons_self (mem_of_dropWhile hrest List.mem_cons_self)
    have hf := hfield.localTo hs hX ht hu
    refine hf.trans (hfields.localTo hf.acyclic hf.closed fun name t u ht hu => ?_)
    obtain ⟨ht, hu⟩ :=
      h name t u (List.mem_cons_of_mem _ ht)
        (mem_of_dropWhile hrest (List.mem_cons_of_mem _ hu))
    exact ⟨hf.over hs ht, hf.over hs hu⟩
  | _, _, _, _, _, .missing hrest _ hfields, hs, hX, h =>
    hfields.localTo hs hX fun name t u ht hu =>
      h name t u (List.mem_cons_of_mem _ ht) (mem_of_dropWhile hrest hu)
termination_by structural _ _ _ _ _ h => h
end

end Monotype.Store
