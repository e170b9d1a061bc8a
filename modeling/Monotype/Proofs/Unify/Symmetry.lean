import Monotype.Proofs.Store.Renaming
import Monotype.Proofs.Unify.Inversion
import Monotype.Proofs.Unify.MostGeneral

/-! Unification is symmetric. With the sides exchanged it meets failures with the same codes in the
same order, and leaves a store that is equal up to the names of its open variables. The two runs
bind variables to each other in opposite directions, so from the first such binding on their stores
are different; what they have in common all the way are the solutions. -/
namespace Monotype

namespace Store

/-! ## Types that are equal in every solution -/

/-- Every solution of `s` makes the two types equal. -/
def Agrees (s : Store) (t u : Ty) : Prop := ∀ θ, s.Solves θ → t.subst θ = u.subst θ

def AllAgree (s : Store) (ts us : List Ty) : Prop :=
  ∀ θ, s.Solves θ → ts.map (Ty.subst θ) = us.map (Ty.subst θ)

def FieldsAgree (s : Store) (fs gs : Fields Ty) : Prop :=
  ∀ θ, s.Solves θ → fs.map (fun field => (field.1, field.2.subst θ)) =
    gs.map fun field => (field.1, field.2.subst θ)

section Shapes
variable {s s' s₁ : Store}

theorem Agrees.mono {t u : Ty} (h : s.Agrees t u) (hs : ∀ θ, s₁.Solves θ → s.Solves θ) :
    s₁.Agrees t u := fun θ hθ => h θ (hs θ hθ)

theorem AllAgree.mono {ts us : List Ty} (h : s.AllAgree ts us)
    (hs : ∀ θ, s₁.Solves θ → s.Solves θ) : s₁.AllAgree ts us := fun θ hθ => h θ (hs θ hθ)

theorem FieldsAgree.mono {fs gs : Fields Ty} (h : s.FieldsAgree fs gs)
    (hs : ∀ θ, s₁.Solves θ → s.Solves θ) : s₁.FieldsAgree fs gs := fun θ hθ => h θ (hs θ hθ)

variable {l t : Ty}

theorem Agrees.var {v : TyVar} (h : s.Agrees (.var v) t) (heq : Equivalent s s')
    (hv : s.Ends (.var v)) : ∃ w, t = .var w := by
  have hform := h s.form heq.acyclic.solves_form
  rw [Ty.subst_var, form_of_unbound (hv v rfl)] at hform
  exact Ty.eq_var_of_subst hform.symm

/-- In the other store too a type that is no variable resolves to none. -/
theorem Agrees.not_var (h : s.Agrees l t) (heq : Equivalent s s') (ht : s'.Ends t)
    (hl : ∀ w, l ≠ .var w) : ∀ w, t ≠ .var w := by
  rintro w rfl
  have hform := h s'.form heq.solves_form'
  rw [Ty.subst_var, form_of_unbound (ht w rfl)] at hform
  obtain ⟨v, hv⟩ := Ty.eq_var_of_subst hform
  exact hl v hv

theorem Agrees.leaf (h : s.Agrees l t) (hs : s.Acyclic) (hl : l.IsLeaf) (ht : ∀ w, t ≠ .var w) :
    t = l := by
  have hform := h s.form hs.solves_form
  cases t with
  | var w => exact absurd rfl (ht w)
  | _ => cases l <;> simp_all [Ty.IsLeaf]

theorem Agrees.fn {ps : List Ty} {p : Ty} (h : s.Agrees (.fn ps p) t) (hs : s.Acyclic)
    (ht : ∀ w, t ≠ .var w) :
    ∃ ps' p', t = .fn ps' p' ∧ s.AllAgree ps ps' ∧ s.Agrees p p' := by
  have hform := h s.form hs.solves_form
  cases t with
  | fn ps' p' =>
    refine ⟨ps', p', rfl, fun θ hθ => ?_, fun θ hθ => ?_⟩
    · exact (by simpa using h θ hθ : _ ∧ _).1
    · exact (by simpa using h θ hθ : _ ∧ _).2
  | var w => exact absurd rfl (ht w)
  | _ => simp at hform

theorem Agrees.tuple {ts : List Ty} (h : s.Agrees (.tuple ts) t) (hs : s.Acyclic)
    (ht : ∀ w, t ≠ .var w) : ∃ ts', t = .tuple ts' ∧ s.AllAgree ts ts' := by
  have hform := h s.form hs.solves_form
  cases t with
  | tuple ts' => exact ⟨ts', rfl, fun θ hθ => by simpa using h θ hθ⟩
  | var w => exact absurd rfl (ht w)
  | _ => simp at hform

theorem Agrees.record {fs : Fields Ty} (h : s.Agrees (.record fs) t) (hs : s.Acyclic)
    (ht : ∀ w, t ≠ .var w) : ∃ fs', t = .record fs' ∧ s.FieldsAgree fs fs' := by
  have hform := h s.form hs.solves_form
  cases t with
  | record fs' => exact ⟨fs', rfl, fun θ hθ => by simpa using h θ hθ⟩
  | var w => exact absurd rfl (ht w)
  | _ => simp at hform

theorem AllAgree.length_eq {ts us : List Ty} (h : s.AllAgree ts us) (hs : s.Acyclic) :
    us.length = ts.length := by
  simpa using (congrArg List.length (h s.form hs.solves_form)).symm

theorem AllAgree.cons {ts us : List Ty} (h : s.AllAgree (t :: ts) us) (hs : s.Acyclic) :
    ∃ u us', us = u :: us' ∧ s.Agrees t u ∧ s.AllAgree ts us' := by
  have hlen := h.length_eq hs
  cases us with
  | nil => simp at hlen
  | cons u us' =>
    refine ⟨u, us', rfl, fun θ hθ => ?_, fun θ hθ => ?_⟩
    · exact (by simpa using h θ hθ : _ ∧ _).1
    · exact (by simpa using h θ hθ : _ ∧ _).2

theorem FieldsAgree.cons {name : String} {fs gs : Fields Ty}
    (h : s.FieldsAgree ((name, t) :: fs) gs) (hs : s.Acyclic) :
    ∃ u gs', gs = (name, u) :: gs' ∧ s.Agrees t u ∧ s.FieldsAgree fs gs' := by
  have hform := h s.form hs.solves_form
  cases gs with
  | nil => simp at hform
  | cons other gs' =>
    obtain ⟨key, u⟩ := other
    obtain rfl : name = key := by simp at hform; exact hform.1.1
    refine ⟨u, gs', rfl, fun θ hθ => ?_, fun θ hθ => ?_⟩
    · exact (by simpa using h θ hθ : _ ∧ _).1
    · exact (by simpa using h θ hθ : _ ∧ _).2

theorem FieldsAgree.symm {fs gs : Fields Ty} (h : s.FieldsAgree fs gs) : s.FieldsAgree gs fs :=
  fun θ hθ => (h θ hθ).symm

theorem FieldsAgree.nil {gs : Fields Ty} (h : s.FieldsAgree [] gs) (hs : s.Acyclic) : gs = [] := by
  simpa using h s.form hs.solves_form

/-- Both sides have the same names. -/
theorem FieldsAgree.failures {fs gs : Fields Ty} (h : s.FieldsAgree fs gs) (hs : s.Acyclic) :
    gs.map (fun field => (.recordField field.1 : TypeError Ty)) =
      fs.map fun field => .recordField field.1 := by
  have hnames := congrArg (List.map fun field => (.recordField field.1 : TypeError Ty))
    (h s.form hs.solves_form)
  simp only [List.map_map] at hnames
  exact hnames.symm

theorem FieldsAgree.takeWhile {fs gs : Fields Ty} (h : s.FieldsAgree fs gs) (name : String) :
    s.FieldsAgree (fs.takeWhile (·.1 < name)) (gs.takeWhile (·.1 < name)) := by
  intro θ hθ
  have hall := congrArg (List.takeWhile (·.1 < name)) (h θ hθ)
  rwa [List.takeWhile_map, List.takeWhile_map] at hall

theorem FieldsAgree.dropWhile {fs gs : Fields Ty} (h : s.FieldsAgree fs gs) (name : String) :
    s.FieldsAgree (fs.dropWhile (·.1 < name)) (gs.dropWhile (·.1 < name)) := by
  intro θ hθ
  have hall := congrArg (List.dropWhile (·.1 < name)) (h θ hθ)
  rwa [List.dropWhile_map, List.dropWhile_map] at hall

end Shapes

/-! ## Two runs side by side -/

/-- One run has failed in `errors` and left `s`, the other in `errors'` and left `s'`: the codes are
the same, and so are the solutions that are left. -/
structure Mirrored (errors : List (TypeError Ty)) (s : Store) (errors' : List (TypeError Ty))
    (s' : Store) : Prop where
  codes : errors'.map (·.code) = errors.map (·.code)
  equivalent : Equivalent s s'

theorem Equivalent.silent {s s' : Store} (h : Equivalent s s') : Mirrored [] s [] s' := ⟨rfl, h⟩

theorem Mirrored.append {s s' s₁ s₁' : Store} {errors errors' more more' : List (TypeError Ty)}
    (h : Mirrored errors s errors' s') (h' : Mirrored more s₁ more' s₁') :
    Mirrored (errors ++ more) s₁ (errors' ++ more') s₁' :=
  ⟨by rw [List.map_append, List.map_append, h.codes, h'.codes], h'.equivalent⟩

/-- Failures for names that only one side of two records has. -/
theorem FieldsAgree.mirrored {s s' : Store} {fs gs : Fields Ty} (h : s.FieldsAgree fs gs)
    (heq : Equivalent s s') :
    Mirrored (fs.map fun field => .recordField field.1) s
      (gs.map fun field => .recordField field.1) s' :=
  ⟨by rw [h.failures heq.acyclic], heq⟩

/-- A variable becomes a type in both runs, maybe another variable in each: whether it can depends
on the solutions only. -/
theorem Assigns.mirrored {s s' s₁ s₁' : Store} {v v' : TyVar} {t t' : Ty}
    {errors errors' : List (TypeError Ty)} (h : Assigns s v t errors s₁)
    (h' : Assigns s' v' t' errors' s₁') (heq : Equivalent s s') (hv : s.lookup v = none)
    (hv' : s'.lookup v' = none) (ht : s.Ends t) (ht' : s'.Ends t') (hne : t ≠ .var v)
    (hne' : t' ≠ .var v')
    (hsame : ∀ θ, s.Solves θ → (θ v' = t'.subst θ ↔ θ v = t.subst θ)) :
    Mirrored errors s₁ errors' s₁' := by
  have hout : Outcome false s _ errors s₁ := h.outcome heq.acyclic hv ht hne
  have hout' : Outcome false s' _ errors' s₁' := h'.outcome heq.acyclic' hv' ht' hne'
  have hiff : ∀ θ, s'.Solves θ ∧ θ v' = t'.subst θ ↔ s.Solves θ ∧ θ v = t.subst θ := by
    intro θ
    rw [heq.solves_iff]
    exact and_congr_right (hsame θ)
  have hnil : errors' = [] ↔ errors = [] := by
    rw [hout.eq_nil_iff, hout'.eq_nil_iff]
    exact exists_congr hiff
  cases h with
  | bind ho =>
    obtain rfl : errors' = [] := hnil.2 rfl
    refine Equivalent.silent ⟨hout.acyclic, hout'.acyclic, fun θ => ?_⟩
    rw [hout.solves_iff rfl, hout'.solves_iff rfl, hiff]
  | refuse ho =>
    cases h' with
    | bind ho' => simp at hnil
    | refuse ho' =>
      have hc := (heq.acyclic.answers_occurs v t).2
      have hc' := (heq.acyclic'.answers_occurs v' t').2
      refine ⟨rfl, heq.compresses (hc.trans ?_) (hc'.trans ?_)⟩
      · exact ((hc.acyclic heq.acyclic).answers_apply t).2
      · exact ((hc'.acyclic heq.acyclic').answers_apply t').2

/-- Types that have nothing in common have nothing in common in the other run either. -/
theorem Meets.mirrored_apart {lenient : Bool} {s s' s₁ s₁' : Store} {l r l' r' : Ty}
    {errors errors' : List (TypeError Ty)} (h : Meets lenient s l r errors s₁)
    (h' : Meets lenient s' r' l' errors' s₁') (heq : Equivalent s s') (hagree : s.Agrees l l')
    (hagree' : s.Agrees r r') (hends : s'.Ends l') (hends' : s'.Ends r') (hl : ∀ w, l ≠ .var w)
    (hr : ∀ w, r ≠ .var w) (hne : l ≠ r) (halike : ¬ l.Alike r) :
    Mirrored errors s₁ errors' s₁' := by
  have hs := heq.acyclic
  have hs' := heq.acyclic'
  have hl' := hagree.not_var heq hends hl
  have hr' := hagree'.not_var heq hends' hr
  -- the shapes are those of the full forms, which the solution `s.form` gives
  have hform := hagree s.form hs.solves_form
  have hform' := hagree' s.form hs.solves_form
  have hne' : r' ≠ l' := by
    rintro rfl
    exact subst_ne_of_not_alike hl hr hne halike s.form (hform.trans hform'.symm)
  have halike' : ¬ r'.Alike l' := by
    intro hal
    rw [← Ty.alike_subst hr' hl' s.form, ← hform, ← hform', Ty.alike_subst hr hl] at hal
    exact halike hal.symm
  have hext : (r'.isExternal = true ∨ l'.isExternal = true) ↔
      (l.isExternal = true ∨ r.isExternal = true) := by
    rw [← Ty.isExternal_subst hl' s.form, ← Ty.isExternal_subst hr' s.form, ← hform, ← hform',
      Ty.isExternal_subst hl, Ty.isExternal_subst hr, or_comm]
  rcases h.inv_apart hl hr hne halike with ⟨hlen, rfl, rfl⟩ | ⟨hstrict, rfl, rfl⟩
  · rcases h'.inv_apart hr' hl' hne' halike' with ⟨-, rfl, rfl⟩ | ⟨hstrict', -, -⟩
    · exact heq.silent
    · exact absurd ⟨hlen.1, hext.2 hlen.2⟩ hstrict'
  · rcases h'.inv_apart hr' hl' hne' halike' with ⟨hlen', -, -⟩ | ⟨-, rfl, rfl⟩
    · exact absurd ⟨hlen'.1, hext.1 hlen'.2⟩ hstrict
    · have hc := (hs.answers_apply l).2
      have hc' := (hs'.answers_apply r').2
      refine ⟨rfl, heq.compresses (hc.trans ?_) (hc'.trans ?_)⟩
      · exact ((hc.acyclic hs).answers_apply r).2
      · exact ((hc'.acyclic hs').answers_apply l').2

mutual
theorem Unifies.mirrored {lenient : Bool} : ∀ {s s' s₁ s₁' : Store} {l r l' r' : Ty}
    {errors errors' : List (TypeError Ty)}, Unifies lenient s l r errors s₁ →
    Unifies lenient s' r' l' errors' s₁' → Equivalent s s' → s.Agrees l l' → s.Agrees r r' →
    Mirrored errors s₁ errors' s₁'
  | s, s', _, _, l, r, l', r', _, _, .intro h, .intro h', heq, hl, hr => by
    have hs := heq.acyclic
    have hs' := heq.acyclic'
    have hcl := (hs.resolve l).compresses
    have hcr := ((hcl.acyclic hs).resolve r).compresses
    have hcr' := (hs'.resolve r').compresses
    have hcl' := ((hcr'.acyclic hs').resolve l').compresses
    have hsol : ∀ θ, (Store.resolve r (Store.resolve l s).2).2.Solves θ → s.Solves θ :=
      fun θ hθ => ((hcl.trans hcr).solves_iff θ).1 hθ
    refine Meets.mirrored h h' (heq.compresses (hcl.trans hcr) (hcr'.trans hcl')) ?_ ?_
      (hcr.ends_iff.2 (hcl.ends_iff.2 (hs.resolve l).unbound))
      (hcr.ends_iff.2 ((hcl.acyclic hs).resolve r).unbound)
      (hcl'.ends_iff.2 ((hcr'.acyclic hs').resolve l').unbound)
      (hcl'.ends_iff.2 (hcr'.ends_iff.2 (hs'.resolve r').unbound))
    · intro θ hθ
      have hθ₁ := hsol θ hθ
      have hθ' := (heq.solves_iff θ).2 hθ₁
      rw [(hs.resolve l).subst_eq θ hθ₁, hl θ hθ₁,
        ((hcr'.acyclic hs').resolve l').subst_eq θ ((hcr'.solves_iff θ).2 hθ')]
    · intro θ hθ
      have hθ₁ := hsol θ hθ
      have hθ' := (heq.solves_iff θ).2 hθ₁
      rw [((hcl.acyclic hs).resolve r).subst_eq θ ((hcl.solves_iff θ).2 hθ₁), hr θ hθ₁,
        (hs'.resolve r').subst_eq θ hθ']
termination_by structural _ _ _ _ _ _ _ _ _ _ h => h

theorem Meets.mirrored {lenient : Bool} : ∀ {s s' s₁ s₁' : Store} {l r l' r' : Ty}
    {errors errors' : List (TypeError Ty)}, Meets lenient s l r errors s₁ →
    Meets lenient s' r' l' errors' s₁' → Equivalent s s' → s.Agrees l l' → s.Agrees r r' →
    s.Ends l → s.Ends r → s'.Ends l' → s'.Ends r' → Mirrored errors s₁ errors' s₁'
  | _, s', _, _, _, _, _, _, _, _, .sameVar, h', heq, hl, hr, he, _, he', her' => by
    obtain ⟨w, rfl⟩ := hl.var heq he
    obtain ⟨w', rfl⟩ := hr.var heq he
    -- two open variables that stand for the same type are the same
    have hw := (hl s'.form heq.solves_form').symm.trans (hr s'.form heq.solves_form')
    rw [Ty.subst_var, Ty.subst_var, form_of_unbound (he' w rfl),
      form_of_unbound (her' w' rfl)] at hw
    obtain rfl := Ty.var.inj hw
    obtain ⟨rfl, rfl⟩ := h'.inv_sameVar
    exact heq.silent
  | s, _, _, _, .var v, r, _, r', _, _, .assignLeft hne h, h', heq, hl, hr, he, her, he', her' => by
    obtain ⟨w, rfl⟩ := hl.var heq he
    have hne' : r' ≠ .var w := by
      rintro rfl
      have hsolves := heq.acyclic.solves_form
      have hform := (hr s.form hsolves).trans (hl s.form hsolves).symm
      rw [Ty.subst_var, form_of_unbound (he v rfl)] at hform
      obtain ⟨u, rfl⟩ := Ty.eq_var_of_subst hform
      rw [Ty.subst_var, form_of_unbound (her u rfl)] at hform
      exact hne hform
    -- the right side comes first now, so a variable there is the one that is bound
    by_cases hvar : ∃ w', r' = .var w'
    · obtain ⟨w', rfl⟩ := hvar
      refine h.mirrored (h'.inv_assignLeft hne'.symm) heq (he v rfl) (her' w' rfl) her he' hne
        hne'.symm fun θ hθ => ?_
      rw [hr θ hθ, ← hl θ hθ, Ty.subst_var, Ty.subst_var, eq_comm]
    · refine h.mirrored (h'.inv_assignRight fun w' hw => hvar ⟨w', hw⟩) heq (he v rfl) (he' w rfl)
        her her' hne hne' fun θ hθ => ?_
      rw [hr θ hθ, ← Ty.subst_var θ v, hl θ hθ, Ty.subst_var]
  | _, _, _, _, _, .var v, _, _, _, _, .assignRight hvar h, h', heq, hl, hr, he, her, he',
    her' => by
    obtain ⟨w, rfl⟩ := hr.var heq her
    have hvar' := hl.not_var heq he' hvar
    refine h.mirrored (h'.inv_assignLeft (hvar' w)) heq (her v rfl) (her' w rfl) he he' (hvar v)
      (hvar' w) fun θ hθ => ?_
    rw [hl θ hθ, ← Ty.subst_var θ v, hr θ hθ, Ty.subst_var]
  | _, _, _, _, t, _, _, _, _, _, .sameLeaf ht, h', heq, hl, hr, _, _, he', her' => by
    have hvar : ∀ w, t ≠ .var w := by
      rintro w rfl
      exact ht
    obtain rfl := hl.leaf heq.acyclic ht (hl.not_var heq he' hvar)
    obtain rfl := hr.leaf heq.acyclic ht (hr.not_var heq her' hvar)
    obtain ⟨rfl, rfl⟩ := h'.inv_sameLeaf ht
    exact heq.silent
  | _, _, _, _, l, r, _, _, _, _, .agree hvl hvr hne hlen he, h', heq, hl, hr, _, _, he', her' => by
    have halike : ¬ l.Alike r := by
      cases l <;> cases r <;> simp_all [Ty.Alike, Ty.isExternal]
    exact Meets.mirrored_apart (.agree hvl hvr hne hlen he) h' heq hl hr he' her' hvl hvr hne halike
  | _, _, _, _, _, _, _, _, _, _, .fn hlen hparams hresult, h', heq, hl, hr, _, _, he', her' => by
    obtain ⟨ps', p', rfl, hps, hp⟩ := hl.fn heq.acyclic (hl.not_var heq he' (by simp))
    obtain ⟨qs', q', rfl, hqs, hq⟩ := hr.fn heq.acyclic (hr.not_var heq her' (by simp))
    have hlen' : qs'.length = ps'.length := by
      rw [hps.length_eq heq.acyclic, hqs.length_eq heq.acyclic, hlen]
    obtain ⟨_, _, _, hparams', hresult', rfl⟩ := h'.inv_fn hlen'
    have hparts := AllUnify.mirrored hparams hparams' heq hps hqs
    have hshrinks := (hparams.outcome heq.acyclic).shrinks
    exact hparts.append (Unifies.mirrored hresult hresult' hparts.equivalent
      (hp.mono hshrinks) (hq.mono hshrinks))
  | _, _, _, _, _, _, _, _, _, _, .arity hlen, h', heq, hl, hr, _, _, he', her' => by
    obtain ⟨ps', p', rfl, hps, -⟩ := hl.fn heq.acyclic (hl.not_var heq he' (by simp))
    obtain ⟨qs', q', rfl, hqs, -⟩ := hr.fn heq.acyclic (hr.not_var heq her' (by simp))
    have hlen' : qs'.length ≠ ps'.length := by
      rw [hps.length_eq heq.acyclic, hqs.length_eq heq.acyclic]
      exact hlen.symm
    obtain ⟨rfl, rfl⟩ := h'.inv_arity hlen'
    exact ⟨rfl, heq⟩
  | _, _, _, _, _, _, _, _, _, _, .tuple hlen helements, h', heq, hl, hr, _, _, he', her' => by
    obtain ⟨ts', rfl, hts⟩ := hl.tuple heq.acyclic (hl.not_var heq he' (by simp))
    obtain ⟨us', rfl, hus⟩ := hr.tuple heq.acyclic (hr.not_var heq her' (by simp))
    have hlen' : us'.length = ts'.length := by
      rw [hts.length_eq heq.acyclic, hus.length_eq heq.acyclic, hlen]
    exact AllUnify.mirrored helements (h'.inv_tuple hlen') heq hts hus
  | _, _, _, _, _, _, _, _, _, _, .length hlen, h', heq, hl, hr, _, _, he', her' => by
    obtain ⟨ts', rfl, hts⟩ := hl.tuple heq.acyclic (hl.not_var heq he' (by simp))
    obtain ⟨us', rfl, hus⟩ := hr.tuple heq.acyclic (hr.not_var heq her' (by simp))
    have hlen' : us'.length ≠ ts'.length := by
      rw [hts.length_eq heq.acyclic, hus.length_eq heq.acyclic]
      exact hlen.symm
    obtain ⟨rfl, rfl⟩ := h'.inv_length hlen'
    exact ⟨rfl, heq⟩
  | _, _, _, _, _, _, _, _, _, _, .record hfields, h', heq, hl, hr, _, _, he', her' => by
    obtain ⟨fs', rfl, hfs⟩ := hl.record heq.acyclic (hl.not_var heq he' (by simp))
    obtain ⟨gs', rfl, hgs⟩ := hr.record heq.acyclic (hr.not_var heq her' (by simp))
    exact FieldsUnify.mirrored hfields h'.inv_record heq hfs hgs
  | _, _, _, _, _, _, _, _, _, _, .mismatch hvl hvr hne halike hstrict, h', heq, hl, hr, _, _, he',
      her' =>
    Meets.mirrored_apart (.mismatch hvl hvr hne halike hstrict) h' heq hl hr he' her' hvl hvr hne
      halike
termination_by structural _ _ _ _ _ _ _ _ _ _ h => h

theorem AllUnify.mirrored {lenient : Bool} : ∀ {s s' s₁ s₁' : Store} {ts us ts' us' : List Ty}
    {errors errors' : List (TypeError Ty)}, AllUnify lenient s ts us errors s₁ →
    AllUnify lenient s' us' ts' errors' s₁' → Equivalent s s' → s.AllAgree ts ts' →
    s.AllAgree us us' → Mirrored errors s₁ errors' s₁'
  | _, _, _, _, _, _, _, _, _, _, .nil, h', heq, hts, _ => by
    obtain rfl := List.eq_nil_of_length_eq_zero (hts.length_eq heq.acyclic)
    cases h' with
    | nil => exact heq.silent
  | _, _, _, _, _, _, _, _, _, _, .cons hhead htail, h', heq, hts, hus => by
    obtain ⟨t', ts', rfl, ht, hts⟩ := hts.cons heq.acyclic
    obtain ⟨u', us', rfl, hu, hus⟩ := hus.cons heq.acyclic
    cases h' with
    | cons hhead' htail' =>
      have hh := Unifies.mirrored hhead hhead' heq ht hu
      have hshrinks := (hhead.outcome heq.acyclic).shrinks
      exact hh.append (AllUnify.mirrored htail htail' hh.equivalent (hts.mono hshrinks)
        (hus.mono hshrinks))
termination_by structural _ _ _ _ _ _ _ _ _ _ h => h

theorem FieldsUnify.mirrored {lenient : Bool} : ∀ {s s' s₁ s₁' : Store}
    {fields others fields' others' : Fields Ty} {errors errors' : List (TypeError Ty)},
    FieldsUnify lenient s fields others errors s₁ →
    FieldsUnify lenient s' others' fields' errors' s₁' → Equivalent s s' →
    s.FieldsAgree fields fields' → s.FieldsAgree others others' → Mirrored errors s₁ errors' s₁'
  | _, _, _, _, _, _, _, _, _, _, .nil, h', heq, hfs, hgs => by
    obtain rfl := hfs.nil heq.acyclic
    obtain ⟨rfl, rfl⟩ := h'.inv_nilRight
    exact hgs.mirrored heq
  | _, _, _, _, (name, t) :: _, _, _, others', _, _, .shared hrest hfield hfields, h', heq, hfs,
      hgs => by
    obtain ⟨t', fields', rfl, ht, hfs⟩ := hfs.cons heq.acyclic
    have hbefore := (hgs.takeWhile name).mirrored heq
    have hafter := hgs.dropWhile name
    rw [hrest] at hafter
    obtain ⟨u', rest', hrest', hu, hrests⟩ := hafter.cons heq.acyclic
    obtain ⟨_, htail, rfl⟩ := h'.inv_skipLeft
    rw [hrest'] at htail
    obtain ⟨_, _, _, hfield', hfields', rfl⟩ := htail.inv_head
    have hf := Unifies.mirrored hfield hfield' heq ht hu
    have hshrinks := (hfield.outcome heq.acyclic).shrinks
    exact hbefore.append (hf.append (FieldsUnify.mirrored hfields hfields' hf.equivalent
      (hfs.mono hshrinks) (hrests.mono hshrinks)))
  | s, s', _, _, (name, t) :: _, _, _, others', _, _, .missing hrest habsent hfields, h', heq, hfs,
      hgs => by
    obtain ⟨t', fields', rfl, ht, hfs⟩ := hfs.cons heq.acyclic
    have hbefore := (hgs.takeWhile name).mirrored heq
    have hafter := hgs.dropWhile name
    rw [hrest] at hafter
    have hname : Mirrored [.recordField name] s [.recordField name] s' := ⟨rfl, heq⟩
    obtain ⟨_, htail, rfl⟩ := h'.inv_skipLeft
    -- what is left on the other side starts after `name`
    cases hd : others'.dropWhile (·.1 < name) with
    | nil =>
      rw [hd] at htail hafter
      obtain ⟨rfl, rfl⟩ := htail.inv_nil
      exact hbefore.append (hname.append (FieldsUnify.mirrored hfields .nil heq hfs hafter))
    | cons other rest' =>
      obtain ⟨key, u⟩ := other
      rw [hd] at htail hafter
      have hne : name ≠ key := by
        rintro rfl
        obtain ⟨u', tail, htail, -⟩ := hafter.symm.cons heq.acyclic
        exact habsent u' tail htail
      have hle : ¬ key < name := by
        have hhead := List.head?_dropWhile_not (fun field : String × Ty => field.1 < name) others'
        rw [hd] at hhead
        exact of_decide_eq_false hhead
      have hlt : name < key := Std.lt_of_le_of_ne (String.not_lt.1 hle) hne
      obtain ⟨_, htail', rfl⟩ := htail.inv_skipRight hlt
      exact hbefore.append (hname.append (FieldsUnify.mirrored hfields htail' heq hfs hafter))
termination_by structural _ _ _ _ _ _ _ _ _ _ h => h
end

theorem Acyclic.unify_mirrored {s : Store} (hs : s.Acyclic) (lenient : Bool) (l r : Ty) :
    Mirrored (unify lenient l r s).1 (unify lenient l r s).2 (unify lenient r l s).1
      (unify lenient r l s).2 :=
  Unifies.mirrored (hs.unifies lenient l r) (hs.unifies lenient r l) (.refl hs)
    (fun _ _ => rfl) (fun _ _ => rfl)

end Store

namespace Check

/-- Requiring `a` to equal `b` or `b` to equal `a` gives reports with the same codes in the same
order, whether parts of it fail or not, and with or without dynamic imports. The variables that are
left open in the one case correspond to those left open in the other, issued ones to issued ones,
and written out in full every type is the same up to these names. -/
theorem unify_symmetric (cfg : Config) {run : Run} (hs : run.store.Acyclic) (a b : Ty)
    (site : Site) :
    ∃ (store store' : Store) (new new' : Array (Report Ty)) (ρ : TyVar → TyVar),
      (unify a b site).run cfg run =
        (.ok (), { run with store, reports := ⟨run.reports.items ++ new⟩ }) ∧
      (unify b a site).run cfg run =
        (.ok (), { run with store := store', reports := ⟨run.reports.items ++ new'⟩ }) ∧
      new'.map (·.error.code) = new.map (·.error.code) ∧
      Set.BijOn ρ store.unbound store'.unbound ∧
      (∀ n, run.store.Within n → a.Below n → b.Below n →
        Set.BijOn ρ {v | v ∈ store.unbound ∧ v < n} {v | v ∈ store'.unbound ∧ v < n}) ∧
      ∀ t, (store'.apply t).1 = (store.apply t).1.rename ρ := by
  have hboth := hs.unify_mirrored cfg.dynamicImports a b
  have heq := hboth.equivalent
  refine ⟨_, _, _, _, _, run_unify cfg a b site run, run_unify cfg b a site run, ?_,
    heq.bijOn_nameOf, fun n hn ha hb => ?_, fun t => ?_⟩
  · have hcodes := congrArg List.toArray hboth.codes
    simpa [failureReport, Function.comp_def] using hcodes
  · have hn₁ := (hs.unifies cfg.dynamicImports a b).within hs hn ha hb
    have hn₂ := (hs.unifies cfg.dynamicImports b a).within hs hn hb ha
    exact heq.bijOn_nameOf_below hn₁ hn₂
  · rw [(heq.acyclic.answers_apply t).1, (heq.acyclic'.answers_apply t).1, heq.full_eq_rename]

theorem twinStore_within : twinStore.Within 2 :=
  Store.Within.bind ⟨by decide, fun v t ht => by simp [Store.lookup] at ht⟩ (by decide)
    (by simp)

/-- Two variables become one in either direction; then a variable would have to contain itself, and
a number would have to be a text. -/
theorem unify_symmetric_twin :
    twinStore.Acyclic ∧ twinStore.Within 5 ∧
    (twinStore.unify false (.tuple [.var 0, .var 2, .number])
      (.tuple [.tuple [.var 3, .var 4], .tuple [.var 2], .string])).1.map (·.code) =
        ["E3018", "E3003"] ∧
    ∃ (store store' : Store) (new new' : Array (Report Ty)) (ρ : TyVar → TyVar),
      (unify (.tuple [.var 0, .var 2, .number])
        (.tuple [.tuple [.var 3, .var 4], .tuple [.var 2], .string]) {}).run {}
          { store := twinStore } = (.ok (), { store, reports := ⟨#[] ++ new⟩ }) ∧
      (unify (.tuple [.tuple [.var 3, .var 4], .tuple [.var 2], .string])
        (.tuple [.var 0, .var 2, .number]) {}).run {}
          { store := twinStore } = (.ok (), { store := store', reports := ⟨#[] ++ new'⟩ }) ∧
      new'.map (·.error.code) = new.map (·.error.code) ∧
      Set.BijOn ρ {v | v ∈ store.unbound ∧ v < 5} {v | v ∈ store'.unbound ∧ v < 5} ∧
      ∀ t, (store'.apply t).1 = (store.apply t).1.rename ρ := by
  have hwithin : twinStore.Within 5 := twinStore_within.mono (by decide)
  refine ⟨twinStore_acyclic, hwithin, by decide +kernel, ?_⟩
  obtain ⟨store, store', new, new', ρ, hrun, hrun', hcodes, -, hissued, hnames⟩ :=
    @unify_symmetric {} { store := twinStore } twinStore_acyclic
      (.tuple [.var 0, .var 2, .number])
      (.tuple [.tuple [.var 3, .var 4], .tuple [.var 2], .string]) {}
  refine ⟨store, store', new, new', ρ, hrun, hrun', hcodes, ?_, hnames⟩
  exact hissued 5 hwithin (by simp) (by simp)

end Check

end Monotype
