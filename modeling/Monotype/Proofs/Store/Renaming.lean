import Mathlib.Data.Set.Function
import Monotype.Proofs.Store.Binding

/-! Stores with the same solutions. Which of two variables was bound to the other is all that they
can differ in: their full forms are equal up to the names of the variables that are left. -/
namespace Monotype

/-- A type with other names for its variables. -/
def Ty.rename (ρ : TyVar → TyVar) (t : Ty) : Ty := t.subst fun v => .var (ρ v)

/-- Only a variable becomes a variable. -/
theorem Ty.eq_var_of_subst {θ : TyVar → Ty} {t : Ty} {v : TyVar} (h : t.subst θ = .var v) :
    ∃ w, t = .var w := by
  cases t with
  | var w => exact ⟨w, rfl⟩
  | _ => simp at h

namespace Store

/-- The variables that a store leaves open. -/
def unbound (s : Store) : Set TyVar := {v | s.lookup v = none}

/-- The variable that an open variable of another store stands for. -/
def nameOf (s : Store) (v : TyVar) : TyVar := (s.form v).asVar?.getD v

/-- Acyclic stores with the same solutions. -/
structure Equivalent (s s' : Store) : Prop where
  acyclic : s.Acyclic
  acyclic' : s'.Acyclic
  solves_iff : ∀ θ, s'.Solves θ ↔ s.Solves θ

namespace Equivalent
variable {s s' s₁ s₁' : Store}

theorem refl (hs : s.Acyclic) : Equivalent s s := ⟨hs, hs, fun _ => Iff.rfl⟩

theorem symm (h : Equivalent s s') : Equivalent s' s :=
  ⟨h.acyclic', h.acyclic, fun θ => (h.solves_iff θ).symm⟩

theorem compresses (h : Equivalent s s') (hc : Compresses s s₁) (hc' : Compresses s' s₁') :
    Equivalent s₁ s₁' where
  acyclic := hc.acyclic h.acyclic
  acyclic' := hc'.acyclic h.acyclic'
  solves_iff θ := by rw [hc'.solves_iff, hc.solves_iff, h.solves_iff]

theorem solves_form' (h : Equivalent s s') : s.Solves s'.form :=
  (h.solves_iff _).1 h.acyclic'.solves_form

/-- A variable that `s` leaves open stands for one that `s'` leaves open, and back again. -/
theorem exists_name (h : Equivalent s s') {v : TyVar} (hv : v ∈ s.unbound) :
    ∃ w ∈ s'.unbound, s'.form v = .var w ∧ s.form w = .var v := by
  have hback : (s'.form v).subst s.form = .var v := by
    rw [h.acyclic'.form_subst h.symm.solves_form', form_of_unbound hv]
  obtain ⟨w, hw⟩ := Ty.eq_var_of_subst hback
  rw [hw, Ty.subst_var] at hback
  exact ⟨w, h.acyclic'.unbound_of_mem_form (v := v) (by simp [hw]), hw, hback⟩

theorem form_eq_nameOf (h : Equivalent s s') {v : TyVar} (hv : v ∈ s.unbound) :
    s'.form v = .var (s'.nameOf v) := by
  obtain ⟨w, -, hw, -⟩ := h.exists_name hv
  rw [nameOf, hw]
  rfl

theorem form_nameOf (h : Equivalent s s') {v : TyVar} (hv : v ∈ s.unbound) :
    s.form (s'.nameOf v) = .var v := by
  obtain ⟨w, -, hw, hback⟩ := h.exists_name hv
  rw [nameOf, hw]
  exact hback

theorem mapsTo_nameOf (h : Equivalent s s') : Set.MapsTo s'.nameOf s.unbound s'.unbound := by
  intro v hv
  obtain ⟨w, hmem, hw, -⟩ := h.exists_name hv
  rw [nameOf, hw]
  exact hmem

/-- Naming in `s'` and then in `s` gives the variable back. -/
theorem nameOf_nameOf (h : Equivalent s s') {v : TyVar} (hv : v ∈ s.unbound) :
    s.nameOf (s'.nameOf v) = v := by
  have hform := h.symm.form_eq_nameOf (h.mapsTo_nameOf hv)
  rw [h.form_nameOf hv] at hform
  exact (Ty.var.inj hform).symm

theorem bijOn_nameOf (h : Equivalent s s') : Set.BijOn s'.nameOf s.unbound s'.unbound := by
  refine Set.InvOn.bijOn ⟨?_, ?_⟩ h.mapsTo_nameOf h.symm.mapsTo_nameOf
  · intro v hv
    exact h.nameOf_nameOf hv
  · intro w hw
    exact h.symm.nameOf_nameOf hw

theorem nameOf_lt (h : Equivalent s s') {n : Nat} (hn : s'.Within n) {v : TyVar}
    (hv : v ∈ s.unbound) (hlt : v < n) : s'.nameOf v < n := by
  have hbelow := hn.form h.acyclic' hlt
  rw [h.form_eq_nameOf hv] at hbelow
  exact Ty.below_var.1 hbelow

/-- Where both stores are about the first `n` variables only, so are the names. -/
theorem bijOn_nameOf_below (h : Equivalent s s') {n : Nat} (hn : s.Within n) (hn' : s'.Within n) :
    Set.BijOn s'.nameOf {v | v ∈ s.unbound ∧ v < n} {v | v ∈ s'.unbound ∧ v < n} := by
  refine ⟨?_, ?_, ?_⟩
  · rintro v ⟨hv, hlt⟩
    exact ⟨h.mapsTo_nameOf hv, h.nameOf_lt hn' hv hlt⟩
  · exact h.bijOn_nameOf.injOn.mono fun v hv => hv.1
  · rintro w ⟨hw, hlt⟩
    exact ⟨s.nameOf w, ⟨h.symm.mapsTo_nameOf hw, h.symm.nameOf_lt hn hw hlt⟩,
      h.symm.nameOf_nameOf hw⟩

theorem full_eq_rename (h : Equivalent s s') (t : Ty) :
    s'.full t = (s.full t).rename s'.nameOf := by
  have hinst : (s.full t).subst s'.form = s'.full t := h.acyclic.full_subst h.solves_form' t
  rw [← hinst]
  apply Ty.subst_congr
  intro w hw
  exact h.form_eq_nameOf (h.acyclic.unbound_of_mem_full hw)

end Equivalent

end Store

end Monotype
