import Mathlib.Data.Finset.Card
import Mathlib.Logic.Relation
import Monotype.Proofs.Ty.Subst
import Monotype.Store.Resolve

/-! Stores as systems of equations. A solution gives every bound variable what it gives the type in
its slot. Where no variable leads back to itself there is a solution that leaves the unbound
variables alone, the full form of the store, and every other solution is an instance of it. -/
namespace Monotype.Store
open Relation

/-- `θ` gives every bound variable the same type as what is in its slot. -/
def Solves (θ : TyVar → Ty) (s : Store) : Prop :=
  ∀ v t, s.lookup v = some t → θ v = t.subst θ

/-- The variable `w` occurs in the slot of `v`. -/
def Refers (s : Store) (v w : TyVar) : Prop := ∃ t, s.lookup v = some t ∧ w ∈ t.vars

/-- No variable leads back to itself through the slots. -/
def Acyclic (s : Store) : Prop := ∀ v, ¬ TransGen s.Refers v v

theorem acyclic_empty : ({} : Store).Acyclic := by
  intro v h
  obtain ⟨w, ⟨t, ht, -⟩, -⟩ := TransGen.head'_iff.1 h
  simp [lookup] at ht

theorem lt_size_of_lookup {s : Store} {v : TyVar} {t : Ty} (h : s.lookup v = some t) :
    v < s.size := by
  by_contra hv
  have hnone : s.slots[v]? = none := Array.getElem?_eq_none (by simpa [size] using hv)
  simp [lookup, hnone] at h

/-! ## The depth of a variable -/

open Classical in
/-- The bound variables that can be reached from `v`, `v` among them. -/
noncomputable def reach (s : Store) (v : TyVar) : Finset TyVar :=
  (Finset.range s.size).filter fun w => s.lookup w ≠ none ∧ ReflTransGen s.Refers v w

/-- How many bound variables can be reached from `v`: a bound for the length of every way from
`v` through the slots. -/
noncomputable def rank (s : Store) (v : TyVar) : Nat := (s.reach v).card

theorem mem_reach {s : Store} {v w : TyVar} :
    w ∈ s.reach v ↔ s.lookup w ≠ none ∧ ReflTransGen s.Refers v w := by
  simp only [reach, Finset.mem_filter, Finset.mem_range, and_iff_right_iff_imp]
  rintro ⟨h, -⟩
  obtain ⟨t, ht⟩ := Option.ne_none_iff_exists'.1 h
  exact lt_size_of_lookup ht

theorem rank_le_size (s : Store) (v : TyVar) : s.rank v ≤ s.size := by
  have h : s.reach v ⊆ Finset.range s.size := by
    classical
    exact Finset.filter_subset _ _
  simpa [rank] using Finset.card_le_card h

theorem rank_pos {s : Store} {v : TyVar} {t : Ty} (h : s.lookup v = some t) : 0 < s.rank v :=
  Finset.card_pos.2 ⟨v, mem_reach.2 ⟨by simp [h], .refl⟩⟩

/-- Each step through a slot leads to a smaller rank. -/
theorem Acyclic.rank_lt {s : Store} (hs : s.Acyclic) {v w : TyVar} (h : TransGen s.Refers v w) :
    s.rank w < s.rank v := by
  obtain ⟨u, ⟨t, ht, -⟩, -⟩ := TransGen.head'_iff.1 h
  -- what `w` reaches is reached from `v`, and `v` is not among it
  refine Finset.card_lt_card (Finset.ssubset_iff_subset_ne.2 ⟨?_, ?_⟩)
  · intro x hx
    obtain ⟨hb, hx⟩ := mem_reach.1 hx
    exact mem_reach.2 ⟨hb, h.to_reflTransGen.trans hx⟩
  · intro heq
    have hv : v ∈ s.reach w := heq ▸ mem_reach.2 ⟨by simp [ht], .refl⟩
    exact hs v (TransGen.trans_left h (mem_reach.1 hv).2)

/-! ## The full form -/

/-- What `v` stands for, through at most `n` bound variables one inside the other. -/
def formOf (s : Store) : Nat → TyVar → Ty
  | 0, v => .var v
  | n + 1, v =>
    match s.lookup v with
    | none => .var v
    | some t => t.subst (s.formOf n)

/-- What a variable stands for once all bindings are followed. -/
def form (s : Store) (v : TyVar) : Ty := s.formOf s.size v

/-- A type with every bound variable replaced by what it stands for. -/
def full (s : Store) (t : Ty) : Ty := t.subst s.form

theorem Acyclic.formOf_eq {s : Store} (hs : s.Acyclic) :
    ∀ {n m : Nat} {v : TyVar}, s.rank v ≤ n → s.rank v ≤ m → s.formOf n v = s.formOf m v := by
  intro n
  induction n with
  | zero =>
    intro m v hn hm
    cases hv : s.lookup v with
    | none => cases m <;> simp [formOf, hv]
    | some t =>
      have := rank_pos hv
      omega
  | succ n ih =>
    intro m v hn hm
    cases hv : s.lookup v with
    | none => cases m <;> simp [formOf, hv]
    | some t =>
      have hpos := rank_pos hv
      obtain ⟨m, rfl⟩ : ∃ k, m = k + 1 := ⟨m - 1, by omega⟩
      simp only [formOf, hv]
      refine Ty.subst_congr fun w hw => ?_
      have hlt := hs.rank_lt (.single ⟨t, hv, hw⟩)
      exact ih (by omega) (by omega)

theorem form_of_unbound {s : Store} {v : TyVar} (h : s.lookup v = none) : s.form v = .var v := by
  unfold form
  cases s.size <;> simp [formOf, h]

theorem Acyclic.form_of_bound {s : Store} (hs : s.Acyclic) {v : TyVar} {t : Ty}
    (h : s.lookup v = some t) : s.form v = s.full t := by
  calc
    s.form v = s.formOf (s.size + 1) v :=
      hs.formOf_eq (s.rank_le_size v) (Nat.le_succ_of_le (s.rank_le_size v))
    _ = s.full t := by simp only [formOf, h]; rfl

/-- Induction along the slots of an acyclic store. -/
theorem Acyclic.induct {s : Store} (hs : s.Acyclic) {P : TyVar → Prop}
    (unbound : ∀ v, s.lookup v = none → P v)
    (bound : ∀ v t, s.lookup v = some t → (∀ w ∈ t.vars, P w) → P v) (v : TyVar) : P v := by
  induction hn : s.rank v using Nat.strong_induction_on generalizing v with
  | _ n ih =>
    cases hv : s.lookup v with
    | none => exact unbound v hv
    | some t =>
      refine bound v t hv fun w hw => ih _ ?_ w rfl
      exact hn ▸ hs.rank_lt (.single ⟨t, hv, hw⟩)

/-- An acyclic store has a solution: its full form. -/
theorem Acyclic.solves_form {s : Store} (hs : s.Acyclic) : s.Solves s.form :=
  fun _ _ h => hs.form_of_bound h

/-- So is every instance of the full form. -/
theorem Acyclic.solves_form_subst {s : Store} (hs : s.Acyclic) (σ : TyVar → Ty) :
    s.Solves fun v => (s.form v).subst σ := by
  intro v t h
  change (s.form v).subst σ = _
  rw [hs.form_of_bound h, full, Ty.subst_subst]

/-- No bound variable is left in the full form. -/
theorem Acyclic.unbound_of_mem_form {s : Store} (hs : s.Acyclic) {v w : TyVar}
    (h : w ∈ (s.form v).vars) : s.lookup w = none := by
  induction v using hs.induct with
  | unbound v hv =>
    rw [form_of_unbound hv, Ty.vars_var, List.mem_singleton] at h
    exact h ▸ hv
  | bound v t hv ih =>
    rw [hs.form_of_bound hv] at h
    obtain ⟨u, hu, hw⟩ := Ty.mem_vars_subst.1 h
    exact ih u hu hw

theorem Acyclic.unbound_of_mem_full {s : Store} (hs : s.Acyclic) {w : TyVar} {t : Ty}
    (h : w ∈ (s.full t).vars) : s.lookup w = none := by
  obtain ⟨u, -, hw⟩ := Ty.mem_vars_subst.1 h
  exact hs.unbound_of_mem_form hw

/-- Every solution is an instance of the full form. -/
theorem Acyclic.form_subst {s : Store} (hs : s.Acyclic) {θ : TyVar → Ty} (hθ : s.Solves θ)
    (v : TyVar) : (s.form v).subst θ = θ v := by
  induction v using hs.induct with
  | unbound v hv => rw [form_of_unbound hv, Ty.subst_var]
  | bound v t hv ih =>
    rw [hs.form_of_bound hv, full, Ty.subst_subst, hθ v t hv]
    exact Ty.subst_congr ih

theorem Acyclic.full_subst {s : Store} (hs : s.Acyclic) {θ : TyVar → Ty} (hθ : s.Solves θ)
    (t : Ty) : (s.full t).subst θ = t.subst θ := by
  rw [full, Ty.subst_subst]
  exact Ty.subst_congr fun v _ => hs.form_subst hθ v

end Monotype.Store
