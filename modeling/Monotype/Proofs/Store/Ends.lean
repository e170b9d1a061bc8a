import Monotype.Proofs.Store.Binding

/-! Stores that cannot be told apart. Two stores may differ in how far their ways have been
shortened; as long as every way ends in the same type they answer every question alike, and they go
on to do so whatever is done to both of them. -/
namespace Monotype.Store

/-- The same variables, and every way ends in the same type. -/
structure SameEnds (s s' : Store) : Prop where
  size_eq : s'.size = s.size
  ends : ∀ t, (Store.resolve t s').1 = (Store.resolve t s).1

theorem Compresses.sameEnds {s s' : Store} (h : Compresses s s') : SameEnds s s' :=
  ⟨h.size_eq, h.ends⟩

theorem Acyclic.unbound_iff_resolve {s : Store} (hs : s.Acyclic) (v : TyVar) :
    s.lookup v = none ↔ (Store.resolve (.var v) s).1 = .var v := by
  constructor
  · exact resolve_of_unbound
  · intro h
    exact (hs.resolve (.var v)).unbound v h

namespace SameEnds
variable {s s' s₁ s₁' : Store}

theorem refl (s : Store) : SameEnds s s := ⟨rfl, fun _ => rfl⟩

theorem symm (h : SameEnds s s') : SameEnds s' s :=
  ⟨h.size_eq.symm, fun t => (h.ends t).symm⟩

theorem trans (h : SameEnds s s') (h' : SameEnds s' s₁) : SameEnds s s₁ :=
  ⟨h'.size_eq.trans h.size_eq, fun t => (h'.ends t).trans (h.ends t)⟩

/-- Shortening ways on both sides. -/
theorem compresses (h : SameEnds s s') (hc : Compresses s s₁) (hc' : Compresses s' s₁') :
    SameEnds s₁ s₁' :=
  (hc.sameEnds.symm.trans h).trans hc'.sameEnds

theorem unbound_iff (h : SameEnds s s') (hs : s.Acyclic) (hs' : s'.Acyclic) (v : TyVar) :
    s'.lookup v = none ↔ s.lookup v = none := by
  rw [hs.unbound_iff_resolve, hs'.unbound_iff_resolve, h.ends]

/-- A variable has the same full form in both: where its way ends, only variables of smaller rank
are left. -/
theorem form_eq (h : SameEnds s s') (hs : s.Acyclic) (hs' : s'.Acyclic) (v : TyVar) :
    s'.form v = s.form v := by
  induction hn : s.rank v using Nat.strong_induction_on generalizing v with
  | _ n ih =>
    have hfull : s.full (Store.resolve (.var v) s).1 = s.form v := hs.full_resolve (.var v)
    have hfull' : s'.full (Store.resolve (.var v) s').1 = s'.form v := hs'.full_resolve (.var v)
    by_cases hv : (Store.resolve (.var v) s).1 = .var v
    · have hu := (hs.unbound_iff_resolve v).2 hv
      rw [form_of_unbound hu, form_of_unbound ((h.unbound_iff hs hs' v).2 hu)]
    · rw [← hfull, ← hfull', h.ends]
      apply Ty.subst_congr
      intro w hw
      have hlt := hs.rank_lt ((hs.resolve (.var v)).refers v w rfl hv hw)
      exact ih (s.rank w) (hn ▸ hlt) w rfl

theorem full_eq (h : SameEnds s s') (hs : s.Acyclic) (hs' : s'.Acyclic) (t : Ty) :
    s'.full t = s.full t :=
  Ty.subst_congr fun v _ => h.form_eq hs hs' v

theorem resolve (h : SameEnds s s') (hs : s.Acyclic) (hs' : s'.Acyclic) (t : Ty) :
    SameEnds (Store.resolve t s).2 (Store.resolve t s').2 :=
  h.compresses (hs.resolve t).compresses (hs'.resolve t).compresses

theorem apply_fst (h : SameEnds s s') (hs : s.Acyclic) (hs' : s'.Acyclic) (t : Ty) :
    (Store.apply t s').1 = (Store.apply t s).1 := by
  rw [(hs'.answers_apply t).1, (hs.answers_apply t).1, h.full_eq hs hs']

theorem apply (h : SameEnds s s') (hs : s.Acyclic) (hs' : s'.Acyclic) (t : Ty) :
    SameEnds (Store.apply t s).2 (Store.apply t s').2 :=
  h.compresses (hs.answers_apply t).2 (hs'.answers_apply t).2

theorem occurs_fst (h : SameEnds s s') (hs : s.Acyclic) (hs' : s'.Acyclic) (v : TyVar) (t : Ty) :
    (Store.occurs v t s').1 = (Store.occurs v t s).1 := by
  rw [(hs'.answers_occurs v t).1, (hs.answers_occurs v t).1, h.full_eq hs hs']

theorem occurs (h : SameEnds s s') (hs : s.Acyclic) (hs' : s'.Acyclic) (v : TyVar) (t : Ty) :
    SameEnds (Store.occurs v t s).2 (Store.occurs v t s').2 :=
  h.compresses (hs.answers_occurs v t).2 (hs'.answers_occurs v t).2

end SameEnds

/-! ## Changes to both stores -/

theorem Acyclic.resolve_fresh {s : Store} (hs : s.Acyclic) (t : Ty) :
    (Store.resolve t s.fresh.2).1 = (Store.resolve t s).1 := by
  have hvar : ∀ v, (Store.resolve (.var v) s.fresh.2).1 = (Store.resolve (.var v) s).1 := by
    intro v
    induction v using hs.induct with
    | unbound v hv =>
      rw [resolve_of_unbound hv, resolve_of_unbound ((lookup_fresh s v).trans hv)]
    | bound v t hv ih =>
      rw [hs.resolve_of_bound hv, hs.fresh.resolve_of_bound ((lookup_fresh s v).trans hv)]
      cases t with
      | var w => exact ih w (by simp)
      | _ => rfl
  cases t with
  | var v => exact hvar v
  | _ => rfl

/-- Once `v` is bound to `t`, a way that ended in `v` goes on to the end of `t`. -/
theorem Acyclic.resolve_bind {s : Store} (hs : s.Acyclic) {v : TyVar} {t : Ty}
    (hv : s.lookup v = none) (ho : v ∉ (s.full t).vars) (u : Ty) :
    (Store.resolve u (s.bind v t)).1 =
      if (Store.resolve u s).1 = .var v then (Store.resolve t s).1 else (Store.resolve u s).1 := by
  have hs' := hs.bind hv ho
  -- the way of `t` does not end in `v`, which does not occur behind `t`
  have ht : (Store.resolve t s).1 ≠ .var v := by
    intro heq
    apply ho
    rw [← hs.full_resolve t, heq, full, Ty.subst_var, form_of_unbound hv]
    simp
  have hvar : ∀ x, (Store.resolve (.var x) (s.bind v t)).1 =
      if (Store.resolve (.var x) s).1 = .var v then (Store.resolve t s).1
      else (Store.resolve (.var x) s).1 := by
    intro x
    induction x using hs'.induct with
    | unbound x hx =>
      have hne : x ≠ v := by
        rintro rfl
        simp [lookup_bind] at hx
      have hx' : s.lookup x = none := by simpa [lookup_bind, hne] using hx
      rw [resolve_of_unbound hx, resolve_of_unbound hx', if_neg (by simpa using hne)]
    | bound x u hx ih =>
      rw [hs'.resolve_of_bound hx]
      by_cases hxv : x = v
      · subst hxv
        obtain rfl : t = u := by simpa [lookup_bind] using hx
        rw [resolve_of_unbound hv, if_pos rfl]
        cases t with
        | var w => rw [ih w (by simp), if_neg ht]
        | _ => rfl
      · have hx' : s.lookup x = some u := by simpa [lookup_bind, hxv] using hx
        rw [hs.resolve_of_bound hx']
        cases u with
        | var w => exact ih w (by simp)
        | _ => simp [Store.resolve]
  cases u with
  | var x => exact hvar x
  | _ => simp [Store.resolve]

namespace SameEnds
variable {s s' : Store}

theorem fresh (h : SameEnds s s') (hs : s.Acyclic) (hs' : s'.Acyclic) :
    SameEnds s.fresh.2 s'.fresh.2 where
  size_eq := by rw [size_fresh, size_fresh, h.size_eq]
  ends t := by rw [hs.resolve_fresh, hs'.resolve_fresh, h.ends]

theorem fresh_fst (h : SameEnds s s') : s'.fresh.1 = s.fresh.1 := by
  simp [Store.fresh, h.size_eq]

theorem bind (h : SameEnds s s') (hs : s.Acyclic) (hs' : s'.Acyclic) {v : TyVar} {t : Ty}
    (hv : s.lookup v = none) (ho : v ∉ (s.full t).vars) :
    SameEnds (s.bind v t) (s'.bind v t) where
  size_eq := by rw [size_bind, size_bind, h.size_eq]
  ends u := by
    have hv' := (h.unbound_iff hs hs' v).2 hv
    have ho' : v ∉ (s'.full t).vars := by rwa [h.full_eq hs hs']
    rw [hs.resolve_bind hv ho, hs'.resolve_bind hv' ho', h.ends, h.ends]

end SameEnds

end Monotype.Store
