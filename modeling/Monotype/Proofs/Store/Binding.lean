import Monotype.Proofs.Store.Closure

/-! Binding an unbound variable to a type in which it does not occur: the store stays acyclic and
gets one more equation. -/
namespace Monotype.Store
open Relation

/-- There are at most `n` variables, and no others occur in the slots. -/
structure Within (n : Nat) (s : Store) : Prop where
  size_le : s.size ≤ n
  below : ∀ v t, s.lookup v = some t → t.Below n

theorem Within.mono {n m : Nat} {s : Store} (h : s.Within n) (hle : n ≤ m) : s.Within m :=
  ⟨h.size_le.trans hle, fun v t ht => (h.below v t ht).mono hle⟩

theorem Within.below_of_refers {n : Nat} {s : Store} (h : s.Within n) {v w : TyVar}
    (hw : TransGen s.Refers v w) : w < n := by
  obtain ⟨u, -, t, ht, hw⟩ := TransGen.tail'_iff.1 hw
  exact h.below u t ht w hw

theorem Within.compresses {n : Nat} {s s' : Store} (h : s.Within n) (hc : Compresses s s') :
    s'.Within n where
  size_le := hc.size_eq ▸ h.size_le
  below v t ht w hw := h.below_of_refers (hc.refers v w ⟨t, ht, hw⟩)

theorem Within.resolve {n : Nat} {s : Store} (h : s.Within n) (hs : s.Acyclic) {t : Ty}
    (ht : t.Below n) : (Store.resolve t s).1.Below n := by
  have hr := hs.resolve t
  by_cases hv : ∃ v, t = .var v
  · obtain ⟨v, rfl⟩ := hv
    by_cases heq : (Store.resolve (.var v) s).1 = .var v
    · rw [heq]
      exact ht
    · exact fun w hw => h.below_of_refers (hr.refers v w rfl heq hw)
  · rw [resolve_of_not_var fun v hvar => hv ⟨v, hvar⟩]
    exact ht

theorem Within.form {n : Nat} {s : Store} (h : s.Within n) (hs : s.Acyclic) {v : TyVar}
    (hv : v < n) : (s.form v).Below n := by
  induction v using hs.induct with
  | unbound v hu => simpa [form_of_unbound hu] using hv
  | bound v t ht ih =>
    intro w hw
    rw [hs.form_of_bound ht] at hw
    obtain ⟨u, hu, hw⟩ := Ty.mem_vars_subst.1 hw
    exact ih u hu (h.below v t ht u hu) w hw

theorem Within.full {n : Nat} {s : Store} (h : s.Within n) (hs : s.Acyclic) {t : Ty}
    (ht : t.Below n) : (s.full t).Below n := by
  intro w hw
  obtain ⟨u, hu, hw⟩ := Ty.mem_vars_subst.1 hw
  exact h.form hs (ht u hu) w hw

theorem Within.bind {n : Nat} {s : Store} (h : s.Within n) {v : TyVar} {t : Ty} (hv : v < n)
    (ht : t.Below n) : (s.bind v t).Within n where
  size_le := by
    rw [size_bind]
    exact Nat.max_le.2 ⟨h.size_le, hv⟩
  below w u hu := by
    rw [lookup_bind] at hu
    split at hu
    · cases hu
      exact ht
    · exact h.below w u hu

theorem Acyclic.fresh {s : Store} (hs : s.Acyclic) : s.fresh.2.Acyclic := by
  have heq : s.fresh.2.Refers = s.Refers := by
    funext v w
    simp [Refers]
  intro v hv
  exact hs v (heq ▸ hv)

/-! ## Acyclicity after a binding -/

section Bind
variable {s : Store} {v : TyVar} {t : Ty}

theorem refers_bind_iff (s : Store) (v : TyVar) (t : Ty) (x w : TyVar) :
    (s.bind v t).Refers x w ↔ if x = v then w ∈ t.vars else s.Refers x w := by
  unfold Refers
  by_cases hx : x = v <;> simp [lookup_bind, hx]

/-- Whatever unbound variable can be reached from `w` is in the full form of `w`. -/
theorem Acyclic.mem_form_of_reaches (hs : s.Acyclic) (hv : s.lookup v = none) {w : TyVar}
    (h : ReflTransGen s.Refers w v) : v ∈ (s.form w).vars := by
  induction h using ReflTransGen.head_induction_on with
  | refl => simp [form_of_unbound hv]
  | @head x y hxy _ ih =>
    obtain ⟨u, hu, hy⟩ := hxy
    rw [hs.form_of_bound hu]
    exact Ty.mem_vars_subst.2 ⟨y, hy, ih⟩

/-- A way to `v` does not need the binding of `v`. -/
theorem reaches_of_bind {w : TyVar} (h : ReflTransGen (s.bind v t).Refers w v) :
    ReflTransGen s.Refers w v := by
  induction h using ReflTransGen.head_induction_on with
  | refl => exact .refl
  | @head x y hxy _ ih =>
    by_cases hx : x = v
    · exact hx ▸ .refl
    · exact .head (by simpa [refers_bind_iff, hx] using hxy) ih

/-- A way either does not use the binding of `v` or passes through `v`. -/
theorem transGen_bind {x y : TyVar} (h : TransGen (s.bind v t).Refers x y) :
    TransGen s.Refers x y ∨
      ReflTransGen (s.bind v t).Refers x v ∧ TransGen (s.bind v t).Refers v y := by
  induction h using TransGen.head_induction_on with
  | @single x hxy =>
    by_cases hx : x = v
    · subst hx
      exact .inr ⟨.refl, .single hxy⟩
    · exact .inl (.single (by simpa [refers_bind_iff, hx] using hxy))
  | @head x u hxu huy ih =>
    by_cases hx : x = v
    · subst hx
      exact .inr ⟨.refl, .head hxu huy⟩
    · rcases ih with ih | ⟨huv, hvy⟩
      · exact .inl (.head (by simpa [refers_bind_iff, hx] using hxu) ih)
      · exact .inr ⟨.head hxu huv, hvy⟩

/-- The occurs check is what keeps a store acyclic: a cycle after the binding would pass through
`v`, and so lead from a variable of `t` to `v` before it. -/
theorem Acyclic.bind (hs : s.Acyclic) (hv : s.lookup v = none) (ho : v ∉ (s.full t).vars) :
    (s.bind v t).Acyclic := by
  intro x hx
  rcases transGen_bind hx with hx | ⟨hxv, hvx⟩
  · exact hs x hx
  · obtain ⟨w, hvw, hwv⟩ := TransGen.head'_iff.1 (hvx.trans_left hxv)
    have hw : w ∈ t.vars := by simpa [refers_bind_iff] using hvw
    exact ho (Ty.mem_vars_subst.2 ⟨w, hw, hs.mem_form_of_reaches hv (reaches_of_bind hwv)⟩)

theorem solves_bind (hv : s.lookup v = none) {θ : TyVar → Ty} :
    (s.bind v t).Solves θ ↔ s.Solves θ ∧ θ v = t.subst θ := by
  constructor
  · intro h
    refine ⟨fun w u hu => h w u ?_, h v t (by simp [lookup_bind])⟩
    have hne : w ≠ v := by
      rintro rfl
      simp [hv] at hu
    simp [lookup_bind, hne, hu]
  · rintro ⟨h, hvt⟩ w u hu
    rw [lookup_bind] at hu
    split at hu
    · rename_i hw
      cases hu
      exact hw ▸ hvt
    · exact h w u hu

end Bind

end Monotype.Store
