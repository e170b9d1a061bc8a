import Monotype.Proofs.Store.Solution

/-! Following variables shortens the ways through a store. A shortened store has the same variables,
the same bound ones among them and the same solutions, so that nothing which is asked of it later
is answered differently. -/
namespace Monotype.Store
open Relation

/-- `s'` is `s` with ways shortened. -/
structure Compresses (s s' : Store) : Prop where
  size_eq : s'.size = s.size
  unbound_iff : ∀ v, s'.lookup v = none ↔ s.lookup v = none
  refers : ∀ v w, s'.Refers v w → TransGen s.Refers v w
  solves_iff : ∀ θ, s'.Solves θ ↔ s.Solves θ
  /-- Every way still ends where it did. -/
  ends : ∀ t, (resolve t s').1 = (resolve t s).1

namespace Compresses
variable {s s' s'' : Store}

theorem refl (s : Store) : Compresses s s :=
  ⟨rfl, fun _ => Iff.rfl, fun _ _ h => .single h, fun _ => Iff.rfl, fun _ => rfl⟩

theorem transGen (h : Compresses s s') {v w : TyVar} (hvw : TransGen s'.Refers v w) :
    TransGen s.Refers v w :=
  TransGen.closed h.refers _ _ hvw

theorem trans (h : Compresses s s') (h' : Compresses s' s'') : Compresses s s'' where
  size_eq := h'.size_eq.trans h.size_eq
  unbound_iff v := (h'.unbound_iff v).trans (h.unbound_iff v)
  refers v w hvw := h.transGen (h'.refers v w hvw)
  solves_iff θ := (h'.solves_iff θ).trans (h.solves_iff θ)
  ends t := (h'.ends t).trans (h.ends t)

theorem acyclic (h : Compresses s s') (hs : s.Acyclic) : s'.Acyclic :=
  fun v hv => hs v (h.transGen hv)

theorem rank_le (h : Compresses s s') (v : TyVar) : s'.rank v ≤ s.rank v := by
  refine Finset.card_le_card fun w hw => ?_
  obtain ⟨hb, hvw⟩ := mem_reach.1 hw
  refine mem_reach.2 ⟨fun hn => hb ((h.unbound_iff w).2 hn), ?_⟩
  rcases reflTransGen_iff_eq_or_transGen.1 hvw with rfl | hvw
  · exact .refl
  · exact (h.transGen hvw).to_reflTransGen

/-- Both stores give a variable the same full form: each form solves both stores, and no bound
variable is left in it that the other could replace. -/
theorem form_eq (h : Compresses s s') (hs : s.Acyclic) (v : TyVar) : s'.form v = s.form v := by
  have hs' := h.acyclic hs
  have hsol : s.Solves s'.form := (h.solves_iff _).1 hs'.solves_form
  rw [← hs.form_subst hsol v]
  conv_rhs => rw [← Ty.subst_id (s.form v)]
  refine Ty.subst_congr fun w hw => form_of_unbound ?_
  exact (h.unbound_iff w).2 (hs.unbound_of_mem_form hw)

theorem full_eq (h : Compresses s s') (hs : s.Acyclic) (t : Ty) : s'.full t = s.full t :=
  Ty.subst_congr fun v _ => h.form_eq hs v

end Compresses

/-! ## The way from one variable -/

/-- What holds of the way from `v`, however far it has been followed. -/
structure TrailFrom (s : Store) (v : TyVar) (way : Trail) : Prop where
  last_of_nil : way.passed = [] → way.last = .var v
  head_mem : way.passed ≠ [] → v ∈ way.passed
  /-- The last variable passed holds the end of the way. -/
  final : ∀ x ∈ way.passed, x ∉ way.passed.dropLast → s.lookup x = some way.last
  /-- The variables before it hold the next one. -/
  inner : ∀ x ∈ way.passed.dropLast, ∃ y ∈ way.passed, s.lookup x = some (.var y)
  refers : ∀ x ∈ way.passed, ∀ w ∈ way.last.vars, TransGen s.Refers x w

theorem trailFrom (s : Store) : ∀ (n : Nat) (v : TyVar), TrailFrom s v (s.trail n v) := by
  intro n
  induction n with
  | zero => intro v; constructor <;> simp [trail]
  | succ n ih =>
    intro v
    unfold trail
    split
    · constructor <;> simp
    · rename_i w hv
      -- `v` holds the variable `w`: it is passed first, and the way goes on from `w`
      have hrest := ih w
      by_cases hnil : (s.trail n w).passed = []
      · have hlast := hrest.last_of_nil hnil
        constructor <;> simp_all
        exact .single ⟨_, hv, by simp⟩
      · have hmem := hrest.head_mem hnil
        have hdrop : (v :: (s.trail n w).passed).dropLast = v :: (s.trail n w).passed.dropLast :=
          List.dropLast_cons_of_ne_nil hnil
        refine ⟨by simp, by simp, ?_, ?_, ?_⟩
        · intro x hx hx'
          simp only [hdrop, List.mem_cons, not_or] at hx'
          exact hrest.final x ((List.mem_cons.1 hx).resolve_left hx'.1) hx'.2
        · intro x hx
          simp only [hdrop, List.mem_cons] at hx
          rcases hx with rfl | hx
          · exact ⟨w, List.mem_cons_of_mem _ hmem, hv⟩
          · obtain ⟨y, hy, hl⟩ := hrest.inner x hx
            exact ⟨y, List.mem_cons_of_mem _ hy, hl⟩
        · intro x hx u hu
          rcases List.mem_cons.1 hx with rfl | hx
          · exact .head ⟨_, hv, by simp⟩ (hrest.refers w hmem u hu)
          · exact hrest.refers x hx u hu
    · rename_i t hne hv
      constructor <;> simp_all
      intro w hw
      exact .single ⟨t, hv, hw⟩

/-- With as many steps as the rank of `v` a way in an acyclic store comes to its end. -/
theorem Acyclic.trail_end {s : Store} (hs : s.Acyclic) :
    ∀ {n : Nat} {v w : TyVar}, s.rank v ≤ n → (s.trail n v).last = .var w → s.lookup w = none := by
  intro n
  induction n with
  | zero =>
    intro v w hn h
    simp only [trail, Ty.var.injEq] at h
    subst h
    -- a bound variable would have a positive rank
    cases hv : s.lookup v with
    | none => rfl
    | some t =>
      have := rank_pos hv
      omega
  | succ n ih =>
    intro v w hn h
    unfold trail at h
    split at h
    · rename_i hv
      simp only [Ty.var.injEq] at h
      exact h ▸ hv
    · rename_i u hv
      have hlt := hs.rank_lt (.single ⟨_, hv, by simp⟩ : TransGen s.Refers v u)
      exact ih (by omega) h
    · rename_i t hne hv
      exact absurd h (hne w)

namespace TrailFrom
variable {s : Store} {v : TyVar} {way : Trail}

theorem bound (h : TrailFrom s v way) {x : TyVar} (hx : x ∈ way.passed) :
    s.lookup x ≠ none := by
  by_cases hd : x ∈ way.passed.dropLast
  · obtain ⟨y, -, hl⟩ := h.inner x hd
    simp [hl]
  · simp [h.final x hx hd]

end TrailFrom

/-! ## Resolving -/

theorem resolve_var (s : Store) (v : TyVar) :
    resolve (.var v) s =
      ((s.trail s.size v).last,
        s.redirect (s.trail s.size v).passed.dropLast (s.trail s.size v).last) := rfl

theorem resolve_of_not_var {s : Store} {t : Ty} (h : ∀ v, t ≠ .var v) : resolve t s = (t, s) := by
  cases t with
  | var v => exact absurd rfl (h v)
  | _ => rfl

/-- How many more slots than the rank of `v` are allowed makes no difference to where its way
ends. -/
theorem Acyclic.trail_last_eq {s : Store} (hs : s.Acyclic) :
    ∀ {n m : Nat} {v : TyVar}, s.rank v ≤ n → s.rank v ≤ m →
      (s.trail n v).last = (s.trail m v).last := by
  intro n
  induction n with
  | zero =>
    intro m v hn hm
    cases hv : s.lookup v with
    | none => cases m <;> simp [trail, hv]
    | some t =>
      have hpos := rank_pos hv
      omega
  | succ n ih =>
    intro m v hn hm
    cases hv : s.lookup v with
    | none => cases m <;> simp [trail, hv]
    | some t =>
      have hpos := rank_pos hv
      obtain ⟨m, rfl⟩ : ∃ k, m = k + 1 := ⟨m - 1, by omega⟩
      cases t with
      | var w =>
        have hlt := hs.rank_lt (.single ⟨_, hv, by simp⟩ : TransGen s.Refers v w)
        simp only [trail, hv]
        exact ih (by omega) (by omega)
      | _ => simp [trail, hv]

theorem resolve_of_unbound {s : Store} {v : TyVar} (h : s.lookup v = none) :
    (resolve (.var v) s).1 = .var v := by
  rw [resolve_var]
  cases s.size <;> simp [trail, h]

/-- The way of a bound variable goes on with what is in its slot. -/
theorem Acyclic.resolve_of_bound {s : Store} (hs : s.Acyclic) {v : TyVar} {t : Ty}
    (h : s.lookup v = some t) : (resolve (.var v) s).1 = (resolve t s).1 := by
  have hmore : (s.trail s.size v).last = (s.trail (s.size + 1) v).last :=
    hs.trail_last_eq (s.rank_le_size v) (Nat.le_succ_of_le (s.rank_le_size v))
  rw [resolve_var, hmore]
  cases t <;> simp [trail, h, resolve]

/-- The ways of all variables that are passed end in the same type. -/
theorem Acyclic.resolve_of_passed {s : Store} (hs : s.Acyclic) :
    ∀ {n : Nat} {v : TyVar}, s.rank v ≤ n →
      ∀ x ∈ (s.trail n v).passed, (resolve (.var x) s).1 = (s.trail n v).last := by
  intro n
  induction n with
  | zero => intro v _ x hx; simp [trail] at hx
  | succ n ih =>
    intro v hn x hx
    have hlast : (s.trail (n + 1) v).last = (resolve (.var v) s).1 :=
      hs.trail_last_eq hn (s.rank_le_size v)
    cases hv : s.lookup v with
    | none => simp [trail, hv] at hx
    | some t =>
      cases t with
      | var w =>
        have hlt := hs.rank_lt (.single ⟨_, hv, by simp⟩ : TransGen s.Refers v w)
        simp only [trail, hv, List.mem_cons] at hx ⊢
        rcases hx with rfl | hx
        · rw [hs.resolve_of_bound hv]
          exact hs.trail_last_eq (s.rank_le_size w) (by omega)
        · exact ih (by omega) x hx
      | _ =>
        simp only [trail, hv, List.mem_singleton] at hx
        rw [hx, hlast]

@[simp] theorem size_redirect (s : Store) (vs : List TyVar) (t : Ty) :
    (s.redirect vs t).size = s.size := by
  unfold redirect
  induction vs generalizing s with
  | nil => rfl
  | cons v vs ih => simp [ih]

theorem lookup_redirect (s : Store) (vs : List TyVar) (t : Ty) (w : TyVar) :
    (s.redirect vs t).lookup w = if w ∈ vs ∧ w < s.size then some t else s.lookup w := by
  unfold redirect
  induction vs generalizing s with
  | nil => simp
  | cons v vs ih =>
    simp only [List.foldl_cons, ih, size_write, lookup_write, List.mem_cons]
    grind

theorem TrailFrom.lookup_shortened {s : Store} {v : TyVar} {way : Trail} (h : TrailFrom s v way)
    (w : TyVar) :
    (s.redirect way.passed.dropLast way.last).lookup w =
      if w ∈ way.passed.dropLast then some way.last else s.lookup w := by
  rw [lookup_redirect]
  by_cases hw : w ∈ way.passed.dropLast
  · obtain ⟨y, -, hl⟩ := h.inner w hw
    simp [hw, lt_size_of_lookup hl]
  · simp [hw]

/-- In the shortened store every variable on the way equals the end of the way. -/
theorem TrailFrom.solves_shortened {s : Store} {v : TyVar} {way : Trail} (h : TrailFrom s v way)
    {θ : TyVar → Ty} (hθ : (s.redirect way.passed.dropLast way.last).Solves θ) {x : TyVar}
    (hx : x ∈ way.passed) : θ x = way.last.subst θ := by
  refine hθ x way.last ?_
  rw [h.lookup_shortened]
  by_cases hd : x ∈ way.passed.dropLast
  · simp [hd]
  · simp [hd, h.final x hx hd]

theorem TrailFrom.unbound_shortened {s : Store} {v : TyVar} {way : Trail} (h : TrailFrom s v way)
    (w : TyVar) :
    (s.redirect way.passed.dropLast way.last).lookup w = none ↔ s.lookup w = none := by
  rw [h.lookup_shortened]
  split
  · rename_i hw
    simp [h.bound (List.mem_of_mem_dropLast hw)]
  · rfl

theorem TrailFrom.refers_shortened {s : Store} {v : TyVar} {way : Trail} (h : TrailFrom s v way)
    {x w : TyVar} (hxw : (s.redirect way.passed.dropLast way.last).Refers x w) :
    TransGen s.Refers x w := by
  obtain ⟨t, ht, hw⟩ := hxw
  rw [h.lookup_shortened] at ht
  split at ht
  · rename_i hx
    cases ht
    exact h.refers x (List.mem_of_mem_dropLast hx) w hw
  · exact .single ⟨t, ht, hw⟩

theorem TrailFrom.solves_iff_shortened {s : Store} {v : TyVar} {way : Trail}
    (h : TrailFrom s v way)
    (hall : ∀ θ, s.Solves θ → ∀ x ∈ way.passed, θ x = way.last.subst θ) (θ : TyVar → Ty) :
    (s.redirect way.passed.dropLast way.last).Solves θ ↔ s.Solves θ := by
  constructor
  · intro hθ x t ht
    by_cases hx : x ∈ way.passed.dropLast
    · -- The old slot named the next variable of the way; both now equal its end.
      obtain ⟨y, hy, hl⟩ := h.inner x hx
      cases ht.symm.trans hl
      rw [Ty.subst_var, h.solves_shortened hθ (List.mem_of_mem_dropLast hx),
        h.solves_shortened hθ hy]
    · exact hθ x t (by rw [h.lookup_shortened, if_neg hx, ht])
  · intro hθ x t ht
    rw [h.lookup_shortened] at ht
    split at ht
    · rename_i hx
      cases ht
      exact hall θ hθ x (List.mem_of_mem_dropLast hx)
    · exact hθ x t ht

/-- In the shortened store every way ends where it did. -/
theorem Acyclic.ends_shortened {s : Store} (hs : s.Acyclic) (v : TyVar) (t : Ty) :
    (resolve t (resolve (.var v) s).2).1 = (resolve t s).1 := by
  have hway := s.trailFrom s.size v
  have hs' : (resolve (.var v) s).2.Acyclic := by
    intro x hx
    exact hs x (TransGen.closed (fun _ _ => hway.refers_shortened) _ _ hx)
  -- a type that is no variable is its own end, so only variables matter
  have hvar : ∀ x, (resolve (.var x) (resolve (.var v) s).2).1 = (resolve (.var x) s).1 := by
    intro x
    induction x using hs'.induct with
    | unbound x hx =>
      rw [resolve_of_unbound hx, resolve_of_unbound ((hway.unbound_shortened x).1 hx)]
    | bound x u hx ih =>
      rw [hs'.resolve_of_bound hx]
      rw [resolve_var, hway.lookup_shortened] at hx
      split at hx
      · rename_i hmem
        cases hx
        rw [hs.resolve_of_passed (s.rank_le_size v) x (List.mem_of_mem_dropLast hmem)]
        by_cases hend : ∃ w, (s.trail s.size v).last = .var w
        · obtain ⟨w, hw⟩ := hend
          have hu := hs.trail_end (s.rank_le_size v) hw
          rw [hw]
          exact resolve_of_unbound ((hway.unbound_shortened w).2 hu)
        · rw [resolve_of_not_var fun w hw => hend ⟨w, hw⟩]
      · rw [hs.resolve_of_bound hx]
        cases u with
        | var w => exact ih w (by simp)
        | _ => rfl
  cases t with
  | var x => exact hvar x
  | _ => rfl

theorem trail_solves {s : Store} {θ : TyVar → Ty} (hθ : s.Solves θ) :
    ∀ (n : Nat) (v : TyVar), θ v = (s.trail n v).last.subst θ ∧
      ∀ x ∈ (s.trail n v).passed, θ x = (s.trail n v).last.subst θ := by
  intro n
  induction n with
  | zero => intro v; simp [trail]
  | succ n ih =>
    intro v
    unfold trail
    split
    · simp
    · rename_i w hv
      obtain ⟨hw, hall⟩ := ih w
      have hvw : θ v = (s.trail n w).last.subst θ := (hθ v _ hv).trans hw
      exact ⟨hvw, List.forall_mem_cons.2 ⟨hvw, hall⟩⟩
    · rename_i t _ hv
      have hvt : θ v = t.subst θ := hθ v t hv
      exact ⟨hvt, by simpa using hvt⟩

/-- What resolving a type in a store gives. -/
structure Resolved (s : Store) (t r : Ty) (s' : Store) : Prop where
  compresses : Compresses s s'
  subst_eq : ∀ θ, s.Solves θ → r.subst θ = t.subst θ
  /-- The answer is no bound variable. -/
  unbound : ∀ w, r = .var w → s.lookup w = none
  refers : ∀ v w, t = .var v → r ≠ .var v → w ∈ r.vars → TransGen s.Refers v w

theorem Acyclic.resolve {s : Store} (hs : s.Acyclic) (t : Ty) :
    Resolved s t (resolve t s).1 (resolve t s).2 := by
  by_cases ht : ∃ v, t = .var v
  · obtain ⟨v, rfl⟩ := ht
    have hway := s.trailFrom s.size v
    rw [resolve_var]
    have hall : ∀ θ, s.Solves θ → ∀ x ∈ (s.trail s.size v).passed,
        θ x = (s.trail s.size v).last.subst θ := fun θ hθ => (trail_solves hθ _ v).2
    refine ⟨⟨size_redirect _ _ _, hway.unbound_shortened, fun _ _ => hway.refers_shortened,
      hway.solves_iff_shortened hall, hs.ends_shortened v⟩,
      fun θ hθ => (trail_solves hθ _ v).1.symm, fun w hw => hs.trail_end (s.rank_le_size v) hw, ?_⟩
    rintro u w hu hne hw
    cases hu
    refine hway.refers v (hway.head_mem fun hnil => hne ?_) w hw
    exact hway.last_of_nil hnil
  · have ht' : ∀ v, t ≠ .var v := fun v hv => ht ⟨v, hv⟩
    rw [resolve_of_not_var ht']
    exact ⟨.refl s, fun _ _ => rfl, fun w hw => absurd hw (ht' w), fun v _ hv => absurd hv (ht' v)⟩

end Monotype.Store
