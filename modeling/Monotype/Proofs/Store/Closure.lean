import Monotype.Proofs.Store.Compression

/-! What walks over whole types give in an acyclic store: `apply` gives the full form, `occurs`
looks for a variable in the full form, and both leave a store with ways shortened. -/
namespace Monotype.Store
open Relation

section Walks
variable {s : Store}

/-- A step on a store that answers `a` and only shortens ways. -/
def Answers {α : Type} (s : Store) (a : α) (act : StateM Store α) : Prop :=
  (act s).1 = a ∧ Compresses s (act s).2

theorem Answers.pure {α : Type} (s : Store) (a : α) : Answers s a (pure a) :=
  ⟨rfl, .refl s⟩

/-- One such step after another. -/
theorem Answers.bind {α β : Type} {a : α} {b : β} {act : StateM Store α}
    {f : α → StateM Store β} (h : Answers s a act)
    (hf : ∀ s', Compresses s s' → Answers s' b (f a)) : Answers s b (act >>= f) := by
  obtain ⟨hb, hc⟩ := hf _ h.2
  have heq : (act >>= f) s = f a (act s).2 := by
    rw [← h.1]
    rfl
  exact ⟨by rw [heq, hb], by rw [heq]; exact h.2.trans hc⟩

mutual
theorem answers_traverse {f : TyVar → StateM Store Ty} {θ : TyVar → Ty} :
    ∀ (t : Ty) (s : Store), (∀ v ∈ t.vars, ∀ s', Compresses s s' → Answers s' (θ v) (f v)) →
      Answers s (t.subst θ) (t.traverse f)
  | .var v, s, h => h v (by simp) s (.refl s)
  | .fn params result, s, h => by
    refine Answers.bind (answers_traverseList params s fun v hv s' hs' => ?_) fun s' hs' =>
      Answers.bind (answers_traverse result s' fun v hv s'' hs'' => ?_) fun s'' _ => .pure s'' _
    · exact h v (by simp [Ty.vars, hv]) s' hs'
    · exact h v (by simp [hv]) s'' (hs'.trans hs'')
  | .tuple elements, s, h =>
    Answers.bind (answers_traverseList elements s h) fun s' _ => .pure s' _
  | .record fields, s, h =>
    Answers.bind (answers_traverseFields fields s h) fun s' _ => .pure s' _
  | .prim p, s, _ => .pure s _
  | .external path, s, _ => .pure s _
  | .adt name, s, _ => .pure s _

theorem answers_traverseList {f : TyVar → StateM Store Ty} {θ : TyVar → Ty} :
    ∀ (ts : List Ty) (s : Store),
      (∀ v ∈ Ty.varsList ts, ∀ s', Compresses s s' → Answers s' (θ v) (f v)) →
      Answers s (Ty.substList θ ts) (Ty.traverseList f ts)
  | [], s, _ => .pure s _
  | t :: ts, s, h => by
    refine Answers.bind (answers_traverse t s fun v hv s' hs' => ?_) fun s' hs' =>
      Answers.bind (answers_traverseList ts s' fun v hv s'' hs'' => ?_) fun s'' _ => .pure s'' _
    · exact h v (by simp [Ty.varsList, hv]) s' hs'
    · exact h v (by simp [Ty.varsList, hv]) s'' (hs'.trans hs'')

theorem answers_traverseFields {f : TyVar → StateM Store Ty} {θ : TyVar → Ty} :
    ∀ (fields : Fields Ty) (s : Store),
      (∀ v ∈ Ty.varsFields fields, ∀ s', Compresses s s' → Answers s' (θ v) (f v)) →
      Answers s (Ty.substFields θ fields) (Ty.traverseFields f fields)
  | [], s, _ => .pure s _
  | (name, t) :: fields, s, h => by
    refine Answers.bind (answers_traverse t s fun v hv s' hs' => ?_) fun s' hs' =>
      Answers.bind (answers_traverseFields fields s' fun v hv s'' hs'' => ?_)
        fun s'' _ => .pure s'' _
    · exact h v (by simp [Ty.varsFields, hv]) s' hs'
    · exact h v (by simp [Ty.varsFields, hv]) s'' (hs'.trans hs'')
end

/-- The first question decides when its answer is yes. -/
theorem Answers.orElse {p : TyVar → Bool} {vs ws : List TyVar} {act rest : StateM Store Bool}
    (h : Answers s (vs.any p) act) (hr : ∀ s', Compresses s s' → Answers s' (ws.any p) rest) :
    Answers s ((vs ++ ws).any p) (do if ← act then return true else rest) := by
  refine Answers.bind h fun s' hs' => ?_
  rw [List.any_append]
  cases vs.any p with
  | true => exact .pure s' true
  | false => simpa using hr s' hs'

mutual
theorem answers_anyVar {f : TyVar → StateM Store Bool} {p : TyVar → Bool} :
    ∀ (t : Ty) (s : Store), (∀ v ∈ t.vars, ∀ s', Compresses s s' → Answers s' (p v) (f v)) →
      Answers s (t.vars.any p) (t.anyVar f)
  | .var v, s, h => by simpa [Ty.anyVar] using h v (by simp) s (.refl s)
  | .fn params result, s, h => by
    refine Answers.orElse (answers_anyVarList params s fun v hv s' hs' => ?_) fun s' hs' =>
      answers_anyVar result s' fun v hv s'' hs'' => ?_
    · exact h v (by simp [Ty.vars, hv]) s' hs'
    · exact h v (by simp [hv]) s'' (hs'.trans hs'')
  | .tuple elements, s, h => answers_anyVarList elements s h
  | .record fields, s, h => answers_anyVarFields fields s h
  | .prim p, s, _ => .pure s _
  | .external path, s, _ => .pure s _
  | .adt name, s, _ => .pure s _

theorem answers_anyVarList {f : TyVar → StateM Store Bool} {p : TyVar → Bool} :
    ∀ (ts : List Ty) (s : Store),
      (∀ v ∈ Ty.varsList ts, ∀ s', Compresses s s' → Answers s' (p v) (f v)) →
      Answers s ((Ty.varsList ts).any p) (Ty.anyVarList f ts)
  | [], s, _ => .pure s _
  | t :: ts, s, h => by
    refine Answers.orElse (answers_anyVar t s fun v hv s' hs' => ?_) fun s' hs' =>
      answers_anyVarList ts s' fun v hv s'' hs'' => ?_
    · exact h v (by simp [Ty.varsList, hv]) s' hs'
    · exact h v (by simp [Ty.varsList, hv]) s'' (hs'.trans hs'')

theorem answers_anyVarFields {f : TyVar → StateM Store Bool} {p : TyVar → Bool} :
    ∀ (fields : Fields Ty) (s : Store),
      (∀ v ∈ Ty.varsFields fields, ∀ s', Compresses s s' → Answers s' (p v) (f v)) →
      Answers s ((Ty.varsFields fields).any p) (Ty.anyVarFields f fields)
  | [], s, _ => .pure s _
  | (name, t) :: fields, s, h => by
    refine Answers.orElse (answers_anyVar t s fun v hv s' hs' => ?_) fun s' hs' =>
      answers_anyVarFields fields s' fun v hv s'' hs'' => ?_
    · exact h v (by simp [Ty.varsFields, hv]) s' hs'
    · exact h v (by simp [Ty.varsFields, hv]) s'' (hs'.trans hs'')
end

end Walks

theorem Acyclic.answers_resolve {s : Store} (hs : s.Acyclic) (t : Ty) :
    Answers s (Store.resolve t s).1 (Store.resolve t) :=
  ⟨rfl, (hs.resolve t).compresses⟩

/-- What a variable resolves to stands for the same as the variable. -/
theorem Acyclic.full_resolve {s : Store} (hs : s.Acyclic) (t : Ty) :
    s.full (Store.resolve t s).1 = s.full t :=
  (hs.resolve t).subst_eq s.form hs.solves_form

theorem rank_eq_zero {s : Store} {v : TyVar} (h : s.rank v ≤ 0) : s.lookup v = none := by
  cases hv : s.lookup v with
  | none => rfl
  | some t =>
    have := rank_pos hv
    omega

/-- The variables inside what `v` resolves to have a smaller rank, also after more shortening. -/
theorem Acyclic.rank_of_resolved {s s' : Store} (hs : s.Acyclic) {n : Nat} {v w : TyVar}
    (hn : s.rank v ≤ n + 1) (hne : (Store.resolve (.var v) s).1 ≠ .var v)
    (hw : w ∈ (Store.resolve (.var v) s).1.vars) (hs' : Compresses s s') : s'.rank w ≤ n := by
  have hlt := hs.rank_lt ((hs.resolve (.var v)).refers v w rfl hne hw)
  have hle := hs'.rank_le w
  omega

theorem answers_expand : ∀ (n : Nat) {s : Store} (v : TyVar), s.Acyclic → s.rank v ≤ n →
    Answers s (s.form v) (expand n v) := by
  intro n
  induction n with
  | zero =>
    intro s v hs hn
    rw [form_of_unbound (rank_eq_zero hn)]
    exact .pure s _
  | succ n ih =>
    intro s v hs hn
    refine (hs.answers_resolve (.var v)).bind fun s' hs' => ?_
    have hfull : s.full (Store.resolve (.var v) s).1 = s.form v := hs.full_resolve (.var v)
    generalize hr : (Store.resolve (.var v) s).1 = r at hfull
    cases r with
    | var w =>
      rw [← hfull, full, Ty.subst_var, form_of_unbound ((hs.resolve (.var v)).unbound w hr)]
      exact .pure s' _
    | _ =>
      rw [← hfull]
      -- inside what `v` resolves to there are only variables of smaller rank
      refine answers_traverse _ s' fun w hw s'' hs'' => ?_
      rw [← (hs'.trans hs'').form_eq hs]
      refine ih w ((hs'.trans hs'').acyclic hs) ?_
      exact hs.rank_of_resolved hn (by simp [hr]) (by rw [hr]; exact hw) (hs'.trans hs'')

/-- `apply` gives the full form of a type. -/
theorem Acyclic.answers_apply {s : Store} (hs : s.Acyclic) (t : Ty) :
    Answers s (s.full t) (apply t) := by
  refine answers_traverse t s fun v _ s' hs' => ?_
  rw [← hs'.form_eq hs]
  refine answers_expand s.size v (hs'.acyclic hs) ?_
  exact Nat.le_trans (hs'.rank_le v) (s.rank_le_size v)

theorem decide_mem_var (v w : TyVar) : decide (v ∈ (Ty.var w).vars) = (w == v) := by
  grind [Ty.vars_var]

theorem decide_mem_full (s : Store) (v : TyVar) (t : Ty) :
    decide (v ∈ (s.full t).vars) = t.vars.any fun u => decide (v ∈ (s.form u).vars) := by
  rw [Bool.eq_iff_iff]
  simp [full, Ty.mem_vars_subst]

theorem answers_reaches (v : TyVar) : ∀ (n : Nat) {s : Store} (w : TyVar), s.Acyclic →
    s.rank w ≤ n → Answers s (decide (v ∈ (s.form w).vars)) (reaches v n w) := by
  intro n
  induction n with
  | zero =>
    intro s w hs hn
    rw [form_of_unbound (rank_eq_zero hn)]
    rw [decide_mem_var]
    exact .pure s _
  | succ n ih =>
    intro s w hs hn
    refine (hs.answers_resolve (.var w)).bind fun s' hs' => ?_
    have hfull : s.full (Store.resolve (.var w) s).1 = s.form w := hs.full_resolve (.var w)
    generalize hr : (Store.resolve (.var w) s).1 = r at hfull
    cases r with
    | var u =>
      rw [← hfull, full, Ty.subst_var, form_of_unbound ((hs.resolve (.var w)).unbound u hr)]
      rw [decide_mem_var]
      exact .pure s' _
    | _ =>
      rw [← hfull]
      rw [decide_mem_full]
      refine answers_anyVar _ s' fun u hu s'' hs'' => ?_
      rw [← (hs'.trans hs'').form_eq hs]
      refine ih u ((hs'.trans hs'').acyclic hs) ?_
      exact hs.rank_of_resolved hn (by simp [hr]) (by rw [hr]; exact hu) (hs'.trans hs'')

/-- `occurs` looks for a variable in the full form of a type. -/
theorem Acyclic.answers_occurs {s : Store} (hs : s.Acyclic) (v : TyVar) (t : Ty) :
    Answers s (decide (v ∈ (s.full t).vars)) (occurs v t) := by
  rw [decide_mem_full]
  refine answers_anyVar t s fun w _ s' hs' => ?_
  rw [← hs'.form_eq hs]
  refine answers_reaches v s.size w (hs'.acyclic hs) ?_
  exact Nat.le_trans (hs'.rank_le w) (s.rank_le_size w)

end Monotype.Store
