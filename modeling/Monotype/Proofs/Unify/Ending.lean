import Monotype.Proofs.Store.Walks
import Monotype.Proofs.Unify.Inversion
import Monotype.Proofs.Unify.Safety
import Monotype.Proofs.Unify.Symmetry

/-! Unification ends. The rules take a variable that has just been bound to its end again, however
large the type there has become, and they go on after a failure; they have no bound on any of this.
For two types and a store they leave no choice, so the one derivation there is, which the function
follows, is the whole run, and the walks through the store that it makes on the way end by
themselves too. -/
namespace Monotype

theorem Ty.not_alike_of_isExternal {l r : Ty} (h : l.isExternal = true ∨ r.isExternal = true) :
    ¬ l.Alike r := by
  cases l <;> cases r <;> simp [Ty.isExternal, Ty.Alike] at h ⊢

namespace Store

/-! ## One derivation at most -/

theorem Assigns.unique {s s' s'' : Store} {v : TyVar} {t : Ty}
    {errors errors' : List (TypeError Ty)}
    (h : Assigns s v t errors s') (h' : Assigns s v t errors' s'') :
    errors = errors' ∧ s' = s'' := by
  cases h with
  | bind ho =>
    cases h' with
    | bind => exact ⟨rfl, rfl⟩
    | refuse ho' => simp [ho] at ho'
  | refuse ho =>
    cases h' with
    | bind ho' => simp [ho] at ho'
    | refuse => exact ⟨rfl, rfl⟩

mutual
theorem Unifies.unique {lenient : Bool} : ∀ {s s' s'' : Store} {l r : Ty}
    {errors errors' : List (TypeError Ty)}, Unifies lenient s l r errors s' →
    Unifies lenient s l r errors' s'' → errors = errors' ∧ s' = s''
  | _, _, _, _, _, _, _, .intro h, .intro h' => h.unique h'
termination_by structural _ _ _ _ _ _ _ h => h

theorem Meets.unique {lenient : Bool} : ∀ {s s' s'' : Store} {l r : Ty}
    {errors errors' : List (TypeError Ty)}, Meets lenient s l r errors s' →
    Meets lenient s l r errors' s'' → errors = errors' ∧ s' = s''
  | _, _, _, _, _, _, _, .sameVar, h' => by
    obtain ⟨rfl, rfl⟩ := h'.inv_sameVar
    exact ⟨rfl, rfl⟩
  | _, _, _, _, _, _, _, .assignLeft hr h, h' => h.unique (h'.inv_assignLeft hr)
  | _, _, _, _, _, _, _, .assignRight hl h, h' => h.unique (h'.inv_assignRight hl)
  | _, _, _, _, _, _, _, .sameLeaf ht, h' => by
    obtain ⟨rfl, rfl⟩ := h'.inv_sameLeaf ht
    exact ⟨rfl, rfl⟩
  | _, _, _, _, _, _, _, .agree hl hr hne hlen he, h' => by
    rcases h'.inv_apart hl hr hne (Ty.not_alike_of_isExternal he) with
      ⟨-, rfl, rfl⟩ | ⟨hstrict, -, -⟩
    · exact ⟨rfl, rfl⟩
    · exact absurd ⟨hlen, he⟩ hstrict
  | _, _, _, _, _, _, _, .fn hlen hparams hresult, h' => by
    obtain ⟨_, _, _, hparams', hresult', rfl⟩ := h'.inv_fn hlen
    obtain ⟨rfl, rfl⟩ := hparams.unique hparams'
    obtain ⟨rfl, rfl⟩ := hresult.unique hresult'
    exact ⟨rfl, rfl⟩
  | _, _, _, _, _, _, _, .arity hlen, h' => by
    obtain ⟨rfl, rfl⟩ := h'.inv_arity hlen
    exact ⟨rfl, rfl⟩
  | _, _, _, _, _, _, _, .tuple hlen helements, h' => helements.unique (h'.inv_tuple hlen)
  | _, _, _, _, _, _, _, .length hlen, h' => by
    obtain ⟨rfl, rfl⟩ := h'.inv_length hlen
    exact ⟨rfl, rfl⟩
  | _, _, _, _, _, _, _, .record hfields, h' => hfields.unique h'.inv_record
  | _, _, _, _, _, _, _, .mismatch hl hr hne halike hstrict, h' => by
    rcases h'.inv_apart hl hr hne halike with ⟨hlenient, -, -⟩ | ⟨-, rfl, rfl⟩
    · exact absurd hlenient hstrict
    · exact ⟨rfl, rfl⟩
termination_by structural _ _ _ _ _ _ _ h => h

theorem AllUnify.unique {lenient : Bool} : ∀ {s s' s'' : Store} {ts us : List Ty}
    {errors errors' : List (TypeError Ty)}, AllUnify lenient s ts us errors s' →
    AllUnify lenient s ts us errors' s'' → errors = errors' ∧ s' = s''
  | _, _, _, _, _, _, _, .nil, .nil => ⟨rfl, rfl⟩
  | _, _, _, _, _, _, _, .cons hhead htail, .cons hhead' htail' => by
    obtain ⟨rfl, rfl⟩ := hhead.unique hhead'
    obtain ⟨rfl, rfl⟩ := htail.unique htail'
    exact ⟨rfl, rfl⟩
termination_by structural _ _ _ _ _ _ _ h => h

theorem FieldsUnify.unique {lenient : Bool} : ∀ {s s' s'' : Store} {fs gs : Fields Ty}
    {errors errors' : List (TypeError Ty)}, FieldsUnify lenient s fs gs errors s' →
    FieldsUnify lenient s fs gs errors' s'' → errors = errors' ∧ s' = s''
  | _, _, _, _, _, _, _, .nil, h' => by
    obtain ⟨rfl, rfl⟩ := h'.inv_nil
    exact ⟨rfl, rfl⟩
  | _, _, _, _, _, _, _, .shared hrest hfield hfields, h' => by
    obtain ⟨_, _, _, hfield', hfields', rfl⟩ := h'.inv_shared hrest
    obtain ⟨rfl, rfl⟩ := hfield.unique hfield'
    obtain ⟨rfl, rfl⟩ := hfields.unique hfields'
    exact ⟨rfl, rfl⟩
  | _, _, _, _, _, _, _, .missing hrest habsent hfields, h' => by
    obtain ⟨_, hfields', rfl⟩ := h'.inv_missing hrest habsent
    obtain ⟨rfl, rfl⟩ := hfields.unique hfields'
    exact ⟨rfl, rfl⟩
termination_by structural _ _ _ _ _ _ _ h => h
end

theorem Acyclic.unifies_iff {s s' : Store} (hs : s.Acyclic) {lenient : Bool} {l r : Ty}
    {errors : List (TypeError Ty)} :
    s.Unifies lenient l r errors s' ↔ s.unify lenient l r = (errors, s') := by
  constructor
  · intro h
    obtain ⟨herrors, hs'⟩ := (hs.unifies lenient l r).unique h
    exact Prod.ext herrors hs'
  · intro h
    have hunifies := hs.unifies lenient l r
    rwa [h] at hunifies

/-! ## The walks on the way -/

/-- What is asked of a store takes a walk that ends by itself, and only an unbound variable is
bound. -/
def Act.Concludes : (act : Act) → Store → act.Answer → Store → Prop
  | .fresh, s, t, s' => s.fresh = (t, s')
  | .resolve t, s, r, s' => s.Resolves t r s'
  | .apply t, s, u, s' => s.Applies t u s'
  | .occurs v t, s, found, s' => Finds v s t found s'
  | .bind v t, s, (), s' => s.lookup v = none ∧ s.bind v t = s'

theorem Act.concludes {s : Store} (hs : s.Acyclic) :
    ∀ act : Act, (∀ v t, act = .bind v t → s.lookup v = none) →
      act.Concludes s (act.perform s).1 (act.perform s).2
  | .fresh, _ => rfl
  | .resolve t, _ => hs.resolves t
  | .apply t, _ => hs.applies t
  | .occurs v t, _ => hs.finds v t
  | .bind v t, h => ⟨h v t rfl, rfl⟩

end Store

namespace Check

/-- In an acyclic store whose variables are all issued a unification of two types over them ends,
with dynamic imports or without: there is one derivation, the run does what it says, and whatever
the run asks of the store on the way is answered by a walk that ends too. -/
theorem unify_ends (cfg : Config) {run : Run} (hs : run.store.Acyclic)
    (hissued : run.store.Within run.store.size) {l r : Ty} (hl : l.Below run.store.size)
    (hr : r.Below run.store.size) (site : Site) :
    (∃ errors store,
      (∀ errors' store', run.store.Unifies cfg.dynamicImports l r errors' store' ↔
        errors' = errors ∧ store' = store) ∧
      (unify l r site).run cfg run = (.ok (), { run with
        store, reports := ⟨run.reports.items ++ (errors.map (failureReport site)).toArray⟩ })) ∧
    ∀ (act : Store.Act) (next : act.Answer → Solve Unit) (st : Solving),
      Plan.Reaches Solve.Act.perform (Solve.unify run.store cfg.dynamicImports l r)
        { store := run.store } (.step (.store act) next) st →
      act.Concludes st.store (act.perform st.store).1 (act.perform st.store).2 := by
  constructor
  · refine ⟨_, _, fun errors' store' => ?_, run_unify cfg l r site run⟩
    rw [hs.unifies_iff, Prod.ext_iff, eq_comm, @eq_comm _ _ store']
  · intro act next st hreaches
    -- names of sum types do not matter here, so every name may occur
    let w : World := ⟨run.store.size, Set.univ⟩
    have hfits : run.store.Fits w := ⟨⟨hs, hissued, rfl⟩, fun _ _ _ _ _ => trivial⟩
    have hkeeps : Solve.Keeps w (Solve.unify run.store cfg.dynamicImports l r)
        { store := run.store } :=
      Solve.unify_keeps run.store hfits ⟨hl, fun _ _ => trivial⟩ ⟨hr, fun _ _ => trivial⟩
    obtain ⟨⟨hst, hbind⟩, -⟩ := hkeeps.reaches hreaches
    exact Store.Act.concludes hst.acyclic act fun v t hact => (hbind v t (hact ▸ rfl)).2

theorem twinStore_grow_acyclic (n : Nat) : (twinStore.grow n).Acyclic := by
  have hrefers : (twinStore.grow n).Refers = twinStore.Refers := by
    funext v w
    simp [Store.Refers]
  intro v hv
  exact twinStore_acyclic v (hrefers ▸ hv)

theorem twinStore_grow_within {n : Nat} (hn : 2 ≤ n) : (twinStore.grow n).Within n where
  size_le := by
    rw [Store.size_grow]
    exact Nat.max_le.2 ⟨twinStore_within.size_le.trans hn, Nat.le_refl n⟩
  below v t ht := (twinStore_within.below v t (by simpa using ht)).mono hn

/-- One variable is taken for another, a second one is refused the type that contains it, and the
numbers do not agree with the texts; the end is come to all the same. -/
theorem unify_ends_twin :
    (twinStore.grow 5).Acyclic ∧ (twinStore.grow 5).size = 5 ∧ (twinStore.grow 5).Within 5 ∧
    ∃ errors store, errors.map TypeError.code = ["E3018", "E3003"] ∧
      (∀ errors' store', (twinStore.grow 5).Unifies false
        (.tuple [.var 0, .var 2, .number])
        (.tuple [.tuple [.var 3, .var 4], .tuple [.var 2], .string]) errors' store' ↔
        errors' = errors ∧ store' = store) ∧
      store.lookup 2 = none := by
  have hacyclic := twinStore_grow_acyclic 5
  have hsize : (twinStore.grow 5).size = 5 := by decide
  have hwithin : (twinStore.grow 5).Within 5 := twinStore_grow_within (by decide)
  obtain ⟨⟨errors, store, hiff, -⟩, -⟩ :=
    @unify_ends {} { store := twinStore.grow 5 } hacyclic (by rwa [hsize])
      (.tuple [.var 0, .var 2, .number])
      (.tuple [.tuple [.var 3, .var 4], .tuple [.var 2], .string])
      (by simp [hsize]) (by simp [hsize]) {}
  obtain ⟨rfl, rfl⟩ := (hiff _ _).1 (hacyclic.unifies false _ _)
  exact ⟨hacyclic, hsize, hwithin, _, _, by decide +kernel, hiff, by decide +kernel⟩

end Check

end Monotype
