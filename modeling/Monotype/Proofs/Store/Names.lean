import Monotype.Proofs.Store.Binding
import Monotype.Proofs.Ty.World

/-! The sum types that the slots of a store name. Shortening ways brings in no new ones: what a slot
names is named in the full form of its variable, and that stays the same. -/
namespace Monotype.Store
variable {names : Set String} {s s' : Store}

/-- The slots name sum types of `names` only. -/
def Names (names : Set String) (s : Store) : Prop :=
  ∀ v t, s.lookup v = some t → ∀ name ∈ t.adts, name ∈ names

theorem Names.form (h : s.Names names) (hs : s.Acyclic) (v : TyVar) :
    ∀ name ∈ (s.form v).adts, name ∈ names := by
  induction v using hs.induct with
  | unbound v hu => simp [form_of_unbound hu]
  | bound v t ht ih =>
    intro name hname
    rw [hs.form_of_bound ht] at hname
    rcases Ty.mem_adts_subst.1 hname with hname | ⟨w, hw, hname⟩
    · exact h v t ht name hname
    · exact ih w hw name hname

theorem Names.full (h : s.Names names) (hs : s.Acyclic) {t : Ty}
    (ht : ∀ name ∈ t.adts, name ∈ names) : ∀ name ∈ (s.full t).adts, name ∈ names := by
  intro name hname
  rcases Ty.mem_adts_subst.1 hname with hname | ⟨v, _, hname⟩
  · exact ht name hname
  · exact h.form hs v name hname

/-- What a type names, its full form names too. -/
theorem mem_adts_full {name : String} {t : Ty} (h : name ∈ t.adts) : name ∈ (s.full t).adts :=
  Ty.mem_adts_subst.2 (.inl h)

theorem Names.compresses (h : s.Names names) (hs : s.Acyclic) (hc : Compresses s s') :
    s'.Names names := by
  intro v t ht name hname
  have hform : s'.form v = s'.full t := (hc.acyclic hs).form_of_bound ht
  apply h.form hs v name
  rw [← hc.form_eq hs, hform]
  exact mem_adts_full hname

theorem Names.resolve (h : s.Names names) (hs : s.Acyclic) {t : Ty}
    (ht : ∀ name ∈ t.adts, name ∈ names) :
    ∀ name ∈ (Store.resolve t s).1.adts, name ∈ names := by
  intro name hname
  apply h.full hs ht name
  rw [← hs.full_resolve t]
  exact mem_adts_full hname

theorem Names.bind (h : s.Names names) (v : TyVar) {t : Ty}
    (ht : ∀ name ∈ t.adts, name ∈ names) : (s.bind v t).Names names := by
  intro w u hu
  rw [lookup_bind] at hu
  split at hu
  · cases hu
    exact ht
  · exact h w u hu

end Monotype.Store
