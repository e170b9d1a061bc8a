import Monotype.Proofs.Unify.Rules

/-! Which rule a derivation of unification ends in. The shapes of the two resolved types settle it,
so a derivation for known shapes can be taken apart. -/
namespace Monotype

theorem Ty.isExternal_subst {t : Ty} (ht : ∀ w, t ≠ .var w) (θ : TyVar → Ty) :
    (t.subst θ).isExternal = t.isExternal := by
  cases t with
  | var w => exact absurd rfl (ht w)
  | _ => simp [isExternal]

theorem Ty.alike_subst {l r : Ty} (hl : ∀ w, l ≠ .var w) (hr : ∀ w, r ≠ .var w)
    (θ : TyVar → Ty) : (l.subst θ).Alike (r.subst θ) ↔ l.Alike r := by
  cases l with
  | var w => exact absurd rfl (hl w)
  | _ =>
    cases r with
    | var w => exact absurd rfl (hr w)
    | _ => simp [Alike]

theorem Ty.Alike.symm {l r : Ty} (h : l.Alike r) : r.Alike l := by
  cases l <;> cases r <;> exact h

namespace Store
variable {lenient : Bool} {s s' : Store} {l r : Ty} {v : TyVar} {errors : List (TypeError Ty)}

namespace Meets

theorem inv_sameVar (h : Meets lenient s (.var v) (.var v) errors s') :
    errors = [] ∧ s' = s := by
  cases h with
  | sameVar => exact ⟨rfl, rfl⟩
  | assignLeft hr _ => exact absurd rfl hr
  | assignRight hl _ => exact absurd rfl (hl v)
  | sameLeaf ht => exact ht.elim
  | agree hl _ _ _ _ => exact absurd rfl (hl v)
  | mismatch hl _ _ _ _ => exact absurd rfl (hl v)

theorem inv_assignLeft (h : Meets lenient s (.var v) r errors s') (hr : r ≠ .var v) :
    Assigns s v r errors s' := by
  cases h with
  | sameVar => exact absurd rfl hr
  | assignLeft _ h => exact h
  | assignRight hl _ => exact absurd rfl (hl v)
  | sameLeaf ht => exact ht.elim
  | agree hl _ _ _ _ => exact absurd rfl (hl v)
  | mismatch hl _ _ _ _ => exact absurd rfl (hl v)

theorem inv_assignRight (h : Meets lenient s l (.var v) errors s') (hl : ∀ w, l ≠ .var w) :
    Assigns s v l errors s' := by
  cases h with
  | sameVar => exact absurd rfl (hl v)
  | assignLeft _ _ => exact absurd rfl (hl _)
  | assignRight _ h => exact h
  | sameLeaf ht => exact ht.elim
  | agree _ hr _ _ _ => exact absurd rfl (hr v)
  | mismatch _ hr _ _ _ => exact absurd rfl (hr v)

theorem inv_sameLeaf {t : Ty} (h : Meets lenient s t t errors s') (ht : t.IsLeaf) :
    errors = [] ∧ s' = s := by
  cases h with
  | sameVar => exact ht.elim
  | assignLeft _ _ => exact ht.elim
  | assignRight _ _ => exact ht.elim
  | sameLeaf _ => exact ⟨rfl, rfl⟩
  | agree _ _ hne _ _ => exact absurd rfl hne
  | fn _ _ _ => exact ht.elim
  | arity _ => exact ht.elim
  | tuple _ _ => exact ht.elim
  | length _ => exact ht.elim
  | record _ => exact ht.elim
  | mismatch _ _ hne _ _ => exact absurd rfl hne

theorem inv_fn {ps qs : List Ty} {p q : Ty} (h : Meets lenient s (.fn ps p) (.fn qs q) errors s')
    (hlen : ps.length = qs.length) :
    ∃ errors₁ s₁ errors₂, AllUnify lenient s ps qs errors₁ s₁ ∧
      Unifies lenient s₁ p q errors₂ s' ∧ errors = errors₁ ++ errors₂ := by
  cases h with
  | fn _ hparams hresult => exact ⟨_, _, _, hparams, hresult, rfl⟩
  | arity hne => exact absurd hlen hne
  | sameLeaf ht => exact ht.elim
  | agree _ _ _ _ he => simp [Ty.isExternal] at he
  | mismatch _ _ _ halike _ => exact absurd trivial halike

theorem inv_arity {ps qs : List Ty} {p q : Ty}
    (h : Meets lenient s (.fn ps p) (.fn qs q) errors s') (hlen : ps.length ≠ qs.length) :
    errors = [.functionArity ps.length qs.length] ∧ s' = s := by
  cases h with
  | fn heq _ _ => exact absurd heq hlen
  | arity _ => exact ⟨rfl, rfl⟩
  | sameLeaf ht => exact ht.elim
  | agree _ _ _ _ he => simp [Ty.isExternal] at he
  | mismatch _ _ _ halike _ => exact absurd trivial halike

theorem inv_tuple {ts us : List Ty} (h : Meets lenient s (.tuple ts) (.tuple us) errors s')
    (hlen : ts.length = us.length) : AllUnify lenient s ts us errors s' := by
  cases h with
  | tuple _ helements => exact helements
  | length hne => exact absurd hlen hne
  | sameLeaf ht => exact ht.elim
  | agree _ _ _ _ he => simp [Ty.isExternal] at he
  | mismatch _ _ _ halike _ => exact absurd trivial halike

theorem inv_length {ts us : List Ty} (h : Meets lenient s (.tuple ts) (.tuple us) errors s')
    (hlen : ts.length ≠ us.length) :
    errors = [.tupleLength ts.length us.length] ∧ s' = s := by
  cases h with
  | tuple heq _ => exact absurd heq hlen
  | length _ => exact ⟨rfl, rfl⟩
  | sameLeaf ht => exact ht.elim
  | agree _ _ _ _ he => simp [Ty.isExternal] at he
  | mismatch _ _ _ halike _ => exact absurd trivial halike

theorem inv_record {fs gs : Fields Ty}
    (h : Meets lenient s (.record fs) (.record gs) errors s') :
    FieldsUnify lenient s fs gs errors s' := by
  cases h with
  | record hfields => exact hfields
  | sameLeaf ht => exact ht.elim
  | agree _ _ _ _ he => simp [Ty.isExternal] at he
  | mismatch _ _ _ halike _ => exact absurd trivial halike

/-- Types that have nothing in common: lenient imports agree with everything, all else fails. -/
theorem inv_apart (h : Meets lenient s l r errors s') (hl : ∀ w, l ≠ .var w)
    (hr : ∀ w, r ≠ .var w) (hne : l ≠ r) (halike : ¬ l.Alike r) :
    ((lenient = true ∧ (l.isExternal = true ∨ r.isExternal = true)) ∧ errors = [] ∧ s' = s) ∨
    (¬ (lenient = true ∧ (l.isExternal = true ∨ r.isExternal = true)) ∧
      errors = [.mismatch (apply l s).1 (apply r (apply l s).2).1] ∧
      s' = (apply r (apply l s).2).2) := by
  cases h with
  | sameVar => exact absurd rfl hne
  | assignLeft _ _ => exact absurd rfl (hl _)
  | assignRight _ _ => exact absurd rfl (hr _)
  | sameLeaf _ => exact absurd rfl hne
  | agree _ _ _ hlen he => exact .inl ⟨⟨hlen, he⟩, rfl, rfl⟩
  | fn _ _ _ => exact absurd trivial halike
  | arity _ => exact absurd trivial halike
  | tuple _ _ => exact absurd trivial halike
  | length _ => exact absurd trivial halike
  | record _ => exact absurd trivial halike
  | mismatch _ _ _ _ hstrict => exact .inr ⟨hstrict, rfl, rfl⟩

end Meets

namespace FieldsUnify
variable {name : String} {t u : Ty} {fields others rest : Fields Ty}

theorem inv_nil (h : FieldsUnify lenient s [] others errors s') :
    errors = others.map (fun field => .recordField field.1) ∧ s' = s := by
  cases h with
  | nil => exact ⟨rfl, rfl⟩

theorem inv_shared (h : FieldsUnify lenient s ((name, t) :: fields) others errors s')
    (hrest : others.dropWhile (·.1 < name) = (name, u) :: rest) :
    ∃ errors₁ s₁ errors₂, Unifies lenient s t u errors₁ s₁ ∧
      FieldsUnify lenient s₁ fields rest errors₂ s' ∧
      errors = (others.takeWhile (·.1 < name)).map (fun field => .recordField field.1) ++
        (errors₁ ++ errors₂) := by
  cases h with
  | shared hrest' hfield hfields =>
    cases hrest.symm.trans hrest'
    exact ⟨_, _, _, hfield, hfields, rfl⟩
  | missing hrest' habsent _ => exact absurd (hrest'.symm.trans hrest) (habsent u rest)

theorem inv_missing (h : FieldsUnify lenient s ((name, t) :: fields) others errors s')
    (hrest : others.dropWhile (·.1 < name) = rest) (habsent : ∀ u tail, rest ≠ (name, u) :: tail) :
    ∃ errors', FieldsUnify lenient s fields rest errors' s' ∧
      errors = (others.takeWhile (·.1 < name)).map (fun field => .recordField field.1) ++
        (.recordField name :: errors') := by
  cases h with
  | shared hrest' _ _ => exact absurd (hrest.symm.trans hrest') (habsent _ _)
  | missing hrest' _ hfields =>
    obtain rfl := hrest.symm.trans hrest'
    exact ⟨_, hfields, rfl⟩

/-- Names that only the left side has come first. -/
theorem inv_skipLeft (h : FieldsUnify lenient s fields ((name, t) :: others) errors s') :
    ∃ errors',
      FieldsUnify lenient s (fields.dropWhile (·.1 < name)) ((name, t) :: others) errors' s' ∧
      errors =
        (fields.takeWhile (·.1 < name)).map (fun field => .recordField field.1) ++ errors' := by
  induction fields generalizing errors with
  | nil => exact ⟨errors, h, rfl⟩
  | cons field fields ih =>
    obtain ⟨key, u⟩ := field
    by_cases hlt : key < name
    · rw [List.dropWhile_cons_of_pos (by simpa using hlt),
        List.takeWhile_cons_of_pos (by simpa using hlt)]
      have hkey : ¬ name < key := String.lt_asymm hlt
      have hrest : ((name, t) :: others).dropWhile (·.1 < key) = (name, t) :: others :=
        List.dropWhile_cons_of_neg (by simpa using hkey)
      have habsent : ∀ u tail, (name, t) :: others ≠ (key, u) :: tail := by
        intro u tail heq
        have hname : name = key := congrArg Prod.fst (List.cons.inj heq).1
        exact String.lt_irrefl key (hname ▸ hlt)
      obtain ⟨errors', hfields, rfl⟩ := inv_missing h hrest habsent
      obtain ⟨errors'', hfields', rfl⟩ := ih hfields
      refine ⟨errors'', hfields', ?_⟩
      rw [List.takeWhile_cons_of_neg (by simpa using hkey)]
      rfl
    · rw [List.dropWhile_cons_of_neg (by simpa using hlt),
        List.takeWhile_cons_of_neg (by simpa using hlt)]
      exact ⟨errors, h, rfl⟩

/-- The first name is the same on both sides. -/
theorem inv_head (h : FieldsUnify lenient s ((name, u) :: fields) ((name, t) :: others) errors s') :
    ∃ errors₁ s₁ errors₂, Unifies lenient s u t errors₁ s₁ ∧
      FieldsUnify lenient s₁ fields others errors₂ s' ∧ errors = errors₁ ++ errors₂ := by
  obtain ⟨errors₁, s₁, errors₂, hfield, hfields, rfl⟩ :=
    inv_shared h (List.dropWhile_cons_of_neg (by simp))
  refine ⟨errors₁, s₁, errors₂, hfield, hfields, ?_⟩
  rw [List.takeWhile_cons_of_neg (by simp)]
  rfl

/-- A name that only the right side has comes first. -/
theorem inv_skipRight {key : String} (hlt : name < key)
    (h : FieldsUnify lenient s ((key, u) :: fields) ((name, t) :: others) errors s') :
    ∃ errors', FieldsUnify lenient s ((key, u) :: fields) others errors' s' ∧
      errors = .recordField name :: errors' := by
  have hdrop : ((name, t) :: others).dropWhile (·.1 < key) = others.dropWhile (·.1 < key) :=
    List.dropWhile_cons_of_pos (by simpa using hlt)
  have htake : ((name, t) :: others).takeWhile (·.1 < key) =
      (name, t) :: others.takeWhile (·.1 < key) :=
    List.takeWhile_cons_of_pos (by simpa using hlt)
  cases h with
  | shared hrest hfield hfields =>
    rw [hdrop] at hrest
    rw [htake]
    exact ⟨_, .shared hrest hfield hfields, rfl⟩
  | missing hrest habsent hfields =>
    rw [hdrop] at hrest
    rw [htake]
    exact ⟨_, .missing hrest habsent hfields, rfl⟩

theorem inv_nilRight (h : FieldsUnify lenient s fields [] errors s') :
    errors = fields.map (fun field => .recordField field.1) ∧ s' = s := by
  induction fields generalizing errors with
  | nil => simpa using h.inv_nil
  | cons field fields ih =>
    obtain ⟨errors', hfields, rfl⟩ := inv_missing h rfl (by simp)
    obtain ⟨rfl, rfl⟩ := ih hfields
    exact ⟨rfl, rfl⟩

end FieldsUnify

end Store

end Monotype
