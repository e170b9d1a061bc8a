import Mathlib.Data.Set.Basic
import Monotype.Proofs.Ty.Subst

/-! The sum types that a type names, and worlds: what types may speak of at some point of a run. A
world can only grow, and what fits a world fits every larger one. -/
namespace Monotype
namespace Ty

mutual
/-- The names of the sum types in a type, from left to right. -/
def adts : Ty → List String
  | .adt name => [name]
  | .fn params result => adtsList params ++ adts result
  | .tuple elements => adtsList elements
  | .record fields => adtsFields fields
  | _ => []

def adtsList : List Ty → List String
  | [] => []
  | t :: ts => adts t ++ adtsList ts

def adtsFields : Fields Ty → List String
  | [] => []
  | (_, t) :: fields => adts t ++ adtsFields fields
end

theorem mem_adtsList {name : String} {ts : List Ty} :
    name ∈ adtsList ts ↔ ∃ t ∈ ts, name ∈ t.adts := by
  induction ts with
  | nil => simp [adtsList]
  | cons t ts ih => simp [adtsList, ih]

theorem mem_adtsFields {name : String} {fields : Fields Ty} :
    name ∈ adtsFields fields ↔ ∃ field ∈ fields, name ∈ field.2.adts := by
  induction fields with
  | nil => simp [adtsFields]
  | cons field fields ih => simp [adtsFields, ih]

@[simp] theorem adts_prim (p : Prim) : (Ty.prim p).adts = [] := rfl

@[simp] theorem adts_external (path : String) : (Ty.external path).adts = [] := rfl

@[simp] theorem adts_adt (name : String) : (Ty.adt name).adts = [name] := rfl

@[simp] theorem adts_var (v : TyVar) : (Ty.var v).adts = [] := rfl

@[simp] theorem mem_adts_fn {name : String} {params : List Ty} {result : Ty} :
    name ∈ (Ty.fn params result).adts ↔ (∃ t ∈ params, name ∈ t.adts) ∨ name ∈ result.adts := by
  simp [adts, mem_adtsList]

@[simp] theorem mem_adts_tuple {name : String} {elements : List Ty} :
    name ∈ (Ty.tuple elements).adts ↔ ∃ t ∈ elements, name ∈ t.adts := by
  simp [adts, mem_adtsList]

@[simp] theorem mem_adts_record {name : String} {fields : Fields Ty} :
    name ∈ (Ty.record fields).adts ↔ ∃ field ∈ fields, name ∈ field.2.adts := by
  simp [adts, mem_adtsFields]

/-- A type with its variables replaced names what it named before, and what their replacements
name. -/
theorem mem_adts_subst {θ : TyVar → Ty} {name : String} {t : Ty} :
    name ∈ (t.subst θ).adts ↔ name ∈ t.adts ∨ ∃ v ∈ t.vars, name ∈ (θ v).adts := by
  induction t using induct with
  | prim p | external path | adt other | var v => simp
  | fn params result ihp ihr => grind [subst_fn, mem_adts_fn, mem_vars_fn]
  | tuple elements ih => grind [subst_tuple, mem_adts_tuple, mem_vars_tuple]
  | record fields ih =>
    rw [subst_record, mem_adts_record, mem_adts_record]
    constructor
    · rintro ⟨_, hmem, hname⟩
      obtain ⟨field, hf, rfl⟩ := List.mem_map.1 hmem
      rcases (ih field hf).1 hname with hname | ⟨v, hv, hname⟩
      · exact .inl ⟨field, hf, hname⟩
      · exact .inr ⟨v, mem_vars_record.2 ⟨field, hf, hv⟩, hname⟩
    · rintro (⟨field, hf, hname⟩ | ⟨v, hv, hname⟩)
      · exact ⟨_, List.mem_map_of_mem hf, (ih field hf).2 (.inl hname)⟩
      · obtain ⟨field, hf, hv⟩ := mem_vars_record.1 hv
        exact ⟨_, List.mem_map_of_mem hf, (ih field hf).2 (.inr ⟨v, hv, hname⟩)⟩

end Ty

/-- What types may speak of: the first `issued` variables and the sum types of `names`. -/
structure World where
  issued : Nat
  names : Set String

namespace World

instance : Preorder World where
  le w w' := w.issued ≤ w'.issued ∧ w.names ⊆ w'.names
  le_refl _ := ⟨Nat.le_refl _, fun _ hname => hname⟩
  le_trans _ _ _ h h' := ⟨h.1.trans h'.1, fun _ hname => h'.2 (h.2 hname)⟩

theorem issued_le {w w' : World} (h : w ≤ w') : w.issued ≤ w'.issued := h.1

theorem names_subset {w w' : World} (h : w ≤ w') : w.names ⊆ w'.names := h.2

/-- The world in which also the sum type that is just being declared may be named. -/
def naming (w : World) (self : Option String) : World :=
  { w with names := { name | self = some name ∨ name ∈ w.names } }

theorem le_naming (w : World) (self : Option String) : w ≤ w.naming self :=
  ⟨Nat.le_refl _, fun _ hname => .inr hname⟩

theorem naming_mono {w w' : World} (h : w ≤ w') (self : Option String) :
    w.naming self ≤ w'.naming self :=
  ⟨h.1, fun _ hname => hname.imp_right (names_subset h ·)⟩

theorem naming_none_le (w : World) (self : Option String) : w.naming none ≤ w.naming self :=
  ⟨Nat.le_refl _, fun _ hname => .inr (hname.resolve_left (by simp))⟩

/-- Once a name is declared nothing is added by naming it. -/
theorem naming_le {w : World} {name : String} (h : name ∈ w.names) : w.naming (some name) ≤ w := by
  constructor
  · exact Nat.le_refl _
  · rintro other (heq | hother)
    · exact Option.some.inj heq ▸ h
    · exact hother

end World

/-- A type that speaks of a world only. -/
structure Ty.Fits (w : World) (t : Ty) : Prop where
  below : t.Below w.issued
  named : ∀ name ∈ t.adts, name ∈ w.names

namespace Ty
variable {w w' : World}

theorem Fits.mono {t : Ty} (h : t.Fits w) (hle : w ≤ w') : t.Fits w' :=
  ⟨h.below.mono hle.1, fun name hname => World.names_subset hle (h.named name hname)⟩

theorem Fits.naming_mono {t : Ty} {self : Option String} (h : t.Fits (w.naming self))
    (hle : w ≤ w') : t.Fits (w'.naming self) :=
  h.mono (World.naming_mono hle self)

@[simp] theorem fits_prim {p : Prim} : (Ty.prim p).Fits w := ⟨below_prim, by simp⟩

@[simp] theorem fits_external {path : String} : (Ty.external path).Fits w :=
  ⟨below_external, by simp⟩

@[simp] theorem fits_adt {name : String} : (Ty.adt name).Fits w ↔ name ∈ w.names :=
  ⟨fun h => h.named name (by simp), fun h => ⟨below_adt, by simpa using h⟩⟩

@[simp] theorem fits_var {v : TyVar} : (Ty.var v).Fits w ↔ v < w.issued :=
  ⟨fun h => below_var.1 h.below, fun h => ⟨below_var.2 h, by simp⟩⟩

/-- A type fits when its parts do. -/
theorem fits_iff_of_parts {t : Ty} {parts : List Ty}
    (hvars : ∀ v, v ∈ t.vars ↔ ∃ u ∈ parts, v ∈ u.vars)
    (hadts : ∀ name, name ∈ t.adts ↔ ∃ u ∈ parts, name ∈ u.adts) :
    t.Fits w ↔ ∀ u ∈ parts, u.Fits w := by
  constructor
  · intro h u hu
    constructor
    · exact fun v hv => h.below v ((hvars v).2 ⟨u, hu, hv⟩)
    · exact fun name hname => h.named name ((hadts name).2 ⟨u, hu, hname⟩)
  · intro h
    constructor
    · intro v hv
      obtain ⟨u, hu, hv⟩ := (hvars v).1 hv
      exact (h u hu).below v hv
    · intro name hname
      obtain ⟨u, hu, hname⟩ := (hadts name).1 hname
      exact (h u hu).named name hname

@[simp] theorem fits_fn {params : List Ty} {result : Ty} :
    (Ty.fn params result).Fits w ↔ (∀ t ∈ params, t.Fits w) ∧ result.Fits w := by
  have hparts : (Ty.fn params result).Fits w ↔ ∀ u ∈ result :: params, u.Fits w :=
    fits_iff_of_parts (by simp [or_comm]) (by simp [or_comm])
  rw [hparts, List.forall_mem_cons, and_comm]

@[simp] theorem fits_tuple {elements : List Ty} :
    (Ty.tuple elements).Fits w ↔ ∀ t ∈ elements, t.Fits w :=
  fits_iff_of_parts (fun _ => mem_vars_tuple) fun _ => mem_adts_tuple

@[simp] theorem fits_record {fields : Fields Ty} :
    (Ty.record fields).Fits w ↔ ∀ field ∈ fields, field.2.Fits w := by
  have hparts : (Ty.record fields).Fits w ↔ ∀ u ∈ fields.map (·.2), u.Fits w :=
    fits_iff_of_parts (by grind [mem_vars_record]) (by grind [mem_adts_record])
  rw [hparts, List.forall_mem_map]

theorem fits_ofList {fields : List (String × Ty)} (h : ∀ field ∈ fields, field.2.Fits w) :
    (Ty.record (Fields.ofList fields)).Fits w :=
  fits_record.2 fun field hf => h field (Fields.mem_ofList hf)

theorem Fits.lookup {fields : Fields Ty} (h : (Ty.record fields).Fits w) {name : String} {t : Ty}
    (ht : fields.lookup name = some t) : t.Fits w := by
  rw [fits_record] at h
  induction fields with
  | nil => simp at ht
  | cons field fields ih =>
    rw [List.forall_mem_cons] at h
    rw [List.lookup_cons] at ht
    split at ht
    · exact Option.some.inj ht ▸ h.1
    · exact ih h.2 ht

end Ty

end Monotype
