import Mathlib.Tactic.Common
import Monotype.Ty.Traverse

/-! Substitution of types for variables, the variables of a type and its size. -/
namespace Monotype.Ty

mutual
/-- Puts `θ v` in the place of every variable `v`. -/
def subst (θ : TyVar → Ty) : Ty → Ty
  | .var v => θ v
  | .fn params result => .fn (substList θ params) (subst θ result)
  | .tuple elements => .tuple (substList θ elements)
  | .record fields => .record (substFields θ fields)
  | .prim p => .prim p
  | .external path => .external path
  | .adt name => .adt name

def substList (θ : TyVar → Ty) : List Ty → List Ty
  | [] => []
  | t :: ts => subst θ t :: substList θ ts

def substFields (θ : TyVar → Ty) : Fields Ty → Fields Ty
  | [] => []
  | (name, t) :: fields => (name, subst θ t) :: substFields θ fields
end

mutual
/-- The variables of a type, from left to right. -/
def vars : Ty → List TyVar
  | .var v => [v]
  | .fn params result => varsList params ++ vars result
  | .tuple elements => varsList elements
  | .record fields => varsFields fields
  | _ => []

def varsList : List Ty → List TyVar
  | [] => []
  | t :: ts => vars t ++ varsList ts

def varsFields : Fields Ty → List TyVar
  | [] => []
  | (_, t) :: fields => vars t ++ varsFields fields
end

mutual
/-- How many constructors and variables a type is built from. -/
def size : Ty → Nat
  | .fn params result => sizeList params + size result + 1
  | .tuple elements => sizeList elements + 1
  | .record fields => sizeFields fields + 1
  | _ => 1

def sizeList : List Ty → Nat
  | [] => 0
  | t :: ts => size t + sizeList ts

def sizeFields : Fields Ty → Nat
  | [] => 0
  | (_, t) :: fields => size t + sizeFields fields
end

/-- Induction on types, with the parts of a type taken all at once. -/
theorem induct {P : Ty → Prop}
    (prim : ∀ p, P (.prim p)) (external : ∀ path, P (.external path))
    (fn : ∀ params result, (∀ t ∈ params, P t) → P result → P (.fn params result))
    (tuple : ∀ elements, (∀ t ∈ elements, P t) → P (.tuple elements))
    (record : ∀ fields, (∀ field ∈ fields, P field.2) → P (.record fields))
    (adt : ∀ name, P (.adt name)) (var : ∀ v, P (.var v)) (t : Ty) : P t := by
  refine @Ty.rec P (fun ts => ∀ t ∈ ts, P t) (fun fields => ∀ field ∈ fields, P field.2)
    (fun field => P field.2) prim external fn tuple record adt var ?_ ?_ ?_ ?_ ?_ t
  · exact fun _ h => absurd h List.not_mem_nil
  · exact fun _ _ hhead htail => List.forall_mem_cons.2 ⟨hhead, htail⟩
  · exact fun _ h => absurd h List.not_mem_nil
  · exact fun _ _ hhead htail => List.forall_mem_cons.2 ⟨hhead, htail⟩
  · exact fun _ _ h => h

theorem substList_eq_map (θ : TyVar → Ty) (ts : List Ty) :
    substList θ ts = ts.map (subst θ) := by
  induction ts with
  | nil => rfl
  | cons t ts ih => simp [substList, ih]

theorem substFields_eq_map (θ : TyVar → Ty) (fields : Fields Ty) :
    substFields θ fields = fields.map fun field => (field.1, field.2.subst θ) := by
  induction fields with
  | nil => rfl
  | cons field fields ih => simp [substFields, ih]

theorem mem_varsList {v : TyVar} {ts : List Ty} :
    v ∈ varsList ts ↔ ∃ t ∈ ts, v ∈ t.vars := by
  induction ts with
  | nil => simp [varsList]
  | cons t ts ih => simp [varsList, ih]

theorem mem_varsFields {v : TyVar} {fields : Fields Ty} :
    v ∈ varsFields fields ↔ ∃ field ∈ fields, v ∈ field.2.vars := by
  induction fields with
  | nil => simp [varsFields]
  | cons field fields ih => simp [varsFields, ih]

theorem size_le_sizeList {t : Ty} {ts : List Ty} (h : t ∈ ts) : t.size ≤ sizeList ts := by
  induction ts with
  | nil => simp at h
  | cons u ts ih =>
    rcases List.mem_cons.1 h with rfl | h
    · simp [sizeList]
    · exact Nat.le_trans (ih h) (by simp [sizeList])

theorem size_le_sizeFields {field : String × Ty} {fields : Fields Ty} (h : field ∈ fields) :
    field.2.size ≤ sizeFields fields := by
  induction fields with
  | nil => simp at h
  | cons other fields ih =>
    rcases List.mem_cons.1 h with rfl | h
    · simp [sizeFields]
    · exact Nat.le_trans (ih h) (by simp [sizeFields])

section Equations
variable (θ : TyVar → Ty)

@[simp] theorem subst_prim (p : Prim) : (Ty.prim p).subst θ = .prim p := rfl

@[simp] theorem subst_external (path : String) : (Ty.external path).subst θ = .external path := rfl

@[simp] theorem subst_adt (name : String) : (Ty.adt name).subst θ = .adt name := rfl

@[simp] theorem subst_var (v : TyVar) : (Ty.var v).subst θ = θ v := rfl

@[simp] theorem subst_fn (params : List Ty) (result : Ty) :
    (Ty.fn params result).subst θ = .fn (params.map (subst θ)) (result.subst θ) := by
  simp [subst, substList_eq_map]

@[simp] theorem subst_tuple (elements : List Ty) :
    (Ty.tuple elements).subst θ = .tuple (elements.map (subst θ)) := by
  simp [subst, substList_eq_map]

@[simp] theorem subst_record (fields : Fields Ty) :
    (Ty.record fields).subst θ =
      .record (fields.map fun field => (field.1, field.2.subst θ)) := by
  simp [subst, substFields_eq_map]

end Equations

@[simp] theorem vars_prim (p : Prim) : (Ty.prim p).vars = [] := rfl

@[simp] theorem vars_external (path : String) : (Ty.external path).vars = [] := rfl

@[simp] theorem vars_adt (name : String) : (Ty.adt name).vars = [] := rfl

@[simp] theorem vars_var (v : TyVar) : (Ty.var v).vars = [v] := rfl

@[simp] theorem mem_vars_fn {v : TyVar} {params : List Ty} {result : Ty} :
    v ∈ (Ty.fn params result).vars ↔ (∃ t ∈ params, v ∈ t.vars) ∨ v ∈ result.vars := by
  simp [vars, mem_varsList]

@[simp] theorem mem_vars_tuple {v : TyVar} {elements : List Ty} :
    v ∈ (Ty.tuple elements).vars ↔ ∃ t ∈ elements, v ∈ t.vars := by
  simp [vars, mem_varsList]

@[simp] theorem mem_vars_record {v : TyVar} {fields : Fields Ty} :
    v ∈ (Ty.record fields).vars ↔ ∃ field ∈ fields, v ∈ field.2.vars := by
  simp [vars, mem_varsFields]

theorem subst_congr {θ φ : TyVar → Ty} {t : Ty} (h : ∀ v ∈ t.vars, θ v = φ v) :
    t.subst θ = t.subst φ := by
  induction t using induct with
  | prim p | external path | adt name => rfl
  | var v => exact h v (by simp)
  | fn params result ihp ihr =>
    have hp : params.map (subst θ) = params.map (subst φ) :=
      List.map_congr_left fun t ht => ihp t ht fun v hv => h v (by simp; exact .inl ⟨t, ht, hv⟩)
    have hr : result.subst θ = result.subst φ := ihr fun v hv => h v (by simp [hv])
    simp [hp, hr]
  | tuple elements ih =>
    have he : elements.map (subst θ) = elements.map (subst φ) :=
      List.map_congr_left fun t ht => ih t ht fun v hv => h v (by simp; exact ⟨t, ht, hv⟩)
    simp only [subst_tuple, he]
  | record fields ih =>
    simp only [subst_record, record.injEq]
    refine List.map_congr_left fun field hf => ?_
    rw [ih field hf fun v hv => h v (mem_vars_record.2 ⟨field, hf, hv⟩)]

@[simp] theorem subst_id (t : Ty) : t.subst .var = t := by
  induction t using induct with
  | prim p | external path | adt name | var v => rfl
  | fn params result ihp ihr =>
    rw [subst_fn, ihr, List.map_congr_left (f := subst .var) (g := id) ihp, List.map_id]
  | tuple elements ih =>
    rw [subst_tuple, List.map_congr_left (f := subst .var) (g := id) ih, List.map_id]
  | record fields ih =>
    rw [subst_record, List.map_congr_left (g := id) fun field hf => by simp [ih field hf],
      List.map_id]

theorem subst_subst (θ φ : TyVar → Ty) (t : Ty) :
    (t.subst θ).subst φ = t.subst fun v => (θ v).subst φ := by
  induction t using induct with
  | prim p | external path | adt name | var v => rfl
  | fn params result ihp ihr =>
    simp only [subst_fn, List.map_map, fn.injEq]
    exact ⟨List.map_congr_left ihp, ihr⟩
  | tuple elements ih =>
    simp only [subst_tuple, List.map_map, tuple.injEq]
    exact List.map_congr_left ih
  | record fields ih =>
    simp only [subst_record, List.map_map, record.injEq]
    exact List.map_congr_left fun field hf => by simp [ih field hf]

theorem mem_vars_subst {θ : TyVar → Ty} {w : TyVar} {t : Ty} :
    w ∈ (t.subst θ).vars ↔ ∃ v ∈ t.vars, w ∈ (θ v).vars := by
  induction t using induct with
  | prim p | external path | adt name | var v => simp
  | fn params result ihp ihr => grind [subst_fn, mem_vars_fn]
  | tuple elements ih => grind [subst_tuple, mem_vars_tuple]
  | record fields ih =>
    rw [subst_record, mem_vars_record]
    constructor
    · rintro ⟨_, hmem, hw⟩
      obtain ⟨field, hf, rfl⟩ := List.mem_map.1 hmem
      obtain ⟨v, hv, hw⟩ := (ih field hf).1 hw
      exact ⟨v, mem_vars_record.2 ⟨field, hf, hv⟩, hw⟩
    · rintro ⟨v, hv, hw⟩
      obtain ⟨field, hf, hv⟩ := mem_vars_record.1 hv
      exact ⟨_, List.mem_map_of_mem hf, (ih field hf).2 ⟨v, hv, hw⟩⟩

/-- What a variable is replaced by is smaller than the whole, unless it is the whole. -/
theorem eq_var_or_size_lt {θ : TyVar → Ty} {v : TyVar} {t : Ty} (h : v ∈ t.vars) :
    t = .var v ∨ (θ v).size < (t.subst θ).size := by
  -- what stands for `v` is no larger than a part of `t` in which `v` occurs
  have part : ∀ {u : Ty}, (u = .var v ∨ (θ v).size < (u.subst θ).size) →
      (θ v).size ≤ (u.subst θ).size := by
    rintro u (rfl | hu)
    · exact Nat.le_refl _
    · exact Nat.le_of_lt hu
  induction t using induct with
  | prim p | external path | adt name => simp at h
  | var w => exact .inl (by simpa [eq_comm] using h)
  | fn params result ihp ihr =>
    right
    simp only [subst_fn, size]
    rcases mem_vars_fn.1 h with ⟨t, ht, hv⟩ | hv
    · have hle := part (ihp t ht hv)
      have hsum := size_le_sizeList (List.mem_map_of_mem (f := subst θ) ht)
      omega
    · have hle := part (ihr hv)
      omega
  | tuple elements ih =>
    right
    simp only [subst_tuple, size]
    obtain ⟨t, ht, hv⟩ := mem_vars_tuple.1 h
    have hle := part (ih t ht hv)
    have hsum := size_le_sizeList (List.mem_map_of_mem (f := subst θ) ht)
    omega
  | record fields ih =>
    right
    simp only [subst_record, size]
    obtain ⟨field, hf, hv⟩ := mem_vars_record.1 h
    have hle := part (ih field hf hv)
    have hsum := size_le_sizeFields
      (List.mem_map_of_mem (f := fun field => (field.1, field.2.subst θ)) hf)
    simp only at hsum
    omega

/-- A variable inside a type that is no variable is never replaced by the whole. -/
theorem subst_ne_of_mem_vars {θ : TyVar → Ty} {v : TyVar} {t : Ty} (h : v ∈ t.vars)
    (ht : t ≠ .var v) : θ v ≠ t.subst θ := by
  intro heq
  rcases eq_var_or_size_lt (θ := θ) h with rfl | hlt
  · exact ht rfl
  · rw [← heq] at hlt
    exact Nat.lt_irrefl _ hlt

theorem map_insert (f : Ty → Ty) (name : String) (t : Ty) (fields : Fields Ty) :
    (Fields.insert name t fields).map (fun field => (field.1, f field.2)) =
      Fields.insert name (f t) (fields.map fun field => (field.1, f field.2)) := by
  induction fields with
  | nil => rfl
  | cons field fields ih =>
    simp only [Fields.insert, List.map_cons]
    split
    · rfl
    · split
      · rfl
      · rw [List.map_cons, ih]

/-- Replacing variables in the fields of a record, before or after they are put in order. -/
theorem subst_ofList (θ : TyVar → Ty) (fields : List (String × Ty)) :
    (Ty.record (Fields.ofList fields)).subst θ =
      .record (Fields.ofList (fields.map fun field => (field.1, field.2.subst θ))) := by
  have step : ∀ (rest : List (String × Ty)) (fields : Fields Ty),
      (rest.foldl (fun fields entry => Fields.insert entry.1 entry.2 fields) fields).map
          (fun field => (field.1, field.2.subst θ)) =
        (rest.map fun field => (field.1, field.2.subst θ)).foldl
          (fun fields entry => Fields.insert entry.1 entry.2 fields)
          (fields.map fun field => (field.1, field.2.subst θ)) := by
    intro rest
    induction rest with
    | nil => exact fun _ => rfl
    | cons entry rest ih =>
      intro fields
      rw [List.foldl_cons, ih, map_insert, List.map_cons, List.foldl_cons]
  rw [subst_record]
  exact congrArg Ty.record (step fields [])

/-- All variables of a type are among the first `n`. -/
def Below (n : Nat) (t : Ty) : Prop := ∀ v ∈ t.vars, v < n

theorem Below.mono {n m : Nat} {t : Ty} (h : t.Below n) (hle : n ≤ m) : t.Below m :=
  fun v hv => Nat.lt_of_lt_of_le (h v hv) hle

theorem Below.subst_congr {n : Nat} {t : Ty} (h : t.Below n) {θ φ : TyVar → Ty}
    (hθ : ∀ v < n, θ v = φ v) : t.subst θ = t.subst φ :=
  Ty.subst_congr fun v hv => hθ v (h v hv)

@[simp] theorem below_prim {n : Nat} {p : Prim} : (Ty.prim p).Below n := by simp [Below]

@[simp] theorem below_external {n : Nat} {path : String} : (Ty.external path).Below n := by
  simp [Below]

@[simp] theorem below_adt {n : Nat} {name : String} : (Ty.adt name).Below n := by simp [Below]

@[simp] theorem below_var {n : Nat} {v : TyVar} : (Ty.var v).Below n ↔ v < n := by simp [Below]

@[simp] theorem below_fn {n : Nat} {params : List Ty} {result : Ty} :
    (Ty.fn params result).Below n ↔ (∀ t ∈ params, t.Below n) ∧ result.Below n := by
  simp only [Below, mem_vars_fn]
  grind

@[simp] theorem below_tuple {n : Nat} {elements : List Ty} :
    (Ty.tuple elements).Below n ↔ ∀ t ∈ elements, t.Below n := by
  simp only [Below, mem_vars_tuple]
  grind

@[simp] theorem below_record {n : Nat} {fields : Fields Ty} :
    (Ty.record fields).Below n ↔ ∀ field ∈ fields, field.2.Below n := by
  simp only [Below, mem_vars_record]
  exact ⟨fun h field hf v hv => h v ⟨field, hf, hv⟩, fun h v ⟨field, hf, hv⟩ => h field hf v hv⟩

/-- The bound of a type is the least number that it is below. -/
theorem varBound_le_iff {n : Nat} {t : Ty} : t.varBound ≤ n ↔ t.Below n := by
  have hlist : ∀ ts : List Ty, (∀ t ∈ ts, (t.varBound ≤ n ↔ t.Below n)) →
      (varBoundList ts ≤ n ↔ ∀ t ∈ ts, t.Below n) := by
    intro ts h
    induction ts with
    | nil => simp [varBoundList]
    | cons t ts ih =>
      have ht := h t (by simp)
      have hts := ih fun u hu => h u (by simp [hu])
      rw [varBoundList, Nat.max_le, List.forall_mem_cons]
      exact and_congr ht hts
  induction t using induct with
  | prim p | external path | adt name => simp [varBound]
  | var v =>
    rw [varBound, Nat.succ_le_iff]
    simp [Below]
  | fn params result ihp ihr =>
    simp only [varBound, Nat.max_le, hlist params ihp, ihr, below_fn]
  | tuple elements ih => simp only [varBound, hlist elements ih, below_tuple]
  | record fields ih =>
    rw [varBound, below_record]
    induction fields with
    | nil => simp [varBoundFields]
    | cons field fields ihf =>
      have ht := ih field List.mem_cons_self
      have hts := ihf fun u hu => ih u (List.mem_cons_of_mem _ hu)
      rw [varBoundFields, Nat.max_le, List.forall_mem_cons]
      exact and_congr ht hts

end Monotype.Ty
