/-! Types of the checked language. A record type lists its fields by ascending name, so that two
record types with the same fields are the same type. -/
namespace Monotype

/-- The built-in ground types. -/
inductive Prim where
  | number
  | string
  | boolean
  | jsx
  deriving DecidableEq, Repr, Inhabited

/-- The number of a type variable: variables are issued as 0, 1, 2, … -/
abbrev TyVar := Nat

inductive Ty where
  | prim (p : Prim)
  /-- What a name imported from `path` stands for: nothing is known about it. -/
  | external (path : String)
  | fn (params : List Ty) (result : Ty)
  | tuple (elements : List Ty)
  | record (fields : List (String × Ty))
  /-- A sum type, known by its name alone. -/
  | adt (name : String)
  | var (v : TyVar)
  deriving Repr, Inhabited

/-- Named entries, by ascending name when built with `insert`. -/
abbrev Fields (α : Type) := List (String × α)

namespace Fields
variable {α : Type}

/-- Sets the entry of one name, in the place that keeps the names ascending. -/
def insert (name : String) (a : α) : Fields α → Fields α
  | [] => [(name, a)]
  | (key, b) :: rest =>
    if name < key then (name, a) :: (key, b) :: rest
    else if name = key then (name, a) :: rest
    else (key, b) :: insert name a rest

/-- The entries of a list by ascending name; of two entries under one name the later counts. -/
def ofList (entries : List (String × α)) : Fields α :=
  entries.foldl (fun fields entry => insert entry.1 entry.2 fields) []

/-- Names strictly ascend, so each occurs once. -/
def Ascending (fields : Fields α) : Prop :=
  fields.Pairwise fun a b => a.1 < b.1

theorem lookup_insert (name key : String) (a : α) (fields : Fields α) :
    (insert name a fields).lookup key = if key = name then some a else fields.lookup key := by
  induction fields with
  | nil => grind [insert]
  | cons field fields ih =>
    simp only [insert]
    split
    · grind
    · split <;> grind

theorem mem_insert {name : String} {a : α} {fields : Fields α} {field : String × α}
    (h : field ∈ insert name a fields) : field = (name, a) ∨ field ∈ fields := by
  induction fields with
  | nil => simpa [insert] using h
  | cons other fields ih =>
    simp only [insert] at h
    grind

theorem mem_ofList {entries : List (String × α)} {field : String × α} (h : field ∈ ofList entries) :
    field ∈ entries := by
  have step : ∀ (rest : List (String × α)) (fields : Fields α),
      field ∈ rest.foldl (fun fields entry => insert entry.1 entry.2 fields) fields →
        field ∈ fields ∨ field ∈ rest := by
    intro rest
    induction rest with
    | nil => exact fun _ h => .inl h
    | cons entry rest ih =>
      intro fields h
      rcases ih _ h with h | h
      · rcases mem_insert h with rfl | h
        · exact .inr List.mem_cons_self
        · exact .inl h
      · exact .inr (List.mem_cons_of_mem _ h)
  exact (step entries [] h).resolve_left List.not_mem_nil

theorem Ascending.insert {fields : Fields α} (h : Ascending fields) (name : String) (a : α) :
    Ascending (Fields.insert name a fields) := by
  induction fields with
  | nil => simp [Fields.insert, Ascending]
  | cons other fields ih =>
    obtain ⟨hall, htail⟩ := List.pairwise_cons.1 h
    simp only [Fields.insert]
    split
    · rename_i hlt
      refine List.pairwise_cons.2 ⟨?_, h⟩
      intro field hf
      rcases List.mem_cons.1 hf with rfl | hf
      · exact hlt
      · exact String.lt_trans hlt (hall field hf)
    · split
      · rename_i heq
        exact List.pairwise_cons.2 ⟨fun field hf => heq ▸ hall field hf, htail⟩
      · rename_i hlt hne
        refine List.pairwise_cons.2 ⟨?_, ih htail⟩
        intro field hf
        rcases mem_insert hf with rfl | hf
        · exact Std.lt_of_le_of_ne (String.not_lt.1 hlt) (Ne.symm hne)
        · exact hall field hf

theorem ascending_ofList (entries : List (String × α)) : Ascending (ofList entries) := by
  have h : ∀ fields : Fields α, Ascending fields →
      Ascending (entries.foldl (fun fields entry => insert entry.1 entry.2 fields) fields) := by
    induction entries with
    | nil => exact fun _ h => h
    | cons entry entries ih => exact fun fields h => ih _ (h.insert entry.1 entry.2)
  exact h [] List.Pairwise.nil

end Fields

namespace Ty

abbrev number : Ty := .prim .number
abbrev string : Ty := .prim .string
abbrev boolean : Ty := .prim .boolean
abbrev jsx : Ty := .prim .jsx

/-- The variable that a type is, if it is one. -/
def asVar? : Ty → Option TyVar
  | .var v => some v
  | _ => none

def isExternal : Ty → Bool
  | .external _ => true
  | _ => false

mutual
/-- Structural equality. -/
def beq : Ty → Ty → Bool
  | .prim p, .prim q => p == q
  | .external p, .external q => p == q
  | .fn ps r, .fn qs s => beqList ps qs && beq r s
  | .tuple ts, .tuple us => beqList ts us
  | .record fs, .record gs => beqFields fs gs
  | .adt m, .adt n => m == n
  | .var v, .var w => v == w
  | _, _ => false

def beqList : List Ty → List Ty → Bool
  | [], [] => true
  | t :: ts, u :: us => beq t u && beqList ts us
  | _, _ => false

def beqFields : Fields Ty → Fields Ty → Bool
  | [], [] => true
  | (k, t) :: fs, (l, u) :: gs => k == l && beq t u && beqFields fs gs
  | _, _ => false
end

mutual
theorem beq_iff_eq : ∀ t u : Ty, beq t u = true ↔ t = u
  | .prim p, u => by cases u <;> simp [beq]
  | .external p, u => by cases u <;> simp [beq]
  | .fn ps r, u => by
    cases u <;> simp [beq, beqList_iff_eq ps, beq_iff_eq r]
  | .tuple ts, u => by cases u <;> simp [beq, beqList_iff_eq ts]
  | .record fs, u => by cases u <;> simp [beq, beqFields_iff_eq fs]
  | .adt m, u => by cases u <;> simp [beq]
  | .var v, u => by cases u <;> simp [beq]

theorem beqList_iff_eq : ∀ ts us : List Ty, beqList ts us = true ↔ ts = us
  | [], us => by cases us <;> simp [beqList]
  | t :: ts, us => by
    cases us <;> simp [beqList, beq_iff_eq t, beqList_iff_eq ts]

theorem beqFields_iff_eq : ∀ fs gs : Fields Ty, beqFields fs gs = true ↔ fs = gs
  | [], gs => by cases gs <;> simp [beqFields]
  | (k, t) :: fs, gs => by
    cases gs <;> simp [beqFields, beq_iff_eq t, beqFields_iff_eq fs, Prod.ext_iff]
end

instance : DecidableEq Ty := fun t u => decidable_of_iff (beq t u = true) (beq_iff_eq t u)

end Ty

end Monotype
