import Monotype.Proofs.Ty.Subst
import Monotype.Ty.Text

/-! The text of a type can be read in one way only. What is written for a type ends where it can go
on no further, and its first character or first word settles the shape, so two types that the same
text begins with are the same and end in the same place. -/
namespace Monotype

/-! ## Words -/

/-- The characters that words are made of. -/
def inWord (c : Char) : Bool := c.isAlphanum || c == '_'

/-- Names as programs spell them: ASCII letters, digits and underscores, no digit first. -/
def isName (name : String) : Bool :=
  match name.toList with
  | [] => false
  | c :: cs => (c.isAlpha || c == '_') && cs.all inWord

theorem isName_iff {name : String} :
    isName name = true ↔
      ∃ c cs, name.toList = c :: cs ∧ (c.isAlpha = true ∨ c = '_') ∧ ∀ d ∈ cs, inWord d = true := by
  cases h : name.toList <;> simp [isName, h]

theorem inWord_of_isName {name : String} (h : isName name = true) :
    ∀ c ∈ name.toList, inWord c = true := by
  obtain ⟨c, cs, hname, hfirst, hrest⟩ := isName_iff.1 h
  rw [hname, List.forall_mem_cons]
  refine ⟨?_, hrest⟩
  rcases hfirst with hc | rfl
  · simp [inWord, Char.isAlphanum, hc]
  · decide

/-- What variables are called in messages: a `T` and then digits. -/
def isVarText (name : String) : Bool :=
  match name.toList with
  | 'T' :: d :: ds => d.isDigit && ds.all Char.isDigit
  | _ => false

/-- Names of sum types that are not taken for a built-in type or a variable. -/
def isAdtName (name : String) : Bool :=
  isName name && !isVarText name && !(["number", "string", "boolean", "jsx"].contains name)

/-- No word goes on here, and no module of an import follows. -/
def Stops (rest : List Char) : Prop := ∀ c ∈ rest.head?, inWord c = false ∧ c ≠ '('

/-- A list of parts ends here. -/
def Closes (rest : List Char) : Prop := ∃ c tail, rest = c :: tail ∧ c ∈ [')', ']', ' ']

theorem stops_nil : Stops [] := by simp [Stops]

theorem Closes.stops {rest : List Char} (h : Closes rest) : Stops rest := by
  obtain ⟨c, tail, rfl, hc⟩ := h
  simp only [List.mem_cons, List.not_mem_nil, or_false] at hc
  rintro d ⟨⟩
  rcases hc with rfl | rfl | rfl <;> decide

theorem stops_comma (rest : List Char) : Stops ([',', ' '] ++ rest) := by
  rintro c ⟨⟩
  decide

theorem Closes.ne_comma {rest tail : List Char} (h : Closes rest) : rest ≠ [',', ' '] ++ tail := by
  rintro rfl
  obtain ⟨c, tail', heq, hc⟩ := h
  obtain ⟨rfl, -⟩ := List.cons.inj heq
  simp at hc

/-- A text is cut in one way only where characters of one kind end. -/
theorem span_append_inj {p : Char → Bool} {w w' r r' : List Char} (hw : ∀ c ∈ w, p c = true)
    (hw' : ∀ c ∈ w', p c = true) (hr : ∀ c ∈ r.head?, p c = false)
    (hr' : ∀ c ∈ r'.head?, p c = false) (h : w ++ r = w' ++ r') : w = w' ∧ r = r' := by
  have htake : ∀ {w r : List Char}, (∀ c ∈ w, p c = true) → (∀ c ∈ r.head?, p c = false) →
      (w ++ r).takeWhile p = w := by
    intro w r hw hr
    rw [List.takeWhile_append_of_pos hw]
    cases r with
    | nil => simp
    | cons c r => simp [hr c rfl]
  obtain rfl : w = w' := by rw [← htake hw hr, h, htake hw' hr']
  exact ⟨rfl, List.append_cancel_left h⟩

/-! ## Lists of parts -/

section Parts
variable {α : Type} {f : α → List Char}

/-- After any part either the next one or the end of the list follows. -/
theorem parts_append_inj {as bs : List α} {r r' : List Char} (has : as ≠ []) (hbs : bs ≠ [])
    (hr : Closes r) (hr' : Closes r')
    (hinj : ∀ a ∈ as, ∀ b ∈ bs, ∀ r r', Stops r → Stops r' → f a ++ r = f b ++ r' →
      a = b ∧ r = r')
    (h : [',', ' '].intercalate (as.map f) ++ r = [',', ' '].intercalate (bs.map f) ++ r') :
    as = bs ∧ r = r' := by
  induction as generalizing bs with
  | nil => exact absurd rfl has
  | cons a as ih =>
    cases bs with
    | nil => exact absurd rfl hbs
    | cons b bs =>
      have hhead := hinj a List.mem_cons_self b List.mem_cons_self
      cases as with
      | nil =>
        cases bs with
        | nil =>
          simp only [List.map_cons, List.map_nil, List.intercalate_singleton] at h
          obtain ⟨rfl, rfl⟩ := hhead _ _ hr.stops hr'.stops h
          exact ⟨rfl, rfl⟩
        | cons b' bs =>
          simp only [List.map_cons, List.map_nil, List.intercalate_singleton,
            List.intercalate_cons_cons, List.append_assoc] at h
          obtain ⟨-, hrest⟩ := hhead _ _ hr.stops (stops_comma _) h
          exact absurd hrest hr.ne_comma
      | cons a' as =>
        cases bs with
        | nil =>
          simp only [List.map_cons, List.map_nil, List.intercalate_singleton,
            List.intercalate_cons_cons, List.append_assoc] at h
          obtain ⟨-, hrest⟩ := hhead _ _ (stops_comma _) hr'.stops h
          exact absurd hrest.symm hr'.ne_comma
        | cons b' bs =>
          simp only [List.map_cons, List.intercalate_cons_cons, List.append_assoc] at h
          obtain ⟨rfl, hrest⟩ := hhead _ _ (stops_comma _) (stops_comma _) h
          have htail := ih (by simp) (by simp)
            (fun x hx y hy => hinj x (List.mem_cons_of_mem _ hx) y (List.mem_cons_of_mem _ hy))
            (List.append_cancel_left hrest)
          exact ⟨by rw [htail.1], htail.2⟩

end Parts

namespace Ty

/-! ## Variables -/

theorem toList_varText (v : TyVar) : (varText v).toList = 'T' :: Nat.toDigits 10 v := by
  rw [varText, String.toList_append, toString, instToStringNat, Nat.toList_repr]
  rfl

theorem isVarText_varText (v : TyVar) : isVarText (varText v) = true := by
  have hdigits : ∀ c ∈ Nat.toDigits 10 v, c.isDigit = true :=
    fun c hc => Nat.isDigit_of_mem_toDigits (by decide) (by decide) hc
  cases hv : Nat.toDigits 10 v with
  | nil => exact absurd hv Nat.toDigits_ne_nil
  | cons d ds =>
    rw [hv, List.forall_mem_cons] at hdigits
    simpa [isVarText, toList_varText, hv] using hdigits

theorem isName_varText (v : TyVar) : isName (varText v) = true := by
  refine isName_iff.2 ⟨'T', _, toList_varText v, .inl rfl, fun c hc => ?_⟩
  have hdigit : c.isDigit = true := Nat.isDigit_of_mem_toDigits (by decide) (by decide) hc
  simp [inWord, Char.isAlphanum, hdigit]

/-! ## The text of a type -/

mutual
/-- The names in a type are such as can be read again: those of fields and of sum types as programs
spell them, and those of modules without a closing parenthesis. -/
def legible : Ty → Bool
  | .prim _ | .var _ => true
  | .external path => !path.toList.contains ')'
  | .fn params result => legibleList params && legible result
  | .tuple elements => legibleList elements
  | .record fields => legibleFields fields
  | .adt name => isAdtName name

def legibleList : List Ty → Bool
  | [] => true
  | t :: ts => legible t && legibleList ts

def legibleFields : Fields Ty → Bool
  | [] => true
  | (name, t) :: fields => isName name && legible t && legibleFields fields
end

theorem legibleList_iff {ts : List Ty} :
    legibleList ts = true ↔ ∀ t ∈ ts, t.legible = true := by
  induction ts with
  | nil => simp [legibleList]
  | cons t ts ih => simp [legibleList, ih]

theorem legibleFields_iff {fields : Fields Ty} :
    legibleFields fields = true ↔
      ∀ field ∈ fields, isName field.1 = true ∧ field.2.legible = true := by
  induction fields with
  | nil => simp [legibleFields]
  | cons field fields ih => simp [legibleFields, ih]

/-- The characters of the text of a type. -/
def chars (t : Ty) : List Char := t.text.toList

/-- The characters that are written for a field. -/
def fieldChars (field : String × Ty) : List Char := field.1.toList ++ ':' :: ' ' :: field.2.chars

theorem texts_eq_map (ts : List Ty) : texts ts = ts.map text := by
  induction ts with
  | nil => rfl
  | cons t ts ih => simp [texts, ih]

theorem fieldTexts_eq_map (fields : Fields Ty) :
    fieldTexts fields = fields.map fun field => field.1 ++ ": " ++ field.2.text := by
  induction fields with
  | nil => rfl
  | cons field fields ih => simp [fieldTexts, ih]

theorem chars_external (path : String) :
    (external path).chars = "external".toList ++ '(' :: (path.toList ++ [')']) := by
  simp [chars, text]

theorem chars_fn (params : List Ty) (result : Ty) :
    (fn params result).chars =
      '(' :: ([',', ' '].intercalate (params.map chars) ++
        ')' :: ' ' :: '-' :: '>' :: ' ' :: result.chars) := by
  simp [chars, text, texts_eq_map, String.toList_intercalate, Function.comp_def]
  rfl

theorem chars_tuple (elements : List Ty) :
    (tuple elements).chars = '[' :: ([',', ' '].intercalate (elements.map chars) ++ [']']) := by
  simp [chars, text, texts_eq_map, String.toList_intercalate, Function.comp_def]
  rfl

theorem chars_record_nil : (record []).chars = ['\x7b', '\x7d'] := rfl

theorem chars_record_cons (field : String × Ty) (fields : Fields Ty) :
    (record (field :: fields)).chars =
      '\x7b' :: ' ' :: ([',', ' '].intercalate ((field :: fields).map fieldChars) ++
        [' ', '\x7d']) := by
  have hmap : (fieldTexts (field :: fields)).map String.toList =
      (field :: fields).map fieldChars := by
    simp [fieldTexts_eq_map, fieldChars, chars, Function.comp_def]
  rw [chars, text, String.toList_append, String.toList_append, String.toList_intercalate, hmap]
  rfl

/-! ## Types without parts -/

/-- The word that a type without parts is written as, or begins with. -/
def word : Ty → String
  | .prim p => p.text
  | .external _ => "external"
  | .adt name => name
  | .var v => varText v
  | _ => ""

/-- What stands after that word. -/
def afterWord : Ty → List Char
  | .external path => '(' :: (path.toList ++ [')'])
  | _ => []

/-- Types that are written without brackets around parts. -/
def Atomic : Ty → Prop
  | .fn _ _ | .tuple _ | .record _ => False
  | _ => True

/-- What a word stands for. -/
def ofWord (w : String) : Ty :=
  if w = "number" then .number
  else if w = "string" then .string
  else if w = "boolean" then .boolean
  else if w = "jsx" then .jsx
  else if isVarText w then .var (Nat.ofDigitChars 10 w.toList.tail 0)
  else .adt w

theorem isVarText_eq_false_of_mem {w : String} (h : w ∈ ["number", "string", "boolean", "jsx"]) :
    isVarText w = false := by
  simp only [List.mem_cons, List.not_mem_nil, or_false] at h
  rcases h with rfl | rfl | rfl | rfl <;> decide

theorem ofWord_prim (p : Prim) : ofWord p.text = .prim p := by
  cases p <;> rfl

theorem ofWord_varText (v : TyVar) : ofWord (varText v) = .var v := by
  have hv := isVarText_varText v
  have hne : ∀ w ∈ ["number", "string", "boolean", "jsx"], varText v ≠ w := by
    intro w hw heq
    rw [heq, isVarText_eq_false_of_mem hw] at hv
    exact Bool.noConfusion hv
  simp [ofWord, hne, hv, toList_varText, Nat.ofDigitChars_ten_toDigits]

theorem ofWord_adt {name : String} (h : isAdtName name = true) : ofWord name = .adt name := by
  simp only [isAdtName, Bool.and_eq_true, Bool.not_eq_true'] at h
  obtain ⟨⟨-, hvar⟩, hprim⟩ := h
  simp at hprim
  simp [ofWord, hvar, hprim]

theorem Atomic.chars_eq {t : Ty} (ht : t.Atomic) : t.chars = t.word.toList ++ t.afterWord := by
  cases t with
  | external path => exact chars_external path
  | fn _ _ | tuple _ | record _ => exact ht.elim
  | _ => simp [chars, text, word, afterWord]

theorem Atomic.isName_word {t : Ty} (h : t.Atomic) (ht : t.legible = true) :
    isName t.word = true := by
  cases t with
  | prim p => cases p <;> decide
  | external path =>
    change isName "external" = true
    decide
  | adt name =>
    simp only [legible, isAdtName, Bool.and_eq_true] at ht
    exact ht.1.1
  | var v => exact isName_varText v
  | _ => exact h.elim

theorem Atomic.eq_ofWord {t : Ty} (h : t.Atomic) (ht : t.legible = true)
    (hext : t.isExternal = false) : ofWord t.word = t := by
  cases t with
  | prim p => exact ofWord_prim p
  | external path => exact Bool.noConfusion hext
  | adt name => exact ofWord_adt ht
  | var v => exact ofWord_varText v
  | _ => exact h.elim

theorem afterWord_eq_nil {t : Ty} (hext : t.isExternal = false) : t.afterWord = [] := by
  cases t with
  | external path => exact Bool.noConfusion hext
  | _ => rfl

theorem exists_of_isExternal {t : Ty} (hext : t.isExternal = true) : ∃ path, t = .external path := by
  cases t with
  | external path => exact ⟨path, rfl⟩
  | _ => exact Bool.noConfusion hext

theorem not_inWord_afterWord {t : Ty} {r : List Char} (hr : Stops r) :
    ∀ c ∈ (t.afterWord ++ r).head?, inWord c = false := by
  intro c hc
  cases t with
  | external path =>
    obtain rfl : '(' = c := by simpa [afterWord] using hc
    decide
  | _ => exact (hr c (by simpa [afterWord] using hc)).1

/-- A module's name ends at the first closing parenthesis. -/
theorem external_append_inj {path path' : String} {r r' : List Char}
    (hp : (external path).legible = true) (hp' : (external path').legible = true)
    (h : (external path).afterWord ++ r = (external path').afterWord ++ r') :
    path = path' ∧ r = r' := by
  have hmodule : ∀ {path : String}, (external path).legible = true →
      ∀ c ∈ path.toList, (c != ')') = true := by
    intro path hp c hc
    rw [bne_iff_ne]
    rintro rfl
    simp [legible, hc] at hp
  simp only [afterWord, List.cons_append, List.append_assoc, List.cons.injEq, true_and] at h
  obtain ⟨hpath, hrest⟩ :=
    span_append_inj (hmodule hp) (hmodule hp') (by simp) (by simp) h
  exact ⟨String.toList_inj.1 hpath, by simpa using hrest⟩

/-- The word settles the type, and for an import the module that follows it does. -/
theorem Atomic.append_inj {t u : Ty} {r s : List Char} (hat : t.Atomic) (hau : u.Atomic)
    (ht : t.legible = true) (hu : u.legible = true) (hr : Stops r) (hs : Stops s)
    (h : t.chars ++ r = u.chars ++ s) : t = u ∧ r = s := by
  rw [hat.chars_eq, hau.chars_eq, List.append_assoc, List.append_assoc] at h
  obtain ⟨hword, hrest⟩ := span_append_inj (inWord_of_isName (hat.isName_word ht))
    (inWord_of_isName (hau.isName_word hu)) (not_inWord_afterWord hr) (not_inWord_afterWord hs) h
  have hword := String.toList_inj.1 hword
  cases hext : t.isExternal with
  | false =>
    rw [afterWord_eq_nil hext, List.nil_append] at hrest
    cases hext' : u.isExternal with
    | false =>
      rw [afterWord_eq_nil hext', List.nil_append] at hrest
      refine ⟨?_, hrest⟩
      rw [← hat.eq_ofWord ht hext, hword, hau.eq_ofWord hu hext']
    | true =>
      obtain ⟨path, rfl⟩ := exists_of_isExternal hext'
      exact absurd rfl (hr '(' (by simp [hrest, afterWord])).2
  | true =>
    obtain ⟨path, rfl⟩ := exists_of_isExternal hext
    cases hext' : u.isExternal with
    | false =>
      rw [afterWord_eq_nil hext', List.nil_append] at hrest
      exact absurd rfl (hs '(' (by simp [← hrest, afterWord])).2
    | true =>
      obtain ⟨path', rfl⟩ := exists_of_isExternal hext'
      obtain ⟨rfl, rfl⟩ := external_append_inj ht hu hrest
      exact ⟨rfl, rfl⟩

/-! ## Types with parts -/

/-- The character that a type begins with: a bracket that goes with its shape, or the first one of a
word. -/
def Opens (c : Char) : Ty → Prop
  | .fn _ _ => c = '('
  | .tuple _ => c = '['
  | .record _ => c = '\x7b'
  | _ => inWord c = true

theorem Atomic.opens_iff {t : Ty} (h : t.Atomic) {c : Char} : t.Opens c ↔ inWord c = true := by
  cases t with
  | fn _ _ | tuple _ | record _ => exact h.elim
  | _ => rfl

theorem exists_opens {t : Ty} (ht : t.legible = true) :
    ∃ c tail, t.chars = c :: tail ∧ t.Opens c := by
  by_cases hatomic : t.Atomic
  · have hname := hatomic.isName_word ht
    obtain ⟨c, tail, hword, -⟩ := isName_iff.1 hname
    refine ⟨c, tail ++ t.afterWord, by rw [hatomic.chars_eq, hword, List.cons_append], ?_⟩
    exact hatomic.opens_iff.2 (inWord_of_isName hname c (by simp [hword]))
  · cases t with
    | fn params result => exact ⟨_, _, chars_fn params result, rfl⟩
    | tuple elements => exact ⟨_, _, chars_tuple elements, rfl⟩
    | record fields =>
      cases fields with
      | nil => exact ⟨_, _, chars_record_nil, rfl⟩
      | cons field fields => exact ⟨_, _, chars_record_cons field fields, rfl⟩
    | _ => exact absurd trivial hatomic

theorem opens_of_append {t : Ty} (ht : t.legible = true) {c : Char} {r tail : List Char}
    (h : t.chars ++ r = c :: tail) : t.Opens c := by
  obtain ⟨d, tail', hchars, hopens⟩ := exists_opens ht
  rw [hchars, List.cons_append] at h
  obtain ⟨rfl, -⟩ := List.cons.inj h
  exact hopens

theorem Opens.exists_fn {u : Ty} (h : u.Opens '(') : ∃ params result, u = .fn params result := by
  cases u with
  | fn params result => exact ⟨params, result, rfl⟩
  | _ => exact absurd h (by simp only [Opens]; decide)

theorem Opens.exists_tuple {u : Ty} (h : u.Opens '[') : ∃ elements, u = .tuple elements := by
  cases u with
  | tuple elements => exact ⟨elements, rfl⟩
  | _ => exact absurd h (by simp only [Opens]; decide)

theorem Opens.exists_record {u : Ty} (h : u.Opens '\x7b') : ∃ fields, u = .record fields := by
  cases u with
  | record fields => exact ⟨fields, rfl⟩
  | _ => exact absurd h (by simp only [Opens]; decide)

theorem Opens.atomic {u : Ty} {c : Char} (h : u.Opens c) (hc : inWord c = true) : u.Atomic := by
  cases u with
  | fn _ _ | tuple _ | record _ =>
    obtain rfl := h
    exact absurd hc (by decide)
  | _ => trivial

/-- No type begins where a list of parts ends. -/
theorem not_opens_of_closes {u : Ty} {c : Char} (hc : c ∈ [')', ']', ' ']) : ¬ u.Opens c := by
  simp only [List.mem_cons, List.not_mem_nil, or_false] at hc
  rcases hc with rfl | rfl | rfl <;> cases u <;> simp only [Opens] <;> decide

/-- Where the text of `t` ends can be told from it, whatever follows. -/
def SelfDelimiting (t : Ty) : Prop :=
  t.legible = true → ∀ (u : Ty) (r r' : List Char), u.legible = true → Stops r → Stops r' →
    t.chars ++ r = u.chars ++ r' → t = u ∧ r = r'

theorem Atomic.selfDelimiting {t : Ty} (hat : t.Atomic) : t.SelfDelimiting := by
  intro ht u r r' hu hr hr' h
  obtain ⟨c, tail, hc, hopens⟩ := exists_opens ht
  have hau : u.Atomic := by
    rw [hc, List.cons_append] at h
    exact (opens_of_append hu h.symm).atomic (hat.opens_iff.1 hopens)
  exact hat.append_inj hau ht hu hr hr' h

theorem elements_append_inj {ts us : List Ty} {r r' : List Char}
    (h : ∀ t ∈ ts, t.SelfDelimiting) (hts : ∀ t ∈ ts, t.legible = true)
    (hus : ∀ u ∈ us, u.legible = true) (hr : Closes r) (hr' : Closes r')
    (heq : [',', ' '].intercalate (ts.map chars) ++ r =
      [',', ' '].intercalate (us.map chars) ++ r') : ts = us ∧ r = r' := by
  -- beside an empty list a type would begin with what closes the list
  have hnil : ∀ {us : List Ty} {r r' : List Char}, (∀ u ∈ us, u.legible = true) → Closes r →
      r = [',', ' '].intercalate (us.map chars) ++ r' → us = [] := by
    rintro (_ | ⟨u, us⟩) r r' hus ⟨c, tail, rfl, hc⟩ heq
    · rfl
    · obtain ⟨rest, hrest⟩ : ∃ rest, [',', ' '].intercalate ((u :: us).map chars) ++ r' =
          u.chars ++ rest := by
        cases us <;> simp [List.intercalate_cons_cons]
      rw [hrest] at heq
      exact absurd (opens_of_append (hus u List.mem_cons_self) heq.symm) (not_opens_of_closes hc)
  by_cases hempty : ts = [] ∨ us = []
  · obtain ⟨rfl, rfl⟩ : ts = [] ∧ us = [] := by
      rcases hempty with rfl | rfl
      · exact ⟨rfl, hnil hus hr (by simpa using heq)⟩
      · exact ⟨hnil hts hr' (by simpa using heq.symm), rfl⟩
    exact ⟨rfl, by simpa using heq⟩
  · rw [not_or] at hempty
    exact parts_append_inj hempty.1 hempty.2 hr hr'
      (fun t ht u hu r r' => h t ht (hts t ht) u r r' (hus u hu)) heq

theorem field_append_inj {field other : String × Ty} {r r' : List Char}
    (h : field.2.SelfDelimiting) (hf : isName field.1 = true ∧ field.2.legible = true)
    (ho : isName other.1 = true ∧ other.2.legible = true) (hr : Stops r) (hr' : Stops r')
    (heq : fieldChars field ++ r = fieldChars other ++ r') : field = other ∧ r = r' := by
  have hcolon : ∀ rest, ∀ c ∈ (':' :: rest).head?, inWord c = false := by
    rintro rest c ⟨⟩
    decide
  simp only [fieldChars, List.append_assoc, List.cons_append] at heq
  obtain ⟨hname, hrest⟩ := span_append_inj (inWord_of_isName hf.1) (inWord_of_isName ho.1)
    (hcolon _) (hcolon _) heq
  simp only [List.cons.injEq, true_and] at hrest
  obtain ⟨hty, hrest⟩ := h hf.2 _ _ _ ho.2 hr hr' hrest
  exact ⟨Prod.ext (String.toList_inj.1 hname) hty, hrest⟩

/-- The empty record is told from the others by the character after the brace. -/
theorem record_append_inj {fields others : Fields Ty} {r r' : List Char}
    (h : ∀ field ∈ fields, field.2.SelfDelimiting) (hf : (record fields).legible = true)
    (ho : (record others).legible = true)
    (heq : (record fields).chars ++ r = (record others).chars ++ r') :
    fields = others ∧ r = r' := by
  simp only [legible, legibleFields_iff] at hf ho
  cases fields with
  | nil =>
    cases others with
    | nil => exact ⟨rfl, by simpa [chars_record_nil] using heq⟩
    | cons other others => simp [chars_record_nil, chars_record_cons] at heq
  | cons field fields =>
    cases others with
    | nil => simp [chars_record_nil, chars_record_cons] at heq
    | cons other others =>
      simp only [chars_record_cons, List.cons_append, List.append_assoc, List.cons.injEq,
        true_and] at heq
      obtain ⟨hfields, hrest⟩ := parts_append_inj (by simp) (by simp) ⟨_, _, rfl, by simp⟩
        ⟨_, _, rfl, by simp⟩ (fun a ha b hb r r' hr hr' =>
          field_append_inj (h a ha) (hf a ha) (ho b hb) hr hr') heq
      exact ⟨hfields, by simpa using hrest⟩

theorem selfDelimiting (t : Ty) : t.SelfDelimiting := by
  induction t using induct with
  | prim p | external path | adt name | var v => exact Atomic.selfDelimiting trivial
  | fn params result ihp ihr =>
    intro ht u r r' hu hr hr' h
    obtain ⟨params', result', rfl⟩ : ∃ params' result', u = .fn params' result' := by
      rw [chars_fn, List.cons_append] at h
      exact (opens_of_append hu h.symm).exists_fn
    simp only [legible, Bool.and_eq_true, legibleList_iff] at ht hu
    simp only [chars_fn, List.cons_append, List.append_assoc, List.cons.injEq, true_and] at h
    obtain ⟨rfl, hrest⟩ :=
      elements_append_inj ihp ht.1 hu.1 ⟨_, _, rfl, by simp⟩ ⟨_, _, rfl, by simp⟩ h
    simp only [List.cons.injEq, true_and] at hrest
    obtain ⟨rfl, rfl⟩ := ihr ht.2 _ _ _ hu.2 hr hr' hrest
    exact ⟨rfl, rfl⟩
  | tuple elements ih =>
    intro ht u r r' hu hr hr' h
    obtain ⟨elements', rfl⟩ : ∃ elements', u = .tuple elements' := by
      rw [chars_tuple, List.cons_append] at h
      exact (opens_of_append hu h.symm).exists_tuple
    simp only [legible, legibleList_iff] at ht hu
    simp only [chars_tuple, List.cons_append, List.append_assoc, List.cons.injEq, true_and] at h
    obtain ⟨rfl, hrest⟩ :=
      elements_append_inj ih ht hu ⟨_, _, rfl, by simp⟩ ⟨_, _, rfl, by simp⟩ h
    exact ⟨rfl, by simpa using hrest⟩
  | record fields ih =>
    intro ht u r r' hu _ _ h
    obtain ⟨others, rfl⟩ : ∃ others, u = .record others := by
      obtain ⟨tail, htail⟩ : ∃ tail, (record fields).chars = '\x7b' :: tail := by
        cases fields with
        | nil => exact ⟨_, chars_record_nil⟩
        | cons field fields => exact ⟨_, chars_record_cons field fields⟩
      rw [htail, List.cons_append] at h
      exact (opens_of_append hu h.symm).exists_record
    obtain ⟨rfl, rfl⟩ := record_append_inj ih ht hu h
    exact ⟨rfl, rfl⟩

/-- No two types are written alike, if names are spelled as in programs and those of sum types are
none that are taken for a built-in type or a variable. -/
theorem text_injective {t u : Ty} (ht : t.legible = true) (hu : u.legible = true)
    (h : t.text = u.text) : t = u := by
  have hchars : t.chars ++ [] = u.chars ++ [] := by simp [chars, h]
  exact (selfDelimiting t ht u [] [] hu stops_nil stops_nil hchars).1

/-- A sum type may be called `T`, and the name of a module may look like the rest of a type. -/
theorem text_injective_nested :
    (fn [fn [adt "T"] (tuple [])] (record (Fields.ofList
      [("b", fn [] (record [])), ("a", external "x], T0 -> \x7b")]))).legible = true ∧
    (fn [fn [adt "T"] (tuple [])]
      (record [("a", external "x], T0 -> \x7b"), ("b", fn [] (record []))])).text =
        "((T) -> []) -> \x7b a: external(x], T0 -> \x7b), b: () -> \x7b\x7d \x7d" ∧
    fn [fn [adt "T"] (tuple [])] (record (Fields.ofList
      [("b", fn [] (record [])), ("a", external "x], T0 -> \x7b")])) =
    fn [fn [adt "T"] (tuple [])]
      (record [("a", external "x], T0 -> \x7b"), ("b", fn [] (record []))]) :=
  ⟨by decide +kernel, by decide +kernel,
    text_injective (by decide +kernel) (by decide +kernel) (by decide +kernel)⟩

/-- Without the condition on names of sum types there would be two readings. -/
example : (adt "T0").text = (var 0).text ∧ (adt "number").text = Ty.number.text := by decide +kernel

end Ty

end Monotype
