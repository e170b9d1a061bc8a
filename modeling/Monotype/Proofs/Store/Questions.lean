import Monotype.Proofs.Store.Closure

/-! Questions to a store, one after the other. Each of them may shorten ways through the store while
it is answered. A reader who only looks into the slots of the store as it was at the beginning comes
to the same answers, in whatever order the questions are asked. -/
namespace Monotype.Store

/-- What is asked of a store without binding a variable. -/
inductive Question where
  | resolve (t : Ty)
  | apply (t : Ty)
  | occurs (v : TyVar) (t : Ty)

inductive Reply where
  | type (t : Ty)
  | verdict (yes : Bool)
  deriving DecidableEq, Repr

/-- Asks the store, which may shorten ways on the occasion. -/
def Question.ask : Question → StateM Store Reply
  | .resolve t => return .type (← Store.resolve t)
  | .apply t => return .type (← Store.apply t)
  | .occurs v t => return .verdict (← Store.occurs v t)

/-! ## Looking only -/

/-- The outermost form of a type, looking into at most `n` slots one after the other. -/
def follow (s : Store) : Nat → Ty → Ty
  | n + 1, .var v =>
    match s.lookup v with
    | some t => s.follow n t
    | none => .var v
  | _, t => t

/-- The answer of a reader who writes nothing into the store. -/
def Question.answerIn (s : Store) : Question → Reply
  | .resolve t => .type (s.follow s.size t)
  | .apply t => .type (s.full t)
  | .occurs v t => .verdict ((s.full t).vars.contains v)

theorem follow_of_not_var {s : Store} {t : Ty} (h : ∀ v, t ≠ .var v) (n : Nat) :
    s.follow n t = t := by
  cases t with
  | var v => exact absurd rfl (h v)
  | _ => cases n <;> rfl

/-- Looking leads to the end of the way that is walked for an answer. -/
theorem follow_var (s : Store) (n : Nat) (v : TyVar) :
    s.follow n (.var v) = (s.trail n v).last := by
  induction n generalizing v with
  | zero => rfl
  | succ n ih =>
    cases hv : s.lookup v with
    | none => simp only [follow, trail, hv]
    | some t =>
      cases t with
      | var w =>
        simp only [follow, trail, hv]
        exact ih w
      | _ => simp only [follow, trail, hv]

theorem follow_eq_resolve (s : Store) (t : Ty) : s.follow s.size t = (resolve t s).1 := by
  by_cases ht : ∃ v, t = .var v
  · obtain ⟨v, rfl⟩ := ht
    rw [follow_var, resolve_var]
  · have hnot : ∀ v, t ≠ .var v := fun v hv => ht ⟨v, hv⟩
    rw [follow_of_not_var hnot, resolve_of_not_var hnot]

/-! ## All questions -/

/-- A question is answered as by looking, and only shortens ways. -/
theorem Acyclic.answers_ask {s : Store} (hs : s.Acyclic) (q : Question) :
    Answers s (q.answerIn s) q.ask := by
  cases q with
  | resolve t =>
    rw [Question.answerIn, follow_eq_resolve]
    exact (hs.answers_resolve t).bind fun s' _ => .pure s' _
  | apply t => exact (hs.answers_apply t).bind fun s' _ => .pure s' _
  | occurs v t =>
    rw [Question.answerIn, List.contains_eq_mem]
    exact (hs.answers_occurs v t).bind fun s' _ => .pure s' _

/-- By looking only, one cannot tell whether ways have been shortened. -/
theorem Compresses.answerIn_eq {s s' : Store} (h : Compresses s s') (hs : s.Acyclic)
    (q : Question) : q.answerIn s' = q.answerIn s := by
  cases q with
  | resolve t =>
    simp only [Question.answerIn, follow_eq_resolve]
    rw [h.ends]
  | apply t => simp only [Question.answerIn, h.full_eq hs]
  | occurs v t => simp only [Question.answerIn, h.full_eq hs]

/-- Questions one after the other are all answered as in the store at the beginning. -/
theorem Acyclic.answers_askAll {s : Store} (hs : s.Acyclic) (qs : List Question) :
    Answers s (qs.map (·.answerIn s)) (qs.mapM Question.ask) := by
  induction qs generalizing s with
  | nil => exact .pure s []
  | cons q qs ih =>
    rw [List.mapM_cons, List.map_cons]
    refine (hs.answers_ask q).bind fun s₁ hc₁ => ?_
    have hrest := ih (hc₁.acyclic hs)
    simp only [hc₁.answerIn_eq hs] at hrest
    exact hrest.bind fun s₂ _ => .pure s₂ _

/-- Nothing that matters has changed from `s` to `s'`. -/
structure Undisturbed (s s' : Store) : Prop where
  size_eq : s'.size = s.size
  bound_iff : ∀ v, s'.lookup v ≠ none ↔ s.lookup v ≠ none
  acyclic : s'.Acyclic
  apply_eq : ∀ t, (apply t s').1 = (apply t s).1

theorem Compresses.undisturbed {s s' : Store} (h : Compresses s s') (hs : s.Acyclic) :
    s.Undisturbed s' where
  size_eq := h.size_eq
  bound_iff v := not_congr (h.unbound_iff v)
  acyclic := h.acyclic hs
  apply_eq t := by
    rw [((h.acyclic hs).answers_apply t).1, (hs.answers_apply t).1, h.full_eq hs]

end Monotype.Store
