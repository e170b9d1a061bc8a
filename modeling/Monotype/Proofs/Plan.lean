import Monotype.Plan

/-! Safety of plans: what holds before each action that is performed, and what holds at the end. -/
namespace Monotype.Plan
variable {Act : Type} {Answer : Act → Type} {α β σ : Type}

/-- Carried out from `s`, every action of the plan is `safe` in the state in which it is performed,
and the plan ends in `post`. -/
def Safe (perform : (a : Act) → σ → Answer a × σ) (safe : Act → σ → Prop) :
    Plan Answer α → σ → (α → σ → Prop) → Prop
  | done a, s, post => post a s
  | step act next, s, post =>
    safe act s ∧ (next (perform act s).1).Safe perform safe (perform act s).2 post

/-- How plans are put together makes no difference. -/
instance : LawfulMonad (Plan Answer) := by
  refine LawfulMonad.mk' _ ?_ (fun _ _ => rfl) ?_
  · intro α x
    induction x with
    | done a => rfl
    | step act next ih => exact congrArg (Plan.step act) (funext ih)
  · intro α β γ x f g
    induction x with
    | done a => rfl
    | step act next ih => exact congrArg (Plan.step act) (funext ih)

section
variable {perform : (a : Act) → σ → Answer a × σ} {safe : Act → σ → Prop}
  {x : Plan Answer α} {s s' : σ} {post post' : α → σ → Prop}

theorem Safe.mono (h : x.Safe perform safe s post) (himp : ∀ a s', post a s' → post' a s') :
    x.Safe perform safe s post' := by
  induction x generalizing s with
  | done a => exact himp a s h
  | step act next ih => exact ⟨h.1, ih _ h.2⟩

theorem Safe.bind {f : α → Plan Answer β} {goal : β → σ → Prop} (h : x.Safe perform safe s post)
    (hf : ∀ a s', post a s' → (f a).Safe perform safe s' goal) :
    (x >>= f).Safe perform safe s goal := by
  induction x generalizing s with
  | done a => exact hf a s h
  | step act next ih => exact ⟨h.1, ih _ h.2⟩

/-- A safe plan does end in what it promises. -/
theorem Safe.run (h : x.Safe perform safe s post) :
    post (x.run perform s).1 (x.run perform s).2 := by
  induction x generalizing s with
  | done a => exact h
  | step act next ih => exact ih _ h.2

/-- A safe plan is so with the end that it comes to. -/
theorem Safe.with_run (h : x.Safe perform safe s post) :
    x.Safe perform safe s fun a s' => post a s' ∧ x.run perform s = (a, s') := by
  induction x generalizing s with
  | done a => exact ⟨h, rfl⟩
  | step act next ih => exact ⟨h.1, ih _ h.2⟩

/-- What lies ahead of a point that a safe plan comes to is safe. -/
theorem Safe.reaches {y : Plan Answer α} (h : x.Safe perform safe s post)
    (hr : Reaches perform x s y s') : y.Safe perform safe s' post := by
  induction hr with
  | here => exact h
  | step rest ih => exact ih h.2

/-- A plan comes to its end. -/
theorem Reaches.finished (x : Plan Answer α) (s : σ) :
    Reaches perform x s (.done (x.run perform s).1) (x.run perform s).2 := by
  induction x generalizing s with
  | done a => exact .here
  | step act next ih => exact .step (ih _ _)

end

end Monotype.Plan
