/-! Work that is done in single actions on a state. A plan says which action comes first and, for
each answer to it, how the work goes on; carrying the plan out passes through one state after the
other, and all of them can be spoken about. -/
namespace Monotype

/-- A plan over actions in `Act`, each of which is answered by its `Answer`. -/
inductive Plan {Act : Type} (Answer : Act → Type) (α : Type) where
  | done (a : α)
  | step (act : Act) (next : Answer act → Plan Answer α)

namespace Plan
variable {Act : Type} {Answer : Act → Type} {α β σ : Type}

/-- One plan after the other. -/
def bind : Plan Answer α → (α → Plan Answer β) → Plan Answer β
  | done a, f => f a
  | step act next, f => step act fun r => (next r).bind f

instance : Monad (Plan Answer) where
  pure := done
  bind := bind

/-- The plan of one action. -/
def act (a : Act) : Plan Answer (Answer a) := step a done

/-- Carries a plan out from a state. -/
def run (perform : (a : Act) → σ → Answer a × σ) : Plan Answer α → σ → α × σ
  | done a, s => (a, s)
  | step act next, s =>
    let (r, s) := perform act s
    (next r).run perform s

/-- The actions of a plan when it is carried out from a state, in order. -/
def log (perform : (a : Act) → σ → Answer a × σ) : Plan Answer α → σ → List Act
  | done _, _ => []
  | step act next, s =>
    let (r, s) := perform act s
    act :: (next r).log perform s

/-- Carried out from `s`, the plan `x` comes to `s'` with the plan `y` still ahead. -/
inductive Reaches (perform : (a : Act) → σ → Answer a × σ) :
    Plan Answer α → σ → Plan Answer α → σ → Prop where
  | here {x : Plan Answer α} {s : σ} : Reaches perform x s x s
  | step {a : Act} {next : Answer a → Plan Answer α} {s s' : σ} {y : Plan Answer α}
      (rest : Reaches perform (next (perform a s).1) (perform a s).2 y s') :
      Reaches perform (.step a next) s y s'

section
variable (perform : (a : Act) → σ → Answer a × σ)

@[simp] theorem run_pure (a : α) (s : σ) :
    (pure a : Plan Answer α).run perform s = (a, s) := rfl

@[simp] theorem log_pure (a : α) (s : σ) :
    (pure a : Plan Answer α).log perform s = [] := rfl

@[simp] theorem run_act (a : Act) (s : σ) :
    (act a : Plan Answer (Answer a)).run perform s = perform a s := rfl

@[simp] theorem log_act (a : Act) (s : σ) :
    (act a : Plan Answer (Answer a)).log perform s = [a] := rfl

@[simp] theorem run_bind (x : Plan Answer α) (f : α → Plan Answer β) (s : σ) :
    (x >>= f).run perform s =
      (f (x.run perform s).1).run perform (x.run perform s).2 := by
  induction x generalizing s with
  | done a => rfl
  | step a next ih => exact ih _ _

@[simp] theorem log_bind (x : Plan Answer α) (f : α → Plan Answer β) (s : σ) :
    (x >>= f).log perform s =
      x.log perform s ++ (f (x.run perform s).1).log perform (x.run perform s).2 := by
  induction x generalizing s with
  | done a => rfl
  | step a next ih => exact congrArg (a :: ·) (ih _ _)

end

end Plan

end Monotype
