import Monotype.Proofs.Check.Lockstep

/-! One checker is used for many programs. Nothing of a program that was checked before, or that was
given up in the middle, can be seen in the findings for the next one. -/
namespace Monotype.Checker

/-- What a checker is used for. -/
inductive Request where
  | check (p : Program)
  | render (t : Ty)

/-- The checker after a request. A check may have ended at a malformed tree. -/
def serve (c : Checker) : Request → Checker
  | .check p => (c.check p).2
  | .render t => (c.render t).2

/-- The checker after some requests. -/
def after (c : Checker) (requests : List Request) : Checker := requests.foldl serve c

@[simp] theorem config_check (c : Checker) (p : Program) : (c.check p).2.config = c.config := by
  unfold check
  split <;> rfl

@[simp] theorem config_serve (c : Checker) (request : Request) :
    (c.serve request).config = c.config := by
  cases request with
  | check p => exact c.config_check p
  | render t => rfl

@[simp] theorem config_after (c : Checker) (requests : List Request) :
    (c.after requests).config = c.config := by
  induction requests generalizing c with
  | nil => rfl
  | cons request requests ih => exact (ih _).trans (c.config_serve request)

theorem after_append (c : Checker) (requests more : List Request) :
    c.after (requests ++ more) = (c.after requests).after more :=
  List.foldl_append

/-- Checkers that know the same types write every type alike. -/
theorem render_hushed {cfg : Config} {c c' : Checker} (h : c.run.Hushed cfg c'.run) (t : Ty) :
    (c.render t).1 = (c'.render t).1 :=
  congrArg Ty.text (h.sameEnds.apply_fst h.acyclic h.acyclic' t).symm

/-- Writing types out changes nothing that can be seen of later ones. -/
theorem renders_hushed {cfg : Config} {c c' : Checker} (h : c.run.Hushed cfg c'.run)
    (ts : List Ty) : (c.after (ts.map .render)).run.Hushed cfg c'.run := by
  induction ts generalizing c with
  | nil => exact h
  | cons t ts ih =>
    have hans := h.acyclic.answers_apply t
    exact ih (h.withStore (hans.2.acyclic h.acyclic) h.acyclic'
      (hans.2.sameEnds.symm.trans h.sameEnds))

/-- Under one configuration, two checkers have the same findings and know the same types
afterwards. -/
theorem check_alike {c c' : Checker} (hcfg : c.config = c'.config) (p : Program) :
    (c.check p).1 = (c'.check p).1 ∧ (c.check p).2.run.Hushed c.config (c'.check p).2.run := by
  have hlax : c.config.Laxer c'.config := hcfg ▸ .refl c.config
  have hlax' : c'.config.Laxer c.config := hcfg ▸ .refl c.config
  obtain ⟨hend, hrun⟩ := check_hushed hlax p
  obtain ⟨hend', -⟩ := check_hushed hlax' p
  refine ⟨?_, hrun⟩
  rw [← hcfg] at hend'
  revert hend hend'
  generalize (c.check p).1 = r
  generalize (c'.check p).1 = r'
  intro hend hend'
  cases hend with
  | ok hout =>
    cases hend' with
    | ok hout' => exact congrArg Except.ok (hout.antisymm hout')
  | error e => rfl

/-- Whatever a checker has been used for, the next check gives what a new checker gives, in the same
order and down to the variables; and after that, types are written as the new checker writes them,
however many have been written in between. -/
theorem check_isolated (cfg : Config) (earlier : List Request) (p : Program) (between : List Ty)
    (t : Ty) :
    let new : Checker := { config := cfg }
    ((new.after earlier).check p).1 = checkProgram cfg p ∧
      ((new.after (earlier ++ .check p :: between.map .render)).render t).1 =
        ((new.after [.check p]).render t).1 := by
  intro new
  obtain ⟨hout, hrun⟩ := check_alike (new.config_after earlier) p
  refine ⟨hout, ?_⟩
  rw [after_append]
  exact render_hushed (renders_hushed hrun between) t

end Monotype.Checker
