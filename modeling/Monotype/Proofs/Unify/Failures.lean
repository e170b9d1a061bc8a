import Monotype.Proofs.Unify.MostGeneral

/-! What a unification can fail in: two types are apart, differ in a count or in a field, or one
would contain itself. It has nothing to say about names. -/
namespace Monotype.Solve
variable {α β : Type}

/-- The causes for which a unification fails. -/
def IsFailure : TypeError Ty → Prop
  | .mismatch _ _ | .functionArity _ _ | .tupleLength _ _ | .recordField _
  | .infiniteType _ _ => True
  | _ => False

/-- Whatever answers it gets, `x` fails for no other causes than these. -/
def FailsAsUsual : Solve α → Prop
  | .done _ => True
  | .step (.store _) next => ∀ answer, FailsAsUsual (next answer)
  | .step (.fail e) next => IsFailure e ∧ FailsAsUsual (next ())

namespace FailsAsUsual

theorem pure (a : α) : FailsAsUsual (pure a) := trivial

theorem bind {x : Solve α} {f : α → Solve β} (hx : FailsAsUsual x)
    (hf : ∀ a, FailsAsUsual (f a)) : FailsAsUsual (x >>= f) := by
  induction x with
  | done a => exact hf a
  | step act next ih =>
    cases act with
    | store act => exact fun answer => ih answer (hx answer)
    | fail e => exact ⟨hx.1, ih () hx.2⟩

theorem store (act : Store.Act) : FailsAsUsual (Solve.act (.store act)) := fun _ => trivial

theorem fail {e : TypeError Ty} (h : IsFailure e) : FailsAsUsual (fail e) := ⟨h, trivial⟩

theorem fails (fields : Fields Ty) :
    FailsAsUsual (fields.forM fun field => Solve.fail (.recordField field.1)) := by
  induction fields with
  | nil => exact .pure _
  | cons field fields ih => exact .bind (.fail trivial) fun _ => ih

theorem assign (v : TyVar) (t : Ty) : FailsAsUsual (assign v t) := by
  refine .bind (.store _) fun occurs => ?_
  cases occurs with
  | true => exact .bind (.store _) fun u => .fail trivial
  | false => exact .store _

theorem meet (lenient : Bool) (l r : Ty) : FailsAsUsual (meet lenient l r) := by
  unfold Solve.meet
  split
  · exact .assign _ _
  · split
    · exact .pure _
    · split
      · exact .pure _
      · exact .bind (.store _) fun _ => .bind (.store _) fun _ => .fail trivial

/-- The failures that are met are among those that can be. -/
theorem errorsOf {x : Solve α} (hx : FailsAsUsual x) (s : Store) :
    ∀ e ∈ x.errorsOf s, IsFailure e := by
  induction x generalizing s with
  | done a => simp [Solve.errorsOf, Plan.run]
  | step act next ih =>
    cases act with
    | store act => exact ih _ (hx _) _
    | fail e =>
      have hfirst : Solve.errorsOf (.step (.fail e) next) s =
          e :: Solve.errorsOf (next ()) s := by
        simp only [Solve.errorsOf, Plan.run, Act.perform]
        rw [Solve.run_append]
        simp
      rw [hfirst, List.forall_mem_cons]
      exact ⟨hx.1, ih () hx.2 s⟩

end FailsAsUsual

section
variable {lenient : Bool} {follow : TyVar → Ty → Solve Unit}

theorem unifyLists_failsAsUsual {ts : List Ty}
    (hts : ∀ t ∈ ts, ∀ u, FailsAsUsual (unifyWith lenient follow t u)) (us : List Ty) :
    FailsAsUsual (unifyLists lenient follow ts us) := by
  induction ts generalizing us with
  | nil => exact .pure _
  | cons t ts ih =>
    rw [List.forall_mem_cons] at hts
    cases us with
    | nil => exact .pure _
    | cons u us => exact .bind (hts.1 u) fun _ => ih hts.2 us

theorem unifyFields_failsAsUsual {fields : Fields Ty}
    (hfields : ∀ field ∈ fields, ∀ u, FailsAsUsual (unifyWith lenient follow field.2 u))
    (others : Fields Ty) : FailsAsUsual (unifyFields lenient follow fields others) := by
  induction fields generalizing others with
  | nil => exact .fails others
  | cons field fields ih =>
    rw [List.forall_mem_cons] at hfields
    refine .bind (.fails _) fun _ => ?_
    split
    · split
      · exact .bind (hfields.1 _) fun _ => ih hfields.2 _
      · exact .bind (.fail trivial) fun _ => ih hfields.2 _
    · exact .bind (.fail trivial) fun _ => ih hfields.2 _

theorem unifyWith_failsAsUsual (hfollow : ∀ v u, FailsAsUsual (follow v u)) (t u : Ty) :
    FailsAsUsual (unifyWith lenient follow t u) := by
  induction t using Ty.induct generalizing u with
  | var v => exact hfollow v u
  | prim p | external path | adt name => exact .bind (.store _) fun _ => .meet _ _ _
  | fn params result ihp ihr =>
    refine .bind (.store _) fun r => ?_
    split
    · split
      · exact .bind (unifyLists_failsAsUsual ihp _) fun _ => ihr _
      · exact .fail trivial
    · exact .meet _ _ _
  | tuple elements ih =>
    refine .bind (.store _) fun r => ?_
    split
    · split
      · exact unifyLists_failsAsUsual ih _
      · exact .fail trivial
    · exact .meet _ _ _
  | record fields ih =>
    refine .bind (.store _) fun r => ?_
    split
    · exact unifyFields_failsAsUsual ih _
    · exact .meet _ _ _

theorem unifyVar_failsAsUsual : ∀ (fuel : Nat) (v : TyVar) (u : Ty),
    FailsAsUsual (unifyVar lenient fuel v u)
  | 0, _, _ => .pure _
  | fuel + 1, v, u => by
    refine .bind (.store _) fun t => ?_
    split
    · refine .bind (.store _) fun r => ?_
      split
      · exact .pure _
      · exact .assign _ _
    · exact unifyWith_failsAsUsual (unifyVar_failsAsUsual fuel) _ _

end

theorem isFailure_of_unify (s : Store) (lenient : Bool) (l r : Ty) :
    ∀ e ∈ (s.unify lenient l r).1, IsFailure e :=
  FailsAsUsual.errorsOf (unifyWith_failsAsUsual (unifyVar_failsAsUsual _) l r) s

end Monotype.Solve
