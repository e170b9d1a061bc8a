import Monotype.Proofs.Plan
import Monotype.Proofs.Store.Names
import Monotype.Unify

/-! Unification at every one of its steps: the store stays acyclic, no variable and no sum type
comes in from outside, and only unbound variables are bound. -/
namespace Monotype

/-- An acyclic store of `n` variables, in whose slots there are no others. -/
structure Store.Tidy (n : Nat) (s : Store) : Prop where
  acyclic : s.Acyclic
  within : s.Within n
  size_eq : s.size = n

namespace Store.Tidy
variable {n : Nat} {s s' : Store}

theorem compresses (h : s.Tidy n) (hc : Compresses s s') : s'.Tidy n :=
  ⟨hc.acyclic h.acyclic, h.within.compresses hc, hc.size_eq.trans h.size_eq⟩

/-- Binding an issued variable that does not occur in the type, as `occurs` has found. -/
theorem bind (h : s.Tidy n) {v : TyVar} {t : Ty} (hv : v < n) (hu : s.lookup v = none)
    (ht : t.Below n) (ho : (Store.occurs v t s).1 = false) :
    ((Store.occurs v t s).2.bind v t).Tidy n := by
  obtain ⟨hans, hc⟩ := h.acyclic.answers_occurs v t
  have h' := h.compresses hc
  refine ⟨h'.acyclic.bind ((hc.unbound_iff v).2 hu) ?_, h'.within.bind hv ht, ?_⟩
  · rw [hc.full_eq h.acyclic]
    simpa [hans] using ho
  · rw [size_bind, h'.size_eq, Nat.max_eq_left hv]

end Store.Tidy

/-- A tidy store of the variables of `w` in whose slots no other sum types are named. -/
structure Store.Fits (w : World) (s : Store) : Prop where
  tidy : s.Tidy w.issued
  names : s.Names w.names

namespace Store.Fits
variable {w : World} {s s' : Store}

theorem acyclic (h : s.Fits w) : s.Acyclic := h.tidy.acyclic

theorem compresses (h : s.Fits w) (hc : Compresses s s') : s'.Fits w :=
  ⟨h.tidy.compresses hc, h.names.compresses h.acyclic hc⟩

theorem resolve (h : s.Fits w) (t : Ty) : (Store.resolve t s).2.Fits w :=
  h.compresses (h.acyclic.resolve t).compresses

theorem apply (h : s.Fits w) (t : Ty) : (Store.apply t s).2.Fits w :=
  h.compresses (h.acyclic.answers_apply t).2

theorem occurs (h : s.Fits w) (v : TyVar) (t : Ty) : (Store.occurs v t s).2.Fits w :=
  h.compresses (h.acyclic.answers_occurs v t).2

theorem resolved (h : s.Fits w) {t : Ty} (ht : t.Fits w) : (Store.resolve t s).1.Fits w :=
  ⟨h.tidy.within.resolve h.acyclic ht.below, h.names.resolve h.acyclic ht.named⟩

theorem applied (h : s.Fits w) {t : Ty} (ht : t.Fits w) : (Store.apply t s).1.Fits w := by
  rw [(h.acyclic.answers_apply t).1]
  exact ⟨h.tidy.within.full h.acyclic ht.below, h.names.full h.acyclic ht.named⟩

theorem bind (h : s.Fits w) {v : TyVar} {t : Ty} (hv : v < w.issued) (hu : s.lookup v = none)
    (ht : t.Fits w) (ho : (Store.occurs v t s).1 = false) :
    ((Store.occurs v t s).2.bind v t).Fits w :=
  ⟨h.tidy.bind hv hu ht.below ho, (h.occurs v t).names.bind v ht.named⟩

end Store.Fits

namespace Solve

/-- The store fits, and a variable that is about to be bound is an unbound one of it. -/
def ActSafe (w : World) (act : Act) (st : Solving) : Prop :=
  st.store.Fits w ∧ ∀ v t, act = .store (.bind v t) → v < w.issued ∧ st.store.lookup v = none

/-- From a state with a store that fits, `x` is safe at every step and leaves such a store. -/
def Keeps (w : World) (x : Solve Unit) (st : Solving) : Prop :=
  x.Safe Act.perform (ActSafe w) st fun _ st' => st'.store.Fits w

section Keeping
variable {w : World} {st : Solving}

theorem Keeps.pure (h : st.store.Fits w) : Keeps w (pure ()) st := h

theorem Keeps.fail (h : st.store.Fits w) (e : TypeError Ty) : Keeps w (fail e) st :=
  ⟨⟨h, by simp⟩, h⟩

theorem Keeps.seq {x y : Solve Unit} (hx : Keeps w x st)
    (hy : ∀ st' : Solving, st'.store.Fits w → Keeps w y st') : Keeps w (x >>= fun _ => y) st :=
  Plan.Safe.bind hx fun _ st' h => hy st' h

/-- Going on with the outermost form of a type. -/
theorem Keeps.resolve {t : Ty} {next : Ty → Solve Unit} (h : st.store.Fits w) (ht : t.Fits w)
    (hnext : ∀ (st' : Solving) (r : Ty), st'.store.Fits w → r.Fits w →
      (∀ v, r = .var v → st'.store.lookup v = none) → Keeps w (next r) st') :
    Keeps w (Solve.resolve t >>= next) st := by
  have hr := h.acyclic.resolve t
  refine ⟨⟨h, by simp⟩, hnext _ _ (h.resolve t) (h.resolved ht) fun v hv => ?_⟩
  exact (hr.compresses.unbound_iff v).2 (hr.unbound v hv)

theorem Keeps.mismatch (h : st.store.Fits w) (l r : Ty) : Keeps w (mismatch l r) st :=
  ⟨⟨h, by simp⟩, ⟨h.apply l, by simp⟩, ⟨(h.apply l).apply r, by simp⟩, (h.apply l).apply r⟩

theorem Keeps.assign (h : st.store.Fits w) {v : TyVar} {t : Ty} (hv : v < w.issued)
    (hu : st.store.lookup v = none) (ht : t.Fits w) : Keeps w (assign v t) st := by
  refine ⟨⟨h, by simp⟩, ?_⟩
  have ho := h.occurs v t
  cases hans : (Store.occurs v t st.store).1 with
  | true =>
    simp only [Act.perform, Store.Act.perform, hans]
    exact ⟨⟨ho, by simp⟩, ⟨ho.apply t, by simp⟩, ho.apply t⟩
  | false =>
    simp only [Act.perform, Store.Act.perform, hans]
    refine ⟨⟨ho, ?_⟩, h.bind hv hu ht hans⟩
    rintro _ _ ⟨⟩
    exact ⟨hv, ((h.acyclic.answers_occurs v t).2.unbound_iff v).2 hu⟩

theorem Keeps.meet (lenient : Bool) {l r : Ty} (h : st.store.Fits w) (hl : l.Fits w)
    (hr : r.Fits w) (hu : ∀ v, r = .var v → st.store.lookup v = none) :
    Keeps w (meet lenient l r) st := by
  unfold Solve.meet
  split
  · exact .assign h (Ty.fits_var.1 hr) (hu _ rfl) hl
  · split
    · exact .pure h
    · split
      · exact .pure h
      · exact .mismatch h l _

theorem Keeps.fails (fields : Fields Ty) (h : st.store.Fits w) :
    Keeps w (fields.forM fun field => Solve.fail (.recordField field.1)) st := by
  induction fields generalizing st with
  | nil => exact .pure h
  | cons field fields ih => exact (Keeps.fail h _).seq fun st' h' => ih h'

/-- From every store that fits, `x r` is safe for every right side `r`. -/
def Safely (w : World) (x : Ty → Solve Unit) : Prop :=
  ∀ (st : Solving) (r : Ty), st.store.Fits w → r.Fits w → Keeps w (x r) st

variable {lenient : Bool} {follow : TyVar → Ty → Solve Unit}

theorem unifyLists_keeps {ts us : List Ty} (h : st.store.Fits w)
    (hts : ∀ t ∈ ts, Safely w (unifyWith lenient follow t)) (hus : ∀ u ∈ us, u.Fits w) :
    Keeps w (unifyLists lenient follow ts us) st := by
  induction ts generalizing us st with
  | nil => exact .pure h
  | cons t ts ih =>
    cases us with
    | nil => exact .pure h
    | cons u us =>
      rw [List.forall_mem_cons] at hts hus
      exact (hts.1 st u h hus.1).seq fun st' h' => ih h' hts.2 hus.2

theorem unifyFields_keeps {fields others : Fields Ty} (h : st.store.Fits w)
    (hfs : ∀ field ∈ fields, Safely w (unifyWith lenient follow field.2))
    (hos : ∀ field ∈ others, field.2.Fits w) :
    Keeps w (unifyFields lenient follow fields others) st := by
  induction fields generalizing others st with
  | nil => exact .fails others h
  | cons field fields ih =>
    rw [List.forall_mem_cons] at hfs
    refine (Keeps.fails _ h).seq fun st h => ?_
    have hrest : ∀ other ∈ others.dropWhile (·.1 < field.1), other.2.Fits w :=
      fun other ho => hos other ((List.dropWhile_sublist _).subset ho)
    cases hd : others.dropWhile (·.1 < field.1) with
    | nil => exact (Keeps.fail h _).seq fun st' h' => ih h' hfs.2 (by simp)
    | cons other rest =>
      rw [hd] at hrest
      have hother := List.forall_mem_cons.1 hrest
      simp only
      split
      · exact (hfs.1 st _ h hother.1).seq fun st' h' => ih h' hfs.2 hother.2
      · exact (Keeps.fail h _).seq fun st' h' => ih h' hfs.2 hrest

theorem unifyWith_keeps (hfollow : ∀ v, v < w.issued → Safely w (follow v)) (t : Ty)
    (ht : t.Fits w) : Safely w (unifyWith lenient follow t) := by
  induction t using Ty.induct with
  | var v => exact hfollow v (Ty.fits_var.1 ht)
  | prim p | external path | adt name =>
    exact fun st r h hr => .resolve h hr fun st' r' h' hr' hu => .meet lenient h' ht hr' hu
  | fn params result ihp ihr =>
    have hparts := Ty.fits_fn.1 ht
    refine fun st r h hr => .resolve h hr fun st' r' h' hr' hu => ?_
    split
    · next params' result' =>
      rw [Ty.fits_fn] at hr'
      split
      · exact (unifyLists_keeps h' (fun t hp => ihp t hp (hparts.1 t hp)) hr'.1).seq
          fun st'' h'' => ihr hparts.2 st'' result' h'' hr'.2
      · exact .fail h' _
    · exact .meet lenient h' ht hr' hu
  | tuple elements ih =>
    have hparts := Ty.fits_tuple.1 ht
    refine fun st r h hr => .resolve h hr fun st' r' h' hr' hu => ?_
    split
    · split
      · exact unifyLists_keeps h' (fun t hp => ih t hp (hparts t hp)) (Ty.fits_tuple.1 hr')
      · exact .fail h' _
    · exact .meet lenient h' ht hr' hu
  | record fields ih =>
    have hparts := Ty.fits_record.1 ht
    refine fun st r h hr => .resolve h hr fun st' r' h' hr' hu => ?_
    split
    · exact unifyFields_keeps h' (fun t hp => ih t hp (hparts t hp)) (Ty.fits_record.1 hr')
    · exact .meet lenient h' ht hr' hu

theorem unifyVar_keeps : ∀ (fuel : Nat) {v : TyVar}, v < w.issued →
    Safely w (unifyVar lenient fuel v)
  | 0, _, _ => fun _ _ h _ => .pure h
  | fuel + 1, v, hv => by
    refine fun st r h hr => .resolve h (Ty.fits_var.2 hv) fun st' t h' ht hu => ?_
    split
    · next u =>
      -- the second walk shortens ways only, so `u` stays unbound
      have hc := (h'.acyclic.resolve r).compresses
      have hunbound := (hc.unbound_iff u).2 (hu u rfl)
      have hr' := h'.resolved hr
      refine ⟨⟨h', by simp⟩, ?_⟩
      change Keeps w (if (Store.resolve r st'.store).1 = .var u then Pure.pure ()
        else Solve.assign u (Store.resolve r st'.store).1)
        { st' with store := (Store.resolve r st'.store).2 }
      split
      · exact .pure (h'.resolve r)
      · exact .assign (h'.resolve r) (Ty.fits_var.1 ht) hunbound hr'
    · exact unifyWith_keeps (fun _ hv => unifyVar_keeps fuel hv) t ht st' r h' hr

theorem unify_keeps (s : Store) {l r : Ty} (h : st.store.Fits w) (hl : l.Fits w)
    (hr : r.Fits w) : Keeps w (unify s lenient l r) st :=
  unifyWith_keeps (fun _ hv => unifyVar_keeps _ hv) l hl st r h hr

end Keeping

end Solve

end Monotype
