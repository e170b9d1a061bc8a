import Monotype.Proofs.Check.Order
import Monotype.Proofs.Store.Walks

/-! Types in full form. Applying the bindings of an acyclic store comes to an end, leaves no bound
variable and has nothing more to do a second time; `occurs` sees the same variables. What a check
hands out is in full form, so the bindings that the check leaves no longer change it. -/
namespace Monotype
namespace Store

/-- What applying the bindings of `s` to `t` does, and what looking for a variable in `t` sees. -/
structure Closes (s : Store) (t : Ty) : Prop where
  /-- The walk of the rules ends, in one way only. -/
  ends : ∀ u s', s.Applies t u s' ↔ apply t s = (u, s')
  unbound : ∀ v ∈ (apply t s).1.vars, s.lookup v = none ∧ (apply t s).2.lookup v = none
  again : (apply (apply t s).1 (apply t s).2).1 = (apply t s).1
  /-- Every bound variable is replaced by what its slot becomes. -/
  slots : (apply t s).1 = t.subst fun v => (s.lookup v).elim (.var v) fun u => (apply u s).1
  searches : ∀ v found s', Finds v s t found s' ↔ occurs v t s = (found, s')
  occurs_iff : ∀ v, (occurs v t s).1 = true ↔ v ∈ (apply t s).1.vars

section
variable {s s' : Store}

theorem Acyclic.apply_eq (hs : s.Acyclic) (t : Ty) : (apply t s).1 = s.full t :=
  (hs.answers_apply t).1

theorem Acyclic.full_full (hs : s.Acyclic) (t : Ty) : s.full (s.full t) = s.full t :=
  hs.full_subst hs.solves_form t

/-- A full form stays as it is, however far the ways have been shortened since. -/
theorem Compresses.apply_full (h : Compresses s s') (hs : s.Acyclic) (t : Ty) :
    (apply (s.full t) s').1 = s.full t := by
  rw [(h.acyclic hs).apply_eq, h.full_eq hs, hs.full_full]

theorem Acyclic.form_eq_elim (hs : s.Acyclic) (v : TyVar) :
    s.form v = (s.lookup v).elim (.var v) fun u => (apply u s).1 := by
  cases hv : s.lookup v with
  | none => exact form_of_unbound hv
  | some u => exact (hs.form_of_bound hv).trans (hs.apply_eq u).symm

theorem Acyclic.closes (hs : s.Acyclic) (t : Ty) : s.Closes t where
  ends _ _ := hs.applies_iff
  unbound v hv := by
    rw [hs.apply_eq] at hv
    have hnone := hs.unbound_of_mem_full hv
    exact ⟨hnone, ((hs.answers_apply t).2.unbound_iff v).2 hnone⟩
  again := by
    rw [hs.apply_eq]
    exact (hs.answers_apply t).2.apply_full hs t
  slots := by
    rw [hs.apply_eq]
    exact Ty.subst_congr fun v _ => hs.form_eq_elim v
  searches _ _ _ := hs.finds_iff
  occurs_iff v := by rw [(hs.answers_occurs v t).1, hs.apply_eq, decide_eq_true_iff]

end

end Store

namespace Checker
variable {c : Checker} {p : Program} {out : Output}

/-- What a check hands out, and the store that it leaves. -/
theorem store_of_check (hout : (c.check p).1 = .ok out) :
    ∃ s : Run, s.store.Acyclic ∧ s.store.Compresses (c.check p).2.run.store ∧
      Check.HandsOut s out := by
  obtain ⟨s, hrun, hinv, -⟩ := run_of_check hout
  have hid : ∀ notes : List (NodeId × Ty), (id notes).Perm notes := fun notes => .refl notes
  obtain ⟨out', hout', hhands, hc⟩ := checkIn_of_run hid hrun
  rw [checkIn_id] at hout' hc
  obtain rfl : out' = out := Except.ok.inj (hout'.symm.trans hout)
  exact ⟨s, hinv.acyclic, hc, hhands⟩

/-- Applying the bindings of an acyclic store computes the closure, and what a check hands out is
closed under the bindings that it leaves. -/
theorem handsOut_fullForms :
    (∀ s : Store, s.Acyclic → ∀ t, s.Closes t) ∧
    ∀ (c : Checker) (p : Program) (out : Output), (c.check p).1 = .ok out →
      (∀ symbol ∈ out.symbols,
        (Store.apply symbol.ty (c.check p).2.run.store).1 = symbol.ty) ∧
      ∀ node t, out.typeOf? node = some t → (Store.apply t (c.check p).2.run.store).1 = t := by
  refine ⟨fun s hs t => hs.closes t, fun c p out hout => ?_⟩
  obtain ⟨s, hs, hc, hhands⟩ := store_of_check hout
  constructor
  · intro symbol hsymbol
    rw [hhands.symbols] at hsymbol
    obtain ⟨sym, -, rfl⟩ := List.mem_map.1 hsymbol
    exact hc.apply_full hs sym.ty
  · intro node t ht
    rw [hhands.typeOf?_eq] at ht
    obtain ⟨u, -, rfl⟩ := Option.map_eq_some_iff.1 ht
    exact hc.apply_full hs u

/-- Both ways lead to the third variable, which is seen through them and stays. The function of the
program ends as one from functions. -/
theorem handsOut_fullForms_chain :
    chainStore.Acyclic ∧
    chainStore.Applies (.fn [.var 1] (.var 0)) (.fn [.tuple [.var 3]] (.tuple [.var 3]))
      (Store.apply (.fn [.var 1] (.var 0)) chainStore).2 ∧
    (Store.occurs 3 (.var 0) chainStore).1 = true ∧
    (Store.occurs 0 (.var 0) chainStore).1 = false ∧
    ∃ out symbol, (({} : Checker).check chainProgram).1 = .ok out ∧ symbol ∈ out.symbols ∧
      symbol.ty = .fn [.fn [.number] .number, .number] .number ∧
      (Store.apply symbol.ty (({} : Checker).check chainProgram).2.run.store).1 = symbol.ty := by
  obtain ⟨hstore, hcheck⟩ := handsOut_fullForms
  have hfn := hstore chainStore chainStore_acyclic (.fn [.var 1] (.var 0))
  have hvar := hstore chainStore chainStore_acyclic (.var 0)
  have happly : (Store.apply (.fn [.var 1] (.var 0)) chainStore).1 =
      .fn [.tuple [.var 3]] (.tuple [.var 3]) := by decide
  refine ⟨chainStore_acyclic, (hfn.ends _ _).2 (Prod.ext happly rfl), ?_, ?_, ?_⟩
  · exact (hvar.occurs_iff 3).2 (by decide)
  · exact Bool.eq_false_iff.2 fun h => absurd ((hvar.occurs_iff 0).1 h) (by decide)
  · have hfound : (({} : Checker).check chainProgram).1.toOption.bind
        (fun out => (out.symbols.map (·.ty))[2]?) =
          some (.fn [.fn [.number] .number, .number] .number) := by
      decide +kernel
    cases hout : (({} : Checker).check chainProgram).1 with
    | error e => simp [hout, Except.toOption] at hfound
    | ok out =>
      have hmem : Ty.fn [.fn [.number] .number, .number] .number ∈ out.symbols.map (·.ty) := by
        rw [hout] at hfound
        exact List.mem_of_getElem? hfound
      obtain ⟨symbol, hsymbol, hty⟩ := List.mem_map.1 hmem
      exact ⟨out, symbol, rfl, hsymbol, hty, (hcheck {} chainProgram out hout).1 symbol hsymbol⟩

end Checker

end Monotype
