import Monotype.Proofs.Check.Isolation
import Monotype.Proofs.Store.Questions
import Monotype.Proofs.Typing.Output

/-! Ways through the store are shortened whenever something is asked of it, at the end of a check
once for each symbol and each node. In what order that happens makes no difference to what is handed
out, nor to how types are written afterwards. -/
namespace Monotype

/-- The same findings; the types of nodes are compared node by node. -/
structure Output.Same (out out' : Output) : Prop where
  reports : out'.reports = out.reports
  symbols : out'.symbols = out.symbols
  nodeTypes : out'.nodeTypes.toList = out.nodeTypes.toList

/-- The state of a run determines what is handed out. -/
theorem Check.HandsOut.same {s : Run} {out out' : Output} (h : HandsOut s out)
    (h' : HandsOut s out') : out.Same out' where
  reports := h'.reports.trans h.reports.symm
  symbols := h'.symbols.trans h.symbols.symm
  nodeTypes := by
    refine Std.TreeMap.Equiv.toList_eq (Std.TreeMap.Equiv.of_forall_constGet?_eq fun node => ?_)
    exact (h'.typeOf?_eq node).trans (h.typeOf?_eq node).symm

namespace Checker
variable {c c' : Checker} {s : Store}

/-- A check that goes through the noted types in another order at its end. -/
def checkIn (order : List (NodeId × Ty) → List (NodeId × Ty)) (c : Checker) (p : Program) :
    Except Malformed Output × Checker :=
  match (do Check.checkStmts p; Check.finishIn order).run c.config c.run.reset with
  | (.ok out, run) => (.ok out, { c with run := run.handedOut })
  | (.error e, run) => (.error e, { c with run })

theorem checkIn_id (c : Checker) (p : Program) : c.checkIn id p = c.check p := rfl

/-! ## Writing types afterwards -/

theorem compresses_renders (hs : s.Acyclic) (hc : s.Compresses c.run.store) (ts : List Ty) :
    s.Compresses (c.after (ts.map .render)).run.store := by
  induction ts generalizing c with
  | nil => exact hc
  | cons t ts ih =>
    have hstep := ((hc.acyclic hs).answers_apply t).2
    exact ih (hc.trans hstep)

/-- Two checkers write types alike if their stores come from one by shortening ways. -/
theorem render_eq (hs : s.Acyclic) (hc : s.Compresses c.run.store)
    (hc' : s.Compresses c'.run.store) (t : Ty) : (c.render t).1 = (c'.render t).1 := by
  have happly := (hc.undisturbed hs).apply_eq t
  have happly' := (hc'.undisturbed hs).apply_eq t
  exact congrArg Ty.text (happly.trans happly'.symm)

/-! ## The end of a check -/

theorem checkIn_of_run {order : List (NodeId × Ty) → List (NodeId × Ty)}
    (horder : ∀ notes, (order notes).Perm notes) {p : Program} {run : Run}
    (hrun : (Check.checkStmts p).run c.config c.run.reset = (.ok (), run)) :
    ∃ out, (c.checkIn order p).1 = .ok out ∧ Check.HandsOut run out ∧
      run.store.Compresses (c.checkIn order p).2.run.store := by
  have hinv := Check.inv_checkStmts (.reset c.run) hrun
  obtain ⟨out, store, hfinish, hc, hhands⟩ := Check.run_finishIn c.config horder hinv.acyclic
  have hprogram : (do Check.checkStmts p; Check.finishIn order).run c.config c.run.reset =
      (.ok out, { run with store }) := by
    rw [Check.run_bind, hrun]
    exact hfinish
  rw [checkIn, hprogram]
  exact ⟨out, rfl, hhands, hc⟩

theorem checkIn_of_error (order : List (NodeId × Ty) → List (NodeId × Ty)) {p : Program}
    {e : Malformed} {run : Run}
    (hrun : (Check.checkStmts p).run c.config c.run.reset = (.error e, run)) :
    c.checkIn order p = (.error e, { c with run }) := by
  have hprogram : (do Check.checkStmts p; Check.finishIn order).run c.config c.run.reset =
      (.error e, run) := by
    rw [Check.run_bind, hrun]
  rw [checkIn, hprogram]

/-- A check hands out the same in whatever order it goes through the noted types, and types are
written alike afterwards. -/
theorem checkIn_same {order : List (NodeId × Ty) → List (NodeId × Ty)}
    (horder : ∀ notes, (order notes).Perm notes) (c : Checker) (p : Program) :
    EndAlike Output.Same (c.check p).1 (c.checkIn order p).1 ∧
      ∀ (between : List Ty) (t : Ty),
        (((c.check p).2.after (between.map .render)).render t).1 =
          (((c.checkIn order p).2.after (between.map .render)).render t).1 := by
  have hid : ∀ notes : List (NodeId × Ty), (id notes).Perm notes := fun notes => .refl notes
  rw [← checkIn_id]
  rcases hrun : (Check.checkStmts p).run c.config c.run.reset with ⟨r, run⟩
  cases r with
  | error e =>
    rw [checkIn_of_error id hrun, checkIn_of_error order hrun]
    exact ⟨.error e, fun _ _ => rfl⟩
  | ok a =>
    have hs : run.store.Acyclic := (Check.inv_checkStmts (.reset c.run) hrun).acyclic
    obtain ⟨out, hout, hhands, hc⟩ := checkIn_of_run hid hrun
    obtain ⟨out', hout', hhands', hc'⟩ := checkIn_of_run horder hrun
    constructor
    · rw [hout, hout']
      exact .ok (hhands.same hhands')
    · intro between t
      exact render_eq hs (compresses_renders hs hc between) (compresses_renders hs hc' between) t

/-- That ways are shortened cannot be seen. Questions to a store are all answered as by looking only
at the store that there was before them, and they leave it with the same variables, bound ones and
full types. A check hands out the same in whatever order the types of nodes are asked for, and so
does everything that is written afterwards. -/
theorem compression_invisible :
    (∀ s : Store, s.Acyclic → ∀ questions : List Store.Question,
      (questions.mapM Store.Question.ask s).1 = questions.map (·.answerIn s) ∧
        s.Undisturbed (questions.mapM Store.Question.ask s).2) ∧
    ∀ order : List (NodeId × Ty) → List (NodeId × Ty), (∀ notes, (order notes).Perm notes) →
      ∀ (c : Checker) (p : Program),
        EndAlike Output.Same (c.check p).1 (c.checkIn order p).1 ∧
          ∀ (between : List Ty) (t : Ty),
            (((c.check p).2.after (between.map .render)).render t).1 =
              (((c.checkIn order p).2.after (between.map .render)).render t).1 := by
  constructor
  · intro s hs questions
    obtain ⟨hanswers, hc⟩ := hs.answers_askAll questions
    exact ⟨hanswers, hc.undisturbed hs⟩
  · intro order horder c p
    exact checkIn_same horder c p

/-- Two variables on the way to a type with a third one in it. -/
def chainStore : Store :=
  ((({} : Store).bind 2 (.tuple [.var 3])).bind 1 (.var 2)).bind 0 (.var 1)

theorem chainStore_acyclic : chainStore.Acyclic := by
  have hend : (({} : Store).bind 2 (.tuple [.var 3])).Acyclic :=
    Store.acyclic_empty.bind rfl (by decide)
  have hmiddle : ((({} : Store).bind 2 (.tuple [.var 3])).bind 1 (.var 2)).Acyclic :=
    hend.bind rfl (by decide)
  exact hmiddle.bind rfl (by decide)

/-- The first question shortens the way from the first variable, and the others are answered as
before. -/
def chainQuestions : List Store.Question :=
  [.occurs 3 (.var 0), .resolve (.var 0), .apply (.fn [.var 1] (.var 0))]

open Sketch in
/-- A function that is passed on before it is known to be one. -/
def chainProgram : Program :=
  (build [
    .assign .constVar "twice" (.function ["f", "x"]
      (.call (.ident "f") [.call (.ident "f") [.ident "x"]])),
    .expr (.call (.ident "twice")
      [.function ["n"] (.operation (.ident "n") "+" (.literal (.number 1))), .block [] none])]).1

theorem compression_invisible_chain :
    chainStore.Acyclic ∧ chainStore.lookup 0 = some (.var 1) ∧
    (chainQuestions.mapM Store.Question.ask chainStore).2.lookup 0 = some (.tuple [.var 3]) ∧
    (chainQuestions.mapM Store.Question.ask chainStore).1 =
      [.verdict true, .type (.tuple [.var 3]), .type (.fn [.tuple [.var 3]] (.tuple [.var 3]))] ∧
    chainStore.Undisturbed (chainQuestions.mapM Store.Question.ask chainStore).2 ∧
    EndAlike Output.Same (({} : Checker).check chainProgram).1
      (({} : Checker).checkIn List.reverse chainProgram).1 := by
  obtain ⟨hstore, hcheck⟩ := compression_invisible
  obtain ⟨hanswers, hundisturbed⟩ := hstore chainStore chainStore_acyclic chainQuestions
  refine ⟨chainStore_acyclic, rfl, by decide, ?_, hundisturbed, ?_⟩
  · rw [hanswers]
    decide
  · exact (hcheck List.reverse List.reverse_perm {} chainProgram).1

end Checker

end Monotype
