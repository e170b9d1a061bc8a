import Monotype.Proofs.Check.Invariant
import Monotype.Proofs.Check.Walk

/-! A run at every one of its steps. Each part of the walk keeps the invariant and gives types about
issued variables only: this is the walk under the vocabulary in which all sum types may be named. -/
namespace Monotype

/-- Every sum type may be named, and nothing is asked of the declarations. -/
def Vocabulary.unrestricted : Vocabulary where
  names _ := Set.univ
  Sound _ := True
  mem_names _ := trivial
  names_declare _ _ _ _ := subset_rfl
  names_register _ _ := subset_rfl
  sound_empty := trivial
  sound_declare _ _ _ := trivial
  sound_register _ _ := trivial

/-- With every sum type allowed, types fit when their variables have been issued. -/
theorem Ty.fits_unrestricted {run : Run} {t : Ty} :
    t.Fits (Vocabulary.unrestricted.world run) ↔ t.Below run.store.size :=
  ⟨fun h => h.below, fun h => ⟨h, fun _ _ => trivial⟩⟩

theorem Run.obeys_unrestricted {run : Run} : run.Obeys .unrestricted ↔ run.Inv := by
  constructor
  · intro h
    exact .of_all h.acyclic (h.types.mono fun _ ht => Ty.fits_unrestricted.1 ht)
  · intro h
    exact ⟨h.acyclic, h.all.mono fun _ ht => Ty.fits_unrestricted.2 ht, trivial⟩

namespace Check
variable {α : Type} {cfg : Config} {n : Nat}

/-- The invariant holds, and a variable that is about to be bound is an unbound one. -/
def ActSafe (act : Act) (run : Run) : Prop :=
  run.Inv ∧ ∀ v t, act = .store (.bind v t) → v < run.store.size ∧ run.store.lookup v = none

/-- From every state with the invariant and at least `n` variables, `x` is safe at every step and
leaves such a state. Its answer then satisfies `post` for the number of variables there are. -/
def Keeps (cfg : Config) (n : Nat) (x : Check α) (post : Nat → α → Prop) : Prop :=
  ∀ run : Run, run.Inv → n ≤ run.store.size →
    Plan.Safe (Act.perform cfg) ActSafe x run fun r run' =>
      run'.Inv ∧ run.store.size ≤ run'.store.size ∧ ∀ a, r = .ok a → post run'.store.size a

/-- For parts that only change the state. -/
abbrev Runs (cfg : Config) (n : Nat) (x : Check α) : Prop := Keeps cfg n x fun _ _ => True

theorem safe_unrestricted : Vocabulary.unrestricted.Safe = ActSafe := by
  funext act run
  rw [Vocabulary.Safe, ActSafe, Run.obeys_unrestricted]

/-- What the walk keeps when every sum type may be named. -/
theorem Keeps.of_unrestricted {x : Check α} {mid : World → α → Prop} {post : Nat → α → Prop}
    (h : Vocabulary.unrestricted.Keeps cfg ⟨n, Set.univ⟩ x mid)
    (himp : ∀ w a, mid w a → post w.issued a) : Keeps cfg n x post := by
  intro run hinv hle
  have hsafe := h run (Run.obeys_unrestricted.2 hinv) ⟨hle, subset_rfl⟩
  rw [safe_unrestricted] at hsafe
  refine hsafe.mono fun r run' hr => ?_
  exact ⟨Run.obeys_unrestricted.1 hr.1, World.issued_le hr.2.1, fun a ha => himp _ a (hr.2.2 a ha)⟩

theorem Keeps.fresh : Keeps cfg n fresh Ty.Below :=
  .of_unrestricted .fresh fun _ _ ht => ht.below

theorem Keeps.unify {l r : Ty} (site : Site) (hl : l.Below n) (hr : r.Below n) :
    Runs cfg n (unify l r site) :=
  .of_unrestricted (.unify site ⟨hl, fun _ _ => trivial⟩ ⟨hr, fun _ _ => trivial⟩) fun _ _ h => h

theorem checkStmts_keeps (n : Nat) (stmts : List Stmt) : Runs cfg n (checkStmts stmts) :=
  .of_unrestricted (Vocabulary.checkStmts_keeps _ stmts) fun _ _ h => h

theorem program_keeps (p : Program) : Runs cfg n (program p) :=
  .of_unrestricted (Vocabulary.program_keeps p) fun _ _ h => h

theorem record_below {m : Nat} {fields : List (String × Ty)}
    (h : ∀ field ∈ fields, field.2.Below m) : (Ty.record (Fields.ofList fields)).Below m :=
  Ty.below_record.2 fun field hf => h field (Fields.mem_ofList hf)

theorem literal_below (l : Literal) : l.ty.Below n := by
  unfold Literal.ty
  split <;> exact Ty.below_prim

end Check

theorem Run.Inv.reset (run : Run) : run.reset.Inv :=
  Run.obeys_unrestricted.1 (.reset _ run)

/-- At every point of a check, whatever the program and whatever was checked before, the invariant
holds; and where the next action binds a variable, it is an issued one that is unbound. So the store
does not grow by that, and no variable is bound twice. -/
theorem Checker.invariant_at_every_point (c : Checker) (p : Program)
    {ahead : Plan Check.Act.Answer (Except Malformed Output)} {run : Run}
    (h : Plan.Reaches (Check.Act.perform c.config) (Check.program p) c.run.reset ahead run) :
    run.Inv ∧ ∀ v t next, ahead = .step (.store (.bind v t)) next →
      v < run.store.size ∧ run.store.lookup v = none ∧
      (run.store.bind v t).size = run.store.size ∧
      run.store.tryBind v t = .ok (run.store.bind v t) := by
  have hsafe := (Check.program_keeps p c.run.reset (.reset c.run) (Nat.zero_le _)).reaches h
  cases ahead with
  | done out => exact ⟨hsafe.1, by simp⟩
  | step act next =>
    refine ⟨hsafe.1.1, ?_⟩
    rintro v t _ ⟨⟩
    obtain ⟨hv, hu⟩ := hsafe.1.2 v t rfl
    refine ⟨hv, hu, ?_, ?_⟩
    · rw [Store.size_bind, Nat.max_eq_left hv]
    · rw [Store.tryBind, hu]

/-- The sum of an empty block, of which nothing is known, and a number. -/
def blockPlusOne : Program :=
  [.expr {} ⟨{}, .block {} ⟨{}, [], none⟩,
    [.operation {} "+" ⟨{}, .literal {} ⟨{}, .number 1⟩, []⟩]⟩]

/-- After ten actions the type of the block is about to become a number. -/
theorem Checker.invariant_at_binding :
    ∃ ahead run next,
      Plan.Reaches (Check.Act.perform {}) (Check.program blockPlusOne) (Run.reset {}) ahead run ∧
      ahead = .step (.store (.bind 0 .number)) next ∧
      run.Inv ∧ 0 < run.store.size ∧ run.store.lookup 0 = none := by
  refine ⟨_, _, _, .step (.step (.step (.step (.step (.step (.step (.step (.step (.step
    .here))))))))), rfl, ?_⟩
  obtain ⟨hinv, hbind⟩ := Checker.invariant_at_every_point {} blockPlusOne
    (.step (.step (.step (.step (.step (.step (.step (.step (.step (.step .here))))))))))
  obtain ⟨hv, hu, -⟩ := hbind 0 .number _ rfl
  exact ⟨hinv, hv, hu⟩

end Monotype
