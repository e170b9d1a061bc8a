import Monotype.Proofs.Check.Names
import Monotype.Proofs.Check.Nominal
import Monotype.Proofs.Check.Parts
import Monotype.Proofs.Typing.Rules

/-! The two tables of constructors. A value is built with the constructor that has its name in the
common table; it is matched by the constructor that its sum type lists under that name. The tables
are written apart: a declaration replaces the list of its sum type at once and then enters the
listed constructors one by one, so that between two statements the common table has, of each sum
type, the last one that is listed under a name. -/
namespace Monotype

/-- The last constructor of a name in a list. -/
def Constructor.lastNamed? (name : String) (cs : List Constructor) : Option Constructor :=
  (cs.filter (·.name = name)).getLast?

theorem Constructor.lastNamed?_eq_none_iff {name : String} {cs : List Constructor} :
    Constructor.lastNamed? name cs = none ↔ ∀ c ∈ cs, c.name ≠ name := by
  rw [Constructor.lastNamed?, List.getLast?_eq_none_iff, List.filter_eq_nil_iff]
  simp

namespace Registry
variable {r : Registry}

/-- Enters constructors into the common table, one after the other. -/
def registerAll (r : Registry) (cs : List Constructor) : Registry :=
  cs.foldl (fun r c => (r.register c).2) r

theorem registerAll_append (r : Registry) (cs ds : List Constructor) :
    r.registerAll (cs ++ ds) = (r.registerAll cs).registerAll ds :=
  List.foldl_append

theorem constructor?_registerAll (r : Registry) (cs : List Constructor) (name : String) :
    (r.registerAll cs).constructor? name =
      (Constructor.lastNamed? name cs).or (r.constructor? name) := by
  unfold registerAll Constructor.lastNamed?
  induction cs generalizing r with
  | nil => rfl
  | cons c cs ih =>
    rw [List.foldl_cons, ih, constructor?_register]
    by_cases hname : c.name = name
    · rw [if_pos hname, List.filter_cons_of_pos (by simpa using hname), List.getLast?_cons]
      cases (cs.filter (·.name = name)).getLast? <;> rfl
    · rw [if_neg hname, List.filter_cons_of_neg (by simpa using hname)]

theorem constructorsOf?_registerAll (r : Registry) (cs : List Constructor) (adt : String) :
    (r.registerAll cs).constructorsOf? adt = r.constructorsOf? adt := by
  unfold registerAll
  induction cs generalizing r with
  | nil => rfl
  | cons c cs ih => exact ih _

theorem constructorsOf?_declare_self (r : Registry) (name : String) (d : TypeDef)
    (origin : NodeId) {cs : List Constructor}
    (h : (r.declare name d origin).constructorsOf? name = some cs) : cs = d.constructors := by
  unfold constructorsOf? at h
  rw [type?_declare, if_pos rfl] at h
  cases d with
  | adt constructors => exact (Option.some.inj h).symm
  | _ => cases h

theorem constructorsOf?_declare_of_ne (r : Registry) {name adt : String} (hne : name ≠ adt)
    (d : TypeDef) (origin : NodeId) :
    (r.declare name d origin).constructorsOf? adt = r.constructorsOf? adt := by
  unfold constructorsOf?
  rw [type?_declare, if_neg hne]

/-- What the common table has under a name is the last constructor that its sum type lists under it,
if the sum type lists any. -/
def Settled (r : Registry) : Prop :=
  ∀ name c cs, r.constructor? name = some c → r.constructorsOf? c.adtName = some cs →
    ∀ d, Constructor.lastNamed? name cs = some d → d = c

theorem settled_empty : ({} : Registry).Settled := by
  intro name c cs hc
  simp [constructor?] at hc

/-- A whole declaration leaves the tables settled. -/
theorem Settled.declare (h : r.Settled) {name : String} {d : TypeDef} (origin : NodeId)
    (hd : ∀ c ∈ d.constructors, c.adtName = name) :
    ((r.declare name d origin).registerAll d.constructors).Settled := by
  intro key c cs hc hcs e he
  rw [constructor?_registerAll] at hc
  rw [constructorsOf?_registerAll] at hcs
  cases hlast : Constructor.lastNamed? key d.constructors with
  | some new =>
    -- the declaration enters the last of its constructors under this name
    rw [hlast] at hc
    obtain rfl := Option.some.inj hc
    have hmem : new ∈ d.constructors := (List.mem_filter.1 (List.mem_of_getLast? hlast)).1
    rw [hd new hmem] at hcs
    obtain rfl := constructorsOf?_declare_self r name d origin hcs
    exact Option.some.inj (he.symm.trans hlast)
  | none =>
    -- the constructor was there before, and the declaration lists none of its name
    rw [hlast] at hc
    by_cases hadt : name = c.adtName
    · rw [← hadt] at hcs
      obtain rfl := constructorsOf?_declare_self r name d origin hcs
      simp [hlast] at he
    · rw [constructorsOf?_declare_of_ne r hadt] at hcs
      exact h key c cs hc hcs e he

end Registry

namespace Check
variable {α β : Type} {cfg : Config} {s : Run}

/-- Scopes are entered with settled tables only. -/
def Act.Timely (act : Act) (run : Run) : Prop := act = .enter → run.registry.Settled

/-- Carried out from `s`, all actions of `x` are timely, and if `x` ends well then the declarations
are as `post` says. -/
def Leaves (cfg : Config) (x : Check α) (s : Run) (post : Registry → Prop) : Prop :=
  Plan.Safe (Act.perform cfg) Act.Timely x s fun r s' => ∀ a, r = .ok a → post s'.registry

theorem Leaves.pure {post : Registry → Prop} (a : α) (h : post s.registry) :
    Leaves cfg (pure a) s post :=
  fun _ _ => h

theorem Leaves.bind {x : Check α} {f : α → Check β} {mid post : Registry → Prop}
    (hx : Leaves cfg x s mid)
    (hf : ∀ a s', x.run cfg s = (.ok a, s') → mid s'.registry → Leaves cfg (f a) s' post) :
    Leaves cfg (x >>= f) s post := by
  refine Plan.Safe.bind (f := ExceptT.bindCont f) hx.with_run ?_
  rintro (e | a) s' ⟨hmid, hrun⟩
  · exact fun _ ha => by cases ha
  · exact hf a s' hrun (hmid a rfl)

theorem Leaves.mono {x : Check α} {post post' : Registry → Prop} (h : Leaves cfg x s post)
    (himp : ∀ r, post r → post' r) : Leaves cfg x s post' :=
  Plan.Safe.mono h fun _ _ hpost a ha => himp _ (hpost a ha)

theorem Leaves.run {x : Check α} {a : α} {s' : Run} {post : Registry → Prop}
    (h : Leaves cfg x s post) (hrun : x.run cfg s = (.ok a, s')) : post s'.registry := by
  have hend : ∀ a, (x.run cfg s).1 = .ok a → post (x.run cfg s).2.registry := Plan.Safe.run h
  rw [hrun] at hend
  exact hend a rfl

/-! ## Steps that enter constructors -/

/-- Of all declarations, `x` only enters these constructors, and it enters no scope. -/
def Registers (cfg : Config) (x : Check α) (cs : List Constructor) : Prop :=
  ∀ s, Leaves cfg x s (· = s.registry.registerAll cs)

namespace Registers

theorem pure (a : α) : Registers cfg (pure a) [] := fun _ => .pure a rfl

theorem bind {x : Check α} {f : α → Check β} {cs ds : List Constructor} (hx : Registers cfg x cs)
    (hf : ∀ a, Registers cfg (f a) ds) : Registers cfg (x >>= f) (cs ++ ds) := by
  intro s
  refine (hx s).bind fun a s' _ hmid => (hf a s').mono fun r hr => ?_
  rw [hr, hmid, Registry.registerAll_append]

theorem config {f : Config → Check β} {cs : List Constructor} (hf : Registers cfg (f cfg) cs) :
    Registers cfg (Check.config >>= f) cs :=
  fun s => ⟨by simp [Act.Timely], hf s⟩

theorem act {a : Act} {cs : List Constructor} (henter : a ≠ .enter)
    (h : ∀ s, (a.perform cfg s).2.registry = s.registry.registerAll cs) :
    Registers cfg (act a) cs :=
  fun s => ⟨fun heq => absurd heq henter, fun _ _ => h s⟩

theorem solving (site : Site) (x : Solve α) (s : Run) :
    Plan.Safe (Act.perform cfg) Act.Timely (solving site x) s fun _ s' =>
      s'.registry = s.registry := by
  induction x generalizing s with
  | done a => rfl
  | step act next ih =>
    cases act with
    | store act => exact ⟨by simp [Act.Timely], ih _ _⟩
    | fail e => exact ⟨by simp [Act.Timely], ih _ _⟩

theorem unify (l r : Ty) (site : Site) : Registers cfg (unify l r site) [] := by
  have hstate : Registers cfg Check.state [] := act (by simp) fun _ => rfl
  refine hstate.bind fun run => config fun s => ?_
  exact Plan.Safe.bind (solving site _ s) fun _ s' h _ _ => h

end Registers

/-- Steps that are put together enter the constructors of all of them. -/
def constructorSurvey : Survey (List Constructor) where
  nothing := []
  andThen := (· ++ ·)
  nothing_andThen := List.nil_append
  andThen_nothing := List.append_nil

theorem registerSteps (cfg : Config) : constructorSurvey.Steps cfg (Registers cfg) where
  pure := .pure
  bind := .bind
  config := .config
  act a h := by
    cases a with
    | bindName _ _ | enter | leave | declareType _ _ _ | register _ => exact h.elim
    | _ => exact .act (by simp) fun _ => rfl
  unify := .unify

theorem declareConstructor_registers (adt : String) (option : Ident) (c : Constructor) :
    Registers cfg (declareConstructor adt option c) [c] := by
  have hlist : Registers cfg (addSymbol option c.ty .constructor) [] :=
    (registerSteps cfg).addSymbol _ _ _
  have hregister : Registers cfg (act (.register c)) [c] := .act (by simp) fun _ => rfl
  refine hregister.bind fun displaced => .config ?_
  split
  · split
    · split
      · exact (registerSteps cfg).before (.act (by simp) fun _ => rfl) fun _ => hlist
      · exact hlist
    · exact hlist
  · exact hlist

theorem declareConstructors_registers {adt : String} {options : List AdtOption}
    {cs : List Constructor}
    (h : List.Forall₂ (fun option c => c.name = option.name.name ∧ c.adtName = adt) options cs) :
    Registers cfg (declareConstructors adt options cs) cs := by
  induction h with
  | nil => exact .pure _
  | cons _ _ ih => exact .bind (declareConstructor_registers _ _ _) fun _ => ih

/-! ## Steps that leave the tables settled -/

/-- From settled tables, `x` comes to settled tables. -/
def Settles (cfg : Config) (x : Check α) : Prop :=
  ∀ s : Run, s.registry.Settled → Leaves cfg x s Registry.Settled

namespace Settles

theorem pure (a : α) : Settles cfg (pure a) := fun _ h => .pure a h

theorem throw (e : Malformed) : Settles cfg (throw e : Check α) := fun _ _ _ ha => by cases ha

theorem bind {x : Check α} {f : α → Check β} (hx : Settles cfg x) (hf : ∀ a, Settles cfg (f a)) :
    Settles cfg (x >>= f) :=
  fun s h => (hx s h).bind fun a s' _ hmid => hf a s' hmid

theorem of_registers {x : Check α} (h : Registers cfg x []) : Settles cfg x := by
  intro s hs
  refine (h s).mono ?_
  rintro _ rfl
  exact hs

theorem act {a : Act} (ha : a.Lasting) : Settles cfg (act a) := by
  intro s hs
  refine ⟨fun _ => hs, fun _ _ => ?_⟩
  cases a with
  | declareType _ _ _ | register _ => exact ha.elim
  | _ => exact hs

theorem composes : Composes cfg (Settles cfg) where
  pure := .pure
  bind := .bind
  config h := fun s hs => ⟨by simp [Act.Timely], h s hs⟩
  act _ := .act
  unify l r site := .of_registers (.unify l r site)

end Settles

/-! ## Declarations of types -/

/-- The list of a sum type is replaced, and then all that it lists is entered. -/
theorem declare_settles (name : Ident) {d : TypeDef} {rest : Check Unit}
    (hrest : Registers cfg rest d.constructors) (hd : ∀ c ∈ d.constructors, c.adtName = name.name) :
    Settles cfg (do
      act (.declareType name.name d name.site.node)
      addSymbol name (d.toTy name.name) .type
      rest) := by
  intro s hs
  have hsymbol : Registers cfg (addSymbol name (d.toTy name.name) .type) [] :=
    (registerSteps cfg).addSymbol _ _ _
  refine ⟨by simp [Act.Timely], (hsymbol.bind (fun _ => hrest) _).mono ?_⟩
  rintro _ rfl
  exact hs.declare name.site.node hd

/-- Only the declaration of a sum type lists constructors: one for each option, all of them its
own. -/
theorem lowerDef_constructors {name : String} {ty : TypeExpr} {s s' : Run} {d : TypeDef}
    (h : (lowerDef name ty).run cfg s = (.ok d, s')) :
    (∃ site options cs, ty = .adt site options ∧ d = .adt cs ∧
      List.Forall₂ (fun option c => c.name = option.name.name ∧ c.adtName = name) options cs) ∨
    d.constructors = [] := by
  cases ty with
  | adt site options =>
    obtain ⟨cs, s₁, hcs, h, -⟩ := run_bind_eq_ok h
    cases h
    exact .inl ⟨site, options, cs, rfl, rfl, lowerOptions_names name hcs⟩
  | prim site p =>
    cases h
    exact .inr rfl
  | fn site params result =>
    obtain ⟨_, s₁, -, h, -⟩ := run_bind_eq_ok h
    obtain ⟨_, s₂, -, h, -⟩ := run_bind_eq_ok h
    cases h
    exact .inr rfl
  | _ =>
    obtain ⟨_, s₁, -, h, -⟩ := run_bind_eq_ok h
    cases h
    exact .inr rfl

theorem declareType_settles (name : Ident) (ty : TypeExpr) :
    Settles cfg (declareType name ty) := by
  intro s hs
  refine ((registerSteps cfg).lowerDef name.name ty s).bind fun d s₁ hrun hmid => ?_
  have hs₁ : s₁.registry.Settled := by
    rw [hmid]
    exact hs
  rcases lowerDef_constructors hrun with ⟨site, options, cs, rfl, rfl, hoptions⟩ | hnone
  · refine declare_settles name (declareConstructors_registers hoptions) ?_ s₁ hs₁
    intro c hc
    obtain ⟨i, hi, rfl⟩ := List.mem_iff_getElem.1 hc
    exact (hoptions.get (hoptions.length_eq ▸ hi) hi).2
  · refine declare_settles name ?_ (by simp [hnone]) s₁ hs₁
    rw [hnone]
    split
    · next options cs =>
      obtain rfl : cs = [] := hnone
      cases options <;> exact .pure _
    · exact .pure _

theorem settleSteps (cfg : Config) : constructorSurvey.Steps cfg (fun x _ => Settles cfg x) where
  pure := .pure
  bind := .bind
  config := Settles.composes.config
  act a h := .of_registers ((registerSteps cfg).act a h)
  unify := Settles.composes.unify

/-- Each part of the walk over a program leaves the tables settled. -/
theorem settleRules (cfg : Config) : constructorSurvey.Rules cfg (fun x _ => Settles cfg x) where
  toSteps := settleSteps cfg
  used := Settles.composes.inferIdent
  param name t := Settles.composes.declare name t .param
  assigned := Settles.composes.declareAssigned
  imported := Settles.composes.declareImport
  exported := Settles.composes.checkExport
  declared := declareType_settles
  acceptSum := Settles.composes.acceptSum
  acceptLiteral scrutinee pattern _ := Settles.composes.acceptLiteral scrutinee pattern
  closing site _ closing := (settleSteps cfg).checkClosing site .throw closing
  component := Settles.composes.checkComponent
  branchless _ := .throw _
  whole _ _ h := h
  inScope h := Settles.composes.inScope h
  arms h := h
  unmatched _ _ _ := .bind (.act trivial) fun _ => Settles.composes.recover _ _

theorem checkStmts_settles (stmts : List Stmt) : Settles cfg (checkStmts stmts) :=
  (settleRules cfg).checkStmts stmts

theorem program_settles (p : Program) : Settles cfg (program p) :=
  (checkStmts_settles p).bind fun _ => .of_registers (registerSteps cfg).finish

end Check

namespace Checker
variable {c : Checker} {p : Program} {s : Run}

/-- The states of a check between two statements, before the first and after the last one: those of
the program itself, or those of a block that the check has come to. -/
inductive Between (c : Checker) (p : Program) : Run → Prop where
  | program {first rest : List Stmt} {s : Run} (hp : p = first ++ rest)
      (hrun : (Check.checkStmts first).run c.config c.run.reset = (.ok (), s)) : Between c p s
  | block {site : Site} {first rest : List Stmt} {result : Option Expr} {before s : Run}
      {rest' : Ty → Check Output}
      (hreaches : Plan.Reaches (Check.Act.perform c.config) (Check.program p) c.run.reset
        (Check.inferBlock ⟨site, first ++ rest, result⟩ >>= rest' : Check Output) before)
      (hrun : (Check.checkStmts first).run c.config
        { before with scopes := before.scopes.push.2 } = (.ok (), s)) : Between c p s

theorem Between.settled (h : c.Between p s) : s.registry.Settled := by
  cases h with
  | program hp hrun =>
    exact (Check.checkStmts_settles _ _ Registry.settled_empty).run hrun
  | @block _ _ _ _ before _ _ hreaches hrun =>
    -- the next action at the block is to enter its scope
    have hsafe := (Check.program_settles p _ Registry.settled_empty).reaches hreaches
    have hentered : { before with scopes := before.scopes.push.2 }.registry.Settled := hsafe.1 rfl
    exact (Check.checkStmts_settles _ _ hentered).run hrun

theorem Between.anchored (h : c.Between p s) : s.Anchored := by
  cases h with
  | program hp hrun =>
    exact (Vocabulary.obeys_checkStmts (.reset .declared c.run) hrun).anchored
  | block hreaches hrun =>
    have hreset : c.run.reset.Obeys .declared := .reset _ c.run
    have hsafe := (Vocabulary.program_keeps p _ hreset le_rfl).reaches hreaches
    have hentered := (hsafe.1.1.perform c.config .enter trivial).1
    exact (Vocabulary.obeys_checkStmts hentered hrun).anchored

end Checker

/-- What is built and what is matched under a name is this constructor: the name, where no
declaration is in sight, has its type, a match on values of its sum type goes by the constructors of
that, and a pattern of the name is then checked against its parameters. -/
structure Run.Matches (cfg : Config) (name : String) (con : Constructor) (s : Run) : Prop where
  listed : s.registry.constructorOf? con.adtName name = some con
  form : ∀ patterns, MatchForm.of s.registry (.adt con.adtName) patterns = .onSum con.adtName
  built : ∀ ident : Ident, ident.name = name → s.scopes.lookup name = none →
    (Check.inferIdent ident).run cfg s = (.ok con.ty, s)
  matched : ∀ (site : Site) (ident : Ident) (scrutinee : Ty) (args : List Pattern),
    ident.name = name →
    (Check.acceptSum con.adtName scrutinee (.constructor site ident args)).run cfg s =
      (Check.acceptArgs site name con.params args).run cfg s

theorem Run.matches_of_listed {cfg : Config} {s : Run} {name : String} {con : Constructor}
    (hcon : s.registry.constructor? name = some con)
    (hlisted : s.registry.constructorOf? con.adtName name = some con) : s.Matches cfg name con where
  listed := hlisted
  form patterns := by
    obtain ⟨cs, hcs, -⟩ := Option.bind_eq_some_iff.1 hlisted
    simp [MatchForm.of, hcs]
  built ident hident hfree := by
    subst hident
    have hlookup := Check.run_lookupValue cfg ident.name s
    rw [Check.inferIdent, Check.run_bind, hlookup]
    simp [Run.value?, hfree, hcon]
  matched site ident scrutinee args hident := by
    subst hident
    have hstate : Check.state.run cfg s = (.ok s, s) := rfl
    rw [Check.acceptSum, Check.run_bind, hstate]
    simp [hlisted]

namespace Checker
variable {c : Checker} {p : Program} {s : Run}

/-- Between two statements of a check, take a constructor that has its name in the common table and
whose sum type still is one. Either the list of the sum type was replaced by one without the name,
or the constructor is the last of its name in the list. And if the list has the name once, then what
is built under it is what is matched under it, for as long as the declarations stay as they are. -/
theorem constructors_agree (hs : c.Between p s) {name : String} {con : Constructor}
    {listed : List Constructor} (hcon : s.registry.constructor? name = some con)
    (hlisted : s.registry.constructorsOf? con.adtName = some listed) :
    con.ty = .fn con.params (.adt con.adtName) ∧ con.params.length ≤ 1 ∧
    ((∀ d ∈ listed, d.name ≠ name) ∨ Constructor.lastNamed? name listed = some con) ∧
    ((listed.filter (·.name = name)).length = 1 →
      ∀ s' : Run, s'.registry = s.registry → s'.Matches c.config name con) := by
  obtain ⟨-, hformed, -⟩ := hs.anchored.table name con hcon
  obtain ⟨params, hty, hle⟩ := hformed.ty_eq
  have hparams : con.params = params := by simp [Constructor.params, hty]
  have hsettled := hs.settled name con listed hcon hlisted
  refine ⟨hparams ▸ hty, hparams ▸ hle, ?_, ?_⟩
  · cases hlast : Constructor.lastNamed? name listed with
    | none => exact .inl (Constructor.lastNamed?_eq_none_iff.1 hlast)
    | some d => exact .inr (congrArg some (hsettled d hlast))
  · intro hone s' hs'
    obtain ⟨d, hd⟩ := List.length_eq_one_iff.1 hone
    have hlast : Constructor.lastNamed? name listed = some d := by
      rw [Constructor.lastNamed?, hd, List.getLast?_singleton]
    have hfirst : listed.find? (·.name = name) = some d := by
      rw [← List.head?_filter, hd, List.head?_singleton]
    obtain rfl : d = con := hsettled d hlast
    apply Run.matches_of_listed
    · rw [hs', hcon]
    · rw [hs', Registry.constructorOf?, hlisted]
      exact hfirst

def boxDeclaration : Stmt :=
  .typeDecl {} ⟨"Box", {}⟩ (.adt {} [⟨{}, ⟨"Full", {}⟩, .prim .number⟩, ⟨{}, ⟨"Empty", {}⟩, .none⟩])

/-- A block that declares a sum type and uses one of its constructors. -/
def boxBlock : Block := ⟨{}, [boxDeclaration, .expr {} ⟨{}, .ident {} ⟨"Full", {}⟩, []⟩], none⟩

def boxProgram : Program := [.expr {} ⟨{}, .block {} boxBlock, []⟩]

/-- Between the two statements of the block. -/
theorem constructors_agree_box :
    ∃ s con, ({} : Checker).Between boxProgram s ∧ s.registry.constructor? "Full" = some con ∧
      con.ty = .fn [.number] (.adt "Box") ∧ s.Matches {} "Full" con := by
  obtain ⟨rest, hrest⟩ : ∃ rest : Ty → Check Output,
      Check.program boxProgram = Check.inferBlock boxBlock >>= rest := by
    apply Exists.intro
    simp only [boxProgram, Check.program, Check.checkStmts, Check.checkStmt, Check.inferExpr,
      Check.inferPrimary, bind_assoc]
    rfl
  have hreaches : Plan.Reaches (Check.Act.perform {}) (Check.program boxProgram) (Run.reset {})
      (Check.inferBlock boxBlock >>= rest : Check Output) (Run.reset {}) := by
    rw [hrest]
    exact .here
  let s := ((Check.checkStmts [boxDeclaration]).run {} { scopes := (Run.reset {}).scopes.push.2 }).2
  have hrun : (Check.checkStmts [boxDeclaration]).run {}
      { scopes := (Run.reset {}).scopes.push.2 } = (.ok (), s) := rfl
  have hs : ({} : Checker).Between boxProgram s :=
    @Between.block _ _ _ [boxDeclaration] _ _ _ _ _ hreaches hrun
  have hcon : s.registry.constructor? "Full" =
      some (.ofParams "Box" "Full" [.number] 0) := by decide +kernel
  have hlisted : s.registry.constructorsOf? "Box" =
      some [.ofParams "Box" "Full" [.number] 0, .ofParams "Box" "Empty" [] 0] := by decide +kernel
  obtain ⟨-, -, -, hmatches⟩ := constructors_agree hs hcon hlisted
  exact ⟨s, _, hs, hcon, rfl, hmatches (by decide) s rfl⟩

open Sketch in
/-- A sum type that is declared again without its constructor. -/
def replacedProgram : Program :=
  (build [.typeDecl "A" (.adt [.bare "X"]), .typeDecl "A" (.adt [.bare "Y"])]).1

open Sketch in
/-- A sum type that lists one name twice. -/
def doubledProgram : Program :=
  (build [.typeDecl "A" (.adt [.bare "X", .prim "X" .number])]).1

/-- In neither of the two does the sum type give, under a name, the constructor that has the name in
the common table: the first gives none, the second one with another number of parameters. -/
theorem constructors_disagree :
    (∃ s con, ({} : Checker).Between replacedProgram s ∧
      s.registry.constructor? "X" = some con ∧
      (s.registry.constructorsOf? con.adtName).isSome ∧
      s.registry.constructorOf? con.adtName "X" = none) ∧
    ∃ s con first, ({} : Checker).Between doubledProgram s ∧
      s.registry.constructor? "X" = some con ∧
      s.registry.constructorOf? con.adtName "X" = some first ∧
      con.params = [.number] ∧ first.params = [] := by
  constructor
  · let s := ((Check.checkStmts replacedProgram).run {} (Run.reset {})).2
    have hrun : (Check.checkStmts replacedProgram).run {} (Run.reset {}) = (.ok (), s) := rfl
    exact ⟨s, .ofParams "A" "X" [] 1, .program (List.append_nil _).symm hrun, by decide +kernel,
      by decide +kernel, by decide +kernel⟩
  · let s := ((Check.checkStmts doubledProgram).run {} (Run.reset {})).2
    have hrun : (Check.checkStmts doubledProgram).run {} (Run.reset {}) = (.ok (), s) := rfl
    exact ⟨s, .ofParams "A" "X" [.number] 3, .ofParams "A" "X" [] 1,
      .program (List.append_nil _).symm hrun, by decide +kernel, by decide +kernel, rfl, rfl⟩

end Checker

end Monotype
