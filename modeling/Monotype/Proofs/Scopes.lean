import Monotype.Scopes

/-! Scopes as a stack of maps. Whatever tables are kept in the pool from scopes that were left, the
operations answer as they would on a list of maps that is never empty. And on a bare pool with a
list of places, where nothing says that there is a table in a place, the same operations never look
for one in vain. -/
namespace Monotype.Scopes

/-! ## The innermost table and those around it -/

section
variable {s s' : Scopes}

theorem current_eq_of_depth (h : s'.depth = s.depth) : s'.current = s.current := by
  unfold current
  rw [h]

/-- The tables are the innermost one and those around it. -/
theorem live_eq_cons (s : Scopes) : s.live = s.innermost :: s.live.tail := by
  rw [s.live_eq, List.tail_cons]

/-- Where the tables around the innermost one are the same, there are as many. -/
theorem depth_eq_of_tail (h : s'.live.tail = s.live.tail) : s'.depth = s.depth := by
  rw [← length_live, ← length_live, s'.live_eq_cons, s.live_eq_cons, List.length_cons,
    List.length_cons, h]

theorem live_eq_iff :
    s'.live = s.live ↔ s'.innermost = s.innermost ∧ s'.live.tail = s.live.tail := by
  rw [s'.live_eq_cons, s.live_eq_cons, List.cons.injEq, List.tail_cons, List.tail_cons]

theorem innermost_insert (s : Scopes) (name : String) (b : Binding) :
    (s.insert name b).2.innermost = s.innermost.insert name b := by
  have hlive := s.live_insert name b
  rw [live_eq_cons] at hlive
  exact (List.cons.inj hlive).1

/-- A name that the innermost scope declares is found there. -/
theorem lookup_of_innermost {name : String} {b : Binding} (h : s.innermost[name]? = some b) :
    s.lookup name = some b := by
  rw [lookup, s.live_eq_cons, List.findSome?_cons, h]

theorem declaresHere_of_some {name : String} {b : Binding} (h : s.innermost[name]? = some b) :
    s.declaresHere name = true := by
  rw [declaresHere, Std.TreeMap.contains_eq_isSome_getElem?, h, Option.isSome_some]

theorem declaresHere_of_none {name : String} (h : s.innermost[name]? = none) :
    s.declaresHere name = false := by
  rw [declaresHere, Std.TreeMap.contains_eq_isSome_getElem?, h, Option.isSome_none]

/-- A scope that is entered and left again uncovers what was there before. -/
theorem live_pop_of_tail (h : s'.live.tail = s.live) : s'.pop.live = s.live := by
  have hlength : s'.depth - 1 = s.depth := by
    rw [← length_live, ← length_live, ← h, List.length_tail]
  have hpos := s.depth_pos
  rw [live_pop, if_pos (by omega), h]

end

/-- What scopes are used for. -/
inductive Op where
  | push
  | pop
  | insert (name : String) (b : Binding)
  | declaresHere (name : String)
  | lookup (name : String)
  | reset
  | depth
  | current

/-- What an operation answers. -/
inductive Answer where
  | nothing
  | number (n : Nat)
  | verdict (yes : Bool)
  | binding (b : Option Binding)
  deriving DecidableEq, Repr

def perform : Op → StateM Scopes Answer
  | .push, s => (.number s.push.1, s.push.2)
  | .pop, s => (.nothing, s.pop)
  | .insert name b, s => (.binding (s.insert name b).1, (s.insert name b).2)
  | .declaresHere name, s => (.verdict (s.declaresHere name), s)
  | .lookup name, s => (.binding (s.lookup name), s)
  | .reset, s => (.nothing, s.reset)
  | .depth, s => (.number s.depth, s)
  | .current, s => (.number s.current, s)

/-- The answers to operations one after the other, and the state after the last. -/
theorem mapM_cons_run {σ α β : Type} (f : α → StateM σ β) (a : α) (as : List α) (s : σ) :
    (a :: as).mapM f s =
      ((f a s).1 :: (as.mapM f (f a s).2).1, (as.mapM f (f a s).2).2) := by
  rw [List.mapM_cons]
  rfl

/-! ## A list of maps -/

/-- Maps one inside the other: there is always an innermost one. -/
structure Nest where
  inner : Scope := ∅
  /-- The maps around it, from the inside out. -/
  outer : List Scope := []

namespace Nest

/-- All maps, the innermost first. -/
def maps (n : Nest) : List Scope := n.inner :: n.outer

/-- The innermost map is taken away, unless it is the only one. -/
def pop : Nest → Nest
  | ⟨_, m :: outer⟩ => ⟨m, outer⟩
  | ⟨m, []⟩ => ⟨m, []⟩

def perform : Op → StateM Nest Answer
  | .push, n => (.number n.maps.length, ⟨∅, n.maps⟩)
  | .pop, n => (.nothing, n.pop)
  | .insert name b, n => (.binding n.inner[name]?, { n with inner := n.inner.insert name b })
  | .declaresHere name, n => (.verdict (n.inner.contains name), n)
  | .lookup name, n => (.binding (n.maps.findSome? (·[name]?)), n)
  | .reset, _ => (.nothing, {})
  | .depth, n => (.number n.maps.length, n)
  | .current, n => (.number n.outer.length, n)

end Nest

/-- The tables in use are the maps of `n`. -/
def Shows (s : Scopes) (n : Nest) : Prop := s.live = n.maps

namespace Shows
variable {s : Scopes} {n : Nest}

theorem innermost (h : s.Shows n) : s.innermost = n.inner := by
  unfold Shows at h
  rw [s.live_eq] at h
  exact (List.cons.inj h).1

theorem tail (h : s.Shows n) : s.live.tail = n.outer := congrArg List.tail h

theorem depth (h : s.Shows n) : s.depth = n.outer.length + 1 := by
  rw [← s.length_live, h]
  rfl

theorem current (h : s.Shows n) : s.current = n.outer.length := by
  have := h.depth
  unfold Scopes.current
  omega

/-- Leaving a scope uncovers the map around it, and nothing of the table that stays in the pool. -/
theorem pop (h : s.Shows n) : s.pop.Shows n.pop := by
  have hdepth := h.depth
  have htail := h.tail
  unfold Shows at h ⊢
  rw [live_pop]
  obtain ⟨inner, outer⟩ := n
  cases outer with
  | nil =>
    rw [if_neg (by simp at hdepth; omega)]
    exact h
  | cons m outer =>
    rw [if_pos (by simp at hdepth; omega), htail]
    rfl

/-- One operation gives the same answer on both sides and leaves the same maps. -/
theorem perform (h : s.Shows n) (op : Op) :
    (Scopes.perform op s).1 = (Nest.perform op n).1 ∧
      (Scopes.perform op s).2.Shows (Nest.perform op n).2 := by
  cases op with
  | push =>
    constructor
    · show Answer.number s.push.1 = .number n.maps.length
      rw [push_fst, h.depth]
      rfl
    · show s.push.2.live = ∅ :: n.maps
      rw [live_push, h]
  | pop => exact ⟨rfl, h.pop⟩
  | insert name b =>
    constructor
    · show Answer.binding s.innermost[name]? = .binding n.inner[name]?
      rw [h.innermost]
    · show (s.insert name b).2.live = n.inner.insert name b :: n.outer
      rw [live_insert, h.innermost, h.tail]
  | declaresHere name =>
    refine ⟨?_, h⟩
    show Answer.verdict (s.innermost.contains name) = .verdict (n.inner.contains name)
    rw [h.innermost]
  | lookup name =>
    refine ⟨?_, h⟩
    show Answer.binding (s.live.findSome? (·[name]?)) = .binding (n.maps.findSome? (·[name]?))
    rw [h]
  | reset => exact ⟨rfl, s.live_reset⟩
  | depth => exact ⟨congrArg Answer.number h.depth, h⟩
  | current => exact ⟨congrArg Answer.number h.current, h⟩

/-- So do any number of operations. -/
theorem performAll (h : s.Shows n) (ops : List Op) :
    (ops.mapM Scopes.perform s).1 = (ops.mapM Nest.perform n).1 ∧
      (ops.mapM Scopes.perform s).2.Shows (ops.mapM Nest.perform n).2 := by
  induction ops generalizing s n with
  | nil => exact ⟨rfl, h⟩
  | cons op ops ih =>
    obtain ⟨hanswer, hstep⟩ := h.perform op
    obtain ⟨hrest, hend⟩ := ih hstep
    rw [mapM_cons_run, mapM_cons_run, hanswer, hrest]
    exact ⟨rfl, hend⟩

end Shows

/-! ## A bare pool -/

/-- A pool of tables, and the places of the open scopes in it, the innermost last. -/
structure Arena where
  pool : Array Scope := #[∅]
  stack : List Nat := [0]

namespace Arena

/-- The first binding of a name in the tables of some places. -/
def find (pool : Array Scope) (name : String) : List Nat → Option (Option Binding)
  | [] => some none
  | place :: places => do
    let table ← pool[place]?
    match table[name]? with
    | some b => some (some b)
    | none => find pool name places

/-- The operations on bare data. There is no result where a place is asked for that is not there. -/
def perform : Op → StateT Arena Option Answer
  | .push, a =>
    if a.stack.length = a.pool.size then
      some (.number a.stack.length,
        { pool := a.pool.push ∅, stack := a.stack ++ [a.stack.length] })
    else if h : a.stack.length < a.pool.size then
      some (.number a.stack.length,
        { pool := a.pool.set a.stack.length ∅ h, stack := a.stack ++ [a.stack.length] })
    else none
  | .pop, a =>
    some (.nothing, if 1 < a.stack.length then { a with stack := a.stack.dropLast } else a)
  | .insert name b, a => do
    let place ← a.stack.getLast?
    let table ← a.pool[place]?
    some (.binding table[name]?,
      { a with pool := a.pool.setIfInBounds place (table.insert name b) })
  | .declaresHere name, a => do
    let place ← a.stack.getLast?
    let table ← a.pool[place]?
    some (.verdict (table.contains name), a)
  | .lookup name, a => do
    let b ← find a.pool name a.stack.reverse
    some (.binding b, a)
  | .reset, a => some (.nothing, { pool := a.pool.map fun _ => ∅, stack := a.stack.take 1 })
  | .depth, a => some (.number a.stack.length, a)
  | .current, a => do
    let place ← a.stack.getLast?
    some (.number place, a)

end Arena

/-- The bare data of scopes: the first places of the pool are open. -/
def arena (s : Scopes) : Arena := { pool := s.pool, stack := List.range s.depth }

@[simp] theorem pool_arena (s : Scopes) : s.arena.pool = s.pool := rfl

@[simp] theorem length_arena (s : Scopes) : s.arena.stack.length = s.depth := List.length_range

theorem getLast?_arena (s : Scopes) : s.arena.stack.getLast? = some s.current := by
  show (List.range s.depth).getLast? = some s.current
  rw [s.depth_eq, List.range_succ, List.getLast?_concat]

theorem innermost_arena (s : Scopes) : s.pool[s.current]? = some s.innermost :=
  Array.getElem?_eq_getElem s.current_lt

/-- The first `n` places can be searched where the pool has as many tables. -/
theorem find_arena (pool : Array Scope) (name : String) :
    ∀ n ≤ pool.size, Arena.find pool name (List.range n).reverse =
      some ((pool.toList.take n).reverse.findSome? (·[name]?)) := by
  intro n
  induction n with
  | zero => intro _; rfl
  | succ n ih =>
    intro hn
    have hlt : n < pool.size := hn
    have htable : pool[n]? = some pool[n] := Array.getElem?_eq_getElem hlt
    rw [List.range_succ, List.reverse_append, reverse_take_succ _ _ (by simpa using hlt)]
    show Arena.find pool name (n :: (List.range n).reverse) = _
    simp only [Arena.find, htable, Option.bind_eq_bind, Option.bind_some, Array.getElem_toList,
      List.findSome?_cons]
    cases pool[n][name]? with
    | some b => rfl
    | none => exact ih (by omega)

theorem arena_push (s : Scopes) :
    s.push.2.arena =
      { pool := if h : s.depth < s.pool.size then s.pool.set s.depth ∅ h else s.pool.push ∅
        stack := s.arena.stack ++ [s.depth] } := by
  have hstack : s.arena.stack ++ [s.depth] = List.range (s.depth + 1) := List.range_succ.symm
  rw [hstack]
  unfold push
  split <;> rfl

theorem arena_pop (s : Scopes) :
    s.pop.arena =
      if 1 < s.depth then { s.arena with stack := s.arena.stack.dropLast } else s.arena := by
  have hstack : s.arena.stack.dropLast = List.range s.current := by
    show (List.range s.depth).dropLast = _
    rw [s.depth_eq, List.range_succ, List.dropLast_concat]
  rw [hstack]
  unfold pop
  split <;> rfl

theorem arena_reset (s : Scopes) :
    s.reset.arena = { pool := s.pool.map fun _ => ∅, stack := s.arena.stack.take 1 } := by
  have hpool : s.pool.map (fun _ => (∅ : Scope)) = Array.replicate s.pool.size ∅ :=
    Array.map_const'
  have hstack : s.arena.stack.take 1 = List.range 1 := by
    show (List.range s.depth).take 1 = _
    rw [List.take_range, Nat.min_eq_left s.depth_pos]
  rw [hpool, hstack]
  rfl

/-- No operation on the bare data of scopes looks for a table that is not there. -/
theorem perform_arena (s : Scopes) (op : Op) :
    Arena.perform op s.arena = some ((perform op s).1, (perform op s).2.arena) := by
  have hle := s.depth_le
  cases op with
  | push =>
    simp only [Arena.perform, perform, length_arena, pool_arena, push_fst, arena_push]
    by_cases hfull : s.depth = s.pool.size
    · rw [if_pos hfull, dif_neg (by omega)]
    · rw [if_neg hfull, dif_pos (by omega), dif_pos (by omega)]
  | pop => simp only [Arena.perform, perform, length_arena, arena_pop]
  | insert name b =>
    have hset : s.pool.setIfInBounds s.current (s.innermost.insert name b) =
        s.pool.set s.current (s.innermost.insert name b) s.current_lt :=
      dif_pos s.current_lt
    simp only [Arena.perform, getLast?_arena, pool_arena, innermost_arena, Option.bind_eq_bind,
      Option.bind_some, hset]
    rfl
  | declaresHere name =>
    simp only [Arena.perform, getLast?_arena, pool_arena, innermost_arena, Option.bind_eq_bind,
      Option.bind_some]
    rfl
  | lookup name =>
    have hfind : Arena.find s.pool name s.arena.stack.reverse = some (s.lookup name) :=
      find_arena s.pool name s.depth hle
    simp only [Arena.perform, pool_arena, hfind, Option.bind_eq_bind, Option.bind_some]
    rfl
  | reset => simp only [Arena.perform, perform, pool_arena, arena_reset]
  | depth => simp only [Arena.perform, perform, length_arena]
  | current =>
    simp only [Arena.perform, getLast?_arena, Option.bind_eq_bind, Option.bind_some]
    rfl

/-- Nor do any number of operations. -/
theorem performAll_arena (s : Scopes) (ops : List Op) :
    ops.mapM Arena.perform s.arena =
      some ((ops.mapM perform s).1, (ops.mapM perform s).2.arena) := by
  induction ops generalizing s with
  | nil => rfl
  | cons op ops ih =>
    have hfirst := s.perform_arena op
    have hrest := ih (perform op s).2
    rw [mapM_cons_run, List.mapM_cons]
    show (Arena.perform op s.arena).bind
      (fun first => ((ops.mapM Arena.perform first.2).bind
        fun rest => some (first.1 :: rest.1, rest.2))) = _
    rw [hfirst, Option.bind_some, hrest, Option.bind_some]

/-- Whatever is done with new scopes, all answers are those of a list of maps; and on the bare pool,
which is the same after it, all places that are asked for are there. -/
theorem answers_eq_nest (ops : List Op) :
    (ops.mapM perform ({} : Scopes)).1 = (ops.mapM Nest.perform ({} : Nest)).1 ∧
      ops.mapM Arena.perform ({} : Arena) =
        some ((ops.mapM Nest.perform ({} : Nest)).1, (ops.mapM perform ({} : Scopes)).2.arena) := by
  have hstart : ({} : Scopes).Shows {} := rfl
  have hanswers := (hstart.performAll ops).1
  refine ⟨hanswers, ?_⟩
  rw [← hanswers]
  exact ({} : Scopes).performAll_arena ops

end Monotype.Scopes
