import Std.Data.TreeMap
import Monotype.Site
import Monotype.Ty.Basic

/-! Lexically nested scopes. The tables of scopes that have been left are kept in a pool, and the
next scope at the same depth takes the old table after emptying it; `Scopes.live` is what can be
seen of this: the tables in use, the innermost first. -/
namespace Monotype

/-- What a name stands for, and where it was declared. -/
structure Binding where
  ty : Ty
  site : Site
  deriving DecidableEq, Repr, Inhabited

/-- The names declared in one scope. -/
abbrev Scope := Std.TreeMap String Binding

/-- A pool of tables of which the first `depth` are in use; the root scope always is. -/
structure Scopes where
  pool : Array Scope := #[∅]
  depth : Nat := 1
  depth_pos : 0 < depth := by decide
  depth_le : depth ≤ pool.size := by decide

namespace Scopes

/-- The tables in use, innermost first. -/
def live (s : Scopes) : List Scope := (s.pool.toList.take s.depth).reverse

/-- The place of the innermost scope in the pool. -/
def current (s : Scopes) : Nat := s.depth - 1

theorem current_lt (s : Scopes) : s.current < s.pool.size := by
  have := s.depth_pos
  have := s.depth_le
  unfold current
  omega

/-- The innermost table. -/
def innermost (s : Scopes) : Scope :=
  have := s.current_lt
  s.pool[s.current]

/-- Enters a new scope, empty, and gives its place in the pool. -/
def push (s : Scopes) : Nat × Scopes :=
  if h : s.depth < s.pool.size then
    (s.depth,
      { pool := s.pool.set s.depth ∅ h
        depth := s.depth + 1
        depth_pos := by omega
        depth_le := by simp only [Array.size_set]; omega })
  else
    (s.depth,
      { pool := s.pool.push ∅
        depth := s.depth + 1
        depth_pos := by omega
        depth_le := by simpa using s.depth_le })

/-- Leaves the innermost scope; the root scope is never left. -/
def pop (s : Scopes) : Scopes :=
  if h : 1 < s.depth then
    { s with
      depth := s.depth - 1
      depth_pos := by omega
      depth_le := by have := s.depth_le; omega }
  else s

/-- Declares a name in the innermost scope and gives the binding that it had there. -/
def insert (s : Scopes) (name : String) (b : Binding) : Option Binding × Scopes :=
  (s.innermost[name]?,
    { s with
      pool := s.pool.set s.current (s.innermost.insert name b) s.current_lt
      depth_le := by simpa using s.depth_le })

/-- Whether the innermost scope itself declares a name. -/
def declaresHere (s : Scopes) (name : String) : Bool := s.innermost.contains name

/-- The binding of a name in the innermost scope that declares it. -/
def lookup (s : Scopes) (name : String) : Option Binding :=
  s.live.findSome? (·[name]?)

/-- Back to an empty root scope. All tables are emptied. -/
def reset (s : Scopes) : Scopes where
  pool := Array.replicate s.pool.size ∅
  depth := 1
  depth_pos := Nat.one_pos
  depth_le := by
    have := s.depth_pos
    have := s.depth_le
    simp only [Array.size_replicate]
    omega

theorem depth_eq (s : Scopes) : s.depth = s.current + 1 := by
  have := s.depth_pos
  unfold current
  omega

@[simp] theorem length_live (s : Scopes) : s.live.length = s.depth := by
  have := s.depth_le
  simp [live]
  omega

theorem reverse_take_succ {β : Type} (xs : List β) (n : Nat) (h : n < xs.length) :
    (xs.take (n + 1)).reverse = xs[n] :: (xs.take n).reverse := by
  rw [List.take_succ_eq_append_getElem h]
  simp

theorem live_eq (s : Scopes) :
    s.live = s.innermost :: (s.pool.toList.take s.current).reverse := by
  have hc := s.current_lt
  unfold live innermost
  rw [depth_eq, reverse_take_succ _ _ (by simpa using hc)]
  simp

@[simp] theorem push_fst (s : Scopes) : s.push.1 = s.depth := by
  unfold push
  split <;> rfl

@[simp] theorem live_push (s : Scopes) : s.push.2.live = ∅ :: s.live := by
  have hle := s.depth_le
  unfold push
  split
  · rename_i h
    unfold live
    rw [reverse_take_succ _ _ (by simpa using h)]
    simp [List.take_set_of_le]
  · rename_i h
    have hs : s.pool.size ≤ s.depth := by omega
    unfold live
    rw [List.take_of_length_le (by simp; omega), List.take_of_length_le (by simpa using hs)]
    simp

@[simp] theorem live_pop (s : Scopes) :
    s.pop.live = if 1 < s.depth then s.live.tail else s.live := by
  unfold pop
  split
  · rw [s.live_eq]
    rfl
  · rfl

@[simp] theorem live_insert (s : Scopes) (name : String) (b : Binding) :
    (s.insert name b).2.live = s.innermost.insert name b :: s.live.tail := by
  have hc := s.current_lt
  have hl : (s.insert name b).2.live =
      ((s.pool.toList.set s.current (s.innermost.insert name b)).take s.depth).reverse := by
    simp [live, insert]
  rw [hl, s.live_eq, depth_eq, reverse_take_succ _ _ (by simpa using hc)]
  simp [List.take_set_of_le]

@[simp] theorem live_reset (s : Scopes) : s.reset.live = [∅] := by
  have := s.depth_pos
  have := s.depth_le
  unfold reset live
  rw [reverse_take_succ _ 0 (by simp; omega)]
  simp

end Scopes

end Monotype
