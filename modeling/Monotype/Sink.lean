/-! An ordered collection that is filled during a run and emptied at its end. -/
namespace Monotype

/-- Items in the order in which they arrived. -/
structure Sink (α : Type) where
  items : Array α := #[]

namespace Sink
variable {α : Type}

def toList (s : Sink α) : List α := s.items.toList

def isEmpty (s : Sink α) : Bool := s.items.isEmpty

def push (s : Sink α) (a : α) : Sink α := ⟨s.items.push a⟩

def clear (_ : Sink α) : Sink α := {}

/-- Hands out everything collected and leaves the sink empty. -/
def take (s : Sink α) : List α × Sink α := (s.toList, s.clear)

@[simp] theorem toList_push (s : Sink α) (a : α) : (s.push a).toList = s.toList ++ [a] := by
  simp [push, toList]

@[simp] theorem toList_clear (s : Sink α) : s.clear.toList = [] := rfl

end Sink

end Monotype
