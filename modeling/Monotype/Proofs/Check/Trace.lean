import Monotype.Check.Session

/-! What a run writes: the notes, symbols and reports among its actions, and how they make up the
state in which the run ends. -/
namespace Monotype.Check
variable {α β : Type} {cfg : Config}

/-- The actions of a run from a state, in order. -/
def log (cfg : Config) (x : Check α) (s : Run) : List Act := Plan.log (Act.perform cfg) x s

/-- The types that are noted for nodes. -/
def noted (acts : List Act) : List (NodeId × Ty) :=
  acts.filterMap fun
    | .note node t => some (node, t)
    | _ => none

/-- The symbols that are listed. -/
def listed (acts : List Act) : List Symbol :=
  acts.filterMap fun
    | .symbol sym => some sym
    | _ => none

def reported (acts : List Act) : List (Report Ty) :=
  acts.filterMap fun
    | .report r => some r
    | _ => none

@[simp] theorem noted_append (xs ys : List Act) : noted (xs ++ ys) = noted xs ++ noted ys :=
  List.filterMap_append

@[simp] theorem listed_append (xs ys : List Act) : listed (xs ++ ys) = listed xs ++ listed ys :=
  List.filterMap_append

@[simp] theorem reported_append (xs ys : List Act) :
    reported (xs ++ ys) = reported xs ++ reported ys :=
  List.filterMap_append

/-! ## Runs of composed steps -/

@[simp] theorem run_pure (a : α) (s : Run) : (pure a : Check α).run cfg s = (.ok a, s) := rfl

@[simp] theorem log_pure (a : α) (s : Run) : log cfg (pure a) s = [] := rfl

@[simp] theorem run_act (a : Act) (s : Run) :
    (act a).run cfg s = (.ok (a.perform cfg s).1, (a.perform cfg s).2) := rfl

@[simp] theorem log_act (a : Act) (s : Run) : log cfg (act a) s = [a] := rfl

theorem run_bind (x : Check α) (f : α → Check β) (s : Run) :
    (x >>= f).run cfg s =
      match x.run cfg s with
      | (.ok a, s') => (f a).run cfg s'
      | (.error e, s') => (.error e, s') := by
  refine (Plan.run_bind (Act.perform cfg) x (ExceptT.bindCont f) s).trans ?_
  change Plan.run _ (ExceptT.bindCont f (x.run cfg s).1) (x.run cfg s).2 = _
  cases hx : x.run cfg s with
  | mk r s' => cases r <;> rfl

theorem log_bind (x : Check α) (f : α → Check β) (s : Run) :
    log cfg (x >>= f) s = log cfg x s ++
      match x.run cfg s with
      | (.ok a, s') => log cfg (f a) s'
      | (.error _, _) => [] := by
  refine (Plan.log_bind (Act.perform cfg) x (ExceptT.bindCont f) s).trans ?_
  change log cfg x s ++ Plan.log _ (ExceptT.bindCont f (x.run cfg s).1) (x.run cfg s).2 = _
  cases hx : x.run cfg s with
  | mk r s' => cases r <;> rfl

/-- A composed run that ends well has parts that do. -/
theorem run_bind_eq_ok {x : Check α} {f : α → Check β} {s s' : Run} {b : β}
    (h : (x >>= f).run cfg s = (.ok b, s')) :
    ∃ a s₁, x.run cfg s = (.ok a, s₁) ∧ (f a).run cfg s₁ = (.ok b, s') ∧
      log cfg (x >>= f) s = log cfg x s ++ log cfg (f a) s₁ := by
  rw [run_bind] at h
  rw [log_bind]
  cases hx : x.run cfg s with
  | mk r s₁ =>
    rw [hx] at h
    cases r with
    | error e => simp at h
    | ok a => exact ⟨a, s₁, rfl, h, rfl⟩

/-- A step that ends well goes over to what follows. -/
theorem run_bind_of_ok {x : Check α} {f : α → Check β} {s s' : Run} {a : α}
    (h : x.run cfg s = (.ok a, s')) :
    (x >>= f).run cfg s = (f a).run cfg s' ∧
      reported (log cfg (x >>= f) s) =
        reported (log cfg x s) ++ reported (log cfg (f a) s') := by
  rw [run_bind, log_bind, reported_append, h]
  exact ⟨rfl, rfl⟩

/-- A run in a scope of its own is one from a new scope, which is left at the end. -/
theorem run_inScope_eq_ok {x : Check α} {s s' : Run} {a : α}
    (h : (inScope x).run cfg s = (.ok a, s')) :
    ∃ s₁, x.run cfg { s with scopes := s.scopes.push.2 } = (.ok a, s₁) ∧
      s' = { s₁ with scopes := s₁.scopes.pop } := by
  obtain ⟨⟨⟩, s₁, henter, hrun, -⟩ := run_bind_eq_ok h
  obtain ⟨b, s₂, hbody, hrun, -⟩ := run_bind_eq_ok hrun
  obtain ⟨⟨⟩, s₃, hleave, hrun, -⟩ := run_bind_eq_ok hrun
  cases henter
  cases hleave
  cases hrun
  exact ⟨s₂, hbody, rfl⟩

/-- What is reported in a scope of its own is what the body reports. -/
theorem reported_inScope (x : Check α) (s : Run) :
    reported (log cfg (inScope x) s) =
      reported (log cfg x { s with scopes := s.scopes.push.2 }) := by
  have henter : (act .enter).run cfg s = (.ok (), { s with scopes := s.scopes.push.2 }) := rfl
  rw [inScope, (run_bind_of_ok henter).2, log_bind, reported_append]
  rcases x.run cfg { s with scopes := s.scopes.push.2 } with ⟨r, s₁⟩
  cases r with
  | error e => exact List.append_nil _
  | ok a => exact List.append_nil _

/-! ## The state at the end -/

theorem reports_run (cfg : Config) (x : Check α) (s : Run) :
    (x.run cfg s).2.reports.toList = s.reports.toList ++ reported (log cfg x s) := by
  unfold Check.run log
  generalize (x : Plan Act.Answer (Except Malformed α)) = plan
  induction plan generalizing s with
  | done a => simp [Plan.run, Plan.log, reported]
  | step act next ih =>
    simp only [Plan.run, Plan.log]
    rw [ih]
    cases act <;> simp [Act.perform, reported]

theorem symbols_run (cfg : Config) (x : Check α) (s : Run) :
    (x.run cfg s).2.symbols.toList = s.symbols.toList ++ listed (log cfg x s) := by
  unfold Check.run log
  generalize (x : Plan Act.Answer (Except Malformed α)) = plan
  induction plan generalizing s with
  | done a => simp [Plan.run, Plan.log, listed]
  | step act next ih =>
    simp only [Plan.run, Plan.log]
    rw [ih]
    cases act <;> simp [Act.perform, listed]

theorem nodeTypes_run (cfg : Config) (x : Check α) (s : Run) :
    (x.run cfg s).2.nodeTypes =
      (noted (log cfg x s)).foldl (fun m note => m.insert note.1 note.2) s.nodeTypes := by
  unfold Check.run log
  generalize (x : Plan Act.Answer (Except Malformed α)) = plan
  induction plan generalizing s with
  | done a => rfl
  | step act next ih =>
    simp only [Plan.run, Plan.log]
    rw [ih]
    cases act <;> rfl

theorem getElem?_foldl_insert_of_not_mem {notes : List (NodeId × Ty)} {node : NodeId}
    (hnot : node ∉ notes.map (·.1)) (m : Std.TreeMap NodeId Ty) :
    (notes.foldl (fun m note => m.insert note.1 note.2) m)[node]? = m[node]? := by
  induction notes generalizing m with
  | nil => rfl
  | cons other notes ih =>
    rw [List.map_cons, List.mem_cons, not_or] at hnot
    rw [List.foldl_cons, ih hnot.2, Std.TreeMap.getElem?_insert,
      if_neg (by simpa using fun heq => hnot.1 heq.symm)]

/-- Where every node is noted once, the last state has all the notes. -/
theorem getElem?_foldl_insert {notes : List (NodeId × Ty)} (hnodup : (notes.map (·.1)).Nodup)
    (m : Std.TreeMap NodeId Ty) {node : NodeId} {t : Ty} (h : (node, t) ∈ notes) :
    (notes.foldl (fun m note => m.insert note.1 note.2) m)[node]? = some t := by
  induction notes generalizing m with
  | nil => simp at h
  | cons note notes ih =>
    rw [List.map_cons, List.nodup_cons] at hnodup
    rw [List.foldl_cons]
    rcases List.mem_cons.1 h with rfl | h
    · rw [getElem?_foldl_insert_of_not_mem hnodup.1, Std.TreeMap.getElem?_insert_self]
    · exact ih hnodup.2 _ h

end Monotype.Check
