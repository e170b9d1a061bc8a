/-! The content of a TOML document, and the rules by which its lines add to it: a key is set once,
a table is defined once, and a table is extended only in the way in which it was begun. -/
namespace Monotype.Toml

/-- How a table came to be. -/
inductive Origin where
  /-- A header of its own. -/
  | header
  /-- A longer header that passes through it. -/
  | implied
  /-- A dotted key that passes through it. -/
  | dotted
  /-- A table written in braces. -/
  | inline
  deriving DecidableEq, Repr, Inhabited

/-- Numbers with a fraction and times are checked while reading, but their value is not kept. -/
inductive Value where
  | string (value : String)
  | integer (value : Int)
  | float
  | boolean (value : Bool)
  | datetime
  | array (items : List Value)
  | table (entries : List (String × Value)) (origin : Origin)
  /-- Tables under one repeated header. -/
  | tables (items : List (List (String × Value)))
  deriving Repr, Inhabited

abbrev Entries := List (String × Value)

namespace Entries

/-- Gives an existing key a new value. -/
def replace (key : String) (value : Value) (entries : Entries) : Entries :=
  entries.map fun entry => if entry.1 = key then (key, value) else entry

def add (key : String) (value : Value) (entries : Entries) : Entries :=
  entries ++ [(key, value)]

/-- Changes the last table of a repeated header. -/
def changeLast (f : Entries → Option Entries) : List Entries → Option (List Entries)
  | [] => none
  | [t] => return [← f t]
  | t :: u :: ts => return t :: (← changeLast f (u :: ts))

/-- Changes the table at a path of header keys; tables that are missing are implied. A table in
braces is complete and cannot be entered. -/
def descend (f : Entries → Option Entries) : List String → Entries → Option Entries
  | [], entries => f entries
  | key :: path, entries =>
    match entries.lookup key with
    | none => return entries.add key (.table (← descend f path []) .implied)
    | some (.table inner origin) =>
      if origin = .inline then none
      else return entries.replace key (.table (← descend f path inner) origin)
    | some (.tables items) =>
      return entries.replace key (.tables (← changeLast (descend f path) items))
    | some _ => none

/-- Begins a table under a header. Only an implied table may have been there before. -/
def defineTable (key : String) (entries : Entries) : Option Entries :=
  match entries.lookup key with
  | none => some (entries.add key (.table [] .header))
  | some (.table inner .implied) => some (entries.replace key (.table inner .header))
  | some _ => none

/-- Begins one more table under a repeated header. -/
def appendTable (key : String) (entries : Entries) : Option Entries :=
  match entries.lookup key with
  | none => some (entries.add key (.tables [[]]))
  | some (.tables items) => some (entries.replace key (.tables (items ++ [[]])))
  | some _ => none

/-- Sets `key` in the table at a dotted path. Passing through a table needs one that no header
and no braces defined; the table that receives the key must have begun with a dotted key. -/
def assign (key : String) (value : Value) : List String → Entries → Option Entries
  | [], entries => if (entries.lookup key).isSome then none else some (entries.add key value)
  | step :: path, entries =>
    match entries.lookup step with
    | none => return entries.add step (.table (← assign key value path []) .dotted)
    | some (.table inner origin) =>
      if origin = .dotted ∨ (origin = .implied ∧ path ≠ []) then
        return entries.replace step (.table (← assign key value path inner) origin)
      else none
    | some (.tables items) =>
      if path = [] then none
      else return entries.replace step (.tables (← changeLast (assign key value path) items))
    | some _ => none

end Entries

end Monotype.Toml
