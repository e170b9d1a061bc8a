import Monotype.Toml.Scalar

/-! TOML documents: nested values, keys, headers and lines. -/
namespace Monotype.Toml

/-- Values lie less than this many arrays and tables deep, and a key has fewer parts. -/
def nestingLimit : Nat := 80

def isBareKeyChar (c : Char) : Bool :=
  ('a' ≤ c && c ≤ 'z') || ('A' ≤ c && c ≤ 'Z') || c.isDigit || c = '-' || c = '_'

def simpleKey : Reader String := do
  match ← peek with
  | some '"' | some '\'' => lineString
  | _ =>
    let cs ← takeWhile isBareKeyChar
    if cs.isEmpty then failure else return String.ofList cs

/-- A dotted key of at most `n` parts. -/
def keyParts : Nat → Reader (List String)
  | 0 => failure
  | n + 1 => do
    blanks
    let part ← simpleKey
    blanks
    if (← peek) = some '.' then
      char '.'
      return part :: (← keyParts n)
    else return [part]

/-- A key as the path to a table and the name in it. -/
def key : Reader (List String × String) := do
  let parts ← keyParts (nestingLimit - 1)
  match parts.getLast? with
  | some name => return (parts.dropLast, name)
  | none => failure

section nested
variable (value : Reader Value)

/-- The items of an array up to the closing bracket; there are at most `n`. -/
def items : Nat → Reader (List Value)
  | 0 => failure
  | n + 1 => do
    gap (← get).length
    if (← peek) = some ']' then
      char ']'
      return []
    let item ← value
    gap (← get).length
    if (← peek) = some ',' then
      char ','
      return item :: (← items n)
    char ']'
    return [item]

def keyValue : Reader ((List String × String) × Value) := do
  let k ← key
  char '='
  blanks
  let v ← value
  return (k, v)

/-- Adds the entries of a table in braces; there is at least one and there are at most `n`. -/
def inlineEntries : Nat → Entries → Reader Entries
  | 0, _ => failure
  | n + 1, entries => do
    let ((path, name), v) ← keyValue value
    blanks
    let entries ← (entries.assign name v path : Option Entries)
    if (← peek) = some ',' then
      char ','
      inlineEntries n entries
    else
      char '\x7d'
      return entries

def inlineTable : Reader Entries := do
  blanks
  if (← peek) = some '\x7d' then
    char '\x7d'
    return []
  inlineEntries value (← get).length []

end nested

/-- A value in which others lie at most `n` deep. -/
def value : Nat → Reader Value
  | 0 => scalar
  | n + 1 => do
    match ← peek with
    | some '[' =>
      char '['
      return .array (← items (value n) (← get).length)
    | some '\x7b' =>
      char '\x7b'
      return .table (← inlineTable (value n)) .inline
    | _ => scalar

/-- A document while it is read: what it holds so far, and the header of the current section. -/
structure Section where
  entries : Entries := []
  path : List String := []

/-- A table header and the end of its line. -/
def header (s : Section) : Reader Section := do
  char '['
  let repeated := (← peek) = some '['
  if repeated then char '['
  let (path, name) ← key
  char ']'
  if repeated then char ']'
  lineEnd
  let begin := if repeated then Entries.appendTable name else Entries.defineTable name
  let entries ← (s.entries.descend begin path : Option Entries)
  return { entries, path := path ++ [name] }

/-- A key with its value and the end of its line. -/
def setting (s : Section) : Reader Section := do
  let ((path, name), v) ← keyValue (value (nestingLimit - 1))
  lineEnd
  let entries ← (s.entries.descend (Entries.assign name v path) s.path : Option Entries)
  return { s with entries }

/-- The lines of a document; there are at most `n`. -/
def lines : Nat → Section → Reader Entries
  | 0, s => return s.entries
  | n + 1, s => do
    blanks
    match ← peek with
    | none => return s.entries
    | some '#' => do
      comment
      newline <|> atEnd
      lines n s
    | some '\n' | some '\r' => do
      newline
      lines n s
    | some '[' => do lines n (← header s)
    | some _ => do lines n (← setting s)

/-- A mark of the byte order may stand in front of a document. -/
def dropMark : List Char → List Char
  | '\ufeff' :: rest => rest
  | cs => cs

/-- The content of a document, if the text is one. -/
def parse? (text : String) : Option Entries :=
  let cs := dropMark text.toList
  ((lines (cs.length + 1) {}).run cs).map (·.1)

end Monotype.Toml
