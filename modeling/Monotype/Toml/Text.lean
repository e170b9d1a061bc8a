/-! Characters, blanks, comments and strings of TOML. -/
namespace Monotype.Toml

/-- A reader takes characters from the front of a text, or refuses it. -/
abbrev Reader := StateT (List Char) Option

def peek : Reader (Option Char) := return (← get).head?

/-- The longest run of characters of a kind. -/
def takeWhile (p : Char → Bool) : Reader (List Char) :=
  modifyGet fun cs => (cs.takeWhile p, cs.dropWhile p)

def char (c : Char) : Reader Unit := do
  match ← get with
  | d :: rest => if c = d then set rest else failure
  | [] => failure

def chars (cs : List Char) : Reader Unit := cs.forM char

/-- One character out of a list. -/
def oneOf (cs : List Char) : Reader Char := do
  match ← get with
  | d :: rest => if d ∈ cs then set rest; return d else failure
  | [] => failure

def isBlank (c : Char) : Bool := c = ' ' || c = '\t'

/-- Characters that a text may hold outside of line ends: all but the control characters. -/
def isPrintable (c : Char) : Bool := c = '\t' || (' ' ≤ c && c ≠ '\x7f')

def blanks : Reader Unit := do
  let _ ← takeWhile isBlank

/-- A line ends with a line feed, which may have a carriage return before it. -/
def newline : Reader Unit := chars ['\n'] <|> chars ['\r', '\n']

def atEnd : Reader Unit := do
  if (← get).isEmpty then pure () else failure

def comment : Reader Unit := do
  char '#'
  let _ ← takeWhile isPrintable

/-- What may follow a value or a header on its line. -/
def lineEnd : Reader Unit := do
  blanks
  if (← peek) = some '#' then comment
  newline <|> atEnd

/-- Blanks, line ends and comments, of which there are at most `n`. -/
def gap : Nat → Reader Unit
  | 0 => pure ()
  | n + 1 => do
    blanks
    match ← peek with
    | some '#' => comment; gap n
    | some '\n' | some '\r' => newline; gap n
    | _ => pure ()

def hexDigit? (c : Char) : Option Nat :=
  if c.isDigit then some (c.toNat - '0'.toNat)
  else if 'a' ≤ c ∧ c ≤ 'f' then some (c.toNat - 'a'.toNat + 10)
  else if 'A' ≤ c ∧ c ≤ 'F' then some (c.toNat - 'A'.toNat + 10)
  else none

def hexNumber? (cs : List Char) : Option Nat :=
  cs.foldlM (fun n c => return n * 16 + (← hexDigit? c)) 0

/-- The character with a code written in hexadecimal digits. Surrogates are no characters. -/
def codePoint? (cs : List Char) : Option Char := do
  let n ← hexNumber? cs
  if n.isValidChar then some (Char.ofNat n) else none

/-- The character that a backslash and a letter stand for. -/
def escape? : Char → Option Char
  | 'b' => some '\x08'
  | 't' => some '\t'
  | 'n' => some '\n'
  | 'f' => some '\x0c'
  | 'r' => some '\r'
  | '"' => some '"'
  | '\\' => some '\\'
  | _ => none

/-- Puts a character in front of what has been read after it. -/
def prepend (c : Char) (rest : Option (List Char × List Char)) :
    Option (List Char × List Char) :=
  rest.map fun (content, after) => (c :: content, after)

/-- A string in double quotes, from behind the opening quote. -/
def basicBody : List Char → Option (List Char × List Char)
  | [] => none
  | '"' :: rest => some ([], rest)
  | '\\' :: 'u' :: a :: b :: c :: d :: rest => do
    prepend (← codePoint? [a, b, c, d]) (basicBody rest)
  | '\\' :: 'U' :: a :: b :: c :: d :: e :: f :: g :: h :: rest => do
    prepend (← codePoint? [a, b, c, d, e, f, g, h]) (basicBody rest)
  | '\\' :: c :: rest => do
    prepend (← escape? c) (basicBody rest)
  | c :: rest => if c ≠ '\\' && isPrintable c then prepend c (basicBody rest) else none

/-- A string in single quotes, from behind the opening quote. Nothing is escaped in it. -/
def literalBody : List Char → Option (List Char × List Char)
  | [] => none
  | '\'' :: rest => some ([], rest)
  | c :: rest => if isPrintable c then prepend c (literalBody rest) else none

/-- The end of a string in triple quotes, from behind three quotes: two more quotes can belong to
its content. -/
def closing (quote : Char) : List Char → List Char × List Char
  | c :: d :: rest =>
    if c = quote ∧ d = quote then ([c, d], rest)
    else if c = quote then ([c], d :: rest)
    else ([], c :: d :: rest)
  | [c] => if c = quote then ([c], []) else ([], [c])
  | [] => ([], [])

/-- Whether only blanks stand before the end of the line. -/
def restBlank (cs : List Char) : Bool :=
  match cs.dropWhile isBlank with
  | '\n' :: _ => true
  | '\r' :: '\n' :: _ => true
  | _ => false

/-- A string in triple double quotes, from behind the opening quotes. While `folding`, blanks and
line ends are passed over: a backslash at the end of a line begins this, any other character ends
it. A line end is always a line feed in the content. -/
def multiBasicBody (folding : Bool) : List Char → Option (List Char × List Char)
  | [] => none
  | '"' :: '"' :: '"' :: rest => some (closing '"' rest)
  | '\\' :: 'u' :: a :: b :: c :: d :: rest => do
    prepend (← codePoint? [a, b, c, d]) (multiBasicBody false rest)
  | '\\' :: 'U' :: a :: b :: c :: d :: e :: f :: g :: h :: rest => do
    prepend (← codePoint? [a, b, c, d, e, f, g, h]) (multiBasicBody false rest)
  | '\\' :: c :: rest =>
    if restBlank (c :: rest) then multiBasicBody true (c :: rest)
    else do prepend (← escape? c) (multiBasicBody false rest)
  | '\r' :: '\n' :: rest =>
    if folding then multiBasicBody true rest else prepend '\n' (multiBasicBody false rest)
  | c :: rest =>
    if folding && (isBlank c || c = '\n') then multiBasicBody true rest
    else if c ≠ '\\' && (isPrintable c || c = '\n') then prepend c (multiBasicBody false rest)
    else none

/-- A string in triple single quotes, from behind the opening quotes. -/
def multiLiteralBody : List Char → Option (List Char × List Char)
  | [] => none
  | '\'' :: '\'' :: '\'' :: rest => some (closing '\'' rest)
  | '\r' :: '\n' :: rest => prepend '\n' (multiLiteralBody rest)
  | c :: rest =>
    if isPrintable c || c = '\n' then prepend c (multiLiteralBody rest) else none

/-- A line end right behind the opening triple quotes is no part of the content. -/
def dropNewline : List Char → List Char
  | '\n' :: rest => rest
  | '\r' :: '\n' :: rest => rest
  | cs => cs

/-- A string on one line. -/
def lineString : Reader String := fun cs =>
  match cs with
  | '"' :: rest => (basicBody rest).map fun (content, after) => (String.ofList content, after)
  | '\'' :: rest => (literalBody rest).map fun (content, after) => (String.ofList content, after)
  | _ => none

/-- A string of any form. -/
def string : Reader String := fun cs =>
  match cs with
  | '"' :: '"' :: '"' :: rest =>
    (multiBasicBody false (dropNewline rest)).map fun (content, after) =>
      (String.ofList content, after)
  | '\'' :: '\'' :: '\'' :: rest =>
    (multiLiteralBody (dropNewline rest)).map fun (content, after) =>
      (String.ofList content, after)
  | _ => lineString cs

end Monotype.Toml
