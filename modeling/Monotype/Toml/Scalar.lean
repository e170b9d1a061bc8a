import Monotype.Toml.Text
import Monotype.Toml.Value

/-! Numbers, truth values, dates and times of TOML. -/
namespace Monotype.Toml

/-- Digits of a kind, with single underscores between them. -/
def digitGroups (isDigit : Char → Bool) (n : Nat) : Reader (List Char) :=
  match n with
  | 0 => failure
  | n + 1 => do
    let digits ← takeWhile isDigit
    if digits.isEmpty then failure
    if (← peek) = some '_' then
      char '_'
      return digits ++ (← digitGroups isDigit n)
    else return digits

def groups (isDigit : Char → Bool) : Reader (List Char) := do
  digitGroups isDigit ((← get).length + 1)

/-- Whether a sign was written and is a minus. -/
def sign : Reader Bool := do
  match ← peek with
  | some '-' => char '-'; return true
  | some '+' => char '+'; return false
  | _ => return false

/-- The digits of a decimal number. A zero in front stands alone. -/
def decimalDigits : Reader (List Char) := do
  if (← peek) = some '0' then
    char '0'
    return ['0']
  else groups Char.isDigit

def number (base : Nat) (digits : List Char) : Nat :=
  digits.foldl (fun n c => n * base + (hexDigit? c).getD 0) 0

/-- Integers have 64 bits. -/
def integerInRange (n : Int) : Reader Value :=
  if -Int.pow 2 63 ≤ n ∧ n < Int.pow 2 63 then return .integer n else failure

def radixInteger (mark : Char) (base : Nat) (isDigit : Char → Bool) : Reader Value := do
  chars ['0', mark]
  integerInRange (number base (← groups isDigit))

def isOctal (c : Char) : Bool := '0' ≤ c && c ≤ '7'

def isBinary (c : Char) : Bool := c = '0' || c = '1'

def integer : Reader Value :=
  radixInteger 'x' 16 (fun c => (hexDigit? c).isSome)
    <|> radixInteger 'o' 8 isOctal
    <|> radixInteger 'b' 2 isBinary
    <|> do
      let minus ← sign
      let n := number 10 (← decimalDigits)
      integerInRange (if minus then -(n : Int) else n)

/-- The digits behind a decimal point. -/
def fraction : Reader (List Char) := do
  char '.'
  groups Char.isDigit

def exponent : Reader Int := do
  let _ ← oneOf ['e', 'E']
  let minus ← sign
  let n := number 10 (← groups Char.isDigit)
  return if minus then -(n : Int) else n

/-- Whether `n * 10 ^ e` is rounded to infinity in the 64-bit format. That is so from half a unit
above the largest finite number on, and the number of digits decides all cases far from there. -/
def overflows (n : Nat) (e : Int) : Bool :=
  let digits : Int := (Nat.toDigits 10 n).length
  let limit := (Nat.pow 2 54 - 1) * Nat.pow 2 970
  if n = 0 then false
  else if digits + e < 300 then false
  else if digits + e > 320 then true
  else if 0 ≤ e then limit ≤ n * Nat.pow 10 e.toNat
  else limit * Nat.pow 10 (-e).toNat ≤ n

/-- A number with a fraction or an exponent. A positive one must be finite. -/
def decimalFloat : Reader Value := do
  let minus ← sign
  let whole ← decimalDigits
  let places ← if (← peek) = some '.' then fraction else pure []
  let e ← match ← peek with
    | some 'e' | some 'E' => exponent
    | _ => if places.isEmpty then failure else pure 0
  if !minus && overflows (number 10 (whole ++ places)) (e - places.length) then failure
  return .float

def specialFloat : Reader Value := do
  let _ ← sign
  chars ['i', 'n', 'f'] <|> chars ['n', 'a', 'n']
  return .float

def boolean : Reader Value :=
  (do chars ['t', 'r', 'u', 'e']; return .boolean true)
    <|> (do chars ['f', 'a', 'l', 's', 'e']; return .boolean false)

/-- A number of exactly `count` digits between two bounds. -/
def fixedDigits (count lo hi : Nat) : Reader Nat := do
  let cs ← get
  let digits := cs.take count
  if digits.length = count ∧ digits.all Char.isDigit then
    set (cs.drop count)
    let n := number 10 digits
    if lo ≤ n ∧ n ≤ hi then return n else failure
  else failure

def daysIn (year month : Nat) : Nat :=
  match month with
  | 2 => if year % 4 = 0 ∧ (year % 100 ≠ 0 ∨ year % 400 = 0) then 29 else 28
  | 4 | 6 | 9 | 11 => 30
  | _ => 31

def date : Reader Unit := do
  let year ← fixedDigits 4 0 9999
  char '-'
  let month ← fixedDigits 2 1 12
  char '-'
  let _ ← fixedDigits 2 1 (daysIn year month)

/-- A time of day, with any number of digits for parts of a second. -/
def time : Reader Unit := do
  let _ ← fixedDigits 2 0 23
  char ':'
  let _ ← fixedDigits 2 0 59
  char ':'
  let _ ← fixedDigits 2 0 60
  if (← peek) = some '.' then
    char '.'
    let digits ← takeWhile Char.isDigit
    if digits.isEmpty then failure

def offset : Reader Unit :=
  (do let _ ← oneOf ['Z', 'z'])
    <|> do
      let _ ← oneOf ['+', '-']
      let _ ← fixedDigits 2 0 23
      char ':'
      let _ ← fixedDigits 2 0 59

def datetime : Reader Value := do
  (do
    date
    (do
      let _ ← oneOf ['T', 't', ' ']
      time
      offset <|> pure ()) <|> pure ()) <|> time
  return .datetime

/-- A value that holds no other values. -/
def scalar : Reader Value := do
  match ← peek with
  | some c =>
    if c = '"' ∨ c = '\'' then return .string (← string)
    else if c = 't' ∨ c = 'f' then boolean
    else datetime <|> decimalFloat <|> specialFloat <|> integer
  | none => failure

end Monotype.Toml
