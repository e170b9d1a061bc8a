import Monotype.Ty.Basic

/-! How types are written in messages: `number`, `T3`, `(a, b) -> c`, `[a, b]`, `{ k: t }`. -/
namespace Monotype

def Prim.text : Prim → String
  | .number => "number"
  | .string => "string"
  | .boolean => "boolean"
  | .jsx => "jsx"

namespace Ty

/-- The name of a type variable in messages. -/
def varText (v : TyVar) : String := "T" ++ toString v

mutual
def text : Ty → String
  | .prim p => p.text
  | .external path => "external(" ++ path ++ ")"
  | .fn params result =>
    "(" ++ ", ".intercalate (texts params) ++ ") -> " ++ result.text
  | .tuple elements => "[" ++ ", ".intercalate (texts elements) ++ "]"
  | .record [] => "\x7b\x7d"
  | .record (field :: fields) =>
    "\x7b " ++ ", ".intercalate (fieldTexts (field :: fields)) ++ " \x7d"
  | .adt name => name
  | .var v => varText v

def texts : List Ty → List String
  | [] => []
  | t :: ts => t.text :: texts ts

def fieldTexts : Fields Ty → List String
  | [] => []
  | (name, t) :: fields => (name ++ ": " ++ t.text) :: fieldTexts fields
end

end Ty

end Monotype
