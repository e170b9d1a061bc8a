import Monotype.Diagnostic
import Monotype.Ty.Text

/-! What can be wrong with a program, as causes, and the one place where causes are worded. -/
namespace Monotype

/-- A cause for complaint. Where a cause names a type it holds it as a `τ`: a type during a run,
a text once it is worded. -/
inductive TypeError (τ : Type) where
  | undefinedIdentifier (name : String)
  | duplicateImport (name : String)
  | mismatch (left right : τ)
  | functionArity (left right : Nat)
  | tupleLength (left right : Nat)
  | recordField (name : String)
  | nonRecordMember (member : String) (found : τ)
  | unknownMember (member : String)
  | nonTupleIndex (found : τ)
  | undefinedType (name : String)
  | adtContext
  | foreignConstructor (ctor adt : String)
  | constructorArity (ctor : String) (expected : Nat)
  | nonAdtMatch (found : τ)
  | undefinedComponent (name : String)
  | unsupportedOperator (op : String)
  | unsupportedPattern
  | infiniteType (var : TyVar) (ty : τ)
  | nonExhaustive (adt : String) (missing : List String)
  | redeclared (name : String)
  | undefinedExport (name : String)
  deriving DecidableEq, Repr, Inhabited

namespace TypeError
variable {τ υ : Type}

def map (f : τ → υ) : TypeError τ → TypeError υ
  | undefinedIdentifier name => undefinedIdentifier name
  | duplicateImport name => duplicateImport name
  | mismatch left right => mismatch (f left) (f right)
  | functionArity left right => functionArity left right
  | tupleLength left right => tupleLength left right
  | recordField name => recordField name
  | nonRecordMember member found => nonRecordMember member (f found)
  | unknownMember member => unknownMember member
  | nonTupleIndex found => nonTupleIndex (f found)
  | undefinedType name => undefinedType name
  | adtContext => adtContext
  | foreignConstructor ctor adt => foreignConstructor ctor adt
  | constructorArity ctor expected => constructorArity ctor expected
  | nonAdtMatch found => nonAdtMatch (f found)
  | undefinedComponent name => undefinedComponent name
  | unsupportedOperator op => unsupportedOperator op
  | unsupportedPattern => unsupportedPattern
  | infiniteType var ty => infiniteType var (f ty)
  | nonExhaustive adt missing => nonExhaustive adt missing
  | redeclared name => redeclared name
  | undefinedExport name => undefinedExport name

/-- The stable code of a cause. -/
def code : TypeError τ → String
  | undefinedIdentifier _ => "E3001"
  | duplicateImport _ => "E3002"
  | mismatch _ _ => "E3003"
  | functionArity _ _ => "E3004"
  | tupleLength _ _ => "E3005"
  | recordField _ => "E3006"
  | nonRecordMember _ _ => "E3007"
  | unknownMember _ => "E3008"
  | nonTupleIndex _ => "E3009"
  | undefinedType _ => "E3010"
  | adtContext => "E3011"
  | foreignConstructor _ _ => "E3012"
  | constructorArity _ _ => "E3013"
  | nonAdtMatch _ => "E3014"
  | undefinedComponent _ => "E3015"
  | unsupportedOperator _ => "E3016"
  | unsupportedPattern => "E3017"
  | infiniteType _ _ => "E3018"
  | nonExhaustive _ _ => "E3019"
  | redeclared _ => "E3020"
  | undefinedExport _ => "E3021"

def quote (name : String) : String := "'" ++ name ++ "'"

/-- The two sides of a count that should agree. -/
def versus (left right : Nat) : String := "(" ++ toString left ++ " vs " ++ toString right ++ ")"

def message : TypeError String → String
  | undefinedIdentifier name => "undefined variable " ++ quote name
  | duplicateImport name => "duplicate identifier " ++ quote name
  | mismatch left right => "type mismatch between " ++ left ++ " and " ++ right
  | functionArity left right => "function parameter count mismatch " ++ versus left right
  | tupleLength left right => "tuple length mismatch " ++ versus left right
  | recordField name => "record field " ++ quote name ++ " mismatch"
  | nonRecordMember member found =>
    "cannot access member " ++ quote member ++ " of non-record " ++ found
  | unknownMember member => "record has no member " ++ quote member
  | nonTupleIndex found => "cannot index non-tuple type " ++ found
  | undefinedType name => "undefined type " ++ quote name
  | adtContext => "ADT type must be part of a type definition"
  | foreignConstructor ctor adt =>
    "constructor " ++ quote ctor ++ " is not part of ADT " ++ quote adt
  | constructorArity ctor expected =>
    "constructor " ++ quote ctor ++ " expects " ++ toString expected ++ " parameter(s)"
  | nonAdtMatch found => "match expression must be applied to an ADT type, found " ++ found
  | undefinedComponent name => "undefined component " ++ quote name
  | unsupportedOperator op => "unsupported operator " ++ quote op
  | unsupportedPattern => "unsupported match pattern"
  | infiniteType var ty => "infinite type: " ++ Ty.varText var ++ " occurs in " ++ ty
  | nonExhaustive adt missing =>
    "non-exhaustive match on " ++ quote adt ++ ": missing " ++ ", ".intercalate missing
  | redeclared name => quote name ++ " is already declared in this scope"
  | undefinedExport name => "cannot export undefined name " ++ quote name

end TypeError

/-- A cause at a place. -/
structure Report (τ : Type) where
  error : TypeError τ
  site : Site
  labels : List Label
  deriving DecidableEq, Repr, Inhabited

namespace Report

def worded (r : Report String) : Diagnostic where
  code := r.error.code
  message := r.error.message
  site := r.site
  labels := r.labels

/-- The report of a run as a reader sees it. -/
def toDiagnostic (r : Report Ty) : Diagnostic :=
  worded { error := r.error.map Ty.text, site := r.site, labels := r.labels }

end Report

/-- A tree that no program text has. It ends a run. -/
inductive Malformed where
  /-- An `if` without any branch. -/
  | noBranches (node : NodeId)
  /-- An element that is closed under another name. -/
  | closingTag (node : NodeId) (closing opening : String)
  deriving DecidableEq, Repr, Inhabited

namespace Malformed

def node : Malformed → NodeId
  | noBranches node => node
  | closingTag node _ _ => node

def reason : Malformed → String
  | noBranches _ => "if expression without branches"
  | closingTag _ closing opening =>
    "closing tag " ++ TypeError.quote closing ++ " does not match " ++ TypeError.quote opening

/-- The wording of a reason at a node. -/
def describe (node : NodeId) (reason : String) : String :=
  "malformed tree at node " ++ toString node ++ ": " ++ reason

def message (e : Malformed) : String := describe e.node e.reason

end Malformed

end Monotype
