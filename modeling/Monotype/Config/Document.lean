import Monotype.Config.Basic
import Monotype.Toml.Document

/-! Configurations written as TOML documents. The settings stand in the table `check`; all else in a
document is left to others. -/
namespace Monotype

/-- Why there is no configuration. -/
inductive ConfigError where
  /-- The file is missing or is no text. -/
  | unreadable
  /-- The text is no document, or its settings are none of ours. -/
  | invalid
  deriving DecidableEq, Repr, Inhabited

namespace Config

/-- The names of the settings in the order in which a list gives them. -/
def settings : List String :=
  ["language", "dynamic_imports", "intrinsic_elements", "exhaustiveness",
    "strict_redeclaration"]

/-- Changes one setting. There must be one of that name, and the value must be of its kind. -/
def set? (c : Config) (setting : String) (value : Toml.Value) : Option Config :=
  match value with
  | .string s => if setting = "language" then some { c with language := s } else none
  | .boolean b =>
    if setting = "dynamic_imports" then some { c with dynamicImports := b }
    else if setting = "intrinsic_elements" then some { c with intrinsicElements := b }
    else if setting = "exhaustiveness" then some { c with exhaustiveness := b }
    else if setting = "strict_redeclaration" then some { c with strictRedeclaration := b }
    else none
  | _ => none

def setAll? (c : Config) (entries : List (String × Toml.Value)) : Option Config :=
  entries.foldlM (fun c entry => c.set? entry.1 entry.2) c

/-- The configuration that a value describes: a table of settings, or a list of the values of the
first settings. What is not mentioned keeps its default. -/
def ofValue? : Toml.Value → Option Config
  | .table entries _ => setAll? {} entries
  | .array items => setAll? {} (settings.zip items)
  | _ => none

/-- The configuration in a text. -/
def ofText (text : String) : Except ConfigError Config :=
  match Toml.parse? text with
  | none => .error .invalid
  | some entries =>
    match entries.lookup "check" with
    | none => .ok {}
    | some value =>
      match ofValue? value with
      | some c => .ok c
      | none => .error .invalid

/-- The configuration in a file, of which the bytes are given if it exists. -/
def ofFile : Option ByteArray → Except ConfigError Config
  | none => .error .unreadable
  | some bytes =>
    match String.fromUTF8? bytes with
    | none => .error .unreadable
    | some text => ofText text

end Config

end Monotype
