import Monotype.Site

/-! Diagnostics as a reader sees them: a code, a message and a place, with labels that point
at other places. They are written as lines of text or handed to an editor. -/
namespace Monotype

/-- A remark on a second place that has to do with a diagnostic. -/
structure Label where
  message : String
  span : Span
  deriving DecidableEq, Repr, Inhabited

/-- A finished report. There is one severity: every diagnostic is an error. -/
structure Diagnostic where
  code : String
  message : String
  site : Site
  labels : List Label
  deriving DecidableEq, Repr, Inhabited

/-- A file and the place in it where a span starts, as `path:line:column`. -/
def Span.locate (path : String) (span : Span) : String :=
  path ++ ":" ++ toString span.start.line ++ ":" ++ toString span.start.column

def Label.render (path : String) (label : Label) : String :=
  "  note: " ++ label.message ++ " at " ++ label.span.locate path

/-- One line for the error, then one line for each label. -/
def Diagnostic.render (path : String) (d : Diagnostic) : String :=
  "\n".intercalate
    (("error[" ++ d.code ++ "] " ++ d.site.span.locate path ++ " " ++ d.message) ::
      d.labels.map (·.render path))

/-- The texts of all diagnostics in order, each on lines of its own. -/
def Diagnostic.renderAll (path : String) (ds : List Diagnostic) : String :=
  "\n".intercalate (ds.map (·.render path))

/-- A place as editors count it: lines and characters start at zero. -/
structure EditorPosition where
  line : Nat
  character : Nat
  deriving DecidableEq, Repr, Inhabited

/-- The editor's form of a position; an unknown place falls on the first one. -/
def Position.toEditor (p : Position) : EditorPosition :=
  ⟨p.line - 1, p.column - 1⟩

/-- A diagnostic for an editor, tagged with the language that it is about. -/
structure EditorDiagnostic where
  severity : Nat
  message : String
  start : EditorPosition
  stop : EditorPosition
  source : String
  deriving DecidableEq, Repr, Inhabited

/-- The editor protocol's number for an error. -/
def EditorDiagnostic.errorSeverity : Nat := 1

def Diagnostic.toEditor (source : String) (d : Diagnostic) : EditorDiagnostic where
  severity := EditorDiagnostic.errorSeverity
  message := d.message
  start := d.site.span.start.toEditor
  stop := d.site.span.stop.toEditor
  source := source

end Monotype
