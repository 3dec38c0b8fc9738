import Haxify.Path

/-!
# Diagnostics

A message about a project or one of its files, with a place in the file where
there is one.
-/

namespace Haxify

/-- How grave a message is. -/
inductive Severity where
  /-- Nothing is produced. -/
  | error
  /-- A file is left out. -/
  | warning
  /-- For information. -/
  | info
deriving DecidableEq, Repr

def Severity.word : Severity → String
  | .error => "error"
  | .warning => "warning"
  | .info => "info"

/-- A message with the file and the place it is about. -/
structure Diagnostic where
  /-- How grave it is. -/
  severity : Severity
  file : Option Path
  line : Option Nat
  column : Option Nat
  /-- What there is to say. -/
  message : String
deriving DecidableEq, Repr

namespace Diagnostic

/-- A message about no file in particular. -/
def plain (severity : Severity) (message : String) : Diagnostic :=
  ⟨severity, none, none, none, message⟩

def about (severity : Severity) (file : Path) (message : String) : Diagnostic :=
  ⟨severity, some file, none, none, message⟩

def pointing (severity : Severity) (file : Path) (line column : Nat) (message : String) :
    Diagnostic :=
  ⟨severity, some file, some line, some column, message⟩

/-- The file with the place if both line and column are known. -/
def location (diagnostic : Diagnostic) : String :=
  match diagnostic.file, diagnostic.line, diagnostic.column with
  | some file, some line, some column =>
    file.text ++ ":" ++ toString line ++ ":" ++ toString column ++ ": "
  | some file, _, _ => file.text ++ ": "
  | none, _, _ => ""

def display (diagnostic : Diagnostic) : String :=
  diagnostic.severity.word ++ ": " ++ diagnostic.location ++ diagnostic.message

end Diagnostic

end Haxify
