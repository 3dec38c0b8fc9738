import Haxify.Emit.Plan

/-!
# Reports

What a run wrote and what it left out, as text for people or as JSON.
-/

namespace Haxify.Emit

/-- A file that was written, or was there already with the same text. -/
structure WrittenFile where
  /-- The source it was made of; none for an extern class. -/
  source : Option Path
  /-- The file, below the output directory. -/
  output : Path
  /-- The module in it. -/
  qualified : String
  changed : Bool
deriving DecidableEq, Repr

/-- A source that nothing was made of. -/
structure AbandonedFile where
  source : Path
  /-- Why nothing was made of it. -/
  reason : Lower.Unsupported
  removed : Option Path
deriving DecidableEq, Repr

/-- What a run did. -/
structure Report where
  /-- The output directory. -/
  outDir : Path
  written : List WrittenFile
  /-- Sources that nothing was made of. -/
  abandoned : List AbandonedFile
  externs : List WrittenFile
deriving DecidableEq, Repr

/-- What a stretch of a report's text is about. -/
inductive Paint where
  | heading
  /-- Something that went well. -/
  | good
  | warning
  | error
  | name
deriving DecidableEq, Repr

def Paint.code : Paint → String
  | .heading => "1;94"
  | .good => "92"
  | .warning => "33"
  | .error => "91"
  | .name => "94"

def Paint.apply (paint : Paint) (colored : Bool) (text : String) : String :=
  if colored then "\x1b[" ++ paint.code ++ "m" ++ text ++ "\x1b[0m" else text

namespace Report

/-- The report of a run that has done nothing yet. -/
def empty (outDir : Path) : Report := ⟨outDir, [], [], []⟩

/-- The warnings about sources that nothing was made of. -/
def diagnostics (report : Report) : List Diagnostic :=
  report.abandoned.map fun file => abandonment file.source file.reason

/-- A heading over a list; nothing over an empty one. -/
def listing (colored : Bool) (title : String) (items : List String) : List String :=
  if items.isEmpty then []
  else [Paint.heading.apply colored title ++ "\n"
    ++ Text.joinWith "\n" (items.map fun item => "  - " ++ item)]

def writtenLine (file : WrittenFile) : String :=
  ((file.source.map (·.text)).getD "") ++ " -> " ++ file.output.text

def externLine (file : WrittenFile) : String :=
  file.qualified ++ " (" ++ file.output.text ++ ")"

/-- A source that nothing was made of on one line. -/
def abandonedLine (colored : Bool) (file : AbandonedFile) : String :=
  file.source.text ++ ":" ++ toString file.reason.position.line ++ ":"
    ++ toString file.reason.position.column ++ " "
    ++ Paint.warning.apply colored file.reason.message

/-- A number of things. -/
def counted (count : Nat) (one many : String) : String :=
  toString count ++ " " ++ (if count == 1 then one else many)

/-- The last line of a report. -/
def summary (colored : Bool) (report : Report) : String :=
  let paint := if report.abandoned.isEmpty then Paint.good else .warning
  paint.apply colored "Done" ++ ": " ++ counted report.written.length "file" "files" ++ ", "
    ++ counted report.externs.length "extern" "externs" ++ ", "
    ++ toString report.abandoned.length ++ " abandoned in " ++ report.outDir.text

def text (colored : Bool) (report : Report) : String :=
  Text.joinWith "\n\n"
    (listing colored "Translated" (report.written.map writtenLine)
      ++ listing colored "Extern bindings" (report.externs.map externLine)
      ++ listing colored "Abandoned" (report.abandoned.map (abandonedLine colored))
      ++ [report.summary colored]) ++ "\n"

def pathLayout (path : Path) : Json.Layout := .string path.text

def writtenLayout (file : WrittenFile) : Json.Layout :=
  .record
    [("source", .optional pathLayout file.source), ("output", pathLayout file.output),
     ("module", .string file.qualified), ("changed", .bool file.changed)]

def reasonLayout (reason : Lower.Unsupported) : Json.Layout :=
  .record
    [("kind", .string reason.kind), ("line", .number reason.position.line),
     ("column", .number reason.position.column), ("detail", .string reason.detail)]

/-- The layout of a source that nothing was made of. -/
def abandonedLayout (file : AbandonedFile) : Json.Layout :=
  .record
    [("source", pathLayout file.source), ("reason", reasonLayout file.reason),
     ("removed", .optional pathLayout file.removed)]

def json (report : Report) : String :=
  (Json.Layout.record
    [("out_dir", pathLayout report.outDir),
     ("written", .list (report.written.map writtenLayout)),
     ("abandoned", .list (report.abandoned.map abandonedLayout)),
     ("externs", .list (report.externs.map writtenLayout))]).document

end Report

def diagnosticLayout (diagnostic : Diagnostic) : Json.Layout :=
  .record
    [("severity", .string diagnostic.severity.word),
     ("file", .optional Report.pathLayout diagnostic.file),
     ("line", .optional .number diagnostic.line),
     ("column", .optional .number diagnostic.column),
     ("message", .string diagnostic.message)]

end Haxify.Emit
