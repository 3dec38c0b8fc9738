import Haxify.Config.Settings
import Haxify.Diagnostic
import Haxify.Files.Store
import Haxify.Glob.Pattern
import Haxify.Haxe.Address
import Haxify.Text.Bytes

/-!
# Why a project cannot be loaded

Loading is all or nothing: the first of these ends it, and nothing is made of
any file of the project.
-/

namespace Haxify

/-- Why a project cannot be loaded. -/
inductive ProjectError where
  /-- A file cannot be read. -/
  | unreadable (path : Path) (failure : Files.Failure)
  | notListed (path : Path)
  | malformedConfig (path : Path) (error : Config.SettingsError)
  | missingBase (path : Path) (specifier : String)
  /-- A configuration builds on itself. -/
  | circularExtends (path : Path)
  /-- A pattern of files cannot be read. -/
  | invalidPattern (pattern : String) (error : Glob.PatternError)
  /-- There is nothing to work on. -/
  | noInputs (path : Path)
  | noTree (path : Path)
  /-- A file does not fit the grammar. -/
  | faultySource (path : Path) (position : Text.Position)
  | outsideRoot (path root : Path)
  /-- Two files would become one module. -/
  | addressCollision (first second : Path) (address : Haxe.Address)
deriving DecidableEq, Repr

namespace ProjectError

def message : ProjectError → String
  | .unreadable path failure => "Failed to read " ++ path.text ++ ": " ++ failure.message
  | .notListed path => "Failed to read " ++ path.text ++ ": listed in files"
  | .malformedConfig path error => "Malformed config " ++ path.text ++ ": " ++ error.message
  | .missingBase path specifier =>
    "Config " ++ path.text ++ " extends " ++ specifier ++ ", which could not be found"
  | .circularExtends path => "Config extends chain loops back to " ++ path.text
  | .invalidPattern pattern error =>
    "Invalid pattern " ++ pattern ++ ": error parsing glob '" ++ pattern ++ "': " ++ error.message
  | .noInputs path => "No inputs were found in config file " ++ path.text
  | .noTree path =>
    "Failed to load TypeScript grammar: parser produced no tree for " ++ path.text
  | .faultySource path position =>
    "Syntax error in " ++ path.text ++ " at line " ++ toString position.line ++ ", column "
      ++ toString position.column
  | .outsideRoot path root => "File " ++ path.text ++ " is not under rootDir " ++ root.text
  | .addressCollision first second address =>
    first.text ++ " and " ++ second.text ++ " both map to Haxe module " ++ address.qualified

def diagnostic (error : ProjectError) : Diagnostic :=
  match error with
  | .unreadable path _ | .notListed path | .malformedConfig path _ | .missingBase path _
  | .outsideRoot path _ | .addressCollision _ path _ => .about .error path error.message
  | .faultySource path position =>
    .pointing .error path position.line position.column "syntax error"
  | _ => .plain .error error.message

end ProjectError

end Haxify
