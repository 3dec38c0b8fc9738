import Haxify.Config.Decode
import Haxify.Json.Reader

/-!
# Project settings

The part of a project's configuration file that decides which files form the
project and where its root directory is. Everything else in the file is ignored.
-/

namespace Haxify.Config

/-- The configurations that a configuration builds on. -/
inductive Extends where
  /-- One of them. -/
  | one (specifier : String)
  /-- Several; later ones win. -/
  | many (specifiers : List String)
deriving DecidableEq, Repr

def Extends.specifiers : Extends → List String
  | .one specifier => [specifier]
  | .many specifiers => specifiers

structure CompilerOptions where
  /-- The directory that source paths are taken relative to. -/
  rootDir : Option String
  /-- Where the compiler would write. -/
  outDir : Option String
  /-- How JSX would be compiled. -/
  jsx : Option String
deriving DecidableEq, Repr

/-- What one configuration file says. -/
structure Settings where
  /-- The configurations it builds on. -/
  extends? : Option Extends
  files : Option (List String)
  include? : Option (List String)
  /-- Patterns of files to leave out. -/
  exclude : Option (List String)
  options : CompilerOptions
deriving DecidableEq, Repr

def CompilerOptions.empty : CompilerOptions := ⟨none, none, none⟩

/-- A configuration that says nothing. -/
def Settings.empty : Settings := ⟨none, none, none, none, .empty⟩

def Extends.decode : Json → Except DecodeError Extends
  | .string specifier => .ok (.one specifier)
  | .array items =>
    match each string items with
    | .ok specifiers => .ok (.many specifiers)
    | .error _ => .error (.noVariant "Extends")
  | _ => .error (.noVariant "Extends")

def CompilerOptions.shape : Shape CompilerOptions where
  name := "CompilerOptions"
  fields :=
    [("rootDir", fun options value => return { options with rootDir := ← optional string value }),
     ("outDir", fun options value => return { options with outDir := ← optional string value }),
     ("jsx", fun options value => return { options with jsx := ← optional string value })]
  mayEndEarly := false

/-- The fields of a configuration. -/
def Settings.shape : Shape Settings where
  name := "TsConfig"
  fields :=
    [("extends", fun settings value =>
       return { settings with extends? := ← optional Extends.decode value }),
     ("files", fun settings value => return { settings with files := ← optional strings value }),
     ("include", fun settings value =>
       return { settings with include? := ← optional strings value }),
     ("exclude", fun settings value =>
       return { settings with exclude := ← optional strings value }),
     ("compilerOptions", fun settings value =>
       return { settings with options := ← CompilerOptions.shape.decode .empty value })]
  mayEndEarly := true

/-- Why a text is no configuration. -/
inductive SettingsError where
  | unreadable (error : Json.ReadError)
  /-- A value in it does not fit. -/
  | undecodable (error : DecodeError)
deriving DecidableEq, Repr

def SettingsError.message : SettingsError → String
  | .unreadable error => error.message
  | .undecodable error => error.message

/-- The configuration that a text holds. -/
def Settings.read (text : String) : Except SettingsError Settings :=
  match Json.read text with
  | .error error => .error (.unreadable error)
  | .ok value =>
    match Settings.shape.decode .empty value with
    | .error error => .error (.undecodable error)
    | .ok settings => .ok settings

end Haxify.Config
