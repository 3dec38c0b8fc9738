import Haxify.Config.Decode
import Haxify.Haxe.Writer
import Haxify.Path

/-!
# Options of a run

Where modules are written and how they look. They are given as a structure of
which every field may be left out.
-/

namespace Haxify.Emit

structure Options where
  /-- The directory that modules are written to. -/
  outDir : Path
  /-- The package that all modules lie in. -/
  basePackage : String
  /-- How one level of indentation looks. -/
  indent : Haxe.IndentStyle
  /-- Whether the directory is emptied first. -/
  clean : Bool
  useColors : Bool
deriving DecidableEq, Repr

/-- The directory that modules are written to unless another one is given. -/
def usualOutDir : Path := ⟨"hx-out"⟩

/-- The options of a run that says nothing about them. -/
def Options.usual : Options := ⟨usualOutDir, "", .usual, false, true⟩

def indentNames : List String := ["Spaces", "Tabs"]

def decodeIndentWith (name : String) (value : Json) :
    Except Config.DecodeError Haxe.IndentStyle :=
  if name == "Spaces" then (Config.natural value).map .spaces
  else if name == "Tabs" then
    match value with
    | .null => .ok .tabs
    | other => Config.unfit other "unit"
  else .error (.unknownVariant name indentNames)

def decodeIndent : Json → Except Config.DecodeError Haxe.IndentStyle
  | .string name =>
    if name == "Tabs" then .ok .tabs
    else if name == "Spaces" then .error (.invalidType "unit variant" "newtype variant")
    else .error (.unknownVariant name indentNames)
  | .object [(name, value)] => decodeIndentWith name value
  | .object _ => .error (.invalidValue "map" "map with a single key")
  | other => Config.unfit other "string or map"

def Options.shape : Config.Shape Options where
  name := "EmitterConfig"
  fields :=
    [("out_dir", fun options value =>
       return { options with outDir := ⟨← Config.stringAs "path string" value⟩ }),
     ("base_package", fun options value =>
       return { options with basePackage := ← Config.string value }),
     ("indent_style", fun options value => return { options with indent := ← decodeIndent value }),
     ("clean", fun options value => return { options with clean := ← Config.bool value }),
     ("use_colors", fun options value => return { options with useColors := ← Config.bool value })]
  mayEndEarly := true

def Options.decode (value : Json) : Except Config.DecodeError Options :=
  Options.shape.decode .usual value

end Haxify.Emit
