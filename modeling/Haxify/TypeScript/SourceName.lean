import Haxify.Path

/-!
# Names of source files

What the ending of a file name says about its contents, in either letter case.
-/

namespace Haxify.TypeScript

/-- What a TypeScript file holds. -/
inductive SourceKind where
  | script
  /-- TypeScript with JSX elements. -/
  | jsx
  /-- Declarations only; other files may refer to it, but nothing is made of it. -/
  | declaration
deriving DecidableEq, Repr

/-- The kind of a file by its name; none if it is no TypeScript file. -/
def SourceKind.ofPath? (path : Path) : Option SourceKind :=
  path.fileName?.bind fun fileName =>
    let name := Text.lowerCase fileName
    if [".d.ts", ".d.mts", ".d.cts"].any (Text.endsIn name) then some .declaration
    else if Text.endsIn name ".tsx" then some .jsx
    else if [".ts", ".mts", ".cts"].any (Text.endsIn name) then some .script
    else none

/-- The endings of source file names; the first that fits counts. -/
def sourceExtensions : List String :=
  [".d.ts", ".d.mts", ".d.cts", ".tsx", ".ts", ".mts", ".cts", ".jsx", ".js", ".mjs", ".cjs"]

def stripSourceExtension (fileName : String) : String :=
  let name := Text.lowerCase fileName
  match sourceExtensions.find? fun ending =>
      Text.endsIn name ending && name.length > ending.length with
  | some ending => String.ofList (fileName.toList.take (fileName.length - ending.length))
  | none => fileName

end Haxify.TypeScript
