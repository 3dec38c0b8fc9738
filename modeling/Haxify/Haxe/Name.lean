import Haxify.Text.Pieces
import Haxify.Text.Blank

/-!
# Haxe names

Which texts may stand as a Haxe identifier, and how any text is turned into an
identifier, a module name or a package path. A legal identifier is left as it
is, so a name is spelled alike wherever it is used.
-/

namespace Haxify.Haxe

/-- The words that Haxe keeps for itself. -/
def reservedWords : List String :=
  ["abstract", "break", "case", "cast", "catch", "class", "continue", "default", "do",
   "dynamic", "else", "enum", "extends", "extern", "false", "final", "for", "function",
   "if", "implements", "import", "in", "inline", "interface", "macro", "new", "null",
   "operator", "overload", "override", "package", "private", "public", "return", "static",
   "switch", "this", "throw", "true", "try", "typedef", "untyped", "using", "var", "while"]

/-- Whether Haxe keeps the word for itself. -/
def isReserved (name : String) : Bool :=
  reservedWords.contains name

/-- ASCII letters, digits and the underscore. -/
def isWordChar (char : Char) : Bool :=
  char.isAlphanum || char == '_'

/-- Whether a text can be written as it is where Haxe wants an identifier. -/
def isIdentifier (name : String) : Bool :=
  match name.toList with
  | [] => false
  | first :: rest =>
    (first.isAlpha || first == '_') && rest.all isWordChar && !isReserved name

/-- An underscore in front of characters that start with a digit or are none at all. -/
def withLegalStart : List Char → List Char
  | [] => ['_']
  | first :: rest => if first.isDigit then '_' :: first :: rest else first :: rest

/-- The identifier for any text: illegal characters become underscores, a leading
digit gets one in front and a reserved word one behind. -/
def sanitize (name : String) : String :=
  let legal := String.ofList
    (withLegalStart (name.toList.map fun char => if isWordChar char then char else '_'))
  if isReserved legal then legal ++ "_" else legal

/-- The characters with the first one, if it is an ASCII letter, as a capital. -/
def capitalize : List Char → List Char
  | [] => []
  | first :: rest => first.toUpper :: rest

/-- The module name for any text: its runs of ASCII letters and digits, each
capitalized, put together without leading digits; `Module` if nothing is left. -/
def moduleName (text : String) : String :=
  let words := (Text.pieces (fun char => !char.isAlphanum) text.toList).map capitalize
  match words.flatten.dropWhile Char.isDigit with
  | [] => "Module"
  | first :: rest => String.ofList (capitalize (first :: rest))

def packagePath (segments : List String) : String :=
  Text.joinWith "." ((segments.map Text.trim).filter (· != ""))

end Haxify.Haxe
