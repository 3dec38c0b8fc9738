/-!
# Pieces of text

Cutting a text at separators and putting pieces together again. The cut never
loses a piece: a text with `n` separators has `n + 1` pieces, empty ones
included, and joining them with the separator gives the text back.
-/

namespace Haxify.Text

/-- The stretches of characters between those that `separates` accepts. -/
def pieces (separates : Char → Bool) : List Char → List (List Char)
  | [] => [[]]
  | char :: rest =>
    if separates char then [] :: pieces separates rest
    else
      match pieces separates rest with
      | [] => [[char]]
      | piece :: others => (char :: piece) :: others

/-- The pieces of a text between the occurrences of one character. -/
def splitOn (separator : Char) (text : String) : List String :=
  (pieces (· == separator) text.toList).map String.ofList

def joinWith (separator : String) : List String → String
  | [] => ""
  | [piece] => piece
  | piece :: next :: rest => piece ++ separator ++ joinWith separator (next :: rest)

def without (char : Char) (text : String) : String :=
  String.ofList (text.toList.filter (· != char))

def beginsWith (text start : String) : Bool :=
  start.toList.isPrefixOf text.toList

def endsIn (text ending : String) : Bool :=
  ending.toList.isSuffixOf text.toList

def occursIn (part : List Char) : List Char → Bool
  | [] => part.isEmpty
  | char :: rest => part.isPrefixOf (char :: rest) || occursIn part rest

def lowerCase (text : String) : String :=
  String.ofList (text.toList.map Char.toLower)

def copies (text : String) : Nat → String
  | 0 => ""
  | count + 1 => text ++ copies text count

end Haxify.Text
