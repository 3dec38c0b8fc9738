/-!
# Names of temporaries

Generated variables are named by a stem and a number. A file may use such names
itself, and generated ones keep clear of them.
-/

namespace Haxify.Lower

/-- The stem of the names of temporaries. -/
def tempStem : String := "__tmp"

def tempName (number : Nat) : String := tempStem ++ toString number

def isNameChar (char : Char) : Bool :=
  char.isAlphanum || char == '_' || char == '$'

/-- The occurrences of the stem in a text, each as what stands before it, reversed, and behind it.
The search goes on behind an occurrence: the number counts the characters to pass over. -/
def stemMatches : Nat → List Char → List Char → List (List Char × List Char)
  | _, _, [] => []
  | passing + 1, before, char :: rest => stemMatches passing (char :: before) rest
  | 0, before, char :: rest =>
    if tempStem.toList.isPrefixOf (char :: rest) then
      (before, (char :: rest).drop tempStem.length)
        :: stemMatches (tempStem.length - 1) (char :: before) rest
    else stemMatches 0 (char :: before) rest

/-- The name of a temporary that an occurrence of the stem begins: digits stand behind the stem, and
no character of a name right before it or behind the digits. -/
def tempNameAt? (before behind : List Char) : Option String :=
  let digits := behind.takeWhile Char.isDigit
  if before.head?.any isNameChar then none
  else if digits.isEmpty || (behind.drop digits.length).head?.any isNameChar then none
  else some (tempStem ++ String.ofList digits)

/-- The names of temporaries that a text uses. -/
def tempNamesIn (source : String) : List String :=
  (stemMatches 0 [] source.toList).filterMap fun (before, behind) => tempNameAt? before behind

end Haxify.Lower
