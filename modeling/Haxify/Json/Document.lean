import Haxify.Json.Lexeme

/-!
# Documents of JSON with comments

A document is one value; an object or array that is not empty may have a comma
after its last member. Lexemes are taken one at a time by a machine that keeps
the open containers on a stack, so reading ends with the text.
-/

namespace Haxify.Json

/-- A value whose strings and numbers are kept as they were written. -/
inductive Written where
  | null
  /-- The word `true` or `false`. -/
  | bool (value : Bool)
  | number (written : List Char)
  | string (written : List Char)
  | array (items : List Written)
  /-- An object, members in order and as often as they occur. -/
  | object (members : List (List Char × Written))

/-- A container that is still open, its contents last first. -/
inductive Open where
  | array (items : List Written)
  | object (members : List (List Char × Written))
  /-- An object with a key that waits for its value. -/
  | member (members : List (List Char × Written)) (key : List Char)

/-- What may come next. -/
inductive Reading where
  | value (stack : List Open)
  /-- A value or the end of the array. -/
  | item (items : List Written) (stack : List Open)
  | key (members : List (List Char × Written)) (stack : List Open)
  | colon (members : List (List Char × Written)) (key : List Char) (stack : List Open)
  | afterItem (items : List Written) (stack : List Open)
  /-- A comma or the end of the object. -/
  | afterMember (members : List (List Char × Written)) (stack : List Open)
  /-- Nothing; the document is complete. -/
  | complete (value : Written)

/-- Puts a finished value where it belongs. -/
def Reading.finish (done : Written) : List Open → Option Reading
  | [] => some (.complete done)
  | .array items :: stack => some (.afterItem (done :: items) stack)
  | .member members label :: stack => some (.afterMember ((label, done) :: members) stack)
  | .object _ :: _ => none

/-- The reading after the first lexeme of a value. -/
def Reading.start (lexeme : Lexeme) (stack : List Open) : Option Reading :=
  match lexeme with
  | .null => finish .null stack
  | .bool flag => finish (.bool flag) stack
  | .number written => finish (.number written) stack
  | .string written => finish (.string written) stack
  | .openBracket => some (.item [] stack)
  | .openBrace => some (.key [] stack)
  | _ => none

/-- The reading after one more lexeme; none if it may not come here. -/
def Reading.step (reading : Reading) (lexeme : Lexeme) : Option Reading :=
  match reading, lexeme with
  | .value stack, lexeme => start lexeme stack
  | .item items stack, .closeBracket => finish (.array items.reverse) stack
  | .item items stack, lexeme => start lexeme (.array items :: stack)
  | .key members stack, .closeBrace => finish (.object members.reverse) stack
  | .key members stack, .string label => some (.colon members label stack)
  | .colon members label stack, .colon => some (.value (.member members label :: stack))
  | .afterItem items stack, .comma => some (.item items stack)
  | .afterItem items stack, .closeBracket => finish (.array items.reverse) stack
  | .afterMember members stack, .comma => some (.key members stack)
  | .afterMember members stack, .closeBrace => finish (.object members.reverse) stack
  | _, _ => none

def Reading.run (reading : Reading) : List Lexeme → Option Reading
  | [] => some reading
  | lexeme :: rest => (reading.step lexeme).bind fun next => next.run rest

/-- The value that a text spells; none if it is no document. -/
def Written.read? (text : String) : Option Written :=
  match (lexemes text.toList).bind (Reading.value []).run with
  | some (.complete value) => some value
  | _ => none

def isDocument (text : String) : Bool := (Written.read? text).isSome

end Haxify.Json
