import Haxify.Number.Decimal

/-!
# JSON values

Whole numbers that fit in sixty-four bits with a sign are kept apart from all
others, which are doubles. The members of an object are in the order of their
keys, and a key occurs once.
-/

namespace Haxify

inductive Json where
  | null
  | bool (value : Bool)
  | integer (value : Int)
  | float (value : Number.Binary64)
  | string (value : String)
  | array (items : List Json)
  /-- An object with its members in the order of their keys. -/
  | object (members : List (String × Json))
deriving Repr, Inhabited

namespace Json

/-- Members with one more; a key that is there already takes the new value. -/
def insertMember (key : String) (value : Json) : List (String × Json) → List (String × Json)
  | [] => [(key, value)]
  | (known, old) :: rest =>
    if key < known then (key, value) :: (known, old) :: rest
    else if key = known then (key, value) :: rest
    else (known, old) :: insertMember key value rest

/-- The object with the given members; of those with the same key the last counts. -/
def ofMembers (members : List (String × Json)) : Json :=
  .object (members.foldl (fun sorted (key, value) => insertMember key value sorted) [])

end Json

end Haxify
