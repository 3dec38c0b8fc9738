import Haxify.Json.Value
import Haxify.Text.Visible

/-!
# Decoding settings

Settings are read from JSON values. A structure may be given as an object, whose
members are taken in the order of their keys and may hold unknown ones, or as an
array of its fields in their order. The first value that does not fit is
reported with what stands there and what was wanted.
-/

namespace Haxify.Config

/-- Why a value cannot be decoded. -/
inductive DecodeError where
  | invalidType (found wanted : String)
  /-- A value of the right type that is out of range. -/
  | invalidValue (found wanted : String)
  /-- An array of the wrong length. -/
  | invalidLength (length : Nat) (wanted : String)
  | unknownVariant (name : String) (known : List String)
  /-- A value that fits no form of a union. -/
  | noVariant (union : String)
deriving DecidableEq, Repr

/-- A name between back quotes. -/
def ticked (name : String) : String := "\x60" ++ name ++ "\x60"

def DecodeError.message : DecodeError → String
  | .invalidType found wanted => "invalid type: " ++ found ++ ", expected " ++ wanted
  | .invalidValue found wanted => "invalid value: " ++ found ++ ", expected " ++ wanted
  | .invalidLength length wanted =>
    "invalid length " ++ toString length ++ ", expected " ++ wanted
  | .unknownVariant name known =>
    "unknown variant " ++ ticked name ++ ", expected "
      ++ Text.joinWith " or " (known.map ticked)
  | .noVariant union => "data did not match any variant of untagged enum " ++ union

/-- What a message calls a value. -/
def describe : Json → String
  | .null => "null"
  | .bool value => "boolean " ++ ticked (if value then "true" else "false")
  | .integer value => "integer " ++ ticked (toString value)
  | .float value => "floating point " ++ ticked value.compact
  | .string value => "string " ++ Text.shown value
  | .array _ => "sequence"
  | .object _ => "map"

def unfit {α : Type} (value : Json) (wanted : String) : Except DecodeError α :=
  .error (.invalidType (describe value) wanted)

def stringAs (wanted : String) : Json → Except DecodeError String
  | .string value => .ok value
  | other => unfit other wanted

def string : Json → Except DecodeError String := stringAs "a string"

def bool : Json → Except DecodeError Bool
  | .bool value => .ok value
  | other => unfit other "a boolean"

/-- Decodes a whole number that is not negative. -/
def natural (value : Json) : Except DecodeError Nat :=
  match value with
  | .integer (.ofNat number) => .ok number
  | .integer _ => .error (.invalidValue (describe value) "usize")
  | other => unfit other "usize"

def each {α : Type} (decode : Json → Except DecodeError α) : List Json → Except DecodeError (List α)
  | [] => .ok []
  | item :: rest => do
    let value ← decode item
    let others ← each decode rest
    return value :: others

def strings : Json → Except DecodeError (List String)
  | .array items => each string items
  | other => unfit other "a sequence"

/-- Decodes a value that may be missing; `null` counts as missing. -/
def optional {α : Type} (decode : Json → Except DecodeError α) :
    Json → Except DecodeError (Option α)
  | .null => .ok none
  | other => (decode other).map some

/-- How a structure takes the values of its fields. -/
structure Shape (α : Type) where
  name : String
  /-- The fields in order, each with the way it takes its value. -/
  fields : List (String × (α → Json → Except DecodeError α))
  /-- Whether fields at the end of an array may be left out. -/
  mayEndEarly : Bool

namespace Shape

variable {α : Type}

/-- Takes the members of an object; unknown ones are passed over. -/
def takeMembers (shape : Shape α) (start : α) : List (String × Json) → Except DecodeError α
  | [] => .ok start
  | (key, value) :: rest =>
    match shape.fields.lookup key with
    | some take => do
      let next ← take start value
      shape.takeMembers next rest
    | none => shape.takeMembers start rest

def takeItems (shape : Shape α) (length position : Nat) (start : α) :
    List (String × (α → Json → Except DecodeError α)) → List Json → Except DecodeError α
  | [], [] => .ok start
  | [], _ :: _ => .error (.invalidLength length "fewer elements in array")
  | _ :: _, [] =>
    if shape.mayEndEarly then .ok start
    else .error (.invalidLength position
      ("struct " ++ shape.name ++ " with " ++ toString shape.fields.length ++ " elements"))
  | (_, take) :: fields, item :: items => do
    let next ← take start item
    shape.takeItems length (position + 1) next fields items

/-- Decodes a structure, where fields that are not given keep the value in `start`. -/
def decode (shape : Shape α) (start : α) : Json → Except DecodeError α
  | .object members => shape.takeMembers start members
  | .array items => shape.takeItems items.length 0 start shape.fields items
  | other => unfit other ("struct " ++ shape.name)

end Shape

end Haxify.Config
