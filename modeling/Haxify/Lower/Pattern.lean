import Haxify.Lower.Rendering

/-!
# Taking values apart

Haxe has no destructuring, so a pattern becomes steps that read from a temporary
which holds the value. The value is evaluated once; a nested pattern and a default
get a temporary of their own.
-/

namespace Haxify.Lower

/-- The value of a name: its spelling if it is imported, otherwise its Haxe name. -/
def nameValue (node : Part) : Lowering String := do
  let name := node.text
  if name == "undefined" then return "null"
  match (← view).spelling? name with
  | some (.foreign path) | some (.foreignModule path) => return path
  | some .foreignType => unsupported node "type-only import used as a value"
  | some (.projectModule _) | some .ambientModule =>
    unsupported node ("namespace " ++ name ++ " used as a value")
  | none => return Haxe.sanitize name

/-- Whether a node takes a value apart. -/
def isPattern (node : Part) : Bool :=
  node.kind == "object_pattern" || node.kind == "array_pattern"

def isBindingName (node : Part) : Bool :=
  node.kind == "identifier" || node.kind == "shorthand_property_identifier_pattern"

/-- Whether a node is a place in an object to assign to. -/
def isMemberTarget (node : Part) : Bool :=
  node.kind == "member_expression" || node.kind == "subscript_expression"

def bindName (mode : BindingMode) (target : Part) (reading : Reading) :
    Lowering (List BindingStep) :=
  match mode with
  | .variable => do
    bindLocal target.text
    return [.declare false target.text reading]
  | .constant => do
    bindLocal target.text
    return [.declare true target.text reading]
  | .assignment => return [.assign (← nameValue target) reading]

/-- Binds one target to what is read: a name, a nested pattern or, for an assignment, a
place in an object. -/
def bindTarget (mode : BindingMode) (target : Part) (reading : Reading) :
    Lowering (List BindingStep) :=
  if isBindingName target then bindName mode target reading
  else if isMemberTarget target && mode = .assignment then do
    return [.assign (← target.value.expression) reading]
  else if isPattern target then do
    let temp ← freshTemp
    return .hold temp reading :: (← target.value.unpack mode temp)
  else unsupported target "destructuring target"

def bindWithDefault (mode : BindingMode) (target : Part) (reading : Reading) (default : Part) :
    Lowering (List BindingStep) := do
  let temp ← freshTemp
  let fallback ← default.value.expression
  if isPattern target then
    return .hold temp reading :: .fill temp fallback :: (← target.value.unpack mode temp)
  else
    return .hold temp reading :: (← bindTarget mode target (.fallback temp fallback))

/-- Binds the two sides of a target with a default. -/
def bindDefaulted (mode : BindingMode) (node : Part) (reading : Reading) :
    Lowering (List BindingStep) :=
  match node.field? "left", node.field? "right" with
  | some target, some default => bindWithDefault mode target reading default
  | _, _ => unsupported node "incomplete default in pattern"

/-- Binds a target that may have a default. -/
def bindEither (mode : BindingMode) (node : Part) (reading : Reading) :
    Lowering (List BindingStep) :=
  if node.kind == "assignment_pattern" then bindDefaulted mode node reading
  else bindTarget mode node reading

def patternKey (key : Part) : Lowering String :=
  match key.kind with
  | "property_identifier" | "number" => return key.text
  | "string" => return TypeScript.decodeLiteral key.text
  | "computed_property_name" => unsupported key "computed key in pattern"
  | _ => unsupported key "pattern key"

/-- The rest of an object: a copy without the keys claimed before it. -/
def objectRest (mode : BindingMode) (temp : String) (claimed : List String) (property : Part) :
    Lowering (List BindingStep) :=
  match property.first? with
  | none => unsupported property "rest without a name"
  | some target => do
    let rest ← freshTemp
    let bound ← bindTarget mode target (.whole rest)
    return .copy rest temp :: claimed.map (.drop rest) ++ bound

/-- Binds one property of an object pattern, behind the keys claimed before it. Gives the
steps and the key it claims. -/
def unpackProperty (mode : BindingMode) (temp : String) (claimed : List String) (property : Part) :
    Lowering (List BindingStep × List String) :=
  match property.kind with
  | "shorthand_property_identifier_pattern" => do
    return (← bindTarget mode property (.field temp property.text), [property.text])
  | "object_assignment_pattern" =>
    match property.field? "left", property.field? "right" with
    | some target, some default => do
      return (← bindWithDefault mode target (.field temp target.text) default, [target.text])
    | _, _ => unsupported property "incomplete default in pattern"
  | "pair_pattern" =>
    match property.field? "key", property.field? "value" with
    | some key, some target => do
      let name ← patternKey key
      return (← bindEither mode target (.field temp name), [name])
    | _, _ => unsupported property "incomplete property pattern"
  | "rest_pattern" => return (← objectRest mode temp claimed property, [])
  | _ => unsupported property "object pattern member"

/-- Binds the properties of an object pattern in order. -/
def unpackProperties (mode : BindingMode) (temp : String) (claimed : List String) :
    List Part → Lowering (List BindingStep)
  | [] => return []
  | property :: rest => do
    let (steps, keys) ← unpackProperty mode temp claimed property
    return steps ++ (← unpackProperties mode temp (claimed ++ keys) rest)

def unpackElement (mode : BindingMode) (temp : String) (index : Nat) (element : Part) :
    Lowering (List BindingStep) :=
  if element.kind == "rest_pattern" then
    match element.first? with
    | none => unsupported element "rest without a name"
    | some target => bindTarget mode target (.suffix temp index)
  else if element.isNamed then bindEither mode element (.element temp index)
  else unsupported element "array pattern element"

/-- Binds the elements of an array pattern in order; every comma counts. -/
def unpackElements (mode : BindingMode) (temp : String) (index : Nat) :
    List Part → Lowering (List BindingStep)
  | [] => return []
  | element :: rest =>
    if element.kind == "[" || element.kind == "]" then unpackElements mode temp index rest
    else if element.kind == "," then unpackElements mode temp (index + 1) rest
    else do
      let steps ← unpackElement mode temp index element
      return steps ++ (← unpackElements mode temp index rest)

/-- Takes the value of a temporary apart. -/
def renderUnpack (node : Part) (mode : BindingMode) (temp : String) : Lowering (List BindingStep) :=
  if node.kind == "object_pattern" then unpackProperties mode temp [] node.named
  else if node.kind == "array_pattern" then unpackElements mode temp 0 node.parts
  else unsupported node "destructuring target"

/-- Takes the value of a temporary apart, or binds it as it is. -/
def unpackFrom (mode : BindingMode) (node : Part) (temp : String) : Lowering (List BindingStep) :=
  if isPattern node then node.value.unpack mode temp else bindTarget mode node (.whole temp)

/-- Evaluates an expression once and takes its value apart. Gives the temporary that
holds the value, and the steps. -/
def destructure (mode : BindingMode) (pattern source : Part) :
    Lowering (String × List BindingStep) := do
  let value ← source.value.expression
  let temp ← freshTemp
  return (temp, .evaluate temp value :: (← unpackFrom mode pattern temp))

end Haxify.Lower
