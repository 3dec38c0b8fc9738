import Haxify.Lower.Rendering

/-!
# Calls with a spelling of their own

Some calls into the standard library are spelled differently in Haxe. A name that a
scope binds is not taken for the global one.
-/

namespace Haxify.Lower

/-- A call of a global function: its object and method, the number of arguments it is
known with, and its Haxe form. -/
structure GlobalCall where
  object : String
  method : String
  arity : Nat
  /-- The Haxe form of the call with its first argument. -/
  render : String → String

def globalCalls : List GlobalCall :=
  [⟨"JSON", "stringify", 1, fun argument => "haxe.Json.stringify(" ++ argument ++ ")"⟩,
   ⟨"JSON", "parse", 1, fun argument => "haxe.Json.parse(" ++ argument ++ ")"⟩,
   ⟨"console", "log", 1, fun argument => "trace(" ++ argument ++ ")"⟩]

/-- The methods without arguments that are spelled differently on any receiver. -/
def methodCalls : List (String × (String → String)) :=
  [("trim", fun receiver => "StringTools.trim(" ++ receiver ++ ")"),
   ("slice", fun receiver => receiver ++ ".slice(0)")]

def constructorName? (name : String) : Option String :=
  match name with
  | "Error" => some "js.lib.Error"
  | "Promise" => some "js.lib.Promise"
  | _ => none

/-- The value of the first argument, empty if there is none. -/
def firstArgument (arguments : List Part) : Lowering String :=
  match arguments with
  | [] => return ""
  | argument :: _ => argument.value.expression

def globalCallsOf (object : Part) (method : String) : Lowering (List GlobalCall) := do
  if object.kind == "identifier" && !(← view).isLocal object.text then
    return globalCalls.filter fun call => call.object == object.text && call.method == method
  else return []

def globalCall (callee object : Part) (method : String) (known : List GlobalCall)
    (arguments : List Part) : Lowering String :=
  match known.find? (·.arity == arguments.length) with
  | some call => return call.render (← firstArgument arguments)
  | none =>
    unsupported callee
      (object.text ++ "." ++ method ++ " with " ++ toString arguments.length ++ " arguments")

def methodCall? (object : Part) (method : String) (arguments : List Part) :
    Lowering (Option String) :=
  if arguments.isEmpty then
    match methodCalls.lookup method with
    | some render => return some (render (← object.value.expression))
    | none => return none
  else return none

/-- The Haxe form of a call that is spelled differently; none if the call is not. -/
def builtinCall? (callee : Part) (arguments : List Part) : Lowering (Option String) :=
  if callee.kind != "member_expression" || callee.has "optional_chain" then return none
  else
    match callee.field? "object", callee.field? "property" with
    | some object, some property => do
      let known ← globalCallsOf object property.text
      if known.isEmpty then methodCall? object property.text arguments
      else return some (← globalCall callee object property.text known arguments)
    | _, _ => return none

end Haxify.Lower
