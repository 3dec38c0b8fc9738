import Haxify.Haxe.Code
import Haxify.Haxe.Quoted
import Haxify.Lower.Monad

/-!
# Renderings

What a node of a syntax tree stands for in Haxe, by the place it stands in: as a
type, a value, a statement, what follows in an else branch, or a pattern to take
a value apart. A rendering is computed from the renderings of the nodes below, so
that every rule of the lowering looks at one node and at the renderings of its
parts.
-/

namespace Haxify.Lower

/-- How the names in a pattern are bound. -/
inductive BindingMode where
  | variable
  | constant
  /-- As targets that exist already. -/
  | assignment
deriving DecidableEq, Repr

/-- What a binding step reads: always through a temporary. -/
inductive Reading where
  /-- All of a temporary. -/
  | whole (temp : String)
  | field (temp key : String)
  | element (temp : String) (index : Nat)
  | suffix (temp : String) (index : Nat)
  | fallback (temp default : String)
deriving DecidableEq, Repr

def Reading.render : Reading → String
  | .whole temp => temp
  | .field temp key =>
    if Haxe.isIdentifier key then temp ++ "." ++ key
    else "Reflect.field(" ++ temp ++ ", " ++ Haxe.quote key ++ ")"
  | .element temp index => temp ++ "[" ++ toString index ++ "]"
  | .suffix temp index => temp ++ ".slice(" ++ toString index ++ ")"
  | .fallback temp default => "(" ++ temp ++ " == null ? " ++ default ++ " : " ++ temp ++ ")"

/-- One statement of those that take a value apart. -/
inductive BindingStep where
  | evaluate (temp expression : String)
  | hold (temp : String) (reading : Reading)
  | fill (temp default : String)
  /-- Copies an object into a new temporary. -/
  | copy (temp whole : String)
  /-- Takes a field away from a temporary. -/
  | drop (temp key : String)
  | declare (isConstant : Bool) (name : String) (reading : Reading)
  | assign (target : String) (reading : Reading)
deriving DecidableEq, Repr

def BindingStep.render : BindingStep → String
  | .evaluate temp expression => "var " ++ temp ++ " = " ++ expression ++ ";"
  | .hold temp reading => "var " ++ temp ++ " = " ++ reading.render ++ ";"
  | .fill temp default => temp ++ " = " ++ (Reading.fallback temp default).render ++ ";"
  | .copy temp whole => "var " ++ temp ++ " = Reflect.copy(" ++ whole ++ ");"
  | .drop temp key => "Reflect.deleteField(" ++ temp ++ ", " ++ Haxe.quote key ++ ");"
  | .declare isConstant name reading =>
    (if isConstant then "final " else "var ") ++ Haxe.sanitize name ++ " = " ++ reading.render ++
      ";"
  | .assign target reading => target ++ " = " ++ reading.render ++ ";"

/-- What a node stands for, by the place it stands in. -/
structure Rendering where
  type : View → String
  /-- As a value. -/
  expression : Lowering String
  statement : Lowering (List Haxe.Code)
  /-- As what follows the first branch of a conditional, its closing brace included. -/
  alternative : Lowering (List Haxe.Code)
  /-- As a pattern that takes the value of a temporary apart. -/
  unpack : BindingMode → String → Lowering (List BindingStep)

abbrev Part := TypeScript.Tree Rendering

/-- A rendering that nothing is known of yet. -/
def Rendering.unknown (token : TypeScript.Token) : Rendering where
  type _ := "Dynamic"
  expression := unsupportedToken token "not rendered"
  statement := unsupportedToken token "not rendered"
  alternative := unsupportedToken token "not rendered"
  unpack _ _ := unsupportedToken token "not rendered"

/-- A node while its rendering is computed: the rules look at the renderings of its
parts only. -/
def partOf (token : TypeScript.Token) (children : List Part) : Part :=
  .node token (.unknown token) children

def required (node : Part) (field : String) : Lowering String :=
  match node.field? field with
  | some part => part.value.expression
  | none => unsupported node ("missing " ++ field)

/-- The values of parts in order. -/
def expressions (parts : List Part) : Lowering (List String) :=
  forEach parts fun part => part.value.expression

def statements (parts : List Part) : Lowering (List Haxe.Code) := do
  return (← forEach parts fun part => part.value.statement).flatten

end Haxify.Lower
