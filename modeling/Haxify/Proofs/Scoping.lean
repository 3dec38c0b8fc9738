import Haxify.Proofs.Tree
import Haxify.Text.Pieces

/-!
# Which declaration a name belongs to

A name in value position belongs to a declaration around it, or to none inside the function it
stands in. There are two ways to tell. In ECMAScript a declaration counts in all of its scope:
that of a function for parameters and `var`, that of the block for the others, also in front of
the declaration. In order, a declaration counts only behind the place where it stands, and up to
the end of its block.

Either way gives a renaming of trees: `Scoping.resolve` puts another name for an old one wherever
the old one is a value that belongs to no declaration inside. Declarations, types, keys and values
that belong to a declaration stay as they are.
-/

namespace Haxify.TypeScript.Scope

open List

variable {child : Node} {kind : String}
variable {α : Type}

section Declarations

def isPart (tree : Tree α) : Bool := tree.isNamed && tree.kind != "comment"

def namedAmong (trees : List (Tree α)) : List (Tree α) := trees.filter isPart

theorem named_eq_namedAmong (tree : Tree α) : tree.named = namedAmong tree.children := by
  rw [Tree.named, Tree.parts, filter_filter]
  rfl

theorem find?_named (holds : Tree α → Bool) (tree : Tree α) :
    tree.named.find? holds = tree.children.find? fun child => isPart child && holds child := by
  rw [named_eq_namedAmong, namedAmong, find?_filter]
  simp only [Bool.decide_and, Bool.decide_eq_true]

theorem first?_eq_find? (tree : Tree α) : tree.first? = tree.children.find? isPart := by
  rw [Tree.first?, named_eq_namedAmong, namedAmong, head?_filter]

def isName (name : String) (tree : Tree α) : Bool :=
  tree.kind == "identifier" && tree.text == name

def bindsFrom (name : String) (token : Token) (below : List (Tree Bool)) : Bool :=
  let node := Tree.node token false below
  match token.kind with
  | "identifier" | "shorthand_property_identifier_pattern" => token.text == name
  | "object_pattern" => node.named.any (·.value)
  | "array_pattern" => node.parts.any (·.value)
  | "pair_pattern" => (node.field? "value").any (·.value)
  | "assignment_pattern" | "object_assignment_pattern" => (node.field? "left").any (·.value)
  | "rest_pattern" => node.first?.any (·.value)
  | _ => false

def patternBinds (name : String) (pattern : Tree α) : Bool :=
  (pattern.annotate (bindsFrom name)).value

theorem patternBinds_eq (name : String) (pattern : Tree α) :
    patternBinds name pattern =
      match pattern.kind with
      | "identifier" | "shorthand_property_identifier_pattern" => pattern.text == name
      | "object_pattern" => pattern.named.any (patternBinds name)
      | "array_pattern" => pattern.parts.any (patternBinds name)
      | "pair_pattern" => (pattern.field? "value").any (patternBinds name)
      | "assignment_pattern" | "object_assignment_pattern" =>
        (pattern.field? "left").any (patternBinds name)
      | "rest_pattern" => pattern.first?.any (patternBinds name)
      | _ => false := by
  have values (trees : List (Tree α)) :
      (trees.map (Tree.annotate (bindsFrom name))).any (·.value) =
        trees.any (patternBinds name) := by
    rw [any_map]
    rfl
  have value (tree : Option (Tree α)) :
      (tree.map (Tree.annotate (bindsFrom name))).any (·.value) = tree.any (patternBinds name) := by
    rw [Option.any_map]
    rfl
  have named := Tree.named_annotate (bindsFrom name) pattern
  have parts := Tree.parts_annotate (bindsFrom name) pattern
  have field := Tree.field?_annotate (bindsFrom name) pattern
  have first := Tree.first?_annotate (bindsFrom name) pattern
  rw [patternBinds, Tree.value_annotate, ← values, ← values, ← value, ← value, ← value, ← named,
    ← parts, ← field, ← field, ← first]
  rfl

section Kinds

variable {name : String} {pattern : Tree α}

theorem patternBinds_name (isName : pattern.kind = "identifier" ∨
    pattern.kind = "shorthand_property_identifier_pattern") :
    patternBinds name pattern = (pattern.text == name) := by
  rw [patternBinds_eq]
  rcases isName with kind | kind <;> rw [kind] <;> rfl

theorem patternBinds_object (isObject : pattern.kind = "object_pattern") :
    patternBinds name pattern = pattern.named.any (patternBinds name) := by
  rw [patternBinds_eq, isObject]
  rfl

theorem patternBinds_array (isArray : pattern.kind = "array_pattern") :
    patternBinds name pattern = pattern.parts.any (patternBinds name) := by
  rw [patternBinds_eq, isArray]
  rfl

theorem patternBinds_pair (isPair : pattern.kind = "pair_pattern") :
    patternBinds name pattern = (pattern.field? "value").any (patternBinds name) := by
  rw [patternBinds_eq, isPair]
  rfl

theorem patternBinds_default (isDefault : pattern.kind = "assignment_pattern" ∨
    pattern.kind = "object_assignment_pattern") :
    patternBinds name pattern = (pattern.field? "left").any (patternBinds name) := by
  rw [patternBinds_eq]
  rcases isDefault with kind | kind <;> rw [kind] <;> rfl

theorem patternBinds_rest (isRest : pattern.kind = "rest_pattern") :
    patternBinds name pattern = pattern.first?.any (patternBinds name) := by
  rw [patternBinds_eq, isRest]
  rfl

end Kinds

def declaratorBinds (name : String) (node : Tree α) : Bool :=
  node.kind == "variable_declarator" && (node.field? "name").any (patternBinds name)

/-- Whether a node is the declaration of a function under a name. -/
def declaresItself (name : String) (node : Tree α) : Bool :=
  node.kind == "function_declaration" && (node.field? "name").any (·.text == name)

/-- Whether a statement declares a name in the block it stands in. -/
def introduces (name : String) (statement : Tree α) : Bool :=
  if statement.kind == "lexical_declaration" || statement.kind == "variable_declaration" then
    statement.named.any (declaratorBinds name)
  else declaresItself name statement

def parameterBinds (name : String) (parameter : Tree α) : Bool :=
  (parameter.field? "pattern").any (patternBinds name)

def parametersBind (name : String) (function : Tree α) : Bool :=
  match function.field? "parameter" with
  | some single => single.text == name
  | none => (function.field? "parameters").any fun list => list.named.any (parameterBinds name)

def closureKinds : List String :=
  ["arrow_function", "function_expression", "function", "function_declaration", "method_definition"]

/-- Whether code has a `var` of a name outside the functions in it. -/
def hoists (name : String) (code : Tree α) : Bool :=
  (code.annotate fun token (below : List (Tree Bool)) =>
    let node := Tree.node token false below
    let isLoop := token.kind == "for_in_statement" && (node.field? "kind").any (·.text == "var")
    !closureKinds.contains token.kind
      && (token.kind == "variable_declaration" && node.named.any (declaratorBinds name)
        || isLoop && (node.field? "left").any (patternBinds name) || below.any (·.value))).value

/-- Whether a statement declares a name for the whole of the block it stands in. -/
def lexical (name : String) (statement : Tree α) : Bool :=
  statement.kind != "variable_declaration" && introduces name statement

end Declarations

section Places

/-- What a node is where it stands. -/
inductive Place where
  | code
  | declared
  | assigned
  | parameters
  | parameter
  | entries
  | clauses
  | clause
  | handler
  /-- A type, a key or a token, in which nothing is a value. -/
  | inert
deriving DecidableEq, Repr

/-- The kinds of code whose every child is code. -/
def listKinds : List String :=
  ["template_string", "template_substitution", "object", "array", "spread_element",
   "sequence_expression", "statement_block", "expression_statement", "return_statement",
   "throw_statement", "lexical_declaration", "variable_declaration"]

/-- The kinds of code that add nothing to the expression inside. -/
def transparentKinds : List String :=
  ["parenthesized_expression", "non_null_expression", "satisfies_expression"]

/-- What fills the fields of functions. -/
def closureFields : List (String × Place) := [("parameters", .parameters), ("body", .code)]

def codeFields : List (String × List (String × Place)) :=
  [("member_expression", [("object", .code)]),
   ("subscript_expression", [("object", .code), ("index", .code)]),
   ("call_expression", [("function", .code), ("arguments", .entries)]),
   ("new_expression", [("constructor", .code), ("arguments", .entries)]),
   ("binary_expression", [("left", .code), ("right", .code)]),
   ("unary_expression", [("argument", .code)]),
   ("update_expression", [("argument", .code)]),
   ("assignment_expression", [("left", .assigned), ("right", .code)]),
   ("augmented_assignment_expression", [("left", .code), ("right", .code)]),
   ("ternary_expression", [("condition", .code), ("consequence", .code), ("alternative", .code)]),
   ("pair", [("value", .code)]),
   ("variable_declarator", [("name", .declared), ("value", .code)]),
   ("if_statement", [("condition", .code), ("consequence", .code), ("alternative", .entries)]),
   ("while_statement", [("condition", .code), ("body", .code)]),
   ("do_statement", [("body", .code), ("condition", .code)]),
   ("for_statement",
     [("initializer", .code), ("condition", .code), ("increment", .code), ("body", .code)]),
   ("for_in_statement", [("left", .declared), ("right", .code), ("body", .code)]),
   ("switch_statement", [("value", .code), ("body", .clauses)]),
   ("try_statement", [("body", .code), ("handler", .handler)]),
   ("arrow_function", closureFields), ("function_expression", closureFields),
   ("function", closureFields), ("function_declaration", closureFields),
   ("method_definition", closureFields)]

def fieldPlace (kind field : String) : Place :=
  (((codeFields.lookup kind).getD []).lookup field).getD .inert

def codePlace (kind : String) (before : List (Tree α)) (child : Tree α) : Place :=
  let isType := Text.endsIn child.kind "type" || child.kind == "type_arguments"
  if listKinds.contains kind then .code
  else if transparentKinds.contains kind then
    if child.token.field == "expression" || !isType then .code else .inert
  else if kind == "as_expression" then if (namedAmong before).length == 0 then .code else .inert
  else if kind == "type_assertion" then if (namedAmong before).length == 1 then .code else .inert
  else fieldPlace kind child.token.field

def patternPlace (place : Place) (kind field : String) : Place :=
  match kind with
  | "object_pattern" | "array_pattern" | "rest_pattern" => place
  | "pair_pattern" => if field == "value" then place else .inert
  | "assignment_pattern" | "object_assignment_pattern" =>
    if field == "left" then place else if field == "right" then .code else .inert
  | _ => .inert

def childPlace (place : Place) (kind : String) (before : List (Tree α)) (child : Tree α) : Place :=
  let field := child.token.field
  let among (fields : List (String × Place)) := (fields.lookup field).getD .inert
  match place with
  | .code => codePlace kind before child
  | .declared => patternPlace .declared kind field
  | .assigned => patternPlace .assigned kind field
  | .parameters => .parameter
  | .parameter => among [("pattern", .declared), ("value", .code)]
  | .entries => .code
  | .clauses => .clause
  | .clause => among [("value", .code), ("body", .code)]
  | .handler => among [("parameter", .declared), ("body", .code)]
  | .inert => .inert

/-- The kinds of patterns with names to assign to inside. -/
def targetKinds : List String :=
  ["object_pattern", "array_pattern", "pair_pattern", "assignment_pattern",
   "object_assignment_pattern", "rest_pattern", "shorthand_property_identifier_pattern"]

/-- What a node is in a place: a target that is no pattern is code. -/
def settled (place : Place) (node : Tree α) : Place :=
  if place = .assigned && !targetKinds.contains node.kind then .code else place

end Places

section Scopings

/-- A way to tell what a name belongs to. -/
structure Scoping where
  /-- Whether a declaration in a node, which stands in a place, binds a name at a child of the
  node behind other children. -/
  binds : String → Place → Node → List Node → Node → Bool
  target : Node → Place

/-- Whether children in front of another one, which fills a field, declare a name for it. -/
def earlier (name : String) (place : Place) (kind field : String) (before : List (Tree α)) : Bool :=
  match place with
  | .code =>
    if kind == "statement_block" then (namedAmong before).any (introduces name)
    else if kind == "lexical_declaration" || kind == "variable_declaration" then
      (namedAmong before).any (declaratorBinds name)
    else false
  | .declared =>
    if kind == "object_pattern" then (namedAmong before).any (patternBinds name)
    else if kind == "array_pattern" then before.any (patternBinds name)
    else false
  | .parameters => (namedAmong before).any (parameterBinds name)
  | .clause =>
    field == "body"
      && (namedAmong before).any fun node => node.token.field == "body" && introduces name node
  | _ => false

/-- Whether what fills one field of a node declares a name for what fills another one. -/
def opens (name : String) (place : Place) (node : Tree α) (field : String) : Bool :=
  match place with
  | .code =>
    if closureKinds.contains node.kind then field == "body" && parametersBind name node
    else if node.kind == "variable_declarator" then
      field == "value" && (node.field? "name").any (isName name)
    else if node.kind == "for_statement" then
      field != "initializer" && (node.field? "initializer").any (introduces name)
    else if node.kind == "for_in_statement" then
      field == "body" && (node.field? "left").any (patternBinds name)
    else false
  | .parameter => field == "value" && (node.field? "pattern").any (isName name)
  | .handler => field == "body" && (node.field? "parameter").any (patternBinds name)
  | _ => false

/-- Whether a node is code in a place and declares itself as a function under a name. -/
def enters (name : String) (place : Place) (node : Tree α) : Bool :=
  settled place node = .code && declaresItself name node

/-- A declaration counts behind the place where it stands, up to the end of its block. -/
def inOrder : Scoping where
  binds name place parent before child :=
    enters name (childPlace place parent.kind before child) child
      || opens name place parent child.token.field
      || earlier name place parent.kind child.token.field before
  target _ := .declared

/-- A declaration counts in all of its scope. A function expression has a name of its own inside,
parameters count in each other's defaults, `var` counts in the body of the function, and other
declarations in the block, the loop, the switch or the handler that they stand in. -/
def ecmaScript : Scoping where
  binds name place parent _ child :=
    match place with
    | .code =>
      if closureKinds.contains parent.kind then
        let isNamed := ["function_expression", "function"].contains parent.kind
        isNamed && (parent.field? "name").any (·.text == name)
          || parametersBind name parent
          || child.token.field == "body" && hoists name child
      else if parent.kind == "statement_block" then parent.named.any (lexical name)
      else if parent.kind == "for_statement" then (parent.field? "initializer").any (lexical name)
      else if parent.kind == "for_in_statement" then
        (parent.field? "kind").any (·.text != "var") &&
          (parent.field? "left").any (patternBinds name)
      else false
    | .clauses => parent.named.any fun clause => (clause.fields "body").any (lexical name)
    | .handler => (parent.field? "parameter").any (patternBinds name)
    | _ => false
  target loop := if (loop.field? "kind").isSome then .declared else .assigned

/-- What a child of a node is, the target of a loop over items included. -/
def Scoping.place (scoping : Scoping) (place : Place) (parent : Node) (before : List Node)
    (child : Node) : Place :=
  let isTarget := place = .code && parent.kind == "for_in_statement" && child.token.field == "left"
  settled (if isTarget then scoping.target parent else childPlace place parent.kind before child)
    child

end Scopings

section Resolution

def isValue (place : Place) (kind : String) : Bool :=
  match place with
  | .code => kind == "identifier" || kind == "shorthand_property_identifier"
  | .assigned => kind == "shorthand_property_identifier_pattern"
  | _ => false

/-- A token with a new name for the old one, if it is a value that no declaration binds. -/
def renamed (old new : String) (place : Place) (bound : Bool) (token : Token) : Token :=
  let isFree := isValue place token.kind && !bound && token.text == old
  { token with text := if isFree then new else token.text }

def defaults (name : String) (node : Tree α) : Bool :=
  (node.field? "left").any fun target =>
    (target.kind == "identifier" || target.kind == "shorthand_property_identifier_pattern")
      && target.text == name

/-- The kinds of property and of value that a short property with a name stands for. -/
def expansion? (name : String) (place : Place) (parent : String) (child : Tree α) :
    Option (String × String) :=
  if place = .code && parent == "object" then
    if child.kind == "shorthand_property_identifier" && child.text == name then
      some ("pair", "identifier")
    else none
  else if place = .assigned && parent == "object_pattern" then
    if child.kind == "shorthand_property_identifier_pattern" && child.text == name then
      some ("pair_pattern", "identifier")
    else if child.kind == "object_assignment_pattern" && defaults name child then
      some ("pair_pattern", "assignment_pattern")
    else none
  else none

def asValue (kind : String) (node : Node) : Node :=
  .node { node.token with kind, field := "value" } () node.children

def expanded (name property value : String) (child copy : Node) : Node :=
  let key : Token :=
    { child.token with
      kind := "property_identifier", field := "key", text := name, isNamed := true }
  .node { child.token with kind := property } () [.node key () [], asValue value copy]

/-- The copy of a child, written out where it is short for a property with the name. -/
def spelledOut (name : String) (place : Place) (parent : String) (bound : Bool)
    (child copy : Node) : Node :=
  match expansion? name place parent child with
  | some (property, value) => if bound then copy else expanded name property value child copy
  | none => copy

mutual

/-- A tree with a new name for an old one, wherever this is a value that belongs to no declaration
inside. `bound` says whether a declaration around the tree binds the old name. -/
def Scoping.resolve (scoping : Scoping) (old new : String) (place : Place) (bound : Bool) :
    Node → Node
  | .node token _ children =>
    if place = .inert then .node token () children
    else
      .node (renamed old new place bound token) ()
        (scoping.resolveAll old new place bound (.node token () children) [] children)

/-- `resolve` on the children of a node behind some others. -/
def Scoping.resolveAll (scoping : Scoping) (old new : String) (place : Place) (bound : Bool)
    (parent : Node) (before : List Node) : List Node → List Node
  | [] => []
  | child :: rest =>
    let inside := bound || scoping.binds old place parent before child
    let copy := scoping.resolve old new (scoping.place place parent before child) inside child
    spelledOut old place parent.kind inside child copy
      :: scoping.resolveAll old new place bound parent (before ++ [child]) rest

end

end Resolution

section Copies

variable {scoping : Scoping} {old new : String} {place : Place} {bound : Bool} {parent : String}

theorem renamed_of_not_value {token : Token} (other : isValue place token.kind = false) :
    renamed old new place bound token = token := by
  unfold renamed
  rw [other]
  rfl

@[simp] theorem resolve_inert (tree : Node) : scoping.resolve old new .inert bound tree = tree := by
  obtain ⟨token, value, children⟩ := tree
  rw [Scoping.resolve, if_pos rfl]

theorem token_resolve (tree : Node) :
    (scoping.resolve old new place bound tree).token = renamed old new place bound tree.token := by
  obtain ⟨token, value, children⟩ := tree
  rw [Scoping.resolve]
  split
  · rename_i inert
    rw [inert]
    rfl
  · rfl

theorem children_resolve (lively : place ≠ .inert) (tree : Node) :
    (scoping.resolve old new place bound tree).children =
      scoping.resolveAll old new place bound tree [] tree.children := by
  obtain ⟨token, value, children⟩ := tree
  rw [Scoping.resolve, if_neg lively]
  rfl

@[simp] theorem kind_resolve (tree : Node) :
    (scoping.resolve old new place bound tree).kind = tree.kind := by
  rw [Tree.kind, token_resolve, Tree.kind]
  rfl

@[simp] theorem isNamed_resolve (tree : Node) :
    (scoping.resolve old new place bound tree).isNamed = tree.isNamed := by
  rw [Tree.isNamed, token_resolve, Tree.isNamed]
  rfl

@[simp] theorem field_resolve (tree : Node) :
    (scoping.resolve old new place bound tree).token.field = tree.token.field := by
  rw [token_resolve]
  rfl

theorem expansion?_eq_none (other : parent ∉ ["object", "object_pattern"])
    (child : Node) : expansion? old place parent child = none := by
  have plain : (parent == "object") = false ∧ (parent == "object_pattern") = false := by
    simpa using other
  simp [expansion?, plain]

theorem spelledOut_of_eq_none (plain : expansion? old place parent child = none) (copy : Node) :
    spelledOut old place parent bound child copy = copy := by
  rw [spelledOut, plain]

@[simp] theorem field_spelledOut {copy : Node} (same : copy.token.field = child.token.field) :
    (spelledOut old place parent bound child copy).token.field = child.token.field := by
  rw [spelledOut]
  split
  · split
    · exact same
    · rfl
  · exact same

theorem isNamed_spelledOut {copy : Node} (same : copy.isNamed = child.isNamed) :
    (spelledOut old place parent bound child copy).isNamed = child.isNamed := by
  rw [spelledOut]
  split
  · split
    · exact same
    · rfl
  · exact same

theorem isComment_spelledOut {copy : Node} (same : copy.kind = child.kind) :
    ((spelledOut old place parent bound child copy).kind != "comment") =
      (child.kind != "comment") := by
  rw [spelledOut]
  split
  · rename_i property value found
    split
    · rw [same]
    have kinds : (child.kind = "shorthand_property_identifier" ∨
        child.kind = "shorthand_property_identifier_pattern" ∨
        child.kind = "object_assignment_pattern") ∧
          (property = "pair" ∨ property = "pair_pattern") := by
      unfold expansion? at found
      grind
    have short : (child.kind != "comment") = true := by
      rcases kinds.1 with kind | kind | kind <;> rw [kind] <;> rfl
    have long : (property != "comment") = true := by
      rcases kinds.2 with kind | kind <;> rw [kind] <;> rfl
    rw [short]
    exact long
  · rw [same]

/-- The kinds of tokens that may be values. -/
def namingKinds : List String :=
  ["identifier", "shorthand_property_identifier", "shorthand_property_identifier_pattern"]

theorem isValue_of_not_mem (other : kind ∉ namingKinds) (place : Place) :
    isValue place kind = false := by
  simp only [namingKinds, mem_cons, not_mem_nil, or_false, not_or] at other
  cases place <;> simp [isValue, other]

theorem token_resolve_of_not_mem {tree : Node} (other : tree.kind ∉ namingKinds) :
    (scoping.resolve old new place bound tree).token = tree.token := by
  rw [token_resolve, renamed_of_not_value (isValue_of_not_mem other place)]

/-- What becomes of a child behind others. -/
def Scoping.copy (scoping : Scoping) (old new : String) (place : Place) (bound : Bool)
    (parent : Node) (before : List Node) (child : Node) : Node :=
  let inside := bound || scoping.binds old place parent before child
  spelledOut old place parent.kind inside child
    (scoping.resolve old new (scoping.place place parent before child) inside child)

theorem resolveAll_cons {parent : Node} {before rest : List Node} :
    scoping.resolveAll old new place bound parent before (child :: rest) =
      scoping.copy old new place bound parent before child
        :: scoping.resolveAll old new place bound parent (before ++ [child]) rest := by
  rw [Scoping.resolveAll]
  rfl

@[simp] theorem field_copy (parent : Node) (before : List Node) (child : Node) :
    (scoping.copy old new place bound parent before child).token.field = child.token.field :=
  field_spelledOut (field_resolve child)

@[simp] theorem isNamed_copy (parent : Node) (before : List Node) (child : Node) :
    (scoping.copy old new place bound parent before child).isNamed = child.isNamed :=
  isNamed_spelledOut (isNamed_resolve child)

@[simp] theorem isComment_copy (parent : Node) (before : List Node) (child : Node) :
    ((scoping.copy old new place bound parent before child).kind != "comment") =
      (child.kind != "comment") := isComment_spelledOut (kind_resolve child)

@[simp] theorem isPart_copy (parent : Node) (before : List Node) (child : Node) :
    isPart (scoping.copy old new place bound parent before child) = isPart child := by
  rw [isPart, isNamed_copy, isComment_copy, isPart]

section Plain

variable {tree : Node} (plain : ∀ child : Node, expansion? old place tree.kind child = none)

include plain

theorem kind_copy (before : List Node) (child : Node) :
    (scoping.copy old new place bound tree before child).kind = child.kind := by
  rw [Scoping.copy, spelledOut_of_eq_none (plain child), kind_resolve]

theorem has_resolve (kind : String) :
    (scoping.resolve old new place bound tree).has kind = tree.has kind := by
  by_cases inert : place = .inert
  · rw [inert, resolve_inert]
  · have kinds (before children : List Node) :
        (scoping.resolveAll old new place bound tree before children).any (·.kind == kind) =
          children.any (·.kind == kind) := by
      induction children generalizing before with
      | nil => rw [Scoping.resolveAll]
      | cons child rest rest_eq =>
        rw [resolveAll_cons, any_cons, any_cons, kind_copy plain, rest_eq]
    rw [Tree.has, children_resolve inert, kinds, Tree.has]

theorem text_namedOf?_resolve (other : kind ∉ namingKinds) :
    ((scoping.resolve old new place bound tree).namedOf? kind).map Tree.text =
      (tree.namedOf? kind).map Tree.text := by
  by_cases inert : place = .inert
  · rw [inert, resolve_inert]
  · have texts (before children : List Node) :
        ((scoping.resolveAll old new place bound tree before children).find? fun child =>
            isPart child && child.kind == kind).map Tree.text =
          (children.find? fun child => isPart child && child.kind == kind).map Tree.text := by
      induction children generalizing before with
      | nil =>
        rw [Scoping.resolveAll]
      | cons child rest rest_eq =>
        have text (same : child.kind = kind) :
            (scoping.copy old new place bound tree before child).text = child.text := by
          rw [Scoping.copy, spelledOut_of_eq_none (plain child), Tree.text,
            token_resolve_of_not_mem (same ▸ other)]
          rfl
        rw [resolveAll_cons, find?_cons, find?_cons, isPart_copy, kind_copy plain]
        cases found : isPart child && child.kind == kind with
        | true => exact congrArg some (text (by simpa using (Bool.and_eq_true_iff.mp found).2))
        | false => exact rest_eq _
    rw [Tree.namedOf?, find?_named, children_resolve inert, texts, Tree.namedOf?, find?_named]

end Plain

theorem resolveAll_eq_map {parent : Node} {before children : List Node} {copy : Node → Node}
    (each : ∀ front, ∀ child ∈ children,
      scoping.copy old new place bound parent front child = copy child) :
    scoping.resolveAll old new place bound parent before children = children.map copy := by
  induction children generalizing before with
  | nil => rw [Scoping.resolveAll, map_nil]
  | cons child rest rest_eq =>
    rw [resolveAll_cons, map_cons, each before child (.head _),
      rest_eq fun front other member => each front other (.tail _ member)]

theorem find?_resolveAll {parent : Node} {field : String} {before children : List Node}
    {copy : Node → Node} (each : ∀ front, ∀ child ∈ children, child.token.field = field →
      scoping.copy old new place bound parent front child = copy child) :
    (scoping.resolveAll old new place bound parent before children).find? (·.token.field == field) =
      (children.find? (·.token.field == field)).map copy := by
  induction children generalizing before with
  | nil =>
    rw [Scoping.resolveAll]
    rfl
  | cons child rest rest_eq =>
    rw [resolveAll_cons, find?_cons, find?_cons, field_copy]
    cases here : child.token.field == field with
    | true => exact congrArg some (each before child (.head _) (eq_of_beq here))
    | false => exact rest_eq fun front other member => each front other (.tail _ member)

/-- Nodes that are copied one behind the other, each by what those in front of it bind. -/
def thread (binds : Node → Bool) (copy : Bool → Node → Node) : Bool → List Node → List Node
  | _, [] => []
  | bound, node :: rest => copy bound node :: thread binds copy (bound || binds node) rest

theorem thread_eq_map {binds : Node → Bool} {copy : Bool → Node → Node} {nodes : List Node}
    (none : ∀ node ∈ nodes, binds node = false) :
    thread binds copy bound nodes = nodes.map (copy bound) := by
  induction nodes with
  | nil => rfl
  | cons node rest rest_eq =>
    rw [thread, none node (.head _), Bool.or_false, map_cons,
      rest_eq fun other member => none other (.tail _ member)]

theorem filter_resolveAll {parent : Node} {keep binds : Node → Bool}
    (flag : List Node → Bool) (copy : Bool → Node → Node)
    (kept : ∀ front child, keep (scoping.copy old new place bound parent front child) = keep child)
    (copies : ∀ front child, keep child →
      scoping.copy old new place bound parent front child = copy (bound || flag front) child)
    (step : ∀ front child, flag (front ++ [child]) = (flag front || (keep child && binds child)))
    (before children : List Node) :
    (scoping.resolveAll old new place bound parent before children).filter keep =
      thread binds copy (bound || flag before) (children.filter keep) := by
  induction children generalizing before with
  | nil =>
    rw [Scoping.resolveAll]
    rfl
  | cons child rest rest_eq =>
    have others := rest_eq (before ++ [child])
    rw [step] at others
    rw [resolveAll_cons, filter_cons, filter_cons, kept, others]
    cases counts : keep child with
    | false => simp
    | true => simp [thread, copies before child counts, Bool.or_assoc]

end Copies

end Haxify.TypeScript.Scope
