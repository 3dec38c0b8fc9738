import Haxify.Proofs.Tree
import Haxify.Text.Pieces
import Mathlib.Logic.Relation

/-!
# Value positions

The grammar gives each kind of node its places for children. Some of these places hold code:
expressions, patterns, statements, and the lists and clauses that code stands in. The others
hold names and types. `grammar` lists the places that hold code, and the nodes below a node in
value position are the ones reached through such places alone. Left out are the places that a
checker for TypeScript leaves empty: signatures without a body, initializers of `this` and of
rest parameters, the initializer in the header of a loop over fields, and all but the first
base of a class.

Some constructs have no Haxe form at all. Code is clean if none of them is in value position.
-/

namespace Haxify.TypeScript

open List
open Option (toList_map)

variable {α β : Type}

/-- Places for children that hold code. -/
inductive Slot where
  | field (name : String)
  | listed (name kind : String)
  | every
  | everyOf (kinds : List String)
  | firstOf (kind : String)
  | allIn (name : String)
  | nth (index : Nat)
  | first
  /-- What fills the field for an expression, or else the first named child. -/
  | operand
  /-- The label of a case, without the parentheses around it. -/
  | label
  | memberName
  /-- The list of parameters, unless a single name stands for it. -/
  | parameters
  /-- The initializer of a parameter, unless it is `this` or takes all further arguments. -/
  | initializer
  /-- What is exported: a declaration or else a value. -/
  | exported
deriving DecidableEq, Repr

/-- The children of a node in a place. -/
def Slot.pick (slot : Slot) (node : Tree α) : List (Tree α) :=
  match slot with
  | .field name => (node.field? name).toList
  | .listed name kind => ((node.field? name).filter (·.kind == kind)).toList
  | .every => node.named
  | .everyOf kinds => node.named.filter fun part => kinds.contains part.kind
  | .firstOf kind => (node.namedOf? kind).toList
  | .allIn name => node.fields name
  | .nth index => node.named[index]?.toList
  | .first => node.first?.toList
  | .operand => ((node.field? "expression").or node.first?).toList
  | .label => ((node.field? "value").map (·.unparenthesized)).toList
  | .memberName => ((node.field? "name").filter (·.text != "constructor")).toList
  | .parameters =>
    if (node.field? "parameter").isSome then []
    else ((node.field? "parameters").filter (·.kind == "formal_parameters")).toList
  | .initializer =>
    if (node.field? "pattern").any fun pattern => ["this", "rest_pattern"].contains pattern.kind
    then [] else (node.field? "value").toList
  | .exported => ((node.field? "declaration").or (node.field? "value")).toList

@[simp] theorem Slot.pick_annotate (value : Token → List (Tree β) → β) (slot : Slot)
    (node : Tree α) :
    slot.pick (node.annotate value) = (slot.pick node).map (Tree.annotate value) := by
  cases slot with
  | field name | firstOf kind | nth index | first => simp [pick, toList_map]
  | listed name kind | memberName => simp [pick, ← toList_map, Option.filter_map, Function.comp_def]
  | every | allIn name => simp [pick]
  | everyOf kinds => simp [pick, filter_map, Function.comp_def]
  | operand | exported => simp [pick, ← toList_map, Option.map_or]
  | label => simp [pick, ← toList_map, Function.comp_def]
  | parameters =>
    simp only [pick, Tree.field?_annotate, Option.isSome_map]
    split
    · rfl
    · simp [← toList_map, Option.filter_map, Function.comp_def]
  | initializer =>
    simp only [pick, Tree.field?_annotate, Option.any_map, Tree.kind_annotate]
    split
    · rfl
    · exact toList_map

/-- The places that hold code, by the kind of the node, for most kinds. -/
def grammar : List (String × List Slot) :=
  -- Expressions.
  [("template_string", [.everyOf ["template_substitution"]]),
   ("template_substitution", [.first]),
   ("member_expression", [.field "object"]),
   ("subscript_expression", [.field "object", .field "index"]),
   ("call_expression", [.field "function", .field "arguments"]),
   ("new_expression", [.field "constructor", .listed "arguments" "arguments"]),
   ("arguments", [.every]),
   ("binary_expression", [.field "left", .field "right"]),
   ("unary_expression", [.field "argument"]),
   ("update_expression", [.field "argument"]),
   ("assignment_expression", [.field "left", .field "right"]),
   ("augmented_assignment_expression", [.field "left", .field "right"]),
   ("ternary_expression", [.field "condition", .field "consequence", .field "alternative"]),
   ("object", [.every]),
   ("pair", [.field "key", .field "value"]),
   ("array", [.every]),
   ("spread_element", [.first]),
   ("as_expression", [.nth 0]),
   ("type_assertion", [.nth 1]),
   ("satisfies_expression", [.operand]),
   ("non_null_expression", [.operand]),
   ("parenthesized_expression", [.operand]),
   ("sequence_expression", [.every]),
   -- Functions.
   ("arrow_function", [.parameters, .field "body"]),
   ("function_expression", [.parameters, .field "body"]),
   ("function", [.parameters, .field "body"]),
   ("function_declaration", [.parameters, .field "body"]),
   ("formal_parameters", [.everyOf ["required_parameter", "optional_parameter"]]),
   ("required_parameter", [.everyOf ["decorator"], .field "pattern", .initializer]),
   ("optional_parameter", [.everyOf ["decorator"], .field "pattern", .initializer]),
   -- Patterns.
   ("object_pattern", [.every]),
   ("array_pattern", [.every]),
   ("pair_pattern", [.field "key", .field "value"]),
   ("object_assignment_pattern", [.field "left", .field "right"]),
   ("assignment_pattern", [.field "left", .field "right"]),
   ("rest_pattern", [.first]),
   -- Statements.
   ("statement_block", [.every]),
   ("expression_statement", [.first]),
   ("lexical_declaration", [.everyOf ["variable_declarator"]]),
   ("variable_declaration", [.everyOf ["variable_declarator"]]),
   ("variable_declarator", [.field "name", .field "value"]),
   ("if_statement",
     [.field "condition", .field "consequence", .listed "alternative" "else_clause"]),
   ("else_clause", [.first]),
   ("while_statement", [.field "condition", .field "body"]),
   ("do_statement", [.field "body", .field "condition"]),
   ("for_statement", [.field "initializer", .field "condition", .field "increment", .field "body"]),
   ("for_in_statement", [.field "left", .field "right", .field "body"]),
   ("return_statement", [.first]),
   ("throw_statement", [.first]),
   ("switch_statement", [.field "value", .listed "body" "switch_body"]),
   ("switch_case", [.label, .allIn "body"]),
   ("switch_default", [.allIn "body"]),
   ("try_statement", [.field "body", .listed "handler" "catch_clause", .field "finalizer"]),
   ("catch_clause", [.field "parameter", .field "body"]),
   -- Classes.
   ("class_declaration",
     [.everyOf ["decorator"], .firstOf "class_heritage", .listed "body" "class_body"]),
   ("class_heritage", [.everyOf ["extends_clause"]]),
   ("public_field_definition", [.everyOf ["decorator"], .field "name", .field "value"]),
   ("field_definition", [.everyOf ["decorator"], .field "name", .field "value"]),
   ("decorator", [.first])]

/-- The places that hold code for those kinds of nodes where a rule may pass over one of them. -/
def specialGrammar : List (String × List Slot) :=
  [("method_definition", [.memberName, .parameters, .field "body"]),
   ("class_body", [.every]),
   ("extends_clause", [.field "value"]),
   ("switch_body", [.every]),
   ("export_statement", [.everyOf ["decorator"], .exported])]

/-- The kinds of nodes that hold no code: names, literals, plain jumps, signatures without a
body, and punctuation. -/
def leafKinds : List String :=
  ["identifier", "property_identifier", "private_property_identifier",
   "shorthand_property_identifier", "shorthand_property_identifier_pattern", "undefined", "null",
   "true", "false", "this", "super", "import", "number", "string", "empty_statement",
   "break_statement", "continue_statement", "method_signature", "function_signature",
   "[", "]", ",", ";"]

def isTypeKind (kind : String) : Bool :=
  Text.endsIn kind "type"
    || ["type_annotation", "type_arguments", "type_identifier", "type_parameters"].contains kind

/-- The places of a kind of nodes that hold code; every child where nothing else is known. -/
def slots (kind : String) : List Slot :=
  if leafKinds.contains kind || isTypeKind kind then []
  else ((grammar ++ specialGrammar).lookup kind).getD [.every]

namespace Tree

variable {parts : Tree α → List (Tree α)} {steps : Nat} {kind : String} {row : List Slot}

/-- The children of a node that hold code. -/
def valueParts (node : Tree α) : List (Tree α) :=
  if node.isNamed then (slots node.kind).flatMap (·.pick node) else []

/-- The kinds of constructs without a Haxe form. -/
def unlowerableKinds : List String :=
  ["await_expression", "yield_expression", "regex", "class", "generator_function",
   "generator_function_declaration", "labeled_statement", "finally_clause", "with_statement",
   "debugger_statement", "jsx_element", "jsx_self_closing_element", "jsx_fragment"]

/-- Whether a node is a construct without a Haxe form; a method may be one because of its star. -/
def isUnlowerable (node : Tree α) : Bool :=
  node.isNamed && (unlowerableKinds.contains node.kind
    || node.kind == "method_definition" && node.has "*")

/-- A node is reached from another one through some parts of each node. -/
def Reaches (parts : Tree α → List (Tree α)) : Tree α → Tree α → Prop :=
  Relation.ReflTransGen fun node part => part ∈ parts node

/-- No construct without a Haxe form is reached. -/
def Clean (parts : Tree α → List (Tree α)) (tree : Tree α) : Prop :=
  ∀ node, Reaches parts tree node → node.isUnlowerable = false

/-- The nodes that some number of steps lead to. -/
def reachedWithin (parts : Tree α → List (Tree α)) : Nat → Tree α → List (Tree α)
  | 0, tree => [tree]
  | steps + 1, tree => tree :: (parts tree).flatMap (reachedWithin parts steps)

theorem reaches_of_mem_reachedWithin
    {tree node : Tree α} (member : node ∈ reachedWithin parts steps tree) :
    Reaches parts tree node := by
  induction steps generalizing tree with
  | zero =>
    rw [reachedWithin, mem_singleton] at member
    rw [member]
    exact .refl
  | succ steps steps_reach =>
    rw [reachedWithin, mem_cons, mem_flatMap] at member
    rcases member with rfl | ⟨part, inside, below⟩
    · exact .refl
    · exact .head inside (steps_reach below)

/-- Whether a property holds of all nodes that are reached, each of them in less than some
number of steps. -/
def holdsWithin (holds : Tree α → Bool) (parts : Tree α → List (Tree α)) : Nat → Tree α → Bool
  | 0, _ => false
  | steps + 1, tree => holds tree && (parts tree).all (holdsWithin holds parts steps)

theorem forall_of_holdsWithin {holds : Tree α → Bool}
    {tree : Tree α} (within : holdsWithin holds parts steps tree) :
    ∀ node, Reaches parts tree node → holds node := by
  induction steps generalizing tree with
  | zero => cases within
  | succ steps steps_hold =>
    rw [holdsWithin, Bool.and_eq_true, all_eq_true] at within
    intro node reached
    rcases reached.cases_head with rfl | ⟨part, inside, below⟩
    · exact within.1
    · exact steps_hold (within.2 part inside) node below

theorem not_clean_of_reachedWithin {tree : Tree α} (steps : Nat)
    (found : (reachedWithin parts steps tree).any isUnlowerable) : ¬Clean parts tree := by
  obtain ⟨node, member, refused⟩ := any_eq_true.mp found
  intro clean
  rw [clean node (reaches_of_mem_reachedWithin member)] at refused
  cases refused

section Overlooked

def isGeneratorConstructor (member : Tree α) : Bool :=
  member.kind == "method_definition" && member.has "*"
    && (member.field? "name").any (·.text == "constructor")

/-- What is looked at of a member of a class: the member, but not the star of a constructor. -/
def memberParts (member : Tree α) : List (Tree α) :=
  if isGeneratorConstructor member then member.valueParts else [member]

/-- Whether the base of a class is a member of something that reads like the name of a module
without being a plain name. -/
def isMemberOfNamesake (foreign : String → Bool) (base : Tree α) : Bool :=
  base.kind == "member_expression" && (base.field? "object").any fun object =>
    object.kind != "identifier" && foreign object.text

/-- What is taken of the clauses of a switch: the whole of each one, or what it is without its
statements. `shared` says whether the clauses right before are without statements and a default
is among them. Of the statements that a default shares, those are missing that another default
follows. -/
def ofClauses (whole bare : Tree α → List (Tree α)) (shared : Bool) : List (Tree α) → List (Tree α)
  | [] => []
  | clause :: rest =>
    let isDefault := shared || clause.kind == "switch_default"
    if (clause.fields "body").isEmpty then whole clause ++ ofClauses whole bare isDefault rest
    else if isDefault && rest.any (·.kind == "switch_default") then
      bare clause ++ ofClauses whole bare false rest
    else whole clause ++ ofClauses whole bare false rest

/-- The parts of the clauses of a switch that the lowered switch has. -/
def clauseParts : Bool → List (Tree α) → List (Tree α) :=
  ofClauses (fun clause => [clause]) fun clause =>
    if clause.kind == "switch_case" then Slot.label.pick clause else []

/-- The children of a node that hold code and are looked at when the node is lowered. Missing
are the decorators in front of an export, the base of a class if it is a member of something
that reads like one of the names, the star of a constructor, and statements that a default
shares if another default follows. -/
def renderedParts (names : List String) (node : Tree α) : List (Tree α) :=
  if node.isNamed then
    match node.kind with
    | "export_statement" => Slot.exported.pick node
    | "extends_clause" => (node.field? "value").toList.filter (!isMemberOfNamesake names.contains ·)
    | "class_body" => node.named.flatMap memberParts
    | "switch_body" => clauseParts false node.named
    | kind => (slots kind).flatMap (·.pick node)
  else []

/-- Whether a node has code that its lowering does not look at. -/
def overlooks (names : List String) (node : Tree α) : Bool :=
  match node.kind with
  | "export_statement" => node.named.any (·.kind == "decorator")
  | "extends_clause" => (node.field? "value").any (isMemberOfNamesake names.contains)
  | "class_body" => node.named.any isGeneratorConstructor
  | "switch_body" => 1 < node.named.countP (·.kind == "switch_default")
  | _ => false

end Overlooked

section Attended

variable {names : List String}

theorem slots_of_mem_specialGrammar (listed : (kind, row) ∈ specialGrammar) : slots kind = row := by
  have rows : ∀ entry ∈ specialGrammar, slots entry.1 = entry.2 := by decide +kernel
  exact rows (kind, row) listed

theorem clauseParts_eq_self {shared : Bool} {clauses : List (Tree α)}
    (single : (if shared then 1 else 0) + clauses.countP (·.kind == "switch_default") ≤ 1) :
    clauseParts shared clauses = clauses := by
  rw [clauseParts]
  induction clauses generalizing shared with
  | nil => rfl
  | cons clause rest rest_eq =>
    rw [countP_cons] at single
    have alone : (shared || clause.kind == "switch_default") = true →
        rest.countP (·.kind == "switch_default") = 0 := by
      intro isDefault
      rcases (Bool.or_eq_true _ _).mp isDefault with earlier | own
      · rw [if_pos earlier] at single
        omega
      · rw [if_pos own] at single
        omega
    have others : rest.countP (·.kind == "switch_default") ≤ 1 := by omega
    simp only [ofClauses]
    split
    · refine congrArg (clause :: ·) (rest_eq ?_)
      split
      · have none := alone ‹_›
        omega
      · omega
    · rw [rest_eq (by simpa using others), if_neg, singleton_append]
      intro dropped
      obtain ⟨isDefault, again⟩ := (Bool.and_eq_true _ _).mp dropped
      have none := countP_eq_zero.mp (alone isDefault)
      obtain ⟨other, member, same⟩ := any_eq_true.mp again
      exact none other member same

theorem renderedParts_eq_valueParts {node : Tree α} (attended : overlooks names node = false) :
    renderedParts names node = node.valueParts := by
  rw [renderedParts, valueParts]
  split
  · rw [overlooks] at attended
    split at attended
    · rename_i same
      have row : slots "export_statement" = [.everyOf ["decorator"], .exported] :=
        slots_of_mem_specialGrammar (by simp [specialGrammar])
      have none : (Slot.everyOf ["decorator"]).pick node = [] := by
        simpa [Slot.pick] using attended
      simp [same, row, none]
    · rename_i same
      have row : slots "extends_clause" = [.field "value"] :=
        slots_of_mem_specialGrammar (by simp [specialGrammar])
      rw [same, row]
      cases found : node.field? "value" with
      | none => simp [Slot.pick, found]
      | some base => simpa [Slot.pick, found] using attended
    · rename_i same
      have row : slots "class_body" = [.every] :=
        slots_of_mem_specialGrammar (by simp [specialGrammar])
      rw [same, row]
      have plain : ∀ member ∈ node.named, memberParts member = [member] := by
        intro member inside
        rw [memberParts, if_neg (any_eq_false.mp attended member inside)]
      rw [flatMap_def, map_congr_left plain, ← flatMap_def, flatMap_singleton']
      simp [Slot.pick]
    · rename_i same
      have row : slots "switch_body" = [.every] :=
        slots_of_mem_specialGrammar (by simp [specialGrammar])
      rw [same, row]
      simp only [flatMap_cons, flatMap_nil, append_nil, Slot.pick]
      exact clauseParts_eq_self (by simpa using attended)
    · rfl
  · rfl

theorem clean_of_attended {tree : Tree α}
    (attended : ∀ node, Reaches valueParts tree node → overlooks names node = false)
    (clean : Clean (renderedParts names) tree) : Clean valueParts tree := by
  intro node reached
  refine clean node ?_
  induction reached with
  | refl => exact .refl
  | tail before member reached =>
    refine reached.tail ?_
    rw [renderedParts_eq_valueParts (attended _ before)]
    exact member

end Attended

section Annotated

variable (value : Token → List (Tree β) → β)

@[simp] theorem valueParts_annotate (node : Tree α) :
    (annotate value node).valueParts = node.valueParts.map (annotate value) := by
  simp only [valueParts, isNamed_annotate, kind_annotate, Slot.pick_annotate]
  split
  · rw [map_flatMap]
  · rfl

@[simp] theorem isUnlowerable_annotate (node : Tree α) :
    (annotate value node).isUnlowerable = node.isUnlowerable := by
  simp [isUnlowerable]

theorem clauseParts_annotate (shared : Bool) (clauses : List (Tree α)) :
    clauseParts shared (clauses.map (annotate value)) =
      (clauseParts shared clauses).map (annotate value) := by
  rw [clauseParts, clauseParts]
  induction clauses generalizing shared with
  | nil => rfl
  | cons clause rest rest_parts =>
    simp only [map_cons, ofClauses, kind_annotate, fields_annotate, isEmpty_map,
      any_map, Function.comp_def, Slot.pick_annotate, rest_parts]
    split
    · rfl
    split
    · rw [map_append]
      split
      · rfl
      · rfl
    · rfl

@[simp] theorem isGeneratorConstructor_annotate (member : Tree α) :
    isGeneratorConstructor (annotate value member) = isGeneratorConstructor member := by
  simp [isGeneratorConstructor, Option.any_map]

@[simp] theorem isMemberOfNamesake_annotate (foreign : String → Bool) (base : Tree α) :
    isMemberOfNamesake foreign (annotate value base) = isMemberOfNamesake foreign base := by
  simp [isMemberOfNamesake, Option.any_map]

@[simp] theorem renderedParts_annotate (names : List String) (node : Tree α) :
    renderedParts names (annotate value node) =
      (renderedParts names node).map (annotate value) := by
  simp only [renderedParts, isNamed_annotate, kind_annotate]
  split
  · split
    · exact Slot.pick_annotate value _ node
    · simp [toList_map, filter_map, Function.comp_def]
    · rw [named_annotate, flatMap_map, map_flatMap]
      congr 1
      funext member
      rw [memberParts, memberParts, isGeneratorConstructor_annotate, valueParts_annotate]
      split
      · rfl
      · rfl
    · rw [named_annotate, clauseParts_annotate]
    · simp only [Slot.pick_annotate, map_flatMap]
  · rfl

theorem clean_of_annotate {names : List String} {tree : Tree α}
    (clean : Clean (renderedParts names) (annotate value tree)) :
    Clean (renderedParts names) tree := by
  intro node reached
  have annotated : Reaches (renderedParts names) (annotate value tree) (annotate value node) := by
    induction reached with
    | refl => exact .refl
    | tail _ member reached =>
      refine reached.tail ?_
      rw [renderedParts_annotate]
      exact mem_map_of_mem member
  rw [← isUnlowerable_annotate value]
  exact clean _ annotated

end Annotated

section Rows

variable {holds : Tree α → Prop} {node part : Tree α} {place : Option (Tree α)}

/-- The kinds of nodes that may have no Haxe form, or are not looked at in all places. -/
def specialKinds : List String :=
  unlowerableKinds
    ++ ["method_definition", "export_statement", "extends_clause", "class_body", "switch_body"]

/-- What stands in some places of a node has a property. -/
inductive Covered (holds : Tree α → Prop) (node : Tree α) : List Slot → Prop where
  | nil : Covered holds node []
  /-- What stands in the first place has the property, and so for the others. -/
  | cons {slot : Slot} {rest : List Slot} (head : ∀ part ∈ slot.pick node, holds part)
      (tail : Covered holds node rest) : Covered holds node (slot :: rest)

theorem Covered.all (covered : Covered holds node row) :
    ∀ part ∈ row.flatMap (·.pick node), holds part := by
  induction covered with
  | nil => simp
  | cons head _ tail =>
    intro part member
    rcases mem_append.mp member with first | later
    · exact head part first
    · exact tail part later

theorem Covered.imp {other : Tree α → Prop}
    (implies : ∀ part, holds part → other part) (covered : Covered holds node row) :
    Covered other node row := by
  induction covered with
  | nil => exact .nil
  | cons head _ tail => exact .cons (fun part member => implies part (head part member)) tail

theorem forall_of_eq_some (found : place = some part) (fact : holds part) :
    ∀ other ∈ place.toList, holds other := by
  simpa [found] using fact

theorem forall_of_eq_none (missing : place = none) : ∀ other ∈ place.toList, holds other := by
  simp [missing]

theorem forall_of_filter {keep : Tree α → Bool} (found : place = some part)
    (fact : keep part → holds part) : ∀ other ∈ (place.filter keep).toList, holds other := by
  intro other member
  obtain ⟨same, kept⟩ := Option.filter_eq_some_iff.mp (Option.mem_toList.mp member)
  obtain rfl := Option.some.inj (found.symm.trans same)
  exact fact kept

theorem forall_of_imp (fact : ∀ part, place = some part → holds part) :
    ∀ other ∈ place.toList, holds other :=
  fun other member => fact other (Option.mem_toList.mp member)

theorem forall_of_not_has (none : node.has kind = false) :
    ∀ other ∈ (Slot.everyOf [kind]).pick node, holds other := by
  intro other member
  obtain ⟨inside, same⟩ := mem_filter.mp member
  have differs := any_eq_false.mp none other (mem_children_of_mem_named inside)
  simp_all

end Rows

end Tree

end Haxify.TypeScript
