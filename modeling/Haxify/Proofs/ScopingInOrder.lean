import Haxify.Proofs.Scoping
import Haxify.Proofs.ValuePositions
import Mathlib.Data.List.Basic

/-!
# Names that count from their declaration on

What becomes of the parts of a node that is resolved in order. Code has parts in fields, which are
copied on their own; statements of a block, declarators, parameters and the parts of patterns count
for those behind them and are copied one behind the other.
-/

namespace Haxify.TypeScript.Scope

open List

variable {keep : Node → Bool}
variable {old new name kind : String} {place inner : Place} {bound : Bool} {tree other : Node}
variable {holds : Node → Bool}
variable {α : Type}

section InOrder

/-- A node as it stands in a place, resolved in order. A function that is declared under the old
name binds it inside. -/
def enter (old new : String) (place : Place) (bound : Bool) (node : Node) : Node :=
  inOrder.resolve old new (settled place node) (bound || enters old place node) node

theorem enters_code (node : Node) : enters old .code node = declaresItself old node := by
  simp [enters, settled]

@[simp] theorem enter_inert (node : Node) : enter old new .inert bound node = node :=
  resolve_inert node

@[simp] theorem kind_enter (node : Node) : (enter old new place bound node).kind = node.kind :=
  kind_resolve node

@[simp] theorem isNamed_enter (node : Node) :
    (enter old new place bound node).isNamed = node.isNamed := isNamed_resolve node

@[simp] theorem field_enter (node : Node) :
    (enter old new place bound node).token.field = node.token.field := field_resolve node

theorem bound_inOrder (parent : Node) (before : List Node) (child : Node) :
    (bound || inOrder.binds old place parent before child) =
      (bound || opens old place parent child.token.field
        || earlier old place parent.kind child.token.field before
        || enters old (childPlace place parent.kind before child) child) := by
  change (bound || (enters old (childPlace place parent.kind before child) child
    || opens old place parent child.token.field
    || earlier old place parent.kind child.token.field before)) = _
  ac_rfl

theorem place_inOrder (parent : Node) (before : List Node) (child : Node) :
    inOrder.place place parent before child =
      settled (childPlace place parent.kind before child) child := by
  unfold Scoping.place
  dsimp only
  split
  · rename_i isTarget
    simp only [Bool.and_eq_true, decide_eq_true_eq, beq_iff_eq] at isTarget
    obtain ⟨⟨rfl, isLoop⟩, isLeft⟩ := isTarget
    simp only [childPlace, codePlace, isLoop, isLeft]
    rfl
  · rfl

/-- A node as it stands in a parent, written out where it is short for a property. -/
def placed (old new : String) (place : Place) (parent : String) (inner : Place) (bound : Bool)
    (node : Node) : Node :=
  spelledOut old place parent (bound || enters old inner node) node (enter old new inner bound node)

theorem placed_of_eq_none {parent : String} {node : Node}
    (plain : expansion? old place parent node = none) (inner : Place) :
    placed old new place parent inner bound node = enter old new inner bound node :=
  spelledOut_of_eq_none plain _

theorem copy_inOrder (parent : Node) (before : List Node) (child : Node) :
    inOrder.copy old new place bound parent before child =
      placed old new place parent.kind (childPlace place parent.kind before child)
        (bound || opens old place parent child.token.field
          || earlier old place parent.kind child.token.field before) child := by
  rw [Scoping.copy, bound_inOrder, place_inOrder]
  rfl

theorem field?_resolve {field : String} (lively : place ≠ .inert)
    (plain : ∀ child : Node, expansion? old place tree.kind child = none)
    (there : ∀ (front : List Node) (child : Node), child.token.field = field →
      childPlace place tree.kind front child = inner)
    (quiet : ∀ front : List Node, earlier old place tree.kind field front = false) :
    (inOrder.resolve old new place bound tree).field? field =
      (tree.field? field).map (enter old new inner (bound || opens old place tree field)) := by
  rw [Tree.field?, children_resolve lively, Tree.field?]
  refine find?_resolveAll fun front child _ fills => ?_
  rw [copy_inOrder, placed_of_eq_none (plain child), there front child fills, fills, quiet,
    Bool.or_false]

theorem children_resolve_eq_map {inner : Node → Place} (lively : place ≠ .inert)
    (plain : ∀ child : Node, expansion? old place tree.kind child = none)
    (there : ∀ (front : List Node) (child : Node),
      childPlace place tree.kind front child = inner child)
    (closed : ∀ field, opens old place tree field = false)
    (quiet : ∀ (field : String) (front : List Node), earlier old place tree.kind field front =
      false) :
    (inOrder.resolve old new place bound tree).children =
      tree.children.map fun child => enter old new (inner child) bound child := by
  rw [children_resolve lively]
  refine resolveAll_eq_map fun front child _ => ?_
  rw [copy_inOrder, placed_of_eq_none (plain child), there, closed, quiet, Bool.or_false,
    Bool.or_false]

variable (becomes : other.children = tree.children.map (enter old new inner bound))
include becomes

theorem parts_of_children : other.parts = tree.parts.map (enter old new inner bound) := by
  rw [Tree.parts, becomes, filter_map, Tree.parts]
  congr 2
  funext child
  exact congrArg (· != "comment") (kind_enter child)

theorem named_of_children : other.named = tree.named.map (enter old new inner bound) := by
  rw [Tree.named, parts_of_children becomes, filter_map, Tree.named]
  congr 2
  funext child
  exact isNamed_enter child

end InOrder

section Lists

theorem any_namedAmong_append (front : List Node) (child : Node) :
    (namedAmong (front ++ [child])).any holds =
      ((namedAmong front).any holds || (isPart child && holds child)) := by
  rw [namedAmong, filter_append, any_append, ← namedAmong]
  cases counts : isPart child <;> simp [counts]

variable {binds : Node → Bool} (lively : place ≠ .inert)
  (there : ∀ (front : List Node) (child : Node), childPlace place tree.kind front child = inner)
  (closed : ∀ field, opens old place tree field = false)
  (counts : ∀ (field : String) (front : List Node),
    earlier old place tree.kind field front = (namedAmong front).any binds)
include lively there closed counts

theorem named_resolve :
    (inOrder.resolve old new place bound tree).named =
      thread binds (placed old new place tree.kind inner) bound tree.named := by
  rw [named_eq_namedAmong, children_resolve lively, named_eq_namedAmong, namedAmong,
    filter_resolveAll (fun front => (namedAmong front).any binds)
      (placed old new place tree.kind inner) (isPart_copy tree) ?_ any_namedAmong_append]
  · simp [namedAmong]
  · intro front child _
    rw [copy_inOrder, there, closed, counts, Bool.or_false]

theorem named_plain (plain : ∀ child : Node, expansion? old place tree.kind child = none) :
    (inOrder.resolve old new place bound tree).named =
      thread binds (enter old new inner) bound tree.named := by
  rw [named_resolve lively there closed counts]
  congr 1
  funext inside child
  exact placed_of_eq_none (plain child) _

omit counts in
theorem named_resolve_eq_map
    (quiet : ∀ (field : String) (front : List Node), earlier old place tree.kind field front =
      false) :
    (inOrder.resolve old new place bound tree).named =
      tree.named.map (placed old new place tree.kind inner bound) := by
  have none (nodes : List Node) : nodes.any (fun _ => false) = false := by simp
  rw [named_resolve lively there closed fun field front => (quiet field front).trans (none _).symm,
    thread_eq_map fun _ _ => rfl]

end Lists

section Code

/-- The kinds of code that bind names for a part of themselves by what fills their fields. -/
def openingKinds : List String :=
  closureKinds ++ ["variable_declarator", "for_statement", "for_in_statement"]

theorem opens_code_of_not_mem (other : tree.kind ∉ openingKinds) (field : String) :
    opens name .code tree field = false := by
  simp only [openingKinds, mem_append, mem_cons, not_mem_nil, or_false, not_or] at other
  simp [opens, other.1, other.2]

theorem earlier_code_of_not_mem
    (other : kind ∉ ["statement_block", "lexical_declaration", "variable_declaration"])
    (field : String) (before : List Node) : earlier name .code kind field before = false := by
  simp only [mem_cons, not_mem_nil, or_false, not_or] at other
  simp [earlier, other]

theorem field?_code (listed : tree.kind ∈ codeFields.map Prod.fst) (field : String) :
    (inOrder.resolve old new .code bound tree).field? field =
      (tree.field? field).map (enter old new (fieldPlace tree.kind field)
        (bound || opens old .code tree field)) := by
  have rows : ∀ kind ∈ codeFields.map Prod.fst, kind ∉ listKinds ++ transparentKinds ++
      ["as_expression", "type_assertion", "object_pattern"] := by decide
  have apart := rows _ listed
  simp only [mem_append, mem_cons, not_mem_nil, or_false, not_or] at apart
  obtain ⟨⟨noList, noWrapper⟩, noCast, noAssertion, noPattern⟩ := apart
  refine field?_resolve (by decide) (expansion?_eq_none ?_) ?_ ?_
  · simp only [mem_cons, not_mem_nil, or_false, not_or]
    exact ⟨fun same => noList (same ▸ by decide), noPattern⟩
  · intro front child fills
    simp [childPlace, codePlace, noList, noWrapper, noCast, noAssertion, fills]
  · refine earlier_code_of_not_mem (fun member => noList ?_) field
    have lists : ∀ kind ∈ ["statement_block", "lexical_declaration", "variable_declaration"],
        kind ∈ listKinds := by decide
    exact lists _ member

/-- The kinds of code that have code inside. -/
def outerKinds : List String :=
  listKinds ++ transparentKinds ++ ["as_expression", "type_assertion"] ++ codeFields.map Prod.fst

/-- The kinds of code whose parts are written out, or bind names for each other. -/
def bindingKinds : List String :=
  "object" :: "object_pattern" :: openingKinds ++
    ["statement_block", "lexical_declaration", "variable_declaration"]

theorem children_quiet {inner : Node → Place} (other : tree.kind ∉ bindingKinds)
    (there : ∀ (front : List Node) (child : Node), codePlace tree.kind front child = inner child) :
    (inOrder.resolve old new .code bound tree).children =
      tree.children.map fun child => enter old new (inner child) bound child := by
  simp only [bindingKinds, cons_append, mem_cons, mem_append, not_or] at other
  obtain ⟨noObject, noPattern, closed, quiet⟩ := other
  refine children_resolve_eq_map (by decide) (expansion?_eq_none ?_) there ?_ ?_
  · simp [noObject, noPattern]
  · exact opens_code_of_not_mem closed
  · exact earlier_code_of_not_mem (by simpa using quiet)

theorem children_code (listed : tree.kind ∈ listKinds)
    (other : tree.kind ∉ ["object", "statement_block", "lexical_declaration",
      "variable_declaration"]) :
    (inOrder.resolve old new .code bound tree).children =
      tree.children.map (enter old new .code bound) := by
  have rows : ∀ kind ∈ listKinds, kind ∈ bindingKinds →
      kind ∈ ["object", "statement_block", "lexical_declaration",
        "variable_declaration"] := by decide
  refine children_quiet (fun member => other (rows _ listed member)) fun front child => ?_
  simp [codePlace, listed]

theorem children_of_not_mem (other : tree.kind ∉ "object_pattern" :: outerKinds) :
    (inOrder.resolve old new .code bound tree).children = tree.children := by
  have rows : ∀ kind ∈ bindingKinds, kind ∈ "object_pattern" :: outerKinds := by decide
  have inert (front : List Node) (child : Node) : codePlace tree.kind front child = .inert := by
    simp only [outerKinds, mem_cons, mem_append, not_mem_nil, or_false, not_or] at other
    obtain ⟨_, ⟨⟨noList, noWrapper⟩, noCast, noAssertion⟩, noFields⟩ := other
    have unlisted : codeFields.lookup tree.kind = none := by
      rw [lookup_eq_none_iff]
      intro row member
      exact bne_iff_ne.mpr fun same => noFields (mem_map.mpr ⟨row, member, same.symm⟩)
    simp [codePlace, noList, noWrapper, noCast, noAssertion, fieldPlace, unlisted]
  rw [children_quiet (fun member => other (rows _ member)) inert]
  simp

theorem children_transparent (isWrapper : tree.kind ∈ transparentKinds) :
    (inOrder.resolve old new .code bound tree).children =
      tree.children.map fun child => enter old new (codePlace tree.kind [] child) bound child := by
  have rows : ∀ kind ∈ transparentKinds, kind ∉ bindingKinds ∧ kind ∉ listKinds := by decide
  obtain ⟨other, noList⟩ := rows _ isWrapper
  refine children_quiet other fun front child => ?_
  simp [codePlace, noList, isWrapper]

/-- The expression inside code that adds nothing. -/
def innerNode? (tree : Tree α) : Option (Tree α) :=
  let isInner (part : Tree α) := !Text.endsIn part.kind "type" && part.kind != "type_arguments"
  (tree.field? "expression").or (tree.named.find? isInner)

theorem find?_map_of {copy inner : Node → Node} (kept : ∀ node, holds (copy node) = holds node)
    (same : ∀ node, holds node → copy node = inner node) (nodes : List Node) :
    (nodes.map copy).find? holds = (nodes.find? holds).map inner := by
  induction nodes with
  | nil => rfl
  | cons node rest rest_eq =>
    rw [map_cons, find?_cons, find?_cons, kept, rest_eq]
    cases found : holds node with
    | true => exact congrArg some (same node found)
    | false => rfl

theorem innerNode?_resolve (isWrapper : tree.kind ∈ transparentKinds) :
    innerNode? (inOrder.resolve old new .code bound tree) =
      (innerNode? tree).map (enter old new .code bound) := by
  have noList : tree.kind ∉ listKinds := by
    have rows : ∀ kind ∈ transparentKinds, kind ∉ listKinds := by decide
    exact rows _ isWrapper
  have inside (child : Node) (isInner : child.token.field = "expression" ∨
      (!Text.endsIn child.kind "type" && child.kind != "type_arguments") = true) :
      enter old new (codePlace tree.kind [] child) bound child =
        enter old new .code bound child := by
    have isCode : codePlace tree.kind [] child = .code := by
      rcases isInner with fills | plain
      · simp [codePlace, noList, isWrapper, fills]
      · simp only [Bool.and_eq_true, Bool.not_eq_true', bne_iff_ne] at plain
        simp [codePlace, noList, isWrapper, plain]
    rw [isCode]
  have field : (inOrder.resolve old new .code bound tree).field? "expression" =
      (tree.field? "expression").map (enter old new .code bound) := by
    rw [Tree.field?, children_transparent isWrapper, Tree.field?]
    exact find?_map_of (fun child => by rw [field_enter])
      (fun child fills => inside child (.inl (eq_of_beq fills))) _
  have first : ((inOrder.resolve old new .code bound tree).named.find? fun part =>
        !Text.endsIn part.kind "type" && part.kind != "type_arguments") =
      (tree.named.find? fun part =>
        !Text.endsIn part.kind "type" && part.kind != "type_arguments").map
        (enter old new .code bound) := by
    rw [find?_named, children_transparent isWrapper, find?_named]
    refine find?_map_of (fun child => ?_) (fun child counts => inside child (.inr ?_)) _
    · rw [isPart, isNamed_enter, kind_enter, isPart]
    · exact (Bool.and_eq_true_iff.mp counts).2
  rw [innerNode?, field, first, innerNode?]
  cases tree.field? "expression" <;> rfl

/-- Which of its named parts a cast is of. -/
def operandIndex (kind : String) : Nat := if kind == "type_assertion" then 1 else 0

theorem getElem?_named_cast (isCast : tree.kind ∈ ["as_expression", "type_assertion"])
    (index : Nat) :
    (inOrder.resolve old new .code bound tree).named[index]? =
      tree.named[index]?.map
        (enter old new (if index == operandIndex tree.kind then .code else .inert) bound) := by
  have rows : ∀ kind ∈ ["as_expression", "type_assertion"], kind ∉ bindingKinds ∧
      ∀ (front : List Node) (child : Node), childPlace .code kind front child =
        if (namedAmong front).length == operandIndex kind then .code else .inert := by
    simp [bindingKinds, openingKinds, closureKinds, childPlace, codePlace, operandIndex, listKinds,
      transparentKinds]
  obtain ⟨other, there⟩ := rows _ isCast
  simp only [bindingKinds, cons_append, mem_cons, mem_append, not_or] at other
  obtain ⟨noObject, noPattern, closed, quiet⟩ := other
  have copies (front : List Node) (child : Node) :
      inOrder.copy old new .code bound tree front child =
        enter old new
          (if (namedAmong front).length == operandIndex tree.kind then .code else .inert)
          bound child := by
    rw [copy_inOrder, placed_of_eq_none (expansion?_eq_none (by simp [noObject, noPattern]) child),
      there, opens_code_of_not_mem closed, earlier_code_of_not_mem (by simpa using quiet),
      Bool.or_false, Bool.or_false]
  have all (front children : List Node) (index : Nat) :
      ((inOrder.resolveAll old new .code bound tree front children).filter isPart)[index]? =
        (children.filter isPart)[index]?.map (enter old new
          (if (namedAmong front).length + index == operandIndex tree.kind then .code else .inert)
          bound) := by
    induction children generalizing front index with
    | nil => simp [Scoping.resolveAll]
    | cons child rest rest_eq =>
      rw [resolveAll_cons, filter_cons, filter_cons, isPart_copy]
      cases counts : isPart child with
      | false =>
        have length : (namedAmong (front ++ [child])).length = (namedAmong front).length := by
          simp [namedAmong, counts]
        simpa [length] using rest_eq (front ++ [child]) index
      | true =>
        have length : (namedAmong (front ++ [child])).length = (namedAmong front).length + 1 := by
          simp [namedAmong, counts]
        cases index with
        | zero => simp [copies]
        | succ index =>
          have there := rest_eq (front ++ [child]) index
          rw [length, Nat.add_assoc, Nat.add_comm 1] at there
          simpa using there
  rw [named_eq_namedAmong, children_resolve (by decide), namedAmong, all, named_eq_namedAmong]
  simp [namedAmong]

theorem named_block (isBlock : tree.kind = "statement_block") :
    (inOrder.resolve old new .code bound tree).named =
      thread (introduces old) (enter old new .code) bound tree.named := by
  refine named_plain (by decide) ?_ ?_ ?_ (expansion?_eq_none (by rw [isBlock]; decide))
  · intro front child
    rw [isBlock]
    rfl
  · exact opens_code_of_not_mem (by rw [isBlock]; decide)
  · intro field front
    rw [isBlock]
    rfl

theorem named_declaration
    (isDeclaration : tree.kind ∈ ["lexical_declaration", "variable_declaration"]) :
    (inOrder.resolve old new .code bound tree).named =
      thread (declaratorBinds old) (enter old new .code) bound tree.named := by
  have rows : ∀ kind ∈ ["lexical_declaration", "variable_declaration"],
      kind ∉ "object" :: "object_pattern" :: openingKinds ∧ kind ∈ listKinds ∧
        (kind == "statement_block") = false ∧
        (kind == "lexical_declaration" || kind == "variable_declaration") = true := by decide
  obtain ⟨apart, listed, noBlock, declares⟩ := rows _ isDeclaration
  simp only [mem_cons, not_or] at apart
  refine named_plain (by decide) ?_ ?_ ?_ (expansion?_eq_none (by simp [apart.1, apart.2.1]))
  · intro front child
    simp [childPlace, codePlace, listed]
  · exact opens_code_of_not_mem apart.2.2
  · intro field front
    rw [earlier, noBlock, declares]
    rfl

theorem named_object (isObject : tree.kind = "object") :
    (inOrder.resolve old new .code bound tree).named =
      tree.named.map (placed old new .code "object" .code bound) := by
  rw [named_resolve_eq_map (by decide) ?_ ?_ ?_, isObject]
  · intro front child
    rw [isObject]
    rfl
  · exact opens_code_of_not_mem (by rw [isObject]; decide)
  · exact earlier_code_of_not_mem (by rw [isObject]; decide)

end Code

section Patterns

def patternPlaces : List Place := [.declared, .assigned]

/-- Whether a pattern at a place binds a name. -/
def Place.binds (place : Place) (name : String) (pattern : Tree α) : Bool :=
  place = .declared && patternBinds name pattern

variable (stands : place ∈ patternPlaces)
include stands

theorem opens_pattern (field : String) : opens name place tree field = false := by
  rcases mem_pair.mp stands with rfl | rfl <;> rfl

theorem childPlace_pattern (front : List Node) (child : Node) :
    childPlace place kind front child = patternPlace place kind child.token.field := by
  rcases mem_pair.mp stands with rfl | rfl <;> rfl

theorem ne_inert_of_mem : place ≠ .inert := by
  rintro rfl
  simp [patternPlaces] at stands

omit stands in
theorem Place.binds_declared (name : String) :
    (Place.declared.binds name : Tree α → Bool) = patternBinds name := by
  funext pattern
  simp [Place.binds]

theorem earlier_pattern (other : kind ∉ ["object_pattern", "array_pattern"]) (field : String)
    (front : List Node) : earlier name place kind field front = false := by
  simp only [mem_cons, not_mem_nil, or_false, not_or] at other
  rcases mem_pair.mp stands with rfl | rfl
  · simp [earlier, other]
  · rfl

theorem field?_pattern
    (isPart : tree.kind ∈ ["pair_pattern", "assignment_pattern", "object_assignment_pattern"])
    (field : String) :
    (inOrder.resolve old new place bound tree).field? field =
      (tree.field? field).map (enter old new (patternPlace place tree.kind field) bound) := by
  have rows : ∀ kind ∈ ["pair_pattern", "assignment_pattern", "object_assignment_pattern"],
      kind ∉ ["object", "object_pattern", "array_pattern"] := by decide
  have apart := rows _ isPart
  simp only [mem_cons, not_mem_nil, or_false, not_or] at apart
  rw [field?_resolve (ne_inert_of_mem stands) ?_ ?_ ?_, opens_pattern stands, Bool.or_false]
  · exact expansion?_eq_none (by simp [apart])
  · intro front child fills
    rw [childPlace_pattern stands, fills]
  · exact earlier_pattern stands (by simp [apart]) field

theorem children_rest (isRest : tree.kind = "rest_pattern") :
    (inOrder.resolve old new place bound tree).children =
      tree.children.map (enter old new place bound) := by
  refine children_resolve_eq_map (ne_inert_of_mem stands) ?_ ?_ (opens_pattern stands) ?_
  · exact expansion?_eq_none (by rw [isRest]; decide)
  · intro front child
    rw [childPlace_pattern stands, isRest]
    rfl
  · exact earlier_pattern stands (by rw [isRest]; decide)

theorem named_objectPattern (isObject : tree.kind = "object_pattern") :
    (inOrder.resolve old new place bound tree).named =
      thread (place.binds old) (placed old new place "object_pattern" place) bound tree.named := by
  rw [named_resolve (ne_inert_of_mem stands) ?_ (opens_pattern stands) ?_, isObject]
  · intro front child
    rw [childPlace_pattern stands, isObject]
    rfl
  · intro field front
    rcases mem_pair.mp stands with rfl | rfl
    · rw [isObject, Place.binds_declared]
      rfl
    · simp [earlier, Place.binds]

theorem parts_arrayPattern (isArray : tree.kind = "array_pattern") :
    (inOrder.resolve old new place bound tree).parts =
      thread (place.binds old) (enter old new place) bound tree.parts := by
  have flagged (field : String) (front : List Node) :
      earlier old place tree.kind field front = front.any (place.binds old) := by
    rcases mem_pair.mp stands with rfl | rfl
    · rw [isArray, Place.binds_declared]
      rfl
    · simp [earlier, Place.binds]
  have comment (child : Node) (isComment : child.kind = "comment") :
      place.binds old child = false := by
    rw [Place.binds, patternBinds_eq, isComment]
    simp
  have copies (front : List Node) (child : Node) :
      inOrder.copy old new place bound tree front child =
        enter old new place (bound || front.any (place.binds old)) child := by
    rw [copy_inOrder, placed_of_eq_none (expansion?_eq_none (by rw [isArray]; decide) child),
      childPlace_pattern stands, opens_pattern stands, flagged, Bool.or_false, isArray]
    rfl
  have step (front : List Node) (child : Node) :
      (front ++ [child]).any (place.binds old) =
        (front.any (place.binds old) || (child.kind != "comment" && place.binds old child)) := by
    rw [any_append]
    by_cases isComment : child.kind = "comment"
    · simp [comment child isComment]
    · have counts : (child.kind != "comment") = true := by simpa using isComment
      simp [counts]
  rw [Tree.parts, children_resolve (ne_inert_of_mem stands), Tree.parts]
  have threaded := filter_resolveAll (fun front => front.any (place.binds old))
    (enter old new place) (isComment_copy tree) (fun front child _ => copies front child) step
    [] tree.children
  simpa using threaded

end Patterns

section Parameters

theorem expansion?_of_place (other : place ∉ [.code, .assigned]) (parent : String) (child : Node) :
    expansion? old place parent child = none := by
  simp only [mem_cons, not_mem_nil, or_false, not_or] at other
  simp [expansion?, other]

theorem named_parameters :
    (inOrder.resolve old new .parameters bound tree).named =
      thread (parameterBinds old) (enter old new .parameter) bound tree.named :=
  named_plain (by decide) (fun _ _ => rfl) (fun _ => rfl) (fun _ _ => rfl)
    (expansion?_of_place (by decide) _)

theorem field?_parameter (field : String) :
    (inOrder.resolve old new .parameter bound tree).field? field =
      (tree.field? field).map (enter old new
        ((([("pattern", .declared), ("value", .code)] : List (String × Place)).lookup field).getD
          .inert)
        (bound || opens old .parameter tree field)) :=
  field?_resolve (by decide) (expansion?_of_place (by decide) _)
    (fun _ _ fills => by rw [← fills]; rfl) fun _ => rfl

theorem field?_handler (field : String) :
    (inOrder.resolve old new .handler bound tree).field? field =
      (tree.field? field).map (enter old new
        ((([("parameter", .declared), ("body", .code)] : List (String × Place)).lookup field).getD
          .inert)
        (bound || opens old .handler tree field)) :=
  field?_resolve (by decide) (expansion?_of_place (by decide) _)
    (fun _ _ fills => by rw [← fills]; rfl) fun _ => rfl

theorem children_entries :
    (inOrder.resolve old new .entries bound tree).children =
      tree.children.map (enter old new .code bound) :=
  children_resolve_eq_map (by decide) (expansion?_of_place (by decide) _) (fun _ _ => rfl)
    (fun _ => rfl) fun _ _ => rfl

theorem children_clauses :
    (inOrder.resolve old new .clauses bound tree).children =
      tree.children.map (enter old new .clause bound) :=
  children_resolve_eq_map (by decide) (expansion?_of_place (by decide) _) (fun _ _ => rfl)
    (fun _ => rfl) fun _ _ => rfl

theorem field?_clause :
    (inOrder.resolve old new .clause bound tree).field? "value" =
      (tree.field? "value").map (enter old new .code bound) := by
  have found : (inOrder.resolve old new .clause bound tree).field? "value" =
      (tree.field? "value").map (enter old new .code (bound || opens old .clause tree "value")) :=
    field?_resolve (by decide) (expansion?_of_place (by decide) _)
      (fun _ _ fills => by simp [childPlace, fills]) fun _ => rfl
  simpa [opens] using found

theorem fields_clause :
    (inOrder.resolve old new .clause bound tree).fields "body" =
      thread (introduces old) (enter old new .code) bound (tree.fields "body") := by
  have counted (trees : List Node) :
    ((trees.filter (·.kind != "comment")).filter (·.isNamed)).filter
      (·.token.field == "body") = trees.filter fun child =>
        isPart child && child.token.field == "body" := by
    rw [filter_filter, filter_filter]
    refine filter_congr fun child _ => ?_
    rw [isPart]
    ac_rfl
  have step (front : List Node) (child : Node) : ((namedAmong (front ++ [child])).any fun node =>
          node.token.field == "body" && introduces old node) =
        (((namedAmong front).any fun node => node.token.field == "body" && introduces old node)
          || (isPart child && child.token.field == "body") && introduces old child) := by
    rw [any_namedAmong_append, Bool.and_assoc]
  have copies (front : List Node) (child : Node)
      (counts : isPart child && child.token.field == "body") :
      inOrder.copy old new .clause bound tree front child =
        enter old new .code (bound || (namedAmong front).any fun node =>
          node.token.field == "body" && introduces old node) child := by
    have fills : child.token.field = "body" := by simpa using (Bool.and_eq_true_iff.mp counts).2
    rw [copy_inOrder, placed_of_eq_none (expansion?_of_place (by decide) _ child)]
    simp only [childPlace, opens, earlier, fills, Bool.or_false, beq_self_eq_true, Bool.true_and]
    rfl
  have threaded := filter_resolveAll (fun front : List Node => (namedAmong front).any fun node =>
      node.token.field == "body" && introduces old node)
    (enter old new .code) (fun front child => by rw [isPart_copy, field_copy]) copies step
      [] tree.children
  rw [Tree.fields, Tree.named, Tree.parts, counted, children_resolve (by decide), threaded,
    Tree.fields, Tree.named, Tree.parts, counted]
  simp [namedAmong]

end Parameters

section Threads

variable {binds : Node → Bool} {copy : Bool → Node → Node} {nodes : List Node}

@[simp] theorem isEmpty_thread : (thread binds copy bound nodes).isEmpty = nodes.isEmpty := by
  cases nodes <;> rfl

theorem getLast?_thread (binds : Node → Bool) (copy : Bool → Node → Node) (bound : Bool)
    (nodes : List Node) :
    ∃ inside, (thread binds copy bound nodes).getLast? = nodes.getLast?.map (copy inside) := by
  induction nodes generalizing bound with
  | nil => exact ⟨bound, rfl⟩
  | cons node rest rest_last =>
    obtain ⟨inside, last⟩ := rest_last (bound || binds node)
    cases rest with
    | nil => exact ⟨bound, rfl⟩
    | cons next others =>
      refine ⟨inside, ?_⟩
      rw [thread, thread, getLast?_cons_cons, ← thread, last, getLast?_cons_cons]

theorem dropLast_thread :
    (thread binds copy bound nodes).dropLast = thread binds copy bound nodes.dropLast := by
  induction nodes generalizing bound with
  | nil => rfl
  | cons node rest rest_eq =>
    cases rest with
    | nil => rfl
    | cons next others =>
      rw [thread, thread, dropLast_cons_cons, ← thread, rest_eq, dropLast_cons_cons, ← thread]

theorem filter_thread (kept : ∀ inside node, keep (copy inside node) = keep node)
    (quiet : ∀ node, keep node = false → binds node = false) :
    (thread binds copy bound nodes).filter keep = thread binds copy bound (nodes.filter keep) := by
  induction nodes generalizing bound with
  | nil => rfl
  | cons node rest rest_eq =>
    rw [thread, filter_cons, filter_cons, kept, rest_eq]
    cases counts : keep node with
    | true => rfl
    | false => simp [quiet node counts]

theorem any_filter (quiet : ∀ node, keep node = false → binds node = false) :
    (nodes.filter keep).any binds = nodes.any binds := by
  rw [List.any_filter]
  congr 1
  funext node
  cases counts : keep node with
  | true => rfl
  | false => rw [quiet node counts]; rfl

theorem findIdx?_thread (same : ∀ inside, ∀ node ∈ nodes, holds (copy inside node) = holds node) :
    (thread binds copy bound nodes).findIdx? holds = nodes.findIdx? holds := by
  induction nodes generalizing bound with
  | nil => rfl
  | cons node rest rest_eq =>
    rw [thread, findIdx?_cons, findIdx?_cons, same bound node (.head _),
      rest_eq fun inside other member => same inside other (.tail _ member)]

end Threads

section Nesting

theorem enter_of_kind_ne (other : tree.kind ≠ "function_declaration") :
    enter old new .code bound tree = inOrder.resolve old new .code bound tree := by
  have undeclared : (tree.kind == "function_declaration") = false := by simpa using other
  simp [enter, enters, declaresItself, settled, undeclared]

theorem flatten_enter (tree : Node) :
    (enter old new .code bound tree).flatten "sequence_expression" =
      (tree.flatten "sequence_expression").map (enter old new .code bound) := by
  induction tree using Tree.tree_induction with
  | node token value children below =>
    rw [Tree.flatten_eq, kind_enter, Tree.flatten_eq _ (.node token value children)]
    split
    · rename_i isSequence
      have same : (Tree.node token value children).kind = "sequence_expression" :=
        eq_of_beq isSequence
      rw [enter_of_kind_ne (by rw [same]; decide),
        children_code (by rw [same]; decide) (by rw [same]; decide)]
      exact Tree.flattenAll_map isNamed_enter kind_enter below
    · rfl

theorem unparenthesized_enter (tree : Node) :
    (enter old new .code bound tree).unparenthesized =
        enter old new .code bound tree.unparenthesized ∨
      isTypeKind tree.unparenthesized.kind := by
  induction tree using Tree.tree_induction with
  | node token value children below =>
    rw [Tree.unparenthesized_eq, kind_enter, Tree.unparenthesized_eq (.node token value children)]
    split
    · rename_i isWrapped
      have same : (Tree.node token value children).kind = "parenthesized_expression" :=
        eq_of_beq isWrapped
      have place (child : Node) : codePlace (Tree.node token value children).kind [] child = .code ∨
          codePlace (Tree.node token value children).kind [] child = .inert ∧
            isTypeKind child.kind := by
        rw [same]
        cases isType : Text.endsIn child.kind "type" || child.kind == "type_arguments" with
        | false => simp [codePlace, listKinds, transparentKinds, isType]
        | true =>
          have known : isTypeKind child.kind := by
            rcases (Bool.or_eq_true _ _).mp isType with ending | same
            · simp [isTypeKind, ending]
            · simp [isTypeKind, eq_of_beq same]
          by_cases fills : child.token.field = "expression"
          · simp [codePlace, listKinds, transparentKinds, fills]
          · simp [codePlace, listKinds, transparentKinds, isType, fills, known]
      have kept (child : Node) : isPart (enter old new
          (codePlace (Tree.node token value children).kind [] child) bound child) =
            isPart child := by
        rw [isPart, isNamed_enter, kind_enter, isPart]
      rw [enter_of_kind_ne (by rw [same]; decide), first?_eq_find?,
        children_transparent (by rw [same]; decide),
        find?_map_of kept (fun _ _ => rfl), first?_eq_find?]
      rw [Tree.children]
      cases found : children.find? isPart with
      | none => exact .inl (enter_of_kind_ne (by rw [same]; decide)).symm
      | some child =>
        rcases place child with isCode | ⟨isInert, isType⟩
        · simp only [Option.map_some, Option.getD_some, isCode]
          exact below child (mem_of_find?_eq_some found)
        · refine .inr ?_
          simp only [Option.map_some, Option.getD_some]
          rw [Tree.unparenthesized_eq, if_neg]
          · exact isType
          · intro isWrapper
            rw [eq_of_beq isWrapper] at isType
            revert isType
            decide
    · exact .inl rfl

end Nesting

end Haxify.TypeScript.Scope
