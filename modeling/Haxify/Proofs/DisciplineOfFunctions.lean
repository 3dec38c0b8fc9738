import Haxify.Proofs.Discipline

/-!
# The discipline of patterns and functions

One statement for each rule: a discipline that accepts the nodes below a node allows the rule
at the node, and the rule gives something only if the node is settled. The statements follow
the rules case by case; what they conclude for a node is put together from the places that the
grammar gives to its kind.
-/

namespace Haxify.Lower

open List
open Haxe (Balanced Unmarked balanced_joinWith)
open Haxe.Code (Closed)
open TypeScript (Slot grammar)
open TypeScript.Tree (Covered forall_of_eq_none forall_of_eq_some forall_of_filter
  forall_of_not_has)

variable {pattern : Part}
variable {law : Discipline} {around : List Jump} {node : Part} {reading : Reading} {temp : String}

section Patterns

theorem allowed_nameValue (node : Part) :
    law.Allows around (fun text => law.legible → Unmarked text) (nameValue node) := by
  simp only [nameValue]
  split
  · exact allowed_pure fun _ => by decide
  refine allowed_view (fun agrees => ?_) fun view spelled => ?_
  · simp only [agrees.spelling?]
  split
  · exact allowed_pure fun legible => (spelled legible).value _ _ (mem_of_spelling? ‹_›)
  · exact allowed_pure fun legible => (spelled legible).whole _ _ (mem_of_spelling? ‹_›)
  iterate 3 exact allowed_refusal
  · exact allowed_pure fun _ => Haxe.unmarked_sanitize _

theorem settled_of_isBindingName (isName : isBindingName node) : law.Settled node := by
  refine settled_of_quiet ?_
  simp only [isBindingName, Bool.or_eq_true, beq_iff_eq] at isName
  rcases isName with same | same
  · rw [same]
    decide
  · rw [same]
    decide

variable {mode : BindingMode} (free : mode.BindsAt around)
include free

variable (reads : law.legible → Balanced reading.render)
include reads

theorem allowed_bindName (isName : isBindingName node) :
    law.Vets around node BalancedSteps (bindName mode node reading) := by
  have settled : law.Settled node := settled_of_isBindingName isName
  have declared (isConstant : Bool) (legible : law.legible) :
      BalancedSteps [.declare isConstant node.text reading] :=
    .cons (balanced_declare isConstant _ (reads legible)) balancedSteps_nil
  cases mode with
  | «variable» =>
    refine allowed_bind (law.binding _ (free.resolve_left (by decide))) fun _ _ => ?_
    exact makes_pure (declared false) settled
  | constant =>
    refine allowed_bind (law.binding _ (free.resolve_left (by decide))) fun _ _ => ?_
    exact makes_pure (declared true) settled
  | assignment =>
    refine allowed_bind (allowed_nameValue node) fun name plain =>
      makes_pure (fun legible => ?_) settled
    exact .cons (balanced_assign (plain legible).balanced (reads legible)) balancedSteps_nil

theorem allowed_bindTarget (covered : law.Covers node) :
    law.Vets around node BalancedSteps (bindTarget mode node reading) := by
  rw [bindTarget]
  split
  · exact allowed_bindName free reads ‹_›
  split
  · exact makes_map covered.top.expression (fun legible front =>
      .cons (balanced_assign front (reads legible)) balancedSteps_nil) id
  split
  · refine allowed_bind allowed_freshTemp fun temp plain => ?_
    exact makes_map (covered.top.unpack free fun _ => plain)
      (fun legible => .cons (balanced_hold plain (reads legible))) id
  · exact allowed_refusal

theorem allowed_bindWithDefault {default : Part}
    (covered : law.Covers node) (fallback : law.Covers default) :
    law.Makes around BalancedSteps (law.Settled node ∧ law.Settled default)
      (bindWithDefault mode node reading default) := by
  rw [bindWithDefault]
  refine allowed_bind allowed_freshTemp fun temp plain => ?_
  refine makes_bind fallback.top.expression fun value balanced settledDefault => ?_
  have filled (legible : law.legible) := balanced_fallback_render plain (balanced legible)
  split
  · exact makes_map (covered.top.unpack free fun _ => plain) (fun legible rest =>
      .cons (balanced_hold plain (reads legible))
        (.cons (balanced_assign plain.balanced (filled legible)) rest))
      (⟨·, settledDefault⟩)
  · exact makes_map (allowed_bindTarget free filled covered)
      (fun legible => .cons (balanced_hold plain (reads legible))) (⟨·, settledDefault⟩)

def defaultedKinds : List String := ["assignment_pattern", "object_assignment_pattern"]

omit free reads in
theorem settled_defaulted {target default : Part} (isDefaulted : node.kind ∈ defaultedKinds)
    (foundTarget : node.field? "left" = some target)
    (foundDefault : node.field? "right" = some default)
    (settled : law.Settled target ∧ law.Settled default) : law.Settled node := by
  have row : ∀ kind ∈ defaultedKinds, (kind, [.field "left", .field "right"]) ∈ grammar := by
    simp [defaultedKinds, grammar]
  exact settled_of_covered _ rfl (row _ isDefaulted)
    (.cons (forall_of_eq_some foundTarget settled.1)
    (.cons (forall_of_eq_some foundDefault settled.2) .nil))

theorem allowed_bindEither (covered : law.Covers node) :
    law.Vets around node BalancedSteps (bindEither mode node reading) := by
  rw [bindEither]
  split
  · rename_i isDefaulted
    rw [bindDefaulted]
    split
    · rename_i target default foundTarget foundDefault
      refine makes_imp (allowed_bindWithDefault free reads (covered.field foundTarget)
        (covered.field foundDefault)) (settled_defaulted ?_ foundTarget foundDefault)
      simp [eq_of_beq isDefaulted, defaultedKinds]
    · exact allowed_refusal
  · exact allowed_bindTarget free reads covered

omit reads

omit free in
theorem allowed_patternKey (key : Part) :
    law.Allows around (fun _ => law.Settled key) (patternKey key) := by
  rw [patternKey]
  split
  iterate 3 exact allowed_pure (settled_of_quiet (by rw [‹key.kind = _›]; decide))
  all_goals exact allowed_refusal

omit free in
theorem settled_rest {target : Part} (isRest : node.kind = "rest_pattern")
    (found : node.first? = some target) (settled : law.Settled target) : law.Settled node :=
  settled_of_covered [.first] isRest (by simp [grammar])
    (.cons (forall_of_eq_some found settled) .nil)

variable (plain : law.legible → Unmarked temp)
include plain

theorem allowed_objectRest (claimed : List String)
    (isRest : node.kind = "rest_pattern") (covered : law.Covers node) :
    law.Vets around node BalancedSteps (objectRest mode temp claimed node) := by
  rw [objectRest]
  split
  · exact allowed_refusal
  rename_i target found
  refine allowed_bind allowed_freshTemp fun rest named => ?_
  exact makes_map (allowed_bindTarget free (fun _ => named.balanced)
    (covered.first found))
      (fun legible => (balancedSteps_rest named (plain legible) claimed).append)
    (settled_rest isRest found)

theorem allowed_unpackProperty (claimed : List String) (covered : law.Covers node) :
    law.Vets around node (BalancedSteps ·.1) (unpackProperty mode temp claimed node) := by
  have reads (key : String) (legible : law.legible) := balanced_field_render (plain legible) key
  rw [unpackProperty]
  split
  · exact makes_map (allowed_bindTarget free (reads _) covered) (fun _ => id) id
  · rename_i isDefaulted
    split
    · rename_i target default foundTarget foundDefault
      exact makes_map (allowed_bindWithDefault free (reads _) (covered.field foundTarget)
        (covered.field foundDefault)) (fun _ => id)
        (settled_defaulted (by simp [isDefaulted, defaultedKinds]) foundTarget foundDefault)
    · exact allowed_refusal
  · rename_i isPair
    split
    · rename_i key target foundKey foundTarget
      refine allowed_bind (allowed_patternKey key) fun name settledKey => ?_
      exact makes_map (allowed_bindEither free (reads name) (covered.field foundTarget))
        (fun _ => id)
        fun settled => settled_of_covered [.field "key", .field "value"] isPair (by simp [grammar])
          (.cons (forall_of_eq_some foundKey settledKey)
            (.cons (forall_of_eq_some foundTarget settled) .nil))
    · exact allowed_refusal
  · exact makes_map (allowed_objectRest free plain claimed ‹_› covered) (fun _ => id) id
  · exact allowed_refusal

theorem allowed_unpackProperties (claimed : List String)
    (properties : List Part) (covered : ∀ part ∈ properties, law.Covers part) :
    law.VetsAll around properties BalancedSteps
      (unpackProperties mode temp claimed properties) := by
  induction properties generalizing claimed with
  | nil => exact makes_pure (fun _ => balancedSteps_nil) (by simp)
  | cons property rest rest_allowed =>
    rw [unpackProperties]
    refine makes_bind (allowed_unpackProperty free plain claimed (covered _ (.head _)))
      fun _ front settled => ?_
    exact makes_map (rest_allowed _ fun part member => covered part (.tail _ member))
      (fun legible => (front legible).append) fun others => forall_mem_cons.mpr ⟨settled, others⟩

theorem allowed_unpackElement (index : Nat) (covered : law.Covers node) :
    law.Vets around node BalancedSteps (unpackElement mode temp index node) := by
  rw [unpackElement]
  split
  · rename_i isRest
    split
    · exact allowed_refusal
    rename_i target found
    exact makes_imp
      (allowed_bindTarget free (fun legible => (balanced_indexed_render (plain legible) _).2)
      (covered.first found)) (settled_rest (eq_of_beq isRest) found)
  · split
    · exact allowed_bindEither free (fun legible => (balanced_indexed_render (plain legible) _).1)
        covered
    · exact allowed_refusal

omit free plain in
theorem allowed_passing {α : Type} {formed : α → Prop} {body : Lowering α} {rest : List Part}
    (quiet : node.kind ∈ quietKinds) (others : law.VetsAll around rest formed body) :
    law.VetsAll around (node :: rest) formed body :=
  makes_imp others fun settled => forall_mem_cons.mpr ⟨settled_of_quiet quiet, settled⟩

theorem allowed_unpackElements (index : Nat)
    (elements : List Part) (covered : ∀ part ∈ elements, law.Covers part) :
    law.VetsAll around elements BalancedSteps (unpackElements mode temp index elements) := by
  induction elements generalizing index with
  | nil => exact makes_pure (fun _ => balancedSteps_nil) (by simp)
  | cons element rest rest_allowed =>
    have others : ∀ part ∈ rest, law.Covers part :=
      fun part member => covered part (.tail _ member)
    rw [unpackElements]
    split
    · rename_i isBracket
      simp only [Bool.or_eq_true, beq_iff_eq] at isBracket
      refine allowed_passing ?_ (rest_allowed index others)
      rcases isBracket with same | same
      · rw [same]
        decide
      · rw [same]
        decide
    · split
      · rename_i isComma
        refine allowed_passing ?_ (rest_allowed (index + 1) others)
        rw [eq_of_beq isComma]
        decide
      · refine makes_bind (allowed_unpackElement free plain index (covered _ (.head _)))
          fun _ front settled => ?_
        exact makes_map (rest_allowed index others) (fun legible => (front legible).append)
          fun settledRest => forall_mem_cons.mpr ⟨settled, settledRest⟩

variable (covered : law.Covers node)
include covered

theorem allowed_renderUnpack :
    law.Vets around node BalancedSteps (renderUnpack node mode temp) := by
  rw [renderUnpack]
  split
  · rename_i isObject
    refine makes_imp (allowed_unpackProperties free plain [] _ fun part member =>
      covered.named member) fun settled => ?_
    exact settled_of_covered [.every] (eq_of_beq isObject) (by simp [grammar]) (.cons settled .nil)
  · split
    · rename_i isArray
      refine makes_imp (allowed_unpackElements free plain 0 _ fun part member =>
        covered.child (TypeScript.Tree.mem_children_of_mem_parts member)) fun settled => ?_
      exact settled_of_covered [.every] (eq_of_beq isArray) (by simp [grammar])
        (.cons (fun part member => settled part (mem_filter.mp member).1) .nil)
    · exact allowed_refusal

theorem allowed_unpackFrom : law.Vets around node BalancedSteps (unpackFrom mode node temp) := by
  rw [unpackFrom]
  split
  · exact covered.top.unpack free plain
  · exact allowed_bindTarget free (fun legible => (plain legible).balanced) covered

omit plain in
theorem allowed_destructure {source : Part} (value : law.Covers source) :
    law.Makes around (fun taken => Unmarked taken.1 ∧ BalancedSteps taken.2)
      (law.Settled node ∧ law.Settled source) (destructure mode node source) := by
  rw [destructure]
  refine makes_bind value.top.expression fun text balanced settledSource => ?_
  refine allowed_bind allowed_freshTemp fun temp plain => ?_
  refine makes_map (allowed_unpackFrom free (fun _ => plain) covered)
    (fun legible rest => ⟨plain, .cons ?_ rest⟩) (⟨·, settledSource⟩)
  exact balanced_set (by decide) plain.balanced (balanced legible)

end Patterns

section Functions

theorem settled_name (isName : node.kind = "identifier") : law.Settled node :=
  settled_of_quiet (by rw [isName]; decide)

theorem allowed_defaultLines {name : String} (plain : law.legible → Unmarked name) (field : String)
    (covered : law.Covers node) :
    law.VetsAll around ((Slot.field field).pick node) (fun lines => ∀ line ∈ lines, Balanced line)
      (defaultLines name (node.field? field)) := by
  rw [defaultLines.eq_def]
  split
  · rename_i default found
    exact makes_map (covered.field found).top.expression (fun legible balanced =>
      forall_mem_singleton.mpr (balanced_defaultLine (plain legible) balanced))
      (forall_of_eq_some found)
  · exact makes_pure (by simp) (forall_of_eq_none ‹_›)

def parameterKinds : List String := ["required_parameter", "optional_parameter"]

theorem settled_parameter (isParameter : node.kind ∈ parameterKinds)
    (undecorated : node.has "decorator" = false) (found : node.field? "pattern" = some pattern)
    (settled : law.Settled pattern)
    (initializer : ∀ part ∈ Slot.initializer.pick node, law.Settled part) : law.Settled node := by
  have row : ∀ kind ∈ parameterKinds,
      (kind, [.everyOf ["decorator"], .field "pattern", .initializer]) ∈ grammar := by
    simp [parameterKinds, grammar]
  exact settled_of_covered _ rfl (row _ isParameter) (.cons (forall_of_not_has undecorated)
    (.cons (forall_of_eq_some found settled) (.cons initializer .nil)))

theorem allowed_restParameter (isRest : pattern.kind = "rest_pattern") (covered : law.Covers node) :
    law.Vets [] pattern BalancedParameters (restParameter node pattern) := by
  rw [restParameter]
  split
  · exact allowed_refusal
  rename_i target foundTarget
  obtain ⟨first, isName⟩ := Option.filter_eq_some_iff.mp foundTarget
  refine allowed_bind (law.binding _ not_mem_nil) fun _ _ => ?_
  refine allowed_view (fun agrees => ?_) fun view spelled => makes_pure
    (fun legible => balanced_singleParameter ?_ (by simp)) ?_
  · simp only [restElement_congr agrees covered.typed]
  · have plain := (Unmarked.append (by decide : Unmarked "...")
      (Haxe.unmarked_sanitize target.text)).append (by decide : Unmarked ": ")
    exact plain.balanced.append
      (balanced_restElement (spelled legible) (covered.sound legible) "type")
  · exact settled_rest isRest first (settled_name (eq_of_beq isName))

theorem allowed_parameter (covered : law.Covers node) :
    law.Makes [] BalancedParameters (node.kind ∈ parameterKinds → law.Settled node)
      (parameter node) := by
  rw [parameter]
  refine allowed_guard fun plain => ?_
  have undecorated : node.has "decorator" = false := by
    simp only [Bool.or_eq_true, not_or, Bool.not_eq_true] at plain
    exact plain.2
  split
  · exact allowed_refusal
  rename_i pattern found
  have default (value : ∀ part ∈ (Slot.field "value").pick node, law.Settled part) :
      ∀ part ∈ Slot.initializer.pick node, law.Settled part := by
    intro part member
    rw [Slot.pick] at member
    split at member
    · simp at member
    · exact value part member
  have ignored (special : pattern.kind ∈ ["this", "rest_pattern"]) :
      ∀ part ∈ Slot.initializer.pick node, law.Settled part := by
    simp_all [Slot.pick]
  refine allowed_view (fun agrees => ?_) fun view spelled => ?_
  · simp only [typeSuffix_congr agrees covered.typed]
  have annotated (legible : law.legible) :=
    balanced_typeSuffix (spelled legible) (covered.sound legible) "type"
  have optional (isOptional : Bool) : Unmarked (if isOptional then "?" else "") := by
    cases isOptional <;> decide
  dsimp only
  split
  · rename_i isThis
    have same := eq_of_beq isThis
    exact makes_pure (fun _ => balancedParameters_none) fun isParameter =>
      settled_parameter isParameter undecorated found
        (settled_of_quiet (by rw [same]; decide)) (ignored (by simp [same]))
  · split
    · rename_i isName
      have named := Haxe.unmarked_sanitize pattern.text
      refine allowed_bind (law.binding _ not_mem_nil) fun _ _ => ?_
      exact makes_map (allowed_defaultLines (fun _ => named) _ covered)
        (fun legible => balanced_namedParameter (optional _) named (annotated legible))
        fun value isParameter => settled_parameter isParameter undecorated found
          (settled_name (eq_of_beq isName)) (default value)
    · split
      · rename_i isRest
        have same := eq_of_beq isRest
        exact makes_imp (allowed_restParameter same covered) fun settled isParameter =>
          settled_parameter isParameter undecorated found settled (ignored (by simp [same]))
      · split
        · refine allowed_bind allowed_freshTemp fun temp plain => ?_
          refine makes_bind (allowed_defaultLines (fun _ => plain) _ covered)
            fun _ lines value => ?_
          exact makes_map
            (allowed_unpackFrom (.inr not_mem_nil) (fun _ => plain) (covered.field found))
            (fun legible steps => balanced_singleParameter
              (((optional _).append plain).balanced.append (annotated legible))
              (forall_mem_append.mpr ⟨lines legible, forall_mem_map.mpr steps⟩))
            fun settled isParameter =>
              settled_parameter isParameter undecorated found settled (default value)
        · exact allowed_refusal

theorem allowed_parameters (covered : law.Covers node) :
    law.VetsAll [] (Slot.parameters.pick node) BalancedParameters (parameters node) := by
  rw [parameters]
  split
  · rename_i single found
    exact allowed_bind (law.binding _ not_mem_nil) fun _ _ =>
      makes_pure (fun _ => balanced_singleParameter
      (Haxe.unmarked_sanitize _).balanced (by simp)) (by simp [Slot.pick, found])
  · rename_i none
    split
    · rename_i missing
      exact makes_pure (fun _ => balancedParameters_none) (by simp [Slot.pick, missing])
    · rename_i list found
      refine makes_map (allowed_each fun part member =>
        allowed_parameter ((covered.field found).named member))
        (fun _ each => balanced_foldl_append balancedParameters_none each)
        fun settled part member => ?_
      rw [Slot.pick, if_neg (by simp [none])] at member
      refine forall_of_filter found (fun isList => ?_) part member
      refine settled_of_covered [.everyOf parameterKinds] (eq_of_beq isList)
        (by simp [grammar, parameterKinds]) (.cons (fun part member => ?_) .nil)
      obtain ⟨inside, isParameter⟩ := mem_filter.mp member
      exact settled part inside (by simpa using isParameter)

section Bodies

variable {header : String} {prelude injected : List String} {body : List Haxe.Code} {known : Prop}
variable (head : law.legible → Balanced header)
include head

theorem allowed_blockText (inside : law.legible → Closed body) (fact : known) :
    law.Makes around Balanced known (blockText header body) :=
  law.surroundings (fun _ _ agrees => by rw [agrees.indent]) fun _ spelled => makes_pure
    (fun legible => Haxe.Code.balanced_render (spelled legible).indent
      (Haxe.Code.closed_block (head legible) (inside legible))) fact

variable (front : law.legible → ∀ line ∈ prelude, Balanced line)
include front

theorem allowed_expressionBody (covered : law.Covers node) :
    law.Vets around node Balanced (expressionBody header prelude node) := by
  rw [expressionBody]
  refine makes_bind covered.top.expression fun value balanced settled => ?_
  split
  · exact makes_pure (fun legible => ((head legible).append (by decide)).append (balanced legible))
      settled
  · refine allowed_blockText head (fun legible => ?_) settled
    refine (Haxe.Code.closed_lines (front legible)).append ?_
    simp +decide [Closed, (balanced legible).read_append]

omit head front in
theorem settles_block (isBlock : node.kind = "statement_block")
    (settles : ∀ part ∈ node.named, law.Settles ⟨around, part⟩) : law.Settles ⟨around, node⟩ :=
  settles_of_plain [.every] isBlock (by simp [grammar]) (by decide) (.cons settles .nil)

omit head front in
theorem admits_block (isBlock : node.kind = "statement_block")
    (admitted : law.Admits ⟨around, node⟩) :
    ∀ part ∈ node.named, law.Admits ⟨around, part⟩ := fun _ member =>
  admits_plain (by rw [isBlock]; decide) admitted (TypeScript.Tree.mem_children_of_mem_named member)

theorem allowed_blockBody (between : law.legible → ∀ line ∈ injected, Balanced line)
    (isBlock : node.kind = "statement_block") (covered : law.Covers node)
    (admitted : law.Admits ⟨around, node⟩) :
    law.Tracks around node Balanced (blockBody header prelude injected node) := by
  rw [blockBody]
  split
  · rename_i empty
    simp only [Bool.and_eq_true, List.isEmpty_iff] at empty
    exact makes_pure (fun legible => (head legible).append (by decide))
      (settles_block isBlock (by simp [empty.1.1]))
  · refine makes_bind (makes_map (allowed_each fun part member => ?_)
      (fun legible each => closed_body _ (front legible) (between legible) each) id)
      fun _ inside settles => allowed_blockText head inside (settles_block isBlock settles)
    exact (covered.named member).top.statement (admits_block isBlock admitted part member)

end Bodies

/-- What is known of a function that is lowered: its parameters and its body are settled. -/
abbrev Discipline.SettlesFunction (law : Discipline) (node : Part) : Prop :=
  Covered (fun part => law.Settles ⟨[], part⟩) node [.parameters, .field "body"]

theorem allowed_functionLike {signature : String} (role : FunctionRole)
    (front : law.legible → Balanced signature) (isCallable : node.kind ∈ callableKinds)
    (covered : law.Covers node) :
    law.Makes around BalancedFunction (law.SettlesFunction node)
      (functionLike signature node role) := by
  refine law.function ?_
  rw [functionInside]
  refine makes_bind (allowed_parameters covered) fun parameters balanced settled => ?_
  refine allowed_view (fun agrees => ?_) fun view spelled => ?_
  · simp only [typeSuffix_congr agrees covered.typed]
  have head (legible : law.legible) :
      Balanced (signature ++ "(" ++ Text.joinWith ", " parameters.list ++ ")" ++
        if role = .constructor then "" else typeSuffix view (node.field? "return_type")) := by
    have listed : Balanced (Text.joinWith ", " parameters.list) :=
      balanced_joinWith (by decide) (balanced legible).list
    refine Balanced.append ?_ ?_
    · simp +decide [Haxe.Balanced, (front legible).read_append, listed.read_append]
    · split
      · decide
      · exact balanced_typeSuffix (spelled legible) (covered.sound legible) "return_type"
  have lines (legible : law.legible) := (balanced legible).prelude
  have fields (legible : law.legible) := balanced_propertyFields role (balanced legible)
  dsimp only
  split
  · exact allowed_refusal
  rename_i body found
  have whole (settles : law.Settles ⟨[], body⟩) : law.SettlesFunction node :=
    .cons (fun part member => settled part member _) (.cons (forall_of_eq_some found settles) .nil)
  split
  · rename_i isBlock
    have admitted : law.Admits ⟨[], body⟩ := part_callable isCallable ▸
      admits_part (covered.top.function isCallable) (TypeScript.Tree.mem_children_of_field? found)
    exact makes_map (allowed_blockBody head lines (fun legible => balanced_injectedLines role
      (balanced legible)) (eq_of_beq isBlock) (covered.field found) admitted)
      (fun legible text => ⟨text, fields legible⟩) whole
  · exact makes_map (allowed_expressionBody head lines (covered.field found))
      (fun legible text => ⟨text, fields legible⟩) fun settled => whole (settled _)

theorem allowed_checkFlavor (node : Part) :
    law.Allows around (fun _ => node.has "*" = false) (checkFlavor node) := by
  rw [checkFlavor]
  refine allowed_guard fun _ => ?_
  exact allowed_guard fun _ => allowed_pure (by simp_all)

/-- The kinds of functions whose star makes another kind of them. -/
def functionKinds : List String :=
  ["arrow_function", "function_expression", "function", "function_declaration"]

theorem callable_of_function (isFunction : node.kind ∈ functionKinds) :
    node.kind ∈ callableKinds := by
  have each : ∀ kind ∈ functionKinds, kind ∈ callableKinds := by decide
  exact each _ isFunction

theorem settled_function (isFunction : node.kind ∈ functionKinds)
    (settles : law.SettlesFunction node) : law.Settled node := by
  have row : ∀ kind ∈ functionKinds, (kind, [.parameters, .field "body"]) ∈ grammar := by
    simp [functionKinds, grammar]
  refine fun _ => settles_of_covered _ rfl (row _ isFunction) (settles.imp fun part inside => ?_)
  rw [part_callable (callable_of_function isFunction)]
  exact inside

theorem allowed_namedFunction {before : String} (front : Unmarked before) (name : String)
    (isFunction : node.kind ∈ functionKinds) (covered : law.Covers node) :
    law.Vets around node Balanced (namedFunction before name node) := by
  rw [namedFunction]
  refine allowed_bind (allowed_checkFlavor node) fun _ _ => ?_
  refine allowed_view (fun agrees => ?_) fun view spelled => ?_
  · simp only [typeParameters_congr agrees covered.typed]
  have head := ((front.append (by decide : Unmarked "function ")).append
    (Haxe.unmarked_sanitize name)).balanced
  exact makes_map (allowed_functionLike _ (fun legible => head.append (balanced_typeParameters
    (spelled legible) (covered.sound legible) _)) (callable_of_function isFunction) covered)
    (fun _ function => function.text) (settled_function isFunction)

theorem allowed_functionValue (isCallable : node.kind ∈ callableKinds) (covered : law.Covers node) :
    law.Makes around Balanced (node.has "*" = false ∧ law.SettlesFunction node)
      (functionValue node) := by
  rw [functionValue]
  refine allowed_bind (allowed_checkFlavor node) fun _ unstarred => ?_
  refine allowed_guard fun _ => ?_
  exact makes_map (allowed_functionLike _ (fun _ => by decide) isCallable covered)
    (fun _ function => function.text) (⟨unstarred, ·⟩)

end Functions

end Haxify.Lower
