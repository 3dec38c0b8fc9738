import Haxify.Proofs.DisciplineOfFunctions

/-!
# The discipline of expressions

One statement for each rule, as for functions, down to the table that picks the rule for a
kind.
-/

namespace Haxify.Lower

open List
open Haxe (Balanced Unmarked balanced_joinWith)
open TypeScript (Slot grammar slots specialGrammar Tree)
open TypeScript.Tree (Covered forall_of_eq_some forall_of_filter forall_of_imp
  slots_of_mem_specialGrammar)

variable {parts : List Part} {part object expression : Part} {type : Option Part}
variable {α : Type} {law : Discipline} {around : List Jump} {node : Part}

section Operands

/-- The expression inside a node is what fills the field for it, or else the first named part
that is no type. -/
def IsInner (node inner : Part) : Prop :=
  node.field? "expression" = some inner ∨ node.field? "expression" = none ∧
    node.named.find? (fun part => !Text.endsIn part.kind "type" && part.kind != "type_arguments") =
      some inner

theorem allowed_innerExpression (node : Part) :
    law.Allows around (IsInner node) (innerExpression node) := by
  simp only [innerExpression]
  split
  · exact allowed_pure (Option.or_eq_some_iff.mp ‹_›)
  · exact allowed_refusal

theorem settled_of_isInner {inner : Part} (row : (node.kind, [.operand]) ∈ grammar)
    (found : IsInner node inner) (settled : law.Settled inner) : law.Settled node := by
  refine settled_of_covered _ rfl row (.cons (forall_of_imp fun part operand => ?_) .nil)
  rcases found with direct | ⟨missing, searched⟩
  · rw [direct, Option.some_or, Option.some.injEq] at operand
    exact operand ▸ settled
  · -- The first named part is the inner expression, unless it is a type.
    rw [missing, Option.none_or] at operand
    obtain ⟨rest, named⟩ := head?_eq_some_iff.mp operand
    rw [named, find?_cons] at searched
    split at searched
    · exact Option.some.inj searched ▸ settled
    rename_i isType
    refine settled_of_isTypeKind ?_
    simp only [Bool.and_eq_false_iff, Bool.not_eq_false', bne_eq_false_iff_eq] at isType
    rcases isType with ending | same
    · simp [TypeScript.isTypeKind, ending]
    · simp [TypeScript.isTypeKind, same]

theorem mem_of_mem_templatePieces {start stop : Nat}
    (member : .substitution part ∈ templatePieces node start stop parts) : part ∈ parts := by
  induction parts generalizing start with
  | nil => simp [templatePieces, templateChunk] at member
  | cons child rest rest_mem =>
    rw [templatePieces] at member
    split at member
    · rw [mem_append, mem_cons] at member
      rcases member with chunk | here | later
      · simp [templateChunk] at chunk
      · cases here
        exact .head _
      · exact .tail _ (rest_mem later)
    · exact .tail _ (rest_mem member)

theorem mem_templatePieces {start stop : Nat}
    (member : part ∈ parts) (isSubstitution : part.kind = "template_substitution") :
    .substitution part ∈ templatePieces node start stop parts := by
  induction parts generalizing start with
  | nil => simp at member
  | cons child rest rest_mem =>
    rw [templatePieces]
    rcases mem_cons.mp member with rfl | later
    · rw [if_pos (by simp [isSubstitution])]
      exact mem_append_right _ (.head _)
    · split
      · exact mem_append_right _ (.tail _ (rest_mem later))
      · exact rest_mem later

theorem allowed_moduleMember? (node object : Part) (member : String) :
    law.Allows around (fun path => (law.legible → ∀ found ∈ path, Balanced found) ∧
      (path.isSome → law.foreign object.text)) (moduleMember? node object member) := by
  rw [moduleMember?]
  refine law.names (fun first second agrees => ?_) fun view known spelled => ?_
  · simp only [agrees.moduleMember]
  split
  · rename_i path found
    refine allowed_pure ⟨fun legible path given => ?_, fun some => ?_⟩
    · rw [Option.mem_def] at given
      subst given
      exact (unmarked_moduleMember (spelled legible) found).balanced
    · obtain ⟨spelling, rfl⟩ := Option.isSome_iff_exists.mp some
      exact known _ _ _ found
  · exact allowed_refusal

theorem settled_member (isMember : node.kind = "member_expression")
    (found : node.field? "object" = some object) (settled : law.Settled object) :
    law.Settled node :=
  settled_of_covered [.field "object"] isMember (by simp [grammar])
    (.cons (forall_of_eq_some found settled) .nil)

theorem settled_subscript {index : Part} (isSubscript : node.kind = "subscript_expression")
    (foundObject : node.field? "object" = some object) (settledObject : law.Settled object)
    (foundIndex : node.field? "index" = some index) (settledIndex : law.Settled index) :
    law.Settled node :=
  settled_of_covered [.field "object", .field "index"] isSubscript (by simp [grammar])
    (.cons (forall_of_eq_some foundObject settledObject)
      (.cons (forall_of_eq_some foundIndex settledIndex) .nil))

def operationKinds : List String :=
  ["binary_expression", "assignment_expression", "augmented_assignment_expression"]

theorem settled_operation {left right : Part} (isOperation : node.kind ∈ operationKinds)
    (foundLeft : node.field? "left" = some left) (settledLeft : law.Settled left)
    (foundRight : node.field? "right" = some right) (settledRight : law.Settled right) :
    law.Settled node := by
  have row : ∀ kind ∈ operationKinds, (kind, [.field "left", .field "right"]) ∈ grammar := by
    simp [operationKinds, grammar]
  exact settled_of_covered _ rfl (row _ isOperation)
    (.cons (forall_of_eq_some foundLeft settledLeft)
      (.cons (forall_of_eq_some foundRight settledRight) .nil))

theorem balanced_patternAssignment {temp : String} {steps : List BindingStep}
    (plain : Unmarked temp) (balanced : BalancedSteps steps) :
    Balanced ("\x7b " ++ Text.joinWith " " (steps.map BindingStep.render ++ [temp ++ ";"]) ++
      " \x7d") := by
  have joined : Balanced (Text.joinWith " " (steps.map BindingStep.render ++ [temp ++ ";"])) := by
    refine balanced_joinWith (by decide) (forall_mem_append.mpr ⟨forall_mem_map.mpr balanced, ?_⟩)
    exact forall_mem_singleton.mpr (plain.append (by decide)).balanced
  generalize Text.joinWith " " _ = text at joined ⊢
  simp +decide [Haxe.Balanced, joined.read_append]

/-- Kinds of operations with one operand. -/
def prefixKinds : List String := ["unary_expression", "update_expression"]

theorem settled_argument {argument : Part} (isOperation : node.kind ∈ prefixKinds)
    (found : node.field? "argument" = some argument) (settled : law.Settled argument) :
    law.Settled node := by
  have row : ∀ kind ∈ prefixKinds, (kind, [.field "argument"]) ∈ grammar := by
    simp [prefixKinds, grammar]
  exact settled_of_covered _ rfl (row _ isOperation) (.cons (forall_of_eq_some found settled) .nil)

end Operands

section Operators

variable (covered : law.Covers node)
include covered

theorem allowed_required (field : String) :
    law.VetsAll around ((Slot.field field).pick node) Balanced (required node field) := by
  rw [required]
  split
  · rename_i part found
    exact makes_imp (covered.field found).top.expression (forall_of_eq_some found)
  · exact allowed_refusal

theorem allowed_inner {formed : α → Prop} {next : Part → Lowering α}
    (row : (node.kind, [.operand]) ∈ grammar)
    (tail : ∀ inner, law.Covers inner → law.Vets around inner formed (next inner)) :
    law.Vets around node formed (innerExpression node >>= next) := by
  refine allowed_bind (allowed_innerExpression node) fun inner found => ?_
  have inside : law.Covers inner := by
    rcases found with direct | ⟨_, searched⟩
    · exact covered.field direct
    · exact covered.named (mem_of_find?_eq_some searched)
  exact makes_imp (tail inner inside) (settled_of_isInner row found)

theorem allowed_number (isNumber : node.kind = "number") :
    law.Vets around node Balanced (number node) := by
  rw [number]
  split
  · refine makes_pure (fun legible => ?_) (settled_of_quiet (by rw [isNumber]; decide))
    have plain := (covered.top.sound legible).legible.copied (by rw [isNumber]; decide)
    exact (unmarked_numberText plain ‹_›).balanced
  · exact allowed_refusal

theorem allowed_template (isTemplate : node.kind = "template_string") :
    law.Vets around node Balanced (template node) := by
  rw [template]
  generalize node.token.start + 1 = start
  generalize max (node.token.stop - 1) start = stop
  have each : law.Makes around (fun texts => ∀ text ∈ texts, Balanced text)
      (∀ piece ∈ templatePieces node start stop node.named, ∀ part, piece = .substitution part →
        part.kind = "template_substitution" → law.Settled part)
      (forEach (templatePieces node start stop node.named) templateOperand) := by
    refine allowed_each fun piece member => ?_
    cases piece with
    | chunk text => exact makes_pure (fun _ => Haxe.balanced_quote _) fun part same => by cases same
    | substitution part =>
      rw [templateOperand]
      split
      · rename_i expression found
        have inside := (covered.named (mem_of_mem_templatePieces member)).first found
        refine makes_imp inside.top.expression fun settled other same isSubstitution => ?_
        cases same
        exact settled_of_covered [.first] isSubstitution (by simp [grammar])
          (.cons (forall_of_eq_some found settled) .nil)
      · exact allowed_refusal
  refine makes_map each (fun _ texts => balanced_concatenation texts) fun settled => ?_
  refine settled_of_covered [.everyOf ["template_substitution"]] isTemplate (by simp [grammar])
    (.cons (fun part member => ?_) .nil)
  obtain ⟨inside, isSubstitution⟩ := mem_filter.mp member
  have same : part.kind = "template_substitution" := by simpa using isSubstitution
  exact settled _ (mem_templatePieces inside same) part rfl same

theorem allowed_plainMember {property : Part} (isOptional : Bool)
    (plain : law.legible → property.kind ≠ "private_property_identifier" → Unmarked property.text) :
    law.Vets around node Balanced (plainMember node property isOptional) := by
  have dot : Balanced (if isOptional then "?." else ".") := by cases isOptional <;> decide
  have name : law.Allows around (fun name => law.legible → Unmarked name)
      (propertyName property) := by
    rw [propertyName]
    refine allowed_guard fun isPublic => ?_
    exact allowed_guard fun _ => allowed_pure fun legible => plain legible (by simpa using isPublic)
  rw [plainMember]
  exact allowed_bind name fun _ nameless => makes_map covered.top.expression (fun legible front =>
    (front.append dot).append (nameless legible).balanced) id

theorem allowed_member (isMember : node.kind = "member_expression") :
    law.Vets around node Balanced (member node) := by
  rw [member]
  split
  · rename_i object property found foundProperty
    have name (legible : law.legible) (isPublic : property.kind ≠ "private_property_identifier") :
        Unmarked property.text := by
      have sound := covered.sound legible
      have kind := sound.top.legible.field ("member_expression", "property", _) (.head _)
        isMember property foundProperty
      have isName : property.kind = "property_identifier" := by simpa [isPublic] using kind
      exact (sound.field foundProperty).top.legible.copied (by rw [isName]; decide)
    have plain (isOptional : Bool) :
        law.Vets around node Balanced (plainMember object property isOptional) :=
      makes_imp (allowed_plainMember (covered.field found) _ name) (settled_member isMember found)
    dsimp only
    split
    · rename_i isModule
      simp only [Bool.and_eq_true, beq_iff_eq] at isModule
      refine allowed_bind (allowed_moduleMember? _ _ _) fun path spelled => ?_
      split
      · exact makes_pure (fun legible => spelled.1 legible _ rfl)
          (settled_member isMember found (settled_name isModule.1))
      · exact plain _
    · rw [pure_bind]
      exact plain _
  · exact allowed_refusal

theorem allowed_subscript (isSubscript : node.kind = "subscript_expression") :
    law.Vets around node Balanced (subscript node) := by
  rw [subscript]
  refine allowed_guard fun _ => ?_
  split
  · rename_i object index foundObject foundIndex
    have plain : law.Vets around node Balanced (do
        let target ← object.value.expression
        let position ← index.value.expression
        return target ++ "[" ++ position ++ "]") := by
      refine makes_bind (covered.field foundObject).top.expression fun _ front settledObject => ?_
      refine makes_map (covered.field foundIndex).top.expression (fun legible inside => ?_)
        (settled_subscript isSubscript foundObject settledObject foundIndex)
      simp +decide [Haxe.Balanced, (front legible).read_append, inside.read_append]
    dsimp only
    split
    · rename_i isModule
      simp only [Bool.and_eq_true, beq_iff_eq] at isModule
      refine allowed_bind (allowed_moduleMember? _ _ _) fun path spelled => ?_
      split
      · exact makes_pure (fun legible => spelled.1 legible _ rfl)
          (settled_subscript isSubscript foundObject (settled_name isModule.1) foundIndex
            (settled_of_quiet (by rw [isModule.2]; decide)))
      · exact plain
    · rw [pure_bind]
      exact plain
  · exact allowed_refusal

theorem allowed_deletion : law.Vets around node Balanced (deletion node) := by
  rw [deletion]
  split
  · exact allowed_refusal
  rename_i object foundObject
  have key : law.Makes around Balanced (law.Settled object → law.Settled node)
      (deletedKey node) := by
    rw [deletedKey]
    split
    · rename_i isMember
      simp only [Bool.and_eq_true, beq_iff_eq] at isMember
      split
      · exact makes_pure (fun _ => Haxe.balanced_quote _) (settled_member isMember.1 foundObject)
      · exact allowed_refusal
    · split
      · rename_i isSubscript
        split
        · rename_i index foundIndex
          refine makes_imp (covered.field foundIndex).top.expression fun settled object => ?_
          exact settled_subscript (eq_of_beq isSubscript) foundObject object foundIndex settled
        · exact allowed_refusal
      · exact allowed_refusal
  refine makes_bind key fun _ second whole => ?_
  refine makes_map (covered.field foundObject).top.expression (fun legible first => ?_) whole
  simp +decide [Haxe.Balanced, first.read_append, (second legible).read_append]

theorem allowed_unary (isOperation : node.kind ∈ prefixKinds) :
    law.Vets around node Balanced (unary node) := by
  rw [unary]
  split
  · rename_i operator argument _ found
    split
    · rename_i listed
      have operators : ∀ operator ∈ ["!", "-", "~"], Balanced operator := by decide
      have front := operators _ (contains_iff_mem.mp listed)
      exact makes_map (covered.field found).top.expression
        (fun _ behind => front.append (Haxe.balanced_parenthesize behind))
        (settled_argument isOperation found)
    · split
      · exact makes_imp (allowed_deletion (covered.field found))
          (settled_argument isOperation found)
      · exact allowed_refusal
  · exact allowed_refusal

theorem allowed_update (isUpdate : node.kind = "update_expression") :
    law.Vets around node Balanced (update node) := by
  have isOperation : node.kind ∈ prefixKinds := by simp [isUpdate, prefixKinds]
  rw [update]
  split
  · rename_i operator argument foundOperator found
    have sign (legible : law.legible) := balanced_operator "update_expression" updateOperators
      (by decide) (by decide) (by decide) (covered.sound legible) isUpdate foundOperator
    refine makes_bind (covered.field found).top.expression fun _ target settled => ?_
    have whole : law.Settled node := settled_argument isOperation found settled
    split
    · exact makes_pure (fun legible => (sign legible).append (target legible)) whole
    · exact makes_pure (fun legible => (target legible).append (sign legible)) whole
  · exact allowed_refusal

theorem allowed_ternary (isChoice : node.kind = "ternary_expression") :
    law.Vets around node Balanced (ternary node) := by
  rw [ternary]
  refine makes_bind (allowed_required covered _) fun _ first condition => ?_
  refine makes_bind (allowed_required covered _) fun _ second consequence => ?_
  refine makes_map (allowed_required covered _) (fun legible third => ?_) fun alternative => ?_
  · simp +decide [Haxe.Balanced, (first legible).read_append, (second legible).read_append,
      third.read_append]
  · exact settled_of_covered [.field "condition", .field "consequence", .field "alternative"]
      isChoice (by simp [grammar]) (.cons condition (.cons consequence (.cons alternative .nil)))

variable (isOperation : node.kind ∈ operationKinds)
include isOperation

theorem allowed_binary : law.Vets around node Balanced (binary node) := by
  rw [binary]
  split
  · rename_i left operator right foundLeft _ foundRight
    refine allowed_guard fun _ => ?_
    refine makes_bind (covered.field foundLeft).top.expression fun _ first settledLeft => ?_
    refine makes_bind (covered.field foundRight).top.expression fun _ second settledRight => ?_
    split
    · exact makes_pure (fun legible => balanced_binaryText? (first legible) (second legible) ‹_›)
        (settled_operation isOperation foundLeft settledLeft foundRight settledRight)
    · exact allowed_refusal
  · exact allowed_refusal

theorem allowed_assignment : law.Vets around node Balanced (assignment node) := by
  rw [assignment]
  split
  · rename_i left right foundLeft foundRight
    split
    · exact makes_map
        (allowed_destructure (.inl rfl) (covered.field foundLeft) (covered.field foundRight))
        (fun _ taken => balanced_patternAssignment taken.1 taken.2)
        fun settled => settled_operation isOperation foundLeft settled.1 foundRight settled.2
    · refine makes_bind (covered.field foundLeft).top.expression fun _ first settledLeft => ?_
      exact makes_map (covered.field foundRight).top.expression
        (fun legible second => ((first legible).append (by decide)).append second)
        (settled_operation isOperation foundLeft settledLeft foundRight)
  · exact allowed_refusal

theorem allowed_augmentedAssignment (isAssignment : node.kind = "augmented_assignment_expression") :
    law.Vets around node Balanced (augmentedAssignment node) := by
  rw [augmentedAssignment]
  split
  · rename_i left operator right foundLeft foundOperator foundRight
    refine makes_bind (covered.field foundLeft).top.expression fun _ first settledLeft => ?_
    refine makes_bind (covered.field foundRight).top.expression fun _ second settledRight => ?_
    have settled : law.Settled node :=
      settled_operation isOperation foundLeft settledLeft foundRight settledRight
    split
    · exact allowed_guard fun _ => makes_pure (fun legible => ((first legible).append
        (by decide)).append (balanced_expandedAssignment? (first legible) (second legible) ‹_›))
          settled
    · refine makes_pure (fun legible => ?_) settled
      have sign := balanced_operator "augmented_assignment_expression" assignmentOperators
        (by decide) (by decide) (by decide) (covered.sound legible) isAssignment foundOperator
      exact ((((first legible).append (by decide)).append sign).append (by decide)).append
        (second legible)
  · exact allowed_refusal

end Operators

section Calls

variable {arguments : List Part}

def AreArguments (node : Part) (arguments : List Part) : Prop :=
  node.field? "arguments" = none ∧ arguments = [] ∨
    ∃ list, node.field? "arguments" = some list ∧ list.kind = "arguments" ∧ arguments = list.named

theorem allowed_callArguments (node : Part) :
    law.Allows around (AreArguments node) (callArguments node) := by
  rw [callArguments]
  split
  · rename_i list found
    split
    · rename_i isList
      have listed : AreArguments node list.named := .inr ⟨list, found, eq_of_beq isList, rfl⟩
      refine allowed_bind (allowed_pure listed) fun arguments fact => ?_
      dsimp only
      split
      · exact allowed_refusal
      · exact allowed_pure fact
    · have refused : law.Allows around (fun _ => False)
        (unsupported list "tagged template" : Lowering (List Part)) := allowed_refusal
      exact allowed_bind refused fun _ => False.elim
  · have none : AreArguments node [] := .inl ⟨‹_›, rfl⟩
    refine allowed_bind (allowed_pure none) fun arguments fact => ?_
    dsimp only
    split
    · exact allowed_refusal
    · exact allowed_pure fact

theorem allowed_globalCallsOf (object : Part) (method : String) : law.Allows around (fun known =>
    known ≠ [] → object.kind = "identifier" ∧ ∀ call ∈ known, call ∈ globalCalls)
      (globalCallsOf object method) := by
  rw [globalCallsOf]
  refine allowed_view (fun agrees => ?_) fun view _ => ?_
  · simp only [agrees.isLocal]
  split
  · rename_i isGlobal
    rw [Bool.and_eq_true, beq_iff_eq] at isGlobal
    exact allowed_pure fun _ => ⟨isGlobal.1, fun call member => (mem_filter.mp member).1⟩
  · exact allowed_pure fun known => absurd rfl known

theorem allowed_globalCall {callee : Part} {method : String} {known : List GlobalCall}
    (listed : ∀ call ∈ known, call ∈ globalCalls) (covered : ∀ part ∈ arguments, law.Covers part) :
    law.VetsAll around arguments Balanced (globalCall callee object method known arguments) := by
  have single : ∀ call ∈ globalCalls, call.arity = 1 := by simp [globalCalls]
  rw [globalCall]
  split
  · rename_i call found
    have arity : call.arity = arguments.length := by
      simpa using find?_some found
    have known := listed call (mem_of_find?_eq_some found)
    obtain ⟨argument, rfl⟩ := length_eq_one_iff.mp (arity.symm.trans (single call known))
    exact makes_map (covered argument (.head _)).top.expression
      (fun _ inside => balanced_globalCall_render known inside) (by simp)
  · exact allowed_refusal

theorem allowed_builtinCall? (covered : law.Covers node)
    (each : ∀ part ∈ arguments, law.Covers part) :
    law.Allows around (fun spelled => ∀ text ∈ spelled, (law.legible → Balanced text) ∧
      law.Settled node ∧ ∀ part ∈ arguments, law.Settled part) (builtinCall? node arguments) := by
  have present {text : String} {holds : String → Prop} (fact : holds text) :
      ∀ found ∈ some text, holds found := fun found same => Option.mem_some_iff.mp same ▸ fact
  rw [builtinCall?]
  split
  · exact allowed_pure (by simp)
  rename_i plain
  simp only [Bool.or_eq_true, bne_iff_ne, not_or, not_not] at plain
  split
  · rename_i object property found _
    refine allowed_bind (allowed_globalCallsOf object property.text) fun known global => ?_
    split
    · rw [methodCall?]
      split
      · rename_i empty
        rw [List.isEmpty_iff] at empty
        subst empty
        split
        · exact allowed_bind (covered.field found).top.expression fun _ inside => allowed_pure
            (present ⟨fun legible => balanced_methodCall_render ‹_› (inside.1 legible),
              settled_member plain.1 found inside.2, by simp⟩)
        · exact allowed_pure (by simp)
      · exact allowed_pure (by simp)
    · rename_i some
      obtain ⟨isName, listed⟩ := global (by simpa using some)
      exact allowed_bind (allowed_globalCall listed each) fun _ inside => allowed_pure
        (present ⟨inside.1, settled_member plain.1 found (settled_name isName), inside.2⟩)
  · exact allowed_pure (by simp)

theorem allowed_expressions (covered : ∀ part ∈ parts, law.Covers part) :
    law.VetsAll around parts (fun texts => ∀ text ∈ texts, Balanced text) (expressions parts) :=
  allowed_each fun part member => (covered part member).top.expression

theorem allowed_plainCall {callee : Part} (function : law.Covers callee)
    (each : ∀ part ∈ arguments, law.Covers part) :
    law.Makes around Balanced (law.Settled callee ∧ ∀ part ∈ arguments, law.Settled part)
      (plainCall node callee arguments) := by
  rw [plainCall]
  refine makes_bind (allowed_expressions each) fun texts balanced settled => ?_
  have listed (legible : law.legible) : Balanced (Text.joinWith ", " texts) :=
    balanced_joinWith (by decide) (balanced legible)
  dsimp only
  split
  · refine allowed_guard fun isName => ?_
    refine allowed_bind (allowed_nameValue callee) fun _ plain => makes_pure (fun legible => ?_)
      ⟨settled_name (by simpa using isName), settled⟩
    have front := (plain legible).balanced
    simp +decide [Haxe.Balanced, front.read_append, (listed legible).read_append]
  · refine makes_map function.top.expression (fun legible front => ?_) (⟨·, settled⟩)
    simp +decide [Haxe.Balanced, front.read_append, (listed legible).read_append]

theorem settled_arguments (isList : node.kind = "arguments")
    (settled : ∀ part ∈ node.named, law.Settled part) : law.Settled node :=
  settled_of_covered [.every] isList (by simp [grammar]) (.cons settled .nil)

variable (covered : law.Covers node)
include covered

theorem allowed_call (isCall : node.kind = "call_expression") :
    law.Vets around node Balanced (call node) := by
  rw [call]
  split
  · exact allowed_refusal
  rename_i callee foundCallee
  refine allowed_guard fun _ => ?_
  refine allowed_bind (allowed_callArguments node) fun arguments given => ?_
  have each : ∀ part ∈ arguments, law.Covers part := by
    rcases given with ⟨_, rfl⟩ | ⟨list, found, _, rfl⟩
    · simp
    · exact fun part member => (covered.field found).named member
  have whole (settled : law.Settled callee ∧ ∀ part ∈ arguments, law.Settled part) :
      law.Settled node := by
    refine settled_of_covered [.field "function", .field "arguments"] isCall
      (by simp [grammar]) (.cons (forall_of_eq_some foundCallee settled.1)
        (.cons (forall_of_imp fun part found => ?_) .nil))
    rcases given with ⟨missing, _⟩ | ⟨list, same, isList, rfl⟩
    · simp [missing] at found
    · obtain rfl := Option.some.inj (same.symm.trans found)
      exact settled_arguments isList settled.2
  refine allowed_bind (allowed_builtinCall? (covered.field foundCallee) each)
    fun spelled settled => ?_
  split
  · obtain ⟨text, settled⟩ := settled _ rfl
    exact makes_pure text (whole settled)
  · exact makes_imp (allowed_plainCall (covered.field foundCallee) each) whole

theorem allowed_constructedClass : law.Vets around node Balanced (constructedClass node) := by
  rw [constructedClass]
  refine allowed_view (fun agrees => ?_) fun view _ => ?_
  · simp only [agrees.isLocal]
  dsimp only
  split
  · split
    · rename_i isGlobal
      simp only [Bool.and_eq_true, beq_iff_eq] at isGlobal
      exact makes_pure (fun _ => balanced_constructorName? ‹_›) (settled_name isGlobal.1)
    · exact covered.top.expression
  · exact covered.top.expression

theorem allowed_construction (isCall : node.kind = "new_expression") :
    law.Vets around node Balanced (construction node) := by
  rw [construction]
  split
  · exact allowed_refusal
  rename_i constructor foundClass
  refine makes_bind (allowed_constructedClass (covered.field foundClass))
    fun type front settledClass => ?_
  refine allowed_view (fun agrees => ?_) fun view spelled => ?_
  · simp only [typeArguments_congr agrees covered.typed]
  have each : law.Makes around (fun texts => ∀ text ∈ texts, Balanced text)
      (∀ list, node.field? "arguments" = some list → ∀ part ∈ list.named, law.Settled part)
      (forEach (((node.field? "arguments").map (·.named)).getD []) constructorArgument) := by
    cases given : node.field? "arguments" with
    | none => exact makes_pure (by simp) (by simp)
    | some list =>
      simp only [Option.map_some, Option.getD_some, Option.some.injEq, forall_eq']
      refine allowed_each fun part member => ?_
      rw [constructorArgument]
      exact allowed_guard fun _ => ((covered.field given).named member).top.expression
  refine makes_map each (fun {arguments} legible texts => ?_) fun settled => ?_
  · have typed := balanced_typeArguments (spelled legible) (covered.sound legible) "type_arguments"
    have listed : Balanced (Text.joinWith ", " arguments) := balanced_joinWith (by decide) texts
    simp +decide [Haxe.Balanced, (front legible).read_append, typed.read_append, listed.read_append]
  refine settled_of_covered [.field "constructor", .listed "arguments" "arguments"] isCall
    (by simp [grammar]) (.cons (forall_of_eq_some foundClass settledClass)
      (.cons (forall_of_imp fun list found => ?_) .nil))
  obtain ⟨given, isList⟩ := Option.filter_eq_some_iff.mp found
  exact settled_arguments (eq_of_beq isList) (settled list given)

end Calls

section Literals

theorem throughout_castParts {holds : Part → Prop}
    (every : node.Throughout holds) (found : castParts node = (some expression, type)) :
    expression.Throughout holds ∧ ∀ part ∈ type, part.Throughout holds := by
  rw [castParts] at found
  split at found
  · obtain ⟨foundExpression, rfl⟩ := Prod.mk.inj found
    refine ⟨every.named (mem_of_getElem? foundExpression), fun part inside => ?_⟩
    obtain ⟨clause, foundClause, foundType⟩ := Option.bind_eq_some_iff.mp inside
    exact (every.named (mem_of_getElem? foundClause)).first foundType
  · obtain ⟨foundExpression, rfl⟩ := Prod.mk.inj found
    exact ⟨every.named (mem_of_getElem? foundExpression),
      fun part inside => every.named (mem_of_getElem? inside)⟩

variable (isCast : node.kind = "as_expression" ∨ node.kind = "type_assertion")
include isCast

theorem settled_cast
    (found : castParts node = (some expression, type)) (settled : law.Settled expression) :
    law.Settled node := by
  rw [castParts] at found
  rcases isCast with same | same
  · rw [if_neg (by simp [same])] at found
    exact settled_of_covered [.nth 0] same (by simp [grammar])
      (.cons (forall_of_eq_some (Prod.mk.inj found).1 settled) .nil)
  · rw [if_pos (by simp [same])] at found
    exact settled_of_covered [.nth 1] same (by simp [grammar])
      (.cons (forall_of_eq_some (Prod.mk.inj found).1 settled) .nil)

theorem allowed_castExpression
    (covered : law.Covers node) : law.Vets around node Balanced (castExpression node) := by
  rw [castExpression]
  split
  · exact allowed_refusal
  rename_i expression type found
  obtain ⟨inner, types⟩ := throughout_castParts covered found
  refine makes_bind inner.top.expression fun value first settled => ?_
  have whole : law.Settled node := settled_cast isCast found settled
  split
  · split
    · exact makes_pure first whole
    · refine allowed_view (fun agrees => ?_) fun view spelled =>
        makes_pure (fun legible => ?_) whole
      · rw [(types _ rfl).top.type _ _ agrees]
      · have second := ((types _ rfl).top.sound legible).type view (spelled legible)
        simp +decide [Haxe.Balanced, (first legible).read_append, second.read_append]
  · exact makes_pure first whole

omit isCast

theorem settled_of_flatten
    (settled : ∀ leaf ∈ node.flatten "sequence_expression", law.Settled leaf) :
    law.Settled node := by
  induction node using Tree.tree_induction with
  | node token value children children_settled =>
    rw [Tree.flatten] at settled
    split at settled
    · rename_i isSequence
      refine settled_of_covered [.every] (eq_of_beq isSequence) (by simp [grammar])
        (.cons (fun part member => ?_) .nil)
      obtain ⟨isPart, isNamed⟩ := mem_filter.mp member
      obtain ⟨inside, noComment⟩ := mem_filter.mp isPart
      refine children_settled part inside fun leaf below => settled leaf ?_
      exact Tree.mem_flattenAll_of_mem_flatten inside isNamed (by simpa using noComment) below
    · exact settled _ (mem_singleton_self _)

theorem allowed_objectKey (key : Part) : law.Vets around key Balanced (objectKey key) := by
  rw [objectKey]
  split
  iterate 2
    exact makes_pure (fun _ => balanced_keyText _)
      (settled_of_quiet (by rw [‹key.kind = _›]; decide))
  · exact makes_pure (fun _ => Haxe.balanced_quote _)
      (settled_of_quiet (by rw [‹key.kind = _›]; decide))
  all_goals exact allowed_refusal

theorem allowed_spreadOperand (isSpread : node.kind = "spread_element")
    (covered : law.Covers node) : law.Vets around node BalancedItem (spreadOperand node) := by
  rw [spreadOperand]
  split
  · rename_i operand found
    exact makes_map (covered.first found).top.expression (fun _ => id) fun settled =>
      settled_of_covered [.first] isSpread (by simp [grammar])
        (.cons (forall_of_eq_some found settled) .nil)
  · exact allowed_refusal

theorem settled_method (isMethod : node.kind = "method_definition")
    (unstarred : node.has "*" = false) (name : ∀ part ∈ Slot.memberName.pick node, law.Settled part)
    (settles : law.SettlesFunction node) : law.Settled node := by
  have row : slots "method_definition" = [.memberName, .parameters, .field "body"] :=
    slots_of_mem_specialGrammar (by simp [specialGrammar])
  refine fun _ => settles_of_parts ?_ (by simp [isMethod]) fun part member => ?_
  · simp [Tree.isUnlowerable, Tree.unlowerableKinds, isMethod, unstarred]
  · rw [part_callable (by simp [isMethod, callableKinds])]
    rw [loweredParts_eq (by simp [isMethod]), Tree.renderedParts, isMethod] at member
    split at member
    · have covered : Covered (fun part => law.Settles ⟨[], part⟩) node
          [.memberName, .parameters, .field "body"] :=
        .cons (fun part member => name part member _) settles
      exact covered.all part (row ▸ member)
    · simp at member

theorem allowed_objectMember (covered : law.Covers node) :
    law.Vets around node BalancedItem (objectMember node) := by
  have field {name value : String} (key : law.legible → Balanced name)
      (inside : law.legible → Balanced value) (legible : law.legible) :
      BalancedItem (.plain (name ++ ": " ++ value)) :=
    ((key legible).append (by decide)).append (inside legible)
  rw [objectMember]
  split
  · rename_i isPair
    split
    · rename_i key value foundKey foundValue
      refine makes_bind (allowed_objectKey key) fun name named settledKey => ?_
      exact makes_bind (covered.field foundValue).top.expression fun _ inside settled => makes_pure
        (field named inside)
          (settled_of_covered [.field "key", .field "value"] isPair (by simp [grammar])
          (.cons (forall_of_eq_some foundKey settledKey)
            (.cons (forall_of_eq_some foundValue settled) .nil)))
    · exact allowed_refusal
  · exact allowed_bind (allowed_nameValue node) fun _ plain => makes_pure
      (field (fun _ => balanced_keyText _) fun legible => (plain legible).balanced)
      (settled_of_quiet (by rw [‹node.kind = _›]; decide))
  · rename_i isMethod
    split
    · rename_i name foundName
      refine makes_bind (allowed_objectKey name) fun key named settledKey => ?_
      refine makes_bind (allowed_functionValue (by rw [isMethod]; decide) covered)
        fun _ inside function => makes_pure (field named inside) ?_
      exact settled_method isMethod function.1 (forall_of_filter foundName fun _ => settledKey)
        function.2
    · exact allowed_refusal
  · exact allowed_spreadOperand ‹_› covered
  · exact allowed_refusal

theorem allowed_arrayItems (isDue : Bool) (parts : List Part)
    (covered : ∀ part ∈ parts, law.Covers part) :
    law.VetsAll around parts (fun items => ∀ item ∈ items, BalancedItem item)
      (arrayItems isDue parts) := by
  induction parts generalizing isDue with
  | nil => exact makes_pure (by simp) (by simp)
  | cons part rest rest_allowed =>
    have others : ∀ part ∈ rest, law.Covers part :=
      fun part member => covered part (.tail _ member)
    have item : law.Vets around part BalancedItem (arrayItem part) := by
      rw [arrayItem]
      split
      · exact allowed_spreadOperand (eq_of_beq ‹_›) (covered part (.head _))
      · exact makes_map (covered part (.head _)).top.expression (fun _ => id) id
    rw [arrayItems]
    split
    · rename_i isBracket
      refine allowed_passing ?_ (rest_allowed isDue others)
      rcases Bool.or_eq_true _ _ ▸ isBracket with same | same
      · rw [eq_of_beq same]
        decide
      · rw [eq_of_beq same]
        decide
    · split
      · rename_i isComma
        refine allowed_guard fun _ => ?_
        refine allowed_passing ?_ (rest_allowed true others)
        rw [eq_of_beq isComma]
        decide
      · refine makes_bind item fun _ first settled => ?_
        exact makes_map (rest_allowed false others)
          (fun legible behind => forall_mem_cons.mpr ⟨first legible, behind⟩)
          fun settledRest => forall_mem_cons.mpr ⟨settled, settledRest⟩

theorem settled_literal (isLiteral : node.kind ∈ ["object", "array"])
    (settled : ∀ part ∈ node.named, law.Settled part) : law.Settled node := by
  have row : ∀ kind ∈ ["object", "array"], (kind, [.every]) ∈ grammar := by simp [grammar]
  exact settled_of_covered _ rfl (row _ isLiteral) (.cons settled .nil)

end Literals

section Rules

theorem allowed_expressionRules (covered : law.Covers node) :
    ∀ rule ∈ expressionRules, node.kind = rule.1 → law.Vets around node Balanced (rule.2 node) := by
  have leaf {text kind : String} (balanced : Balanced text) (quiet : kind ∈ quietKinds)
      (same : node.kind = kind) : law.Vets around node Balanced (pure text) :=
    makes_pure (fun _ => balanced) (settled_of_quiet (same ▸ quiet))
  have word {kind : String} (listed : kind ∈ spelledKinds ∧ Balanced kind ∧ kind ∈ quietKinds)
      (same : node.kind = kind) : law.Vets around node Balanced (itself node) :=
    makes_pure (fun legible => by
      rw [(covered.top.sound legible).legible.spelled (same ▸ listed.1), same]
      exact listed.2.1) (settled_of_quiet (same ▸ listed.2.2))
  have refused {kind detail : String} (_ : node.kind = kind) :
      law.Vets around node Balanced (refuse detail node) := allowed_refusal
  have function (isFunction : node.kind ∈ functionKinds) :
      law.Vets around node Balanced (functionValue node) :=
    makes_imp (allowed_functionValue (callable_of_function isFunction) covered)
      fun function => settled_function isFunction function.2
  simp only [expressionRules, forall_mem_cons]
  refine ⟨fun same => allowed_imp (allowed_nameValue node) fun _ plain =>
      ⟨fun legible => (plain legible).balanced, settled_name same⟩,
    leaf (by decide) (by decide), leaf (by decide) (by decide), word (by decide), word (by decide),
    word (by decide), word (by decide), allowed_number covered,
    leaf (Haxe.balanced_quote _) (by decide), allowed_template covered, allowed_member covered,
    allowed_subscript covered, allowed_call covered, allowed_construction covered,
    fun same => allowed_binary covered (by simp [same, operationKinds]),
    fun same => allowed_unary covered (by simp [same, prefixKinds]), allowed_update covered,
    fun same => allowed_assignment covered (by simp [same, operationKinds]),
    fun same => allowed_augmentedAssignment covered (by simp [same, operationKinds]) same,
    allowed_ternary covered,
    fun same => function (by simp [same, functionKinds]),
    fun same => function (by simp [same, functionKinds]),
    fun same => function (by simp [same, functionKinds]), ?_, ?_,
    fun same => allowed_castExpression (.inl same) covered,
    fun same => allowed_castExpression (.inr same) covered, ?_, ?_, ?_, ?_,
    refused, refused, refused, refused, refused, by simp⟩
  · exact fun same => makes_map
      (allowed_each fun _ member => allowed_objectMember (covered.named member))
      (fun _ each => balanced_objectText each) (settled_literal (by simp [same]))
  · exact fun same => makes_map (allowed_arrayItems true _ fun _ member =>
      covered.child (Tree.mem_children_of_mem_parts member)) (fun _ each => balanced_arrayText each)
        fun settled =>
          settled_literal (by simp [same]) fun _ member => settled _ (mem_filter.mp member).1
  · exact fun same => allowed_inner covered (by simp [same, grammar])
      fun _ inside => inside.top.expression
  · exact fun same => allowed_inner covered (by simp [same, grammar]) fun _ inside =>
      makes_map inside.top.expression (fun _ text => Haxe.balanced_parenthesize text) id
  · refine fun same => allowed_inner covered (by simp [same, grammar]) fun _ inside =>
      makes_map inside.top.expression (fun _ text => ?_) id
    split
    · exact text
    · exact Haxe.balanced_parenthesize text
  · refine fun _ => makes_map (allowed_expressions fun _ member => covered.flatten member)
      (fun {texts} _ each => ?_) settled_of_flatten
    have joined : Balanced (Text.joinWith "; " texts) := balanced_joinWith (by decide) each
    simp +decide [Haxe.Balanced, joined.read_append]

theorem allowed_renderExpression (covered : law.Covers node) :
    law.Vets around node Balanced (renderExpression node) := by
  rw [renderExpression]
  split
  · rename_i rule found
    exact allowed_expressionRules covered (node.kind, rule) (mem_of_lookup found) rfl
  · exact allowed_refusal

end Rules

end Haxify.Lower
