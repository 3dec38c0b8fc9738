import Haxify.Proofs.MirrorsOfFunctions

/-!
# Expressions of a copy

One lemma for each rule: where the rule gives a text for a node, it gives the same text for the
copy.
-/

namespace Haxify.Lower

open Lowering List
open TypeScript (Node Token Tree)
open TypeScript.Scope

variable {parts copies : List Part} {sort : String} {callee calleeCopy : Part}
variable {kinds : String × String}
variable {swap : Swap} {bound : Bool} {tree : Node} {part copy : Part}

section Operands

abbrev CodeCopied (swap : Swap) (bound : Bool) (part copy : Part) : Prop :=
  ∃ tree, Copied swap .code bound tree part copy

theorem CodeCopied.expression (copied : CodeCopied swap bound part copy) :
    Echoes swap bound part.value.expression copy.value.expression :=
  copied.choose_spec.expression

theorem mirrors_expressions (paired : Forall₂ (CodeCopied swap bound) parts copies) :
    Echoes swap bound (expressions parts) (expressions copies) :=
  mirrors_forEach_eq (chained_of_forall₂ paired fun _ _ copied => copied.expression)

theorem mirrors_required {slot : String} (twins : Twins swap .code bound tree part copy)
    (same : part.kind = sort) (row : Twins.CodeField sort slot .code) :
    Echoes swap bound (required part slot) (required copy slot) := by
  unfold required
  exact twins.eachCode same slot row mirrors_refusal fun copied => copied.expression

theorem mirrors_of_lookup_eq_none {alike : String → String → Prop} {before after : Bool}
    (unlisted : expressionRules.lookup tree.kind = none) (copy : Lowering String) :
    Mirrors swap before after alike (rendered tree).value.expression copy := by
  rw [value_rendered]
  change Mirrors swap before after alike (renderExpression (partOf _ _)) copy
  have kind : (partOf tree.token (tree.children.map rendered)).kind = tree.kind := rfl
  rw [renderExpression, kind, unlisted]
  exact mirrors_refusal

theorem Copied.assigned_expression (copied : Copied swap .assigned bound tree part copy) :
    Echoes swap bound part.value.expression copy.value.expression := by
  by_cases isTarget : part.kind ∈ targetKinds
  · have rows : ∀ kind ∈ targetKinds, expressionRules.lookup kind = none := by
      have none : ∀ kind ∈ targetKinds, (expressionRules.lookup kind).isNone := by decide
      exact fun kind member => Option.isNone_iff_eq_none.mp (none kind member)
    rw [copied.part_eq]
    exact mirrors_of_lookup_eq_none (rows _ (copied.kind_part ▸ isTarget)) _
  · exact (copied.target isTarget).expression

theorem mirrors_moduleMember? {node nodeCopy : Part}
    (copied : Copied swap .code bound tree part copy) (isName : part.kind = "identifier")
    (member : String) :
    Echoes swap bound (moduleMember? node part member) (moduleMember? nodeCopy copy member) := by
  have twins := copied.code isName (by decide)
  unfold moduleMember?
  refine mirrors_view fun first second views => ?_
  rw [twins.text (.inl isName)]
  cases found : first.moduleMember part.text member with
  | ok path =>
    rw [views.moduleMember_name twins.unused member found]
    exact mirrors_pure rfl
  | error detail => exact mirrors_refusal

end Operands

section Members

theorem mirrors_propertyName (property : Part) :
    Echoes swap bound (propertyName property) (propertyName property) := by
  unfold propertyName
  refine mirrors_guard fun _ => ?_
  exact mirrors_guard fun _ => mirrors_pure rfl

variable (copied : Copied swap .code bound tree part copy)
include copied

theorem mirrors_plainMember (property : Part) (isOptional : Bool) :
    Echoes swap bound (plainMember part property isOptional)
      (plainMember copy property isOptional) := by
  unfold plainMember
  refine mirrors_next (mirrors_propertyName property) fun name => ?_
  exact mirrors_map copied.expression

omit copied in
theorem mirrors_member (twins : Twins swap .code bound tree part copy)
    (same : part.kind = "member_expression") : Echoes swap bound (member part) (member copy) := by
  unfold member
  rw [twins.inert same "property" (by decide), twins.has same "optional_chain" (by decide)]
  refine twins.eachCode same "object" (by decide) mirrors_refusal fun copied => ?_
  cases part.field? "property" with
  | none => exact mirrors_refusal
  | some property =>
    dsimp only
    rw [copied.kind]
    split
    · rename_i isModule
      simp only [Bool.and_eq_true, beq_iff_eq] at isModule
      refine mirrors_next (mirrors_moduleMember? copied isModule.1 _) fun path => ?_
      cases path with
      | some path => exact mirrors_pure rfl
      | none => exact mirrors_plainMember copied property _
    · exact mirrors_plainMember copied property _

omit copied in
theorem mirrors_subscript (twins : Twins swap .code bound tree part copy)
    (same : part.kind = "subscript_expression") :
    Echoes swap bound (subscript part) (subscript copy) := by
  unfold subscript
  rw [twins.has same "optional_chain" (by decide)]
  refine mirrors_guard fun _ => ?_
  refine twins.eachCode same "object" (by decide) mirrors_refusal fun {_ object twin} copied => ?_
  refine twins.eachCode same "index" (by decide) mirrors_refusal
    fun {_ index other} indexCopied => ?_
  have plain : Echoes swap bound
      (do
        let target ← object.value.expression
        let position ← index.value.expression
        return target ++ "[" ++ position ++ "]")
      (do
        let target ← twin.value.expression
        let position ← other.value.expression
        return target ++ "[" ++ position ++ "]") := by
    refine mirrors_next copied.expression fun target => ?_
    exact mirrors_map indexCopied.expression
  dsimp only
  rw [copied.kind, indexCopied.kind]
  split
  · rename_i isModule
    simp only [Bool.and_eq_true, beq_iff_eq] at isModule
    rw [indexCopied.twins.sameText isModule.2 (by decide)]
    refine mirrors_next (mirrors_moduleMember? copied isModule.1 _) fun path => ?_
    cases path with
    | some path => exact mirrors_pure rfl
    | none => exact plain
  · exact plain

theorem mirrors_deletedKey : Echoes swap bound (deletedKey part) (deletedKey copy) := by
  unfold deletedKey
  rw [copied.kind]
  by_cases isMember : part.kind = "member_expression"
  · have twins := copied.code isMember (by decide)
    rw [twins.has isMember "optional_chain" (by decide), isMember,
      twins.inert isMember "property" (by decide)]
    split
    · cases part.field? "property" with
      | some property => exact mirrors_pure rfl
      | none => exact mirrors_refusal
    · exact mirrors_refusal
  · simp only [beq_eq_false_iff_ne.mpr isMember, Bool.false_and, Bool.false_eq_true, ↓reduceIte]
    split
    · rename_i isElement
      have twins := copied.code (eq_of_beq isElement) (by decide)
      refine twins.eachCode (eq_of_beq isElement) "index" (by decide) mirrors_refusal ?_
      exact fun inner => inner.expression
    · exact mirrors_refusal

theorem mirrors_deletion : Echoes swap bound (deletion part) (deletion copy) := by
  unfold deletion
  by_cases isTarget : part.kind ∈ ["member_expression", "subscript_expression"]
  · have rows : ∀ kind ∈ ["member_expression", "subscript_expression"],
        kind ≠ "function_declaration" ∧ Twins.CodeField kind "object" .code := by decide
    obtain ⟨other, row⟩ := rows _ isTarget
    refine (copied.code rfl other).eachCode rfl "object" row mirrors_refusal fun inner => ?_
    refine mirrors_next (mirrors_deletedKey copied) fun key => ?_
    exact mirrors_map inner.expression
  · have refused : deletedKey part = unsupported part "delete of a non-member" := by
      simp only [mem_cons, not_mem_nil, or_false, not_or] at isTarget
      simp [deletedKey, isTarget]
    rw [refused]
    cases part.field? "object" with
    | none => exact mirrors_refusal
    | some object => exact mirrors_refusal_bind

end Members

section Calls

variable {arguments : List Part}

theorem Copied.entries (copied : Copied swap .entries bound tree part copy) :
    Forall₂ (CodeCopied swap bound) part.named copy.named :=
  (copied.apart (by decide)).named children_entries

theorem forall₂_find? {held : Part → Part → Prop} (paired : Forall₂ held parts copies)
    (kinds : ∀ part copy, held part copy → copy.kind = part.kind)
    (absent : parts.find? (·.kind == sort) = none) : copies.find? (·.kind == sort) = none := by
  induction paired with
  | nil => rfl
  | @cons part copy parts copies head _ rest_none =>
    rw [find?_cons] at absent ⊢
    rw [kinds part copy head]
    cases here : part.kind == sort with
    | true =>
      rw [here] at absent
      cases absent
    | false =>
      rw [here] at absent
      exact rest_none absent

theorem mirrors_callArguments (twins : Twins swap .code bound tree part copy)
    (same : part.kind = "call_expression") :
    Mirrors swap bound bound (Forall₂ (CodeCopied swap bound))
      (callArguments part) (callArguments copy) := by
  have becomes : swap.Becomes .code bound tree "arguments" .entries bound :=
    twins.plain same (by decide)
  unfold callArguments
  refine twins.each becomes (mirrors_pure Forall₂.nil) fun _ copied => ?_
  dsimp only
  rw [copied.kind]
  split
  · refine mirrors_bind (mirrors_pure copied.entries) fun parts copies paired => ?_
    cases absent : parts.find? (·.kind == "spread_element") with
    | some spread => exact mirrors_refusal
    | none =>
      rw [forall₂_find? paired (fun _ _ copied => copied.choose_spec.kind) absent]
      exact mirrors_pure paired
  · exact mirrors_refusal_bind

theorem mirrors_plainCall {node : Node} (twins : Twins swap .code bound tree part copy)
    (same : part.kind = "call_expression") (copied : Copied swap .code bound node callee calleeCopy)
    (paired : Forall₂ (CodeCopied swap bound) arguments copies) :
    Echoes swap bound (plainCall part callee arguments) (plainCall copy calleeCopy copies) := by
  unfold plainCall
  refine mirrors_next (mirrors_expressions paired) fun texts => ?_
  dsimp only
  rw [twins.has same "optional_chain" (by decide), copied.kind]
  split
  · refine mirrors_guard fun isName => ?_
    have isName : callee.kind = "identifier" := by simpa using isName
    have inner := copied.code isName (by decide)
    exact mirrors_map (mirrors_nameValue inner.unused (inner.text (.inl isName)))
  · exact mirrors_map copied.expression

theorem mirrors_firstArgument (paired : Forall₂ (CodeCopied swap bound) arguments copies) :
    Echoes swap bound (firstArgument arguments) (firstArgument copies) := by
  cases paired with
  | nil => exact mirrors_pure rfl
  | cons head _ => exact head.expression

theorem Swap.globalCalls_eq (name method : String) :
    (globalCalls.filter fun call => call.object == swap.name bound name && call.method == method) =
      globalCalls.filter fun call => call.object == name && call.method == method := by
  refine filter_congr fun call member => ?_
  have listed : call.object ∈ "undefined" :: globalValues := by
    revert call
    decide
  rw [Bool.beq_comm, swap.name_beq listed, Bool.beq_comm]

variable (copied : Copied swap .code bound tree part copy)
include copied

theorem mirrors_globalCallsOf (method : String) :
    Echoes swap bound (globalCallsOf part method) (globalCallsOf copy method) := by
  unfold globalCallsOf
  refine mirrors_view fun first second views => ?_
  rw [copied.kind]
  by_cases isName : part.kind = "identifier"
  · rw [(copied.code isName (by decide)).text (.inl isName), views.isLocal_name,
      swap.globalCalls_eq]
    split
    all_goals exact mirrors_pure rfl
  · simp only [beq_eq_false_iff_ne.mpr isName, Bool.false_and, Bool.false_eq_true, ↓reduceIte]
    exact mirrors_pure rfl

variable (paired : Forall₂ (CodeCopied swap bound) arguments copies)
include paired

omit copied in
theorem mirrors_globalCall {object objectCopy : Part} (method : String) (known : List GlobalCall) :
    Echoes swap bound (globalCall callee object method known arguments)
      (globalCall calleeCopy objectCopy method known copies) := by
  unfold globalCall
  rw [← paired.length_eq]
  split
  · exact mirrors_map (mirrors_firstArgument paired)
  · exact mirrors_refusal

theorem mirrors_methodCall? (method : String) :
    Echoes swap bound (methodCall? part method arguments) (methodCall? copy method copies) := by
  have isEmpty : copies.isEmpty = arguments.isEmpty := by cases paired <;> rfl
  unfold methodCall?
  rw [isEmpty]
  split
  · cases methodCalls.lookup method with
    | some render => exact mirrors_map copied.expression
    | none => exact mirrors_pure rfl
  · exact mirrors_pure rfl

theorem mirrors_builtinCall? :
    Echoes swap bound (builtinCall? part arguments) (builtinCall? copy copies) := by
  unfold builtinCall?
  rw [copied.kind]
  by_cases isMember : part.kind = "member_expression"
  · have twins := copied.code isMember (by decide)
    rw [twins.has isMember "optional_chain" (by decide), isMember]
    split
    · exact mirrors_pure rfl
    rw [twins.inert isMember "property" (by decide)]
    refine twins.eachCode isMember "object" (by decide) (mirrors_pure rfl) fun inner => ?_
    cases part.field? "property" with
    | none => exact mirrors_pure rfl
    | some property =>
      refine mirrors_next (mirrors_globalCallsOf inner _) fun known => ?_
      split
      · exact mirrors_methodCall? inner paired _
      · exact mirrors_map (mirrors_globalCall paired _ _)
  · simp only [bne_iff_ne.mpr isMember, Bool.true_or, ↓reduceIte]
    exact mirrors_pure rfl

omit copied paired

theorem mirrors_call (twins : Twins swap .code bound tree part copy)
    (same : part.kind = "call_expression") : Echoes swap bound (call part) (call copy) := by
  unfold call
  refine twins.eachCode same "function" (by decide) mirrors_refusal fun copied => ?_
  dsimp only
  rw [copied.kind]
  refine mirrors_guard fun _ => ?_
  refine mirrors_bind (mirrors_callArguments twins same) fun arguments copies paired => ?_
  refine mirrors_next (mirrors_builtinCall? copied paired) fun spelled => ?_
  cases spelled with
  | some text => exact mirrors_pure rfl
  | none => exact mirrors_plainCall twins same copied paired

theorem Swap.constructorName?_eq (name : String) :
    constructorName? (swap.name bound name) = constructorName? name := by
  have known (name : String) : constructorName? name =
      if name == "Error" then some "js.lib.Error"
      else if name == "Promise" then some "js.lib.Promise" else none := by
    unfold constructorName?
    split
    · rfl
    · rfl
    rename_i noError noPromise
    simp only [beq_iff_eq]
    rw [if_neg noError, if_neg noPromise]
  rw [known, known, swap.name_beq (by decide), swap.name_beq (by decide)]

theorem mirrors_constructedClass (copied : Copied swap .code bound tree part copy) :
    Echoes swap bound (constructedClass part) (constructedClass copy) := by
  unfold constructedClass
  refine mirrors_view fun first second views => ?_
  rw [copied.kind]
  by_cases isName : part.kind = "identifier"
  · rw [(copied.code isName (by decide)).text (.inl isName), views.isLocal_name,
      swap.constructorName?_eq]
    cases constructorName? part.text with
    | none => exact copied.expression
    | some builtin =>
      dsimp only
      split
      · exact mirrors_pure rfl
      · exact copied.expression
  · simp only [beq_eq_false_iff_ne.mpr isName, Bool.false_and, Bool.false_eq_true, ↓reduceIte]
    cases constructorName? part.text <;> cases constructorName? copy.text <;>
      exact copied.expression

theorem mirrors_constructorArgument (copied : CodeCopied swap bound part copy) :
    Echoes swap bound (constructorArgument part) (constructorArgument copy) := by
  rw [constructorArgument, constructorArgument, copied.choose_spec.kind]
  exact mirrors_guard fun _ => copied.expression

theorem mirrors_construction (twins : Twins swap .code bound tree part copy)
    (same : part.kind = "new_expression") :
    Echoes swap bound (construction part) (construction copy) := by
  have becomes : swap.Becomes .code bound tree "arguments" .entries bound :=
    twins.plain same (by decide)
  have paired : Forall₂ (CodeCopied swap bound)
      (((part.field? "arguments").map (·.named)).getD [])
      (((copy.field? "arguments").map (·.named)).getD []) :=
    twins.each becomes .nil fun _ copied => copied.entries
  unfold construction
  refine twins.eachCode same "constructor" (by decide) mirrors_refusal fun copied => ?_
  refine mirrors_next (mirrors_constructedClass copied) fun type => ?_
  refine mirrors_view fun first second views => ?_
  rw [twins.inert same "type_arguments" (by decide), twins.source.field?_eq "type_arguments",
    typeArguments_congr views (twins.typed)]
  refine mirrors_map (mirrors_forEach_eq ?_)
  exact chained_of_forall₂ paired fun _ _ argument => mirrors_constructorArgument argument

end Calls

section Operators

variable (twins : Twins swap .code bound tree part copy)
include twins

theorem mirrors_binary (same : part.kind = "binary_expression") :
    Echoes swap bound (binary part) (binary copy) := by
  unfold binary
  rw [twins.inert same "operator" (by decide)]
  refine twins.eachCode same "left" (by decide) mirrors_refusal fun leftCopied => ?_
  cases part.field? "operator" with
  | none => exact mirrors_refusal
  | some operator =>
    refine twins.eachCode same "right" (by decide) mirrors_refusal fun rightCopied => ?_
    dsimp only
    rw [leftCopied.kind]
    refine mirrors_guard fun _ => ?_
    refine mirrors_next leftCopied.expression fun first => ?_
    refine mirrors_next rightCopied.expression fun second => ?_
    cases binaryText? operator.text first second with
    | some text => exact mirrors_pure rfl
    | none => exact mirrors_refusal

theorem mirrors_unary (same : part.kind = "unary_expression") :
    Echoes swap bound (unary part) (unary copy) := by
  unfold unary
  rw [twins.inert same "operator" (by decide)]
  cases part.field? "operator" with
  | none => exact mirrors_refusal
  | some operator =>
    refine twins.eachCode same "argument" (by decide) mirrors_refusal fun copied => ?_
    dsimp only
    split
    · exact mirrors_map copied.expression
    split
    · exact mirrors_deletion copied
    · exact mirrors_refusal

theorem mirrors_update (same : part.kind = "update_expression") :
    Echoes swap bound (update part) (update copy) := by
  unfold update
  rw [twins.inert same "operator" (by decide)]
  cases part.field? "operator" with
  | none => exact mirrors_refusal
  | some operator =>
    refine twins.eachCode same "argument" (by decide) mirrors_refusal
      fun {_ argument twin} copied => ?_
    have start : twin.token.start = argument.token.start := by
      rw [copied.copy_eq, copied.part_eq, token_rendered, token_rendered, enter, token_resolve]
      rfl
    dsimp only
    rw [start]
    refine mirrors_next copied.expression fun target => ?_
    split
    all_goals exact mirrors_pure rfl

omit twins in
theorem mirrors_assignedPattern {other : Node} {source sourceCopy : Part}
    (copied : Copied swap BindingMode.assignment.place bound tree part copy)
    (value : Copied swap .code bound other source sourceCopy) :
    Echoes swap bound (destructure .assignment part source)
      (destructure .assignment copy sourceCopy) := by
  have apart := mirrors_destructure copied value
  rw [Rebinds, or_binds_assignment] at apart
  exact apart

theorem mirrors_assignment (same : part.kind = "assignment_expression") :
    Echoes swap bound (assignment part) (assignment copy) := by
  have becomes : swap.Becomes .code bound tree "left" .assigned bound :=
    twins.plain same (by decide)
  unfold assignment
  refine twins.each becomes mirrors_refusal fun _ leftCopied => ?_
  refine twins.eachCode same "right" (by decide) mirrors_refusal fun rightCopied => ?_
  dsimp only
  rw [isPattern_congr leftCopied.kind]
  split
  · exact mirrors_map (mirrors_assignedPattern leftCopied rightCopied)
  · refine mirrors_next leftCopied.assigned_expression fun target => ?_
    exact mirrors_map rightCopied.expression

theorem mirrors_augmentedAssignment (same : part.kind = "augmented_assignment_expression") :
    Echoes swap bound (augmentedAssignment part) (augmentedAssignment copy) := by
  unfold augmentedAssignment
  rw [twins.inert same "operator" (by decide)]
  refine twins.eachCode same "left" (by decide) mirrors_refusal fun leftCopied => ?_
  cases part.field? "operator" with
  | none => exact mirrors_refusal
  | some operator =>
    refine twins.eachCode same "right" (by decide) mirrors_refusal fun rightCopied => ?_
    dsimp only
    rw [leftCopied.kind]
    refine mirrors_next leftCopied.expression fun target => ?_
    refine mirrors_next rightCopied.expression fun value => ?_
    cases expandedAssignment? operator.text target value with
    | none => exact mirrors_pure rfl
    | some expanded => exact mirrors_guard fun _ => mirrors_pure rfl

theorem mirrors_ternary (same : part.kind = "ternary_expression") :
    Echoes swap bound (ternary part) (ternary copy) := by
  refine mirrors_next (mirrors_required twins same (by decide)) fun condition => ?_
  refine mirrors_next (mirrors_required twins same (by decide)) fun consequence => ?_
  exact mirrors_map (mirrors_required twins same (by decide))

end Operators

section Wrappers

theorem Shows.innerNode? (shown : Shows tree part) :
    innerNode? part = (innerNode? tree).map rendered := by
  have inner : (part.named.find? fun child =>
        !Text.endsIn child.kind "type" && child.kind != "type_arguments") =
      (tree.named.find? fun child =>
        !Text.endsIn child.kind "type" && child.kind != "type_arguments").map rendered := by
    rw [shown.named, find?_map]
    congr 2
    funext child
    rw [Function.comp_apply, kind_rendered child]
  rw [TypeScript.Scope.innerNode?, inner, shown.field?, TypeScript.Scope.innerNode?]
  cases tree.field? "expression" <;> rfl

theorem innerExpression_of_some {inner : Part} (found : innerNode? part = some inner) :
    innerExpression part = pure inner := by
  rw [TypeScript.Scope.innerNode?] at found
  simp only [innerExpression, found]

theorem innerExpression_of_none (absent : innerNode? part = none) :
    innerExpression part = unsupported part "empty expression" := by
  rw [TypeScript.Scope.innerNode?] at absent
  simp only [innerExpression, absent]

variable (twins : Twins swap .code bound tree part copy)
include twins

theorem mirrors_innerExpression (isWrapper : part.kind ∈ transparentKinds) :
    Mirrors swap bound bound (CodeCopied swap bound) (innerExpression part)
      (innerExpression copy) := by
  have part_inner := twins.source.innerNode?
  have copy_inner := twins.copied.innerNode?
  rw [innerNode?_resolve (by rw [← twins.source.kind]; exact isWrapper)] at copy_inner
  cases found : innerNode? tree with
  | none =>
    rw [found] at part_inner
    rw [innerExpression_of_none part_inner]
    exact mirrors_refusal
  | some inner =>
    rw [found] at part_inner copy_inner
    rw [innerExpression_of_some part_inner, innerExpression_of_some copy_inner]
    have member : inner ∈ tree.children := by
      rcases Option.or_eq_some_iff.mp found with fills | ⟨_, first⟩
      · exact Tree.mem_children_of_field? fills
      · exact Tree.mem_children_of_mem_named (mem_of_find?_eq_some first)
    exact mirrors_pure ⟨inner, twins.parts inner member, rfl, rfl⟩

theorem mirrors_parenthesized (same : part.kind = "parenthesized_expression") :
    Echoes swap bound (parenthesized part) (parenthesized copy) := by
  unfold parenthesized
  refine mirrors_bind (mirrors_innerExpression twins (by rw [same]; decide))
    fun inner twin copied => ?_
  rw [copied.choose_spec.kind]
  exact mirrors_map copied.expression

variable (isCast : part.kind ∈ ["as_expression", "type_assertion"])
include isCast

theorem Twins.operand :
    part.named[operandIndex part.kind]? = none ∧ copy.named[operandIndex part.kind]? = none ∨
      ∃ inner twin, part.named[operandIndex part.kind]? = some inner ∧
        copy.named[operandIndex part.kind]? = some twin ∧ CodeCopied swap bound inner twin := by
  rw [twins.source.named, twins.copied.named, getElem?_map, getElem?_map]
  rw [twins.source.kind] at isCast ⊢
  rw [getElem?_named_cast isCast, beq_self_eq_true]
  cases found : tree.named[operandIndex tree.kind]? with
  | none => exact .inl ⟨rfl, rfl⟩
  | some node =>
    have member := Tree.mem_children_of_mem_named (mem_of_getElem? found)
    exact .inr ⟨_, _, rfl, rfl, node, twins.parts node member, rfl, rfl⟩

theorem Twins.notOperand {index : Nat} (other : index ≠ operandIndex part.kind) :
    copy.named[index]? = part.named[index]? := by
  rw [twins.source.named, twins.copied.named, getElem?_map, getElem?_map]
  rw [twins.source.kind] at isCast other
  rw [getElem?_named_cast isCast, beq_eq_false_iff_ne.mpr other]
  cases tree.named[index]? <;> simp

omit twins isCast in
theorem castExpression_eq (part : Part) :
    castExpression part =
      match part.named[operandIndex part.kind]? with
      | none => unsupported part "empty cast"
      | some expression => do
        let value ← expression.value.expression
        match (castParts part).2 with
        | some type =>
          if part.has "const" then return value
          else return "(cast " ++ value ++ " : " ++ type.value.type (← view) ++ ")"
        | none => return value := by
  have operand : (castParts part).1 = part.named[operandIndex part.kind]? := by
    rw [castParts, operandIndex]
    split <;> rfl
  rw [castExpression, ← operand]
  rcases castParts part with ⟨_ | _, _⟩ <;> rfl

theorem Twins.castType :
    (castParts copy).2 = (castParts part).2 ∧ ∀ type ∈ (castParts part).2,
      type.Every (Rendering.TypedBy (swap.Views bound)) := by
  have typed {index : Nat} {child : Part} (found : part.named[index]? = some child) :
      child.Every (Rendering.TypedBy (swap.Views bound)) := by
    rw [twins.source.named, ← named_rendered tree] at found
    exact (twins.typed).named (mem_of_getElem? found)
  rw [castParts, castParts, twins.kind]
  split
  · rename_i isAssertion
    have other : 0 ≠ operandIndex part.kind := by
      rw [operandIndex, if_pos isAssertion]
      decide
    rw [twins.notOperand isCast other]
    refine ⟨rfl, fun type found => ?_⟩
    obtain ⟨clause, foundClause, foundType⟩ := Option.bind_eq_some_iff.mp found
    exact (typed foundClause).first foundType
  · rename_i noAssertion
    have other : 1 ≠ operandIndex part.kind := by
      rw [operandIndex, if_neg noAssertion]
      decide
    exact ⟨twins.notOperand isCast other, fun type found => typed found⟩

theorem mirrors_castExpression : Echoes swap bound (castExpression part) (castExpression copy) := by
  have rows : ∀ kind ∈ ["as_expression", "type_assertion"],
      kind ∉ ["object", "object_pattern"] := by
    decide
  obtain ⟨sameType, typed⟩ := twins.castType isCast
  rw [castExpression_eq part, castExpression_eq copy, twins.kind, sameType,
    twins.has rfl "const" (rows _ isCast)]
  rcases twins.operand isCast with ⟨absent, _⟩ | ⟨inner, twin, found, foundTwin, copied⟩
  · rw [absent]
    exact mirrors_refusal
  · rw [found, foundTwin]
    refine mirrors_next copied.expression fun value => ?_
    cases annotated : (castParts part).2 with
    | none => exact mirrors_pure rfl
    | some type =>
      dsimp only
      split
      · exact mirrors_pure rfl
      · refine mirrors_view fun first second views => mirrors_pure ?_
        rw [(typed type annotated).top first second views]

omit isCast

omit twins in
theorem Shows.flatten {nested : String} (shown : Shows tree part) (isNested : tree.kind = nested) :
    part.flatten nested = (tree.flatten nested).map rendered := by
  have leaves : (rendered tree).flatten nested = (tree.flatten nested).map rendered :=
    Tree.flatten_annotate rendering nested tree
  rw [← leaves, Tree.flatten_eq, shown.kind, shown.children, Tree.flatten_eq,
    kind_rendered tree, children_rendered tree, isNested]
  simp

theorem mirrors_sequence (same : part.kind = "sequence_expression") :
    Echoes swap bound (sequence part) (sequence copy) := by
  have isSequence : tree.kind = "sequence_expression" := by rw [← twins.source.kind, same]
  have paired : Forall₂ (CodeCopied swap bound)
      (part.flatten "sequence_expression") (copy.flatten "sequence_expression") := by
    rw [twins.source.flatten isSequence,
      twins.copied.flatten (by rw [kind_resolve]; exact isSequence),
        ← enter_of_kind_ne (by rw [isSequence]; decide), flatten_enter]
    refine Twins.paired fun leaf member => ?_
    rw [Tree.flatten_eq, isSequence] at member
    obtain ⟨child, inside, below⟩ := Tree.mem_flatten_of_mem_flattenAll member
    exact (twins.parts child inside).flatten below
  exact mirrors_map (mirrors_expressions paired)

end Wrappers

section Templates

/-- A piece of a template and its copy: the same text, or a substitution and its copy. -/
inductive PieceCopied (swap : Swap) (bound : Bool) :
    TemplatePiece → TemplatePiece → Prop where
  | chunk (text : String) : PieceCopied swap bound (.chunk text) (.chunk text)
  | substitution {part copy : Part} (copied : CodeCopied swap bound part copy)
      (isSubstitution : part.kind = "template_substitution") :
      PieceCopied swap bound (.substitution part) (.substitution copy)

theorem forall₂_templatePieces (token : copy.token = part.token)
    (paired : Forall₂ (CodeCopied swap bound) parts copies) (start stop : Nat) :
    Forall₂ (PieceCopied swap bound) (templatePieces part start stop parts)
      (templatePieces copy start stop copies) := by
  have chunks (start stop : Nat) : Forall₂ (PieceCopied swap bound)
      (templateChunk part start stop) (templateChunk copy start stop) := by
    have text : copy.text = part.text := congrArg Token.text token
    rw [templateChunk, templateChunk, token, text]
    split
    · exact .nil
    · exact .cons (.chunk _) .nil
  induction paired generalizing start with
  | nil => exact chunks start stop
  | @cons child twin parts copies head _ rest_paired =>
    rw [templatePieces, templatePieces, head.choose_spec.kind]
    split
    · rename_i isSubstitution
      have isSubstitution := eq_of_beq isSubstitution
      have same : twin.token = child.token :=
        head.choose_spec.twins.token isSubstitution (by decide)
      rw [same]
      refine rel_append (chunks _ _) ?_
      exact .cons (.substitution head isSubstitution) (rest_paired _)
    · exact rest_paired start

theorem mirrors_templateOperand {piece twin : TemplatePiece}
    (copied : PieceCopied swap bound piece twin) :
    Echoes swap bound (templateOperand piece) (templateOperand twin) := by
  cases copied with
  | chunk text => exact mirrors_pure rfl
  | @substitution part copy copied isSubstitution =>
    have twins := copied.choose_spec.code isSubstitution (by decide)
    unfold templateOperand
    dsimp only
    refine twins.eachFirst (twins.children isSubstitution (by decide)) mirrors_refusal ?_
    exact fun _ inner => inner.expression

theorem mirrors_template (twins : Twins swap .code bound tree part copy)
    (same : part.kind = "template_string") : Echoes swap bound (template part) (template copy) := by
  have token := twins.token same (by decide)
  have paired := twins.named (twins.children same (by decide))
  unfold template
  rw [token]
  refine mirrors_map (mirrors_forEach_eq ?_)
  exact chained_of_forall₂ (forall₂_templatePieces token paired _ _)
    fun _ _ copied => mirrors_templateOperand copied

end Templates

section Literals

theorem mirrors_objectKey (key : Part) : Echoes swap bound (objectKey key) (objectKey key) := by
  unfold objectKey
  split
  iterate 3 exact mirrors_pure rfl
  all_goals exact mirrors_refusal

theorem mirrors_spreadOperand (copied : Copied swap .code bound tree part copy)
    (isSpread : part.kind = "spread_element") :
    Echoes swap bound (spreadOperand part) (spreadOperand copy) := by
  have twins := copied.code isSpread (by decide)
  unfold spreadOperand
  refine twins.eachFirst (twins.children isSpread (by decide)) mirrors_refusal fun _ inner => ?_
  exact mirrors_map inner.expression

theorem mirrors_arrayItem (copied : Copied swap .code bound tree part copy) :
    Echoes swap bound (arrayItem part) (arrayItem copy) := by
  rw [arrayItem, arrayItem, copied.kind]
  split
  · exact mirrors_spreadOperand copied (eq_of_beq ‹_›)
  · exact mirrors_map copied.expression

theorem mirrors_arrayItems (isDue : Bool) (paired : Forall₂ (CodeCopied swap bound) parts copies) :
    Echoes swap bound (arrayItems isDue parts) (arrayItems isDue copies) := by
  induction paired generalizing isDue with
  | nil => exact mirrors_pure rfl
  | @cons child twin parts copies head _ rest_mirrors =>
    obtain ⟨_, copied⟩ := head
    rw [arrayItems, arrayItems, copied.kind]
    split
    · exact rest_mirrors isDue
    split
    · exact mirrors_guard fun _ => rest_mirrors true
    · refine mirrors_next (mirrors_arrayItem copied) fun item => ?_
      exact mirrors_map (rest_mirrors false)

theorem mirrors_array (twins : Twins swap .code bound tree part copy) (same : part.kind = "array") :
    Echoes swap bound (array part) (array copy) :=
  mirrors_map (mirrors_arrayItems true (twins.pairedParts (twins.children same (by decide))))

theorem expansion?_object_eq_some {name : String}
    (short : expansion? name .code "object" tree = some kinds) :
    tree.kind = "shorthand_property_identifier" ∧ tree.text = name ∧
      kinds = ("pair", "identifier") := by
  unfold expansion? at short
  grind

theorem mirrors_objectMember_of_copied (copied : Copied swap .code bound tree part copy)
    (plain : expansion? swap.old .code "object" tree = none ∨ bound = true) :
    Echoes swap bound (objectMember part) (objectMember copy) := by
  unfold objectMember
  rw [copied.kind]
  split
  · rename_i isPair
    have twins := copied.code isPair (by decide)
    rw [twins.inert isPair "key" (by decide)]
    cases part.field? "key" with
    | none => exact mirrors_refusal
    | some key =>
      refine twins.eachCode isPair "value" (by decide) mirrors_refusal fun inner => ?_
      refine mirrors_next (mirrors_objectKey key) fun name => ?_
      exact mirrors_map inner.expression
  · rename_i isShort
    have twins := copied.code isShort (by decide)
    have kept : swap.name bound part.text = part.text := by
      refine Rename.name_of_ne (plain.imp_left fun short same => ?_)
      rw [twins.source.kind] at isShort
      rw [twins.source.text] at same
      simp [expansion?, isShort, same] at short
    have text := twins.text (.inr isShort)
    rw [text, kept]
    exact mirrors_map (mirrors_nameValue twins.unused text)
  · rename_i isMethod
    have twins := copied.code isMethod (by decide)
    rw [twins.inert isMethod "name" (by decide)]
    cases part.field? "name" with
    | none => exact mirrors_refusal
    | some name =>
      refine mirrors_next (mirrors_objectKey name) fun key => ?_
      exact mirrors_map (mirrors_functionValue twins (by rw [isMethod]; decide))
  · exact mirrors_spreadOperand copied ‹_›
  · exact mirrors_refusal

theorem mirrors_objectMember_of_expansion (reflected : Reflected swap tree)
    (short : expansion? swap.old .code "object" tree = some kinds) :
    Mirrors swap false false Eq (objectMember (rendered tree))
      (objectMember (rendered (expanded swap.old kinds.1 kinds.2 tree
        (enter swap.old swap.new .code false tree)))) := by
  obtain ⟨isShort, isOld, rfl⟩ := expansion?_object_eq_some short
  have copied : Copied swap .code false tree (rendered tree)
      (rendered (enter swap.old swap.new .code false tree)) := ⟨reflected, rfl, rfl⟩
  have kind : (rendered tree).kind = "shorthand_property_identifier" := by
    rw [copied.kind_part, isShort]
  have twins := copied.code kind (by decide)
  obtain ⟨twinKind, ⟨key, foundKey, keyKind, keyText⟩, foundValue⟩ :=
    fields_expanded swap.old "pair" "identifier" tree (enter swap.old swap.new .code false tree)
  have text : (rendered tree).text = swap.old := by rw [text_rendered, isOld]
  simp only [objectMember, kind, twinKind, foundKey, foundValue, objectKey, keyKind, keyText, text,
    pure_bind]
  rw [expression_of_name rfl]
  refine mirrors_map (mirrors_nameValue twins.unused ?_)
  rw [← twins.text (.inr kind), text_rendered]
  rfl

theorem mirrors_objectMember (reflected : Reflected swap tree) :
    Echoes swap bound (objectMember (rendered tree))
      (objectMember (rendered (placed swap.old swap.new .code "object" .code bound tree))) := by
  have copied : Copied swap .code bound tree (rendered tree)
      (rendered (enter swap.old swap.new .code bound tree)) := ⟨reflected, rfl, rfl⟩
  rw [placed, spelledOut]
  cases short : expansion? swap.old .code "object" tree with
  | none => exact mirrors_objectMember_of_copied copied (.inl short)
  | some kinds =>
    cases bound with
    | true => exact mirrors_objectMember_of_copied copied (.inr rfl)
    | false =>
      have quiet : enters swap.old .code tree = false := by
        simp [enters, declaresItself, (expansion?_object_eq_some short).1]
      dsimp only
      rw [quiet]
      exact mirrors_objectMember_of_expansion reflected short

theorem mirrors_object (twins : Twins swap .code bound tree part copy)
    (same : part.kind = "object") : Echoes swap bound (object part) (object copy) := by
  unfold object
  rw [twins.source.named, twins.copied.named, named_object (by rw [← twins.source.kind, same])]
  refine mirrors_map (mirrors_forEach_eq (chained_map fun node member => ?_))
  exact mirrors_objectMember (twins.parts node (Tree.mem_children_of_mem_named member))

end Literals

section Rules

variable (twins : Twins swap .code bound tree part copy)
include twins

theorem mirrors_number (same : part.kind = "number") :
    Echoes swap bound (number part) (number copy) := by
  unfold number
  rw [twins.sameText same (by decide)]
  split
  · exact mirrors_pure rfl
  · exact mirrors_refusal

theorem mirrors_string (same : part.kind = "string") :
    Echoes swap bound
      (return Haxe.quote (TypeScript.decodeLiteral part.text) : Lowering String)
      (return Haxe.quote (TypeScript.decodeLiteral copy.text) : Lowering String) := by
  rw [twins.sameText same (by decide)]
  exact mirrors_pure rfl

theorem mirrors_identifier (same : part.kind = "identifier") :
    Echoes swap bound (nameValue part) (nameValue copy) :=
  mirrors_nameValue twins.unused (twins.text (.inl same))

theorem mirrors_expressionRules :
    ∀ rule ∈ expressionRules, part.kind = rule.1 →
      Echoes swap bound (rule.2 part) (rule.2 copy) := by
  have constant {kind text : String} (_ : part.kind = kind) : Echoes swap bound
      (return text : Lowering String) (return text : Lowering String) := mirrors_pure rfl
  have word {kind : String} (other : kind ∉ namingKinds) (same : part.kind = kind) :
      Echoes swap bound (itself part) (itself copy) := mirrors_pure (twins.sameText same other).symm
  have refused {kind detail : String} (_ : part.kind = kind) : Echoes swap bound
      (refuse detail part) (refuse detail copy) := mirrors_refusal
  have wrapped (same : part.kind ∈ transparentKinds) : Echoes swap bound
      (innerExpression part >>= fun inner => inner.value.expression)
      (innerExpression copy >>= fun inner => inner.value.expression) :=
    mirrors_bind (mirrors_innerExpression twins same) fun _ _ copied => copied.expression
  simp only [expressionRules, forall_mem_cons]
  refine ⟨mirrors_identifier twins, constant, constant, word (by decide), word (by decide),
    word (by decide), word (by decide), mirrors_number twins, mirrors_string twins,
    mirrors_template twins, mirrors_member twins, mirrors_subscript twins, mirrors_call twins,
    mirrors_construction twins, mirrors_binary twins, mirrors_unary twins, mirrors_update twins,
    mirrors_assignment twins, mirrors_augmentedAssignment twins, mirrors_ternary twins,
    fun same => mirrors_functionValue twins (by rw [same]; decide),
    fun same => mirrors_functionValue twins (by rw [same]; decide),
    fun same => mirrors_functionValue twins (by rw [same]; decide),
    mirrors_object twins, mirrors_array twins,
    fun same => mirrors_castExpression twins (by rw [same]; decide),
    fun same => mirrors_castExpression twins (by rw [same]; decide),
    fun same => wrapped (by rw [same]; decide), fun same => ?_, mirrors_parenthesized twins,
    mirrors_sequence twins, refused, refused, refused, refused, refused, by simp⟩
  refine mirrors_bind (mirrors_innerExpression twins (by rw [same]; decide)) fun _ _ copied => ?_
  exact mirrors_map copied.expression

theorem mirrors_renderExpression :
    Echoes swap bound (renderExpression part) (renderExpression copy) := by
  rw [renderExpression, renderExpression, twins.kind]
  split
  · rename_i rule found
    exact mirrors_expressionRules twins (part.kind, rule) (mem_of_lookup found) rfl
  · exact mirrors_refusal

end Rules

end Haxify.Lower
