import Haxify.Proofs.MirrorsOfExpressions
import Haxify.Proofs.MirrorsOfSwitches

/-!
# Statements of a copy

One lemma for each rule. A declaration binds the old name for what stands behind it; every other
statement leaves the names as they were. Main statement: every tree that the renaming can pass
over is mirrored.
-/

namespace Haxify.Lower

open Lowering List
open TypeScript (Node Tree)
open TypeScript.Scope

variable {field sort : String} {inner : Place} {twin : Part}
variable {swap : Swap} {bound inside : Bool} {tree : Node} {part copy : Part}

section Bodies

theorem mirrors_blockStatements (twins : Twins swap .code bound tree part copy)
    (isBlock : part.kind = "statement_block") :
    Echoes swap bound (blockStatements part) (blockStatements copy) :=
  mirrors_withScope (mirrors_statements (Sequenced.of_block twins isBlock))

theorem mirrors_bodyOf (copied : Copied swap .code bound tree part copy) :
    Echoes swap bound (bodyOf (some part)) (bodyOf (some copy)) := by
  rw [bodyOf, bodyOf, copied.kind]
  split
  · rename_i isBlock
    have isBlock : part.kind = "statement_block" := eq_of_beq isBlock
    exact mirrors_blockStatements (copied.code isBlock (by decide)) isBlock
  · exact mirrors_withScope copied.statement

theorem mirrors_bodyField {place : Place} (twins : Twins swap place bound tree part copy)
    (becomes : swap.Becomes place bound tree field .code inside) :
    Mirrors swap inside inside Eq (bodyOf (part.field? field)) (bodyOf (copy.field? field)) :=
  twins.each becomes (mirrors_pure rfl) fun _ copied => mirrors_bodyOf copied

variable (twins : Twins swap .code bound tree part copy)
include twins

theorem mirrors_condition (same : part.kind = sort) (row : Twins.CodeField sort "condition" .code) :
    Echoes swap bound (condition part) (condition copy) := by
  unfold condition
  refine twins.eachCode same "condition" row mirrors_refusal fun copied => ?_
  exact mirrors_map copied.expression

omit twins in
theorem Copied.patternAssigned? (copied : Copied swap .code bound tree part copy) :
    patternAssigned? part = none ∧ patternAssigned? copy = none ∨
      ∃ left right leftTwin rightTwin pattern source,
        patternAssigned? part = some (left, right) ∧
        patternAssigned? copy = some (leftTwin, rightTwin) ∧
        Copied swap BindingMode.assignment.place bound pattern left leftTwin ∧
        Copied swap .code bound source right rightTwin := by
  rw [Lower.patternAssigned?, Lower.patternAssigned?, copied.kind]
  by_cases isAssignment : part.kind = "assignment_expression"
  · have twins := copied.code isAssignment (by decide)
    have target : swap.Becomes .code bound tree "left" .assigned bound :=
      twins.plain isAssignment (by decide)
    simp only [isAssignment, beq_self_eq_true, ↓reduceIte]
    refine twins.each target (.inl ⟨rfl, rfl⟩) fun _ leftCopied => ?_
    refine twins.eachCode isAssignment "right" (by decide) (.inl ⟨rfl, rfl⟩) fun rightCopied => ?_
    dsimp only
    rw [isPattern_congr leftCopied.kind]
    split
    · exact .inr ⟨_, _, _, _, _, _, rfl, rfl, leftCopied, rightCopied⟩
    · exact .inl ⟨rfl, rfl⟩
  · simp only [beq_eq_false_iff_ne.mpr isAssignment, Bool.false_eq_true, ↓reduceIte]
    exact .inl ⟨trivial, trivial⟩

omit twins in
theorem mirrors_expressionLine (copied : Copied swap .code bound tree part copy) :
    Echoes swap bound (expressionLine part) (expressionLine copy) := by
  unfold expressionLine
  rcases copied.patternAssigned? with
    ⟨plain, plainCopy⟩ | ⟨_, _, _, _, _, _, takes, takesCopy, pattern, source⟩
  · rw [plain, plainCopy]
    exact mirrors_map copied.expression
  · rw [takes, takesCopy]
    exact mirrors_map (mirrors_assignedPattern pattern source)

theorem mirrors_expressionStatement (same : part.kind = "expression_statement") :
    Echoes swap bound (expressionStatement part) (expressionStatement copy) := by
  unfold expressionStatement
  refine twins.eachFirst (twins.children same (by decide)) (mirrors_pure rfl)
    fun {node expression twin} _ copied => ?_
  dsimp only
  rw [copied.kind]
  have paired : Forall₂ (CodeCopied swap bound)
      (if expression.kind == "sequence_expression" then expression.named else [expression])
      (if expression.kind == "sequence_expression" then twin.named else [twin]) := by
    split
    · rename_i isSequence
      have isSequence : expression.kind = "sequence_expression" := eq_of_beq isSequence
      have inner := copied.code isSequence (by decide)
      exact inner.named (inner.children isSequence (by decide))
    · exact .cons ⟨node, copied⟩ .nil
  refine mirrors_map (mirrors_forEach_eq ?_)
  exact chained_of_forall₂ paired fun _ _ line => mirrors_expressionLine line.choose_spec

end Bodies

section Declarations

variable (twins : Twins swap .code bound tree part copy)
include twins

theorem Twins.declarator (same : part.kind = "variable_declarator")
    (there : fieldPlace "variable_declarator" field = inner) :
    swap.Becomes .code bound tree field inner
      (bound || field == "value" && (tree.field? "name").any (isName swap.old)) := by
  refine (twins.becomes same (by decide) there).flagged ?_
  rw [twins.source.kind] at same
  rw [opens, same]
  rfl

theorem mirrors_nameDeclarator {name : Node} {pattern : Part}
    (same : part.kind = "variable_declarator") (found : tree.field? "name" = some name)
    (copied : Copied swap .declared bound name pattern twin) (isName : pattern.kind = "identifier")
    (keyword : String) :
    Rebinds swap bound (patternBinds swap.old name)
      (nameDeclarator keyword part pattern) (nameDeclarator keyword copy twin) := by
  have text := copied.text_part
  have kind : name.kind = "identifier" := by rw [← copied.kind_part, isName]
  have binds : patternBinds swap.old name = (pattern.text == swap.old) := by
    rw [patternBinds_name (.inl kind), text]
  have becomes :
      swap.Becomes .code bound tree "value" .code (bound || pattern.text == swap.old) := by
    refine (twins.declarator same (by decide)).flagged ?_
    simp [found, TypeScript.Scope.isName, kind, text]
  unfold nameDeclarator
  rw [copied.text_declared, binds]
  refine mirrors_next (mirrors_bindLocal copied.unused) fun _ => ?_
  refine mirrors_view fun first second views => ?_
  rw [twins.typeSuffix_eq views (twins.inert same "type" (by decide))]
  refine twins.each becomes (mirrors_pure rfl) fun _ valueCopied => ?_
  exact mirrors_map valueCopied.expression

omit twins in
theorem mirrors_declarator (copied : Copied swap .code bound tree part copy)
    (isDeclarator : part.kind = "variable_declarator") (isConstant : Bool) :
    Rebinds swap bound (declaratorBinds swap.old tree)
      (declarator isConstant part) (declarator isConstant copy) := by
  have twins := copied.code isDeclarator (by decide)
  have kind : tree.kind = "variable_declarator" := by rw [← copied.kind_part, isDeclarator]
  have becomes : swap.Becomes .code bound tree "name" .declared bound :=
    (twins.declarator isDeclarator (by decide)).flagged (by simp)
  unfold declarator
  refine twins.each becomes mirrors_refusal fun {node name twin} foundNode nameCopied => ?_
  have binds : declaratorBinds swap.old tree = patternBinds swap.old node := by
    rw [declaratorBinds, kind, foundNode]
    simp
  rw [binds]
  dsimp only
  rw [nameCopied.kind]
  split
  · exact mirrors_nameDeclarator twins isDeclarator foundNode nameCopied (eq_of_beq ‹_›) _
  rename_i noName
  have becomes : swap.Becomes .code bound tree "value" .code bound := by
    have other : (node.kind == "identifier") = false := by
      rw [← nameCopied.kind_part]
      simpa using noName
    exact (twins.declarator isDeclarator (by decide)).flagged (by simp [foundNode, isName, other])
  refine twins.each becomes mirrors_refusal fun {_ value other} _ valueCopied => ?_
  have apart (mode : BindingMode) (declares : mode ≠ .assignment)
      (copied : Copied swap mode.place bound node name twin) :
      Rebinds swap bound (patternBinds swap.old node)
        (destructure mode name value) (destructure mode twin other) := by
    rw [← binds_of_ne_assignment declares]
    exact mirrors_destructure copied valueCopied
  cases isConstant with
  | true => exact mirrors_map (apart .constant (by decide) nameCopied)
  | false => exact mirrors_map (apart .variable (by decide) nameCopied)

theorem mirrors_declaration
    (isDeclaration : part.kind ∈ ["lexical_declaration", "variable_declaration"]) :
    Rebinds swap bound (tree.named.any (declaratorBinds swap.old))
      (declaration part) (declaration copy) := by
  have rows : ∀ kind ∈ ["lexical_declaration", "variable_declaration"],
      kind ∉ ["object", "object_pattern"] := by decide
  have kinds : ((fun child : Part => child.kind == "variable_declarator") ∘ rendered) =
      fun child : Node => child.kind == "variable_declarator" := by
    funext child
    rw [Function.comp_apply, kind_rendered child]
  have quiet (child : Node) (other : (child.kind == "variable_declarator") = false) :
      declaratorBinds swap.old child = false := by
    rw [declaratorBinds, other, Bool.false_and]
  unfold declaration
  rw [twins.has rfl "const" (rows _ isDeclaration), twins.source.named, twins.copied.named,
    named_declaration (by rw [← twins.source.kind]; exact isDeclaration), filter_map,
    filter_map, kinds, filter_thread (fun _ child => by rw [kind_enter]) quiet,
    ← any_filter quiet]
  refine mirrors_map (mirrors_forEach_eq (chained_thread fun inside child member => ?_))
  obtain ⟨inside, isDeclarator⟩ := mem_filter.mp member
  have reflected := twins.parts child (Tree.mem_children_of_mem_named inside)
  refine mirrors_declarator ⟨reflected, rfl, rfl⟩ ?_ _
  rw [kind_rendered child]
  exact eq_of_beq isDeclarator

end Declarations

section Branches

theorem mirrors_otherwise (twins : Twins swap .code bound tree part copy)
    (same : part.kind = "if_statement") : Echoes swap bound (otherwise part) (otherwise copy) := by
  have becomes : swap.Becomes .code bound tree "alternative" .entries bound :=
    twins.plain same (by decide)
  unfold otherwise
  refine twins.each becomes (mirrors_pure rfl) fun _ copied => ?_
  have inner := copied.apart (by decide)
  rw [Option.bind_some, Option.bind_some]
  exact inner.eachFirst children_entries (mirrors_pure rfl) fun _ copied => copied.alternative

theorem mirrors_conditional (twins : Twins swap .code bound tree part copy)
    (same : part.kind = "if_statement") (opening : String) :
    Echoes swap bound (conditional opening part) (conditional opening copy) := by
  unfold conditional
  refine mirrors_next (mirrors_condition twins same (by decide)) fun condition => ?_
  refine mirrors_next (mirrors_bodyField twins (twins.plain same (by decide))) fun body => ?_
  exact mirrors_map (mirrors_otherwise twins same)

theorem mirrors_renderAlternative {statement statementCopy : Lowering (List Haxe.Code)}
    {after : Bool}
    (twins : Twins swap .code (bound || declaresItself swap.old tree) tree part copy)
    (mirrors : Mirrors swap bound after Eq statement statementCopy) :
    Echoes swap bound (renderAlternative part statement)
      (renderAlternative copy statementCopy) := by
  unfold renderAlternative
  rw [twins.kind]
  split
  · rename_i isConditional
    have isConditional : part.kind = "if_statement" := eq_of_beq isConditional
    exact mirrors_conditional (twins.undeclared isConditional (by decide)) isConditional _
  · split
    · rename_i isBlock
      have isBlock : part.kind = "statement_block" := eq_of_beq isBlock
      have twins := twins.undeclared isBlock (by decide)
      exact mirrors_map (mirrors_blockStatements twins isBlock)
    · exact mirrors_map (mirrors_withScope mirrors)

end Branches

section Loops

variable (twins : Twins swap .code bound tree part copy)
include twins

theorem mirrors_loopBody (jump : Jump)
    (becomes : swap.Becomes .code bound tree "body" .code inside) :
    Mirrors swap inside inside Eq (loopBody jump part) (loopBody jump copy) :=
  mirrors_withJump jump (mirrors_bodyField twins becomes)

theorem mirrors_whileStatement (same : part.kind = "while_statement") :
    Echoes swap bound (whileStatement part) (whileStatement copy) := by
  unfold whileStatement
  refine mirrors_next (mirrors_condition twins same (by decide)) fun condition => ?_
  exact mirrors_map (mirrors_loopBody twins _ (twins.plain same (by decide)))

theorem mirrors_doStatement (same : part.kind = "do_statement") :
    Echoes swap bound (doStatement part) (doStatement copy) := by
  unfold doStatement
  refine mirrors_next (mirrors_loopBody twins _ (twins.plain same (by decide))) fun body => ?_
  exact mirrors_map (mirrors_condition twins same (by decide))

omit twins in
theorem introduces_of_not_mem {name : String}
    (other : tree.kind ∉ ["lexical_declaration", "variable_declaration", "function_declaration"]) :
    introduces name tree = false := by
  simp only [mem_cons, not_mem_nil, or_false, not_or] at other
  simp [introduces, declaresItself, other]

omit twins in
theorem mirrors_loopStart (copied : Copied swap .code bound tree part copy) :
    Rebinds swap bound (introduces swap.old tree) (loopStart (some part))
      (loopStart (some copy)) := by
  dsimp only [loopStart]
  rw [copied.kind]
  split
  · exact copied.statement
  rename_i noDeclaration
  split
  · rename_i isEmpty
    have quiet : introduces swap.old tree = false := by
      simp only [Bool.or_eq_true, beq_iff_eq, copied.kind_part] at isEmpty
      refine introduces_of_not_mem ?_
      rcases isEmpty with kind | kind <;> rw [kind] <;> decide
    rw [quiet, Rebinds, Bool.or_false]
    exact mirrors_pure rfl
  · by_cases isFunction : part.kind = "function_declaration"
    · -- A function that is declared is no expression, so nothing comes of it.
      have plain : patternAssigned? part = none := by simp [patternAssigned?, isFunction]
      have plainCopy : patternAssigned? copy = none := by
        simp [patternAssigned?, copied.kind, isFunction]
      have refused : Mirrors swap bound (bound || introduces swap.old tree)
          (fun _ _ => False) part.value.expression copy.value.expression := by
        rw [copied.kind_part] at isFunction
        rw [copied.part_eq]
        exact mirrors_of_lookup_eq_none (by rw [isFunction]; rfl) _
      rw [expressionLine, plain, expressionLine, plainCopy]
      exact mirrors_bind refused fun _ _ never => never.elim
    · have quiet : introduces swap.old tree = false := by
        refine introduces_of_not_mem ?_
        rw [← copied.kind_part]
        simp only [contains_eq_mem, mem_cons, not_mem_nil, or_false,
          decide_eq_true_eq, not_or] at noDeclaration
        simp [noDeclaration, isFunction]
      rw [quiet, Rebinds, Bool.or_false]
      exact mirrors_expressionLine copied

omit twins in
theorem mirrors_loopCondition (copied : Copied swap .code bound tree part copy) :
    Echoes swap bound (loopCondition (some part)) (loopCondition (some copy)) := by
  dsimp only [loopCondition]
  rw [copied.kind, copied.isNamed]
  split
  · rename_i isStatement
    have isStatement : part.kind = "expression_statement" := eq_of_beq isStatement
    have twins := copied.code isStatement (by decide)
    refine twins.eachFirst (twins.children isStatement (by decide))
      (mirrors_pure rfl) fun _ inner => ?_
    exact inner.expression
  · split
    · exact copied.expression
    · exact mirrors_pure rfl

theorem mirrors_conditionField (becomes : swap.Becomes .code bound tree "condition" .code inside) :
    Mirrors swap inside inside Eq (loopCondition (part.field? "condition"))
      (loopCondition (copy.field? "condition")) :=
  twins.each becomes (mirrors_pure rfl) fun _ copied => mirrors_loopCondition copied

theorem mirrors_stepField (becomes : swap.Becomes .code bound tree "increment" .code inside) :
    Mirrors swap inside inside Eq (loopStep (part.field? "increment"))
      (loopStep (copy.field? "increment")) :=
  twins.each becomes (mirrors_pure rfl) fun _ copied => mirrors_expressionLine copied

theorem Twins.counting (same : part.kind = "for_statement")
    (there : fieldPlace "for_statement" field = .code) (later : field ≠ "initializer") :
    swap.Becomes .code bound tree field .code
      (bound || (tree.field? "initializer").any (introduces swap.old)) := by
  refine (twins.becomes same (by decide) there).flagged ?_
  rw [twins.source.kind] at same
  simp only [opens, same, bne, beq_eq_false_iff_ne.mpr later, Bool.not_false, Bool.true_and]
  rfl

theorem mirrors_startField (same : part.kind = "for_statement") :
    Rebinds swap bound ((tree.field? "initializer").any (introduces swap.old))
      (loopStart (part.field? "initializer")) (loopStart (copy.field? "initializer")) := by
  have becomes : swap.Becomes .code bound tree "initializer" .code bound := by
    refine (twins.becomes same (by decide) (by decide)).flagged ?_
    rw [twins.source.kind] at same
    simp [opens, same]
  refine twins.each becomes ?_ fun _ copied => mirrors_loopStart copied
  rw [Rebinds, Option.any_none, Bool.or_false]
  exact mirrors_pure rfl

theorem mirrors_forStatement (same : part.kind = "for_statement") :
    Echoes swap bound (forStatement part) (forStatement copy) := by
  have condition := twins.counting same (by decide) (by decide : "condition" ≠ "initializer")
  have body := twins.counting same (by decide) (by decide : "body" ≠ "initializer")
  have step := twins.counting same (by decide) (by decide : "increment" ≠ "initializer")
  exact mirrors_withScope <|
    mirrors_next (mirrors_startField twins same) fun start =>
    mirrors_next (mirrors_conditionField twins condition) fun condition =>
    mirrors_next (mirrors_loopBody twins _ body) fun body =>
    mirrors_map (mirrors_stepField twins step)

omit twins in
theorem mirrors_loopVariable {mode : BindingMode} (declares : mode ≠ .assignment)
    (copied : Copied swap mode.place bound tree part copy) :
    Rebinds swap bound (patternBinds swap.old tree) (loopVariable mode part)
      (loopVariable mode copy) := by
  have there : mode.place = .declared := by
    cases mode with
    | assignment => exact absurd rfl declares
    | _ => rfl
  rw [loopVariable, loopVariable, copied.kind, isPattern_congr copied.kind]
  split
  · rename_i isName
    have kind : tree.kind = "identifier" := by rw [← copied.kind_part, eq_of_beq isName]
    have text := copied.text_part
    rw [there] at copied
    rw [copied.text_declared, patternBinds_name (.inl kind), ← text]
    exact mirrors_map (mirrors_bindLocal copied.unused)
  · split
    · rw [← binds_of_ne_assignment declares]
      refine mirrors_next mirrors_freshTemp fun temp => ?_
      exact mirrors_map (mirrors_unpackFrom copied temp)
    · exact mirrors_refusal

omit twins in
theorem loopMode_ne_assignment (part : Part) : loopMode part ≠ .assignment := by
  unfold loopMode
  split <;> decide

variable (same : part.kind = "for_in_statement")
include same

theorem Twins.iterating (there : fieldPlace "for_in_statement" field = inner) :
    swap.Becomes .code bound tree field inner
      (bound || field == "body" && (tree.field? "left").any (patternBinds swap.old)) := by
  refine (twins.becomes same (by decide) there).flagged ?_
  rw [twins.source.kind] at same
  rw [opens, same]
  rfl

theorem mirrors_iteration {node : Node} {target : Part}
    (found : tree.field? "left" = some node) (copied : Copied swap .declared bound node target twin)
    (items : String) :
    Echoes swap bound (iteration part target items) (iteration copy twin items) := by
  have mode : loopMode copy = loopMode part := by
    rw [loopMode, loopMode, twins.inert same "kind" (by decide)]
  have placed : Copied swap (loopMode part).place bound node target twin := by
    unfold loopMode
    split <;> exact copied
  have body : swap.Becomes .code bound tree "body" .code (bound || patternBinds swap.old node) :=
    (twins.iterating same (by decide)).flagged (by rw [found]; rfl)
  unfold iteration
  rw [mode]
  exact mirrors_withScope <|
    mirrors_next (mirrors_loopVariable (loopMode_ne_assignment part) placed) fun given =>
    mirrors_map (mirrors_loopBody twins _ body)

theorem mirrors_forInStatement : Echoes swap bound (forInStatement part) (forInStatement copy) := by
  have target : swap.Becomes .code bound tree "left" .declared bound :=
    (twins.iterating same (by decide)).flagged (by simp)
  have source : swap.Becomes .code bound tree "right" .code bound :=
    (twins.iterating same (by decide)).flagged (by simp)
  rw [forInStatement, forInStatement, twins.has same "await" (by decide),
    twins.inert same "operator" (by decide)]
  refine mirrors_guard fun _ => ?_
  refine twins.each target mirrors_refusal fun foundNode leftCopied => ?_
  refine twins.each source mirrors_refusal fun _ rightCopied => ?_
  exact mirrors_next rightCopied.expression fun value =>
    mirrors_iteration twins same foundNode leftCopied _

end Loops

section Jumps

variable (twins : Twins swap .code bound tree part copy)
include twins

theorem Twins.unchanged (same : part.kind = sort) (other : sort ∉ "object_pattern" :: outerKinds)
    (slot : String) : copy.field? slot = part.field? slot := by
  rw [twins.source.kind] at same
  have children : (inOrder.resolve swap.old swap.new .code bound tree).children = tree.children :=
    children_of_not_mem (by rw [same]; exact other)
  rw [twins.copied.field?, twins.source.field?, Tree.field?, children, ← Tree.field?]

theorem mirrors_breakStatement (same : part.kind = "break_statement") :
    Echoes swap bound (breakStatement part) (breakStatement copy) := by
  rw [breakStatement, breakStatement, twins.unchanged same (by decide)]
  refine mirrors_guard fun _ => ?_
  refine mirrors_get fun state => ?_
  split
  · exact mirrors_refusal
  · exact mirrors_pure rfl
  · exact mirrors_refusal

theorem mirrors_continueStatement (same : part.kind = "continue_statement") :
    Echoes swap bound (continueStatement part) (continueStatement copy) := by
  rw [continueStatement, continueStatement, twins.unchanged same (by decide),
    twins.token same (by decide)]
  refine mirrors_guard fun _ => ?_
  refine mirrors_get fun state => ?_
  split
  · exact mirrors_map (mirrors_recordGap _)
  · exact mirrors_pure rfl

theorem mirrors_returnStatement (same : part.kind = "return_statement") :
    Echoes swap bound (returnStatement part) (returnStatement copy) := by
  unfold returnStatement
  refine twins.eachFirst (twins.children same (by decide)) (mirrors_pure rfl) fun _ copied => ?_
  exact mirrors_map copied.expression

theorem mirrors_throwStatement (same : part.kind = "throw_statement") :
    Echoes swap bound (throwStatement part) (throwStatement copy) := by
  unfold throwStatement
  refine twins.eachFirst (twins.children same (by decide)) mirrors_refusal fun _ copied => ?_
  exact mirrors_map copied.expression

omit twins in
theorem mirrors_caughtName (copied : Copied swap .declared bound tree part copy) :
    Rebinds swap bound (patternBinds swap.old tree) (caughtName (some part))
      (caughtName (some copy)) := by
  rw [caughtName, caughtName, copied.kind]
  split
  · rename_i isName
    have kind : tree.kind = "identifier" := by rw [← copied.kind_part, eq_of_beq isName]
    have text := copied.text_part
    rw [copied.text_declared, patternBinds_name (.inl kind), ← text]
    exact mirrors_map (mirrors_bindLocal copied.unused)
  · exact mirrors_refusal

omit twins in
theorem mirrors_handler (copied : Copied swap .handler bound tree part copy) :
    Echoes swap bound
      (withScope do
        let name ← caughtName (part.field? "parameter")
        return (name, ← bodyOf (part.field? "body")))
      (withScope do
        let name ← caughtName (copy.field? "parameter")
        return (name, ← bodyOf (copy.field? "body"))) := by
  have twins := copied.apart (by decide)
  have parameter : Rebinds swap bound ((tree.field? "parameter").any (patternBinds swap.old))
      (caughtName (part.field? "parameter")) (caughtName (copy.field? "parameter")) := by
    have becomes : swap.Becomes .handler bound tree "parameter" .declared bound :=
      Swap.Becomes.flagged (field?_handler "parameter") (by simp [opens])
    refine twins.each becomes ?_ fun _ copied => mirrors_caughtName copied
    rw [Rebinds, Option.any_none, Bool.or_false]
    exact mirrors_pure rfl
  have body : swap.Becomes .handler bound tree "body" .code
      (bound || (tree.field? "parameter").any (patternBinds swap.old)) := field?_handler "body"
  exact mirrors_withScope <| mirrors_next parameter fun name =>
    mirrors_map (mirrors_bodyField twins body)

theorem mirrors_tryStatement (same : part.kind = "try_statement") :
    Echoes swap bound (tryStatement part) (tryStatement copy) := by
  rw [tryStatement, tryStatement, twins.inert same "finalizer" (by decide)]
  have becomes : swap.Becomes .code bound tree "handler" .handler bound :=
    twins.plain same (by decide)
  cases part.field? "finalizer" with
  | some finalizer => exact mirrors_refusal
  | none =>
  refine twins.each becomes mirrors_refusal fun _ copied => ?_
  exact mirrors_next (mirrors_bodyField twins (twins.plain same (by decide))) fun body =>
    mirrors_map (mirrors_handler copied)

omit twins in
theorem mirrors_localFunction
    (twins : Twins swap .code (bound || declaresItself swap.old tree) tree part copy)
    (same : part.kind = "function_declaration") :
    Rebinds swap bound (declaresItself swap.old tree) (localFunction part)
      (localFunction copy) := by
  have isClosure : part.kind ∈ closureKinds := by rw [same]; decide
  have kind : tree.kind = "function_declaration" := by rw [← twins.source.kind, same]
  have named (name : String) := mirrors_namedFunction twins isClosure "" name
  unfold localFunction
  rw [twins.inert same "name" (by decide)]
  cases found : part.field? "name" with
  | none =>
    have missing : tree.field? "name" = none := by
      rw [twins.source.field?, Option.map_eq_none_iff] at found
      exact found
    have quiet : declaresItself swap.old tree = false := by simp [declaresItself, missing]
    rw [quiet, Bool.or_false] at named
    rw [quiet, Rebinds, Bool.or_false]
    exact mirrors_map (named _)
  | some name =>
    rw [twins.source.field?] at found
    obtain ⟨node, foundNode, rfl⟩ := Option.map_eq_some_iff.mp found
    have text : (rendered node).text = node.text := text_rendered node
    have member := Tree.mem_children_of_field? foundNode
    have declares : declaresItself swap.old tree = ((rendered node).text == swap.old) := by
      simp [declaresItself, kind, foundNode, text]
    rw [declares] at named ⊢
    refine mirrors_next
      (mirrors_bindLocal (text ▸ (twins.parts node member).top.unused)) fun _ => ?_
    exact mirrors_map (named _)

theorem mirrors_blockStatement (same : part.kind = "statement_block") :
    Echoes swap bound (blockStatement part) (blockStatement copy) :=
  mirrors_map (mirrors_blockStatements twins same)

end Jumps

section Trees

variable (twins : Twins swap .code (bound || declaresItself swap.old tree) tree part copy)
include twins

theorem mirrors_quietRule {rule : Part → Lowering (List Haxe.Code)}
    (mirrors : Twins swap .code bound tree part copy → part.kind = sort →
      Echoes swap bound (rule part) (rule copy)) (same : part.kind = sort)
    (other : sort ∉ ["lexical_declaration", "variable_declaration", "function_declaration"] := by
      decide) :
    Rebinds swap bound (introduces swap.old tree) (rule part) (rule copy) := by
  have quiet : introduces swap.old tree = false :=
    introduces_of_not_mem (by rw [← twins.source.kind, same]; exact other)
  have undeclared : sort ≠ "function_declaration" := fun isFunction => other (by simp [isFunction])
  rw [quiet, Rebinds, Bool.or_false]
  exact mirrors (twins.undeclared same undeclared) same

theorem mirrors_statementRules :
    ∀ rule ∈ statementRules, part.kind = rule.1 →
      Rebinds swap bound (introduces swap.old tree) (rule.2 part) (rule.2 copy) := by
  have declares (same : part.kind ∈ ["lexical_declaration", "variable_declaration"]) :
      Rebinds swap bound (introduces swap.old tree) (declaration part) (declaration copy) := by
    have undeclared : part.kind ≠ "function_declaration" := by
      intro isFunction
      simp [isFunction] at same
    have introduced : introduces swap.old tree = tree.named.any (declaratorBinds swap.old) := by
      rw [twins.source.kind] at same
      rcases mem_pair.mp same with kind | kind <;> simp [introduces, kind]
    rw [introduced]
    exact mirrors_declaration (twins.undeclared rfl undeclared) same
  have declaresFunction (same : part.kind = "function_declaration") :
      Rebinds swap bound (introduces swap.old tree) (localFunction part) (localFunction copy) := by
    have introduced : introduces swap.old tree = declaresItself swap.old tree := by
      rw [twins.source.kind] at same
      simp [introduces, same]
    rw [introduced]
    exact mirrors_localFunction twins same
  have nothing (same : part.kind = "empty_statement") :
      Rebinds swap bound (introduces swap.old tree)
        (pure [] : Lowering (List Haxe.Code)) (pure [] : Lowering (List Haxe.Code)) := by
    rw [introduces_of_not_mem (by rw [← twins.source.kind, same]; decide), Rebinds, Bool.or_false]
    exact mirrors_pure rfl
  have refused (detail : String) : Rebinds swap bound (introduces swap.old tree)
      (refuseStatement detail part) (refuseStatement detail copy) := mirrors_refusal
  simp only [statementRules, forall_mem_cons]
  refine ⟨mirrors_quietRule twins mirrors_blockStatement,
    mirrors_quietRule twins mirrors_expressionStatement,
    fun same => declares (by simp [same]), fun same => declares (by simp [same]),
    mirrors_quietRule twins fun twins same => mirrors_conditional twins same _,
    mirrors_quietRule twins mirrors_whileStatement,
    mirrors_quietRule twins mirrors_doStatement,
    mirrors_quietRule twins mirrors_forStatement,
    mirrors_quietRule twins mirrors_forInStatement,
    mirrors_quietRule twins mirrors_breakStatement,
    mirrors_quietRule twins mirrors_continueStatement,
    mirrors_quietRule twins mirrors_returnStatement,
    mirrors_quietRule twins mirrors_throwStatement,
    nothing,
    declaresFunction,
    mirrors_quietRule twins mirrors_switchStatement,
    mirrors_quietRule twins mirrors_tryStatement,
    fun _ => refused _, fun _ => refused _, fun _ => refused _, fun _ => refused _,
    fun _ => refused _, fun _ => refused _, ?_⟩
  simp

theorem mirrors_renderStatement :
    Rebinds swap bound (introduces swap.old tree) (renderStatement part)
      (renderStatement copy) := by
  rw [renderStatement, renderStatement, twins.kind]
  split
  · rename_i rule found
    exact mirrors_statementRules twins (part.kind, rule) (mem_of_lookup found) rfl
  · exact mirrors_refusal

omit twins

variable (spares : swap.Spares tree) (parts : ∀ child ∈ tree.children, Reflected swap child)
include spares parts

theorem twins_partOf (place : Place) (bound : Bool) :
    Twins swap (settled place tree) (bound || enters swap.old place tree) tree
      (partOf tree.token (tree.children.map rendered))
      (partOf (enter swap.old swap.new place bound tree).token
        ((enter swap.old swap.new place bound tree).children.map rendered)) :=
  ⟨shows_partOf tree, shows_partOf _, spares, parts⟩

theorem twins_code (bound : Bool) :
    Twins swap .code (bound || declaresItself swap.old tree) tree
      (partOf tree.token (tree.children.map rendered))
      (partOf (enter swap.old swap.new .code bound tree).token
        ((enter swap.old swap.new .code bound tree).children.map rendered)) := by
  have twins := twins_partOf spares parts .code bound
  rw [enters_code] at twins
  exact twins

theorem twins_pattern (mode : BindingMode) (bound : Bool)
    (isPattern : tree.kind ∈ ["object_pattern", "array_pattern"]) :
    Twins swap mode.place bound tree (partOf tree.token (tree.children.map rendered))
      (partOf (enter swap.old swap.new mode.place bound tree).token
        ((enter swap.old swap.new mode.place bound tree).children.map rendered)) := by
  have rows : ∀ kind ∈ ["object_pattern", "array_pattern"],
      kind ∈ targetKinds ∧ kind ≠ "function_declaration" := by decide
  obtain ⟨isTarget, undeclared⟩ := rows _ isPattern
  have settles : settled mode.place tree = mode.place := by simp [settled, isTarget]
  have quiet : enters swap.old mode.place tree = false := by
    simp [enters, declaresItself, undeclared]
  have twins := twins_partOf spares parts mode.place bound
  rw [settles, quiet, Bool.or_false] at twins
  exact twins

theorem mirrored_of_children : Mirrored swap tree := by
  refine ⟨spares, fun bound => ?_, fun bound => ?_, fun bound => ?_, fun mode bound temp => ?_⟩
  · by_cases isFunction : tree.kind = "function_declaration"
    · -- A function that is declared is no expression, so nothing comes of it.
      exact mirrors_of_lookup_eq_none (by rw [isFunction]; rfl) _
    · rw [value_rendered, value_rendered]
      exact mirrors_renderExpression ((twins_code spares parts bound).undeclared rfl isFunction)
  · rw [value_rendered, value_rendered]
    exact mirrors_renderStatement (twins_code spares parts bound)
  · rw [value_rendered, value_rendered]
    have twins := twins_code spares parts bound
    exact mirrors_renderAlternative twins (mirrors_renderStatement twins)
  · rw [value_rendered, value_rendered]
    by_cases isPattern : tree.kind ∈ ["object_pattern", "array_pattern"]
    · exact mirrors_renderUnpack (twins_pattern spares parts mode bound isPattern) temp
    · change Mirrors swap bound _ Eq (renderUnpack (partOf _ _) mode temp) _
      have kind : (partOf tree.token (tree.children.map rendered)).kind = tree.kind := rfl
      simp only [mem_cons, not_mem_nil, or_false, not_or] at isPattern
      rw [renderUnpack, kind, if_neg (by simpa using isPattern.1),
        if_neg (by simpa using isPattern.2)]
      exact mirrors_refusal

omit spares parts in
theorem reflected_of_spares (spares : tree.Throughout swap.Spares) : Reflected swap tree := by
  induction tree using Tree.tree_induction with
  | node token value children below =>
    have parts : ∀ child ∈ children, Reflected swap child :=
      fun child member => below child member (spares.child member)
    exact .node (mirrored_of_children spares.top parts) parts

end Trees

end Haxify.Lower
