import Haxify.Proofs.MirrorsOfPatterns

/-!
# Functions of a copy

Parameters bind the same names in the same order, and a body runs behind what they bind. A function
has a scope of its own, so it leaves no names behind.
-/

namespace Haxify.Lower

open Lowering List
open TypeScript (Node Tree)
open TypeScript.Scope

variable {place : Place} {name field : String} {pattern : Node}
variable {swap : Swap} {bound inside : Bool} {tree : Node} {part copy : Part}

section Parameters

theorem Copied.apart (copied : Copied swap place bound tree part copy)
    (other : place ∉ [.code, .assigned]) : Twins swap place bound tree part copy := by
  simp only [mem_cons, not_mem_nil, or_false, not_or] at other
  have settles : settled place tree = place := by simp [settled, other]
  have quiet : enters swap.old place tree = false := by simp [enters, settles, other]
  have twins := copied.twins
  rw [settles, quiet, Bool.or_false] at twins
  exact twins

theorem Shows.field?_eq (shown : Shows tree part) (field : String) :
    part.field? field = (rendered tree).field? field := by
  rw [shown.field?, field?_rendered tree]

section Types

variable (twins : Twins swap place bound tree part copy)
include twins

theorem Twins.typed : (rendered tree).Every (Rendering.TypedBy (swap.Views inside)) :=
  typed_of_spares inside twins.throughout

theorem Twins.typeSuffix_eq {first second : View} (views : swap.Views inside first second)
    (same : copy.field? field = part.field? field) :
    typeSuffix second (copy.field? field) = typeSuffix first (part.field? field) := by
  rw [same, twins.source.field?_eq, typeSuffix_congr views twins.typed]

end Types

theorem mirrors_defaultLines (twins : Twins swap .parameter bound tree part copy)
    (flag : (bound || opens swap.old .parameter tree "value") = inside) (name : String) :
    Mirrors swap inside inside Eq (defaultLines name (part.field? "value"))
      (defaultLines name (copy.field? "value")) := by
  have becomes : swap.Becomes .parameter bound tree "value" .code inside :=
    Swap.Becomes.flagged (field?_parameter "value") flag
  refine twins.each becomes (mirrors_pure rfl) fun _ copied => ?_
  exact mirrors_map copied.expression

theorem Twins.property?_eq (twins : Twins swap .parameter bound tree part copy)
    (name typing : String) : property? copy name typing = property? part name typing := by
  have plain (child : Node) : expansion? swap.old .parameter tree.kind child = none :=
    expansion?_of_place (by decide) tree.kind child
  have readonly : copy.has "readonly" = part.has "readonly" := by
    rw [twins.copied.has, twins.source.has, has_resolve plain]
  have texts : (copy.namedOf? "accessibility_modifier").map Tree.text =
      (part.namedOf? "accessibility_modifier").map Tree.text := by
    have shown {node : Node} {shows : Part} (shown : Shows node shows) :
        (shows.namedOf? "accessibility_modifier").map Tree.text =
          (node.namedOf? "accessibility_modifier").map Tree.text := by
      simp [shown.namedOf?, Function.comp_def]
    rw [shown twins.copied, shown twins.source]
    exact text_namedOf?_resolve plain (by decide)
  have access : propertyAccess? copy = propertyAccess? part := by
    rw [propertyAccess?, propertyAccess?, readonly]
    cases ours : part.namedOf? "accessibility_modifier" with
    | none =>
      rw [ours, Option.map_none, Option.map_eq_none_iff] at texts
      rw [texts]
    | some modifier =>
      rw [ours, Option.map_some, Option.map_eq_some_iff] at texts
      obtain ⟨twin, found, text⟩ := texts
      rw [found]
      dsimp only
      rw [text]
  rw [property?, access, readonly, property?]

theorem parameterBinds_of_pattern (found : tree.field? "pattern" = some pattern) :
    parameterBinds name tree = patternBinds name pattern := by
  rw [parameterBinds, found]
  rfl

theorem opens_of_pattern (found : tree.field? "pattern" = some pattern) :
    opens name .parameter tree "value" = isName name pattern := by
  rw [opens, found]
  rfl

section Pattern

variable {inner twin : Part}
variable (twins : Twins swap .parameter bound tree part copy)
variable (copied : Copied swap .declared bound pattern inner twin)
include twins copied

theorem mirrors_namedParameter (found : tree.field? "pattern" = some pattern)
    (isName : inner.kind = "identifier") (mark typing : String) :
    Rebinds swap bound (patternBinds swap.old pattern)
      (namedParameter part inner mark typing) (namedParameter copy twin mark typing) := by
  have text := copied.text_part
  have kind : pattern.kind = "identifier" := by rw [← copied.kind_part, isName]
  have binds : patternBinds swap.old pattern = (inner.text == swap.old) := by
    rw [patternBinds_name (.inl kind), text]
  have flag : (bound || opens swap.old .parameter tree "value") =
      (bound || inner.text == swap.old) := by
    rw [opens_of_pattern found, TypeScript.Scope.isName, kind, text]
    simp
  unfold namedParameter
  dsimp only
  rw [copied.text_declared, binds]
  refine mirrors_next (mirrors_bindLocal copied.unused) fun _ => ?_
  rw [twins.property?_eq]
  exact mirrors_map (mirrors_defaultLines twins flag _)

theorem mirrors_restParameter (isRest : inner.kind = "rest_pattern") :
    Rebinds swap bound (patternBinds swap.old pattern)
      (restParameter part inner) (restParameter copy twin) := by
  have types : copy.field? "type" = part.field? "type" := twins.kept (field?_parameter "type")
  unfold restParameter
  split
  · exact mirrors_refusal
  rename_i target found
  obtain ⟨first, isName⟩ := Option.filter_eq_some_iff.mp found
  have declared : Copied swap BindingMode.variable.place bound pattern inner twin := copied
  obtain ⟨node, other, binds, foundOther, targetCopied⟩ := declared.rest isRest first
  have kind : node.kind = "identifier" := by
    rw [← targetCopied.kind_part]
    exact eq_of_beq isName
  have text := targetCopied.text_part
  have filtered : twin.first?.filter (·.kind == "identifier") = some other := by
    rw [foundOther, Option.filter_some, targetCopied.kind, if_pos isName]
  have flag : patternBinds swap.old pattern = (target.text == swap.old) := by
    rw [← Place.binds_declared, text, ← patternBinds_name (.inl kind), ← Place.binds_declared]
    exact binds
  rw [filtered, flag]
  dsimp only
  rw [Copied.text_declared targetCopied]
  refine mirrors_next (mirrors_bindLocal targetCopied.unused) fun _ => ?_
  refine mirrors_view fun first second views => mirrors_pure ?_
  rw [types, twins.source.field?_eq, restElement_congr views (twins.typed)]

theorem mirrors_patternParameter (found : tree.field? "pattern" = some pattern)
    (isPattern : inner.kind ≠ "identifier") (mark typing : String) :
    Rebinds swap bound (patternBinds swap.old pattern)
      (patternParameter part inner mark typing) (patternParameter copy twin mark typing) := by
  have flag : (bound || opens swap.old .parameter tree "value") = bound := by
    rw [copied.kind_part] at isPattern
    rw [opens_of_pattern found, isName]
    simp [isPattern]
  have declared : Copied swap BindingMode.variable.place bound pattern inner twin := copied
  rw [← binds_of_ne_assignment (by decide : BindingMode.variable ≠ .assignment)]
  unfold patternParameter
  refine mirrors_next mirrors_freshTemp fun temp => ?_
  refine mirrors_next (mirrors_defaultLines twins flag temp) fun prelude => ?_
  exact mirrors_map (mirrors_unpackFrom declared temp)

end Pattern

theorem mirrors_parameter (copied : Copied swap .parameter bound tree part copy) :
    Rebinds swap bound (parameterBinds swap.old tree) (parameter part) (parameter copy) := by
  have twins := copied.apart (by decide)
  have decorated : copy.has "decorator" = part.has "decorator" := by
    rw [twins.copied.has, twins.source.has, has_resolve (expansion?_of_place (by decide) tree.kind)]
  have valued : (copy.field? "value").isSome = (part.field? "value").isSome := by
    rw [twins.copied.field?, field?_parameter, twins.source.field?]
    simp
  unfold parameter
  rw [copied.kind, decorated]
  refine mirrors_guard fun _ => ?_
  have becomes : swap.Becomes .parameter bound tree "pattern" .declared bound :=
    Swap.Becomes.flagged (field?_parameter "pattern") (by simp [opens])
  refine twins.each becomes mirrors_refusal fun {node pattern twin} foundNode inner => ?_
  rw [parameterBinds_of_pattern foundNode]
  dsimp only
  rw [inner.kind, isPattern_congr inner.kind]
  refine mirrors_view fun first second views => ?_
  rw [twins.typeSuffix_eq views (twins.kept (field?_parameter "type")), valued]
  split
  · rename_i isThis
    have binds : patternBinds swap.old node = false := by
      rw [patternBinds_eq, ← inner.kind_part, eq_of_beq isThis]
      rfl
    rw [binds, Bool.or_false]
    exact mirrors_pure rfl
  · split
    · exact mirrors_namedParameter twins inner foundNode (eq_of_beq ‹_›) _ _
    rename_i noName
    split
    · exact mirrors_restParameter twins inner (eq_of_beq ‹_›)
    split
    · exact mirrors_patternParameter twins inner foundNode (by simpa using noName) _ _
    · exact mirrors_refusal

end Parameters

section Functions

variable (twins : Twins swap .code bound tree part copy) (isClosure : part.kind ∈ closureKinds)
include twins isClosure

theorem Twins.closure {inner : Place}
    (there : ∀ kind ∈ closureKinds, fieldPlace kind field = inner) :
    swap.Becomes .code bound tree field inner
      (bound || field == "body" && parametersBind swap.old tree) := by
  have rows : ∀ kind ∈ closureKinds, kind ∈ codeFields.map Prod.fst := by decide
  have opening : opens swap.old .code tree field =
      (field == "body" && parametersBind swap.old tree) := by
    rw [twins.source.kind] at isClosure
    rw [opens, if_pos (by simpa using isClosure)]
  exact (twins.becomes rfl (rows _ isClosure) (there _ isClosure)).flagged (by rw [opening])

theorem Twins.closureKept (there : ∀ kind ∈ closureKinds, fieldPlace kind field = .inert) :
    copy.field? field = part.field? field := twins.kept (twins.closure isClosure there)

theorem mirrors_parameters :
    Rebinds swap bound (parametersBind swap.old tree) (parameters part) (parameters copy) := by
  unfold parameters
  rw [twins.closureKept isClosure (by decide), parametersBind, twins.source.field?]
  cases single : tree.field? "parameter" with
  | some name =>
    have unused := (twins.parts name (Tree.mem_children_of_field? single)).top.unused
    dsimp only [Option.map_some]
    rw [text_rendered]
    exact mirrors_map (mirrors_bindLocal unused)
  | none =>
    dsimp only [Option.map_none]
    have becomes : swap.Becomes .code bound tree "parameters" .parameters bound :=
      (twins.closure isClosure (by decide)).flagged (by simp)
    refine twins.each becomes ?_ fun _ copied => ?_
    · rw [Rebinds, Option.any_none, Bool.or_false]
      exact mirrors_pure rfl
    · have inner := copied.apart (by decide)
      dsimp only [Option.any_some]
      rw [inner.source.named, inner.copied.named, named_parameters]
      refine mirrors_map (mirrors_forEach_eq (chained_thread fun inside child member => ?_))
      refine mirrors_parameter ⟨?_, rfl, rfl⟩
      exact inner.parts child (Tree.mem_children_of_mem_named member)

omit twins isClosure

theorem mirrors_blockText (header : String) (body : List Haxe.Code) :
    Echoes swap bound (blockText header body) (blockText header body) :=
  mirrors_read (mirrors_pure rfl)

theorem mirrors_expressionBody (header : String) (prelude : List String)
    (copied : Copied swap .code bound tree part copy) :
    Echoes swap bound (expressionBody header prelude part)
      (expressionBody header prelude copy) := by
  unfold expressionBody
  refine mirrors_next copied.expression fun value => ?_
  split
  · exact mirrors_pure rfl
  · exact mirrors_blockText header _

theorem any_callee_congr (copied : Copied swap .code bound tree part copy)
    (isCall : part.kind = "call_expression") (holds : String → Bool) :
    (copy.field? "function").any (holds ·.kind) = (part.field? "function").any (holds ·.kind) := by
  have twins := copied.code isCall (by decide)
  refine twins.eachCode isCall "function" (by decide) rfl fun inner => ?_
  rw [Option.any_some, Option.any_some, inner.kind]

theorem isSuperCall_congr (copied : Copied swap .code bound tree part copy) :
    isSuperCall copy = isSuperCall part := by
  rw [isSuperCall, isSuperCall, copied.kind]
  by_cases isStatement : part.kind = "expression_statement"
  · have twins := copied.code isStatement (by decide)
    refine twins.eachFirst (twins.children isStatement (by decide)) rfl
      fun {_ child _} _ inner => ?_
    rw [Option.any_some, Option.any_some, inner.kind]
    by_cases isCall : child.kind = "call_expression"
    · rw [any_callee_congr inner isCall (· == "super")]
    · rw [beq_eq_false_iff_ne.mpr isCall, Bool.false_and, Bool.false_and]
  · rw [beq_eq_false_iff_ne.mpr isStatement, Bool.false_and, Bool.false_and]

/-- Statements that are mirrored one behind the other. -/
structure Sequenced (swap : Swap) (bound : Bool) (nodes : List Node)
    (parts copies : List Part) : Prop where
  reflected : ∀ node ∈ nodes, Reflected swap node
  parts_eq : parts = nodes.map rendered
  copies_eq : copies =
    (thread (introduces swap.old) (enter swap.old swap.new .code) bound nodes).map rendered

namespace Sequenced

variable {nodes : List Node} {parts copies : List Part}

theorem of_block (twins : Twins swap .code bound tree part copy)
    (isBlock : part.kind = "statement_block") :
    Sequenced swap bound tree.named part.named copy.named := by
  refine ⟨fun node member => ?_, twins.source.named, ?_⟩
  · exact twins.parts node (Tree.mem_children_of_mem_named member)
  · rw [twins.copied.named, named_block (by rw [← twins.source.kind, isBlock])]

variable (sequenced : Sequenced swap bound nodes parts copies)
include sequenced

theorem isEmpty : copies.isEmpty = parts.isEmpty := by
  rw [sequenced.copies_eq, sequenced.parts_eq, isEmpty_map, isEmpty_map, isEmpty_thread]

theorem chained :
    Chained swap Eq (fun part : Part => part.value.statement)
      (fun part : Part => part.value.statement) bound parts copies
      (bound || nodes.any (introduces swap.old)) := by
  rw [sequenced.copies_eq, sequenced.parts_eq]
  exact chained_thread fun inside node member =>
    (sequenced.reflected node member).top.statement inside

theorem injectionPoint : injectionPoint copies = injectionPoint parts := by
  have same : (thread (introduces swap.old) (enter swap.old swap.new .code) bound nodes).findIdx?
      (isSuperCall ∘ rendered) = nodes.findIdx? (isSuperCall ∘ rendered) :=
    findIdx?_thread fun inside node member =>
      isSuperCall_congr ⟨sequenced.reflected node member, rfl, rfl⟩
  rw [Lower.injectionPoint, sequenced.copies_eq, findIdx?_map, same, Lower.injectionPoint,
    sequenced.parts_eq, findIdx?_map]

end Sequenced

theorem mirrors_bodyCode {nodes : List Node} {parts copies : List Part}
    (sequenced : Sequenced swap bound nodes parts copies) (prelude injected : List String) :
    Rebinds swap bound (nodes.any (introduces swap.old))
      (bodyCode prelude injected parts) (bodyCode prelude injected copies) := by
  unfold bodyCode
  rw [sequenced.injectionPoint]
  exact mirrors_map (mirrors_forEach_eq sequenced.chained)

theorem mirrors_blockBody (header : String) (prelude injected : List String)
    (copied : Copied swap .code bound tree part copy) (isBlock : part.kind = "statement_block") :
    Rebinds swap bound (tree.named.any (introduces swap.old))
      (blockBody header prelude injected part) (blockBody header prelude injected copy) := by
  have sequenced := Sequenced.of_block (copied.code isBlock (by decide)) isBlock
  unfold blockBody
  rw [sequenced.isEmpty]
  split
  · rename_i isEmpty
    have none : tree.named = [] := by
      rw [sequenced.parts_eq] at isEmpty
      simp only [List.isEmpty_map, Bool.and_eq_true, List.isEmpty_iff] at isEmpty
      exact isEmpty.1.1
    rw [Rebinds, none, any_nil, Bool.or_false]
    exact mirrors_pure rfl
  · refine mirrors_next (mirrors_bodyCode sequenced prelude injected) fun body => ?_
    exact mirrors_blockText header body

include twins isClosure

theorem mirrors_functionInside (signature : String) (role : FunctionRole) :
    ∃ after, Mirrors swap bound after Eq (functionInside signature part role)
      (functionInside signature copy role) := by
  have becomes :
      swap.Becomes .code bound tree "body" .code (bound || parametersBind swap.old tree) :=
    (twins.closure isClosure (by decide)).flagged (by simp)
  have types : copy.field? "return_type" = part.field? "return_type" :=
    twins.closureKept isClosure (by decide)
  unfold functionInside
  refine twins.each becomes ?_ fun {node body twin} _ copied => ?_
  · refine ⟨bound || parametersBind swap.old tree, ?_⟩
    refine mirrors_next (mirrors_parameters twins isClosure) fun given => ?_
    exact mirrors_view fun first second views => mirrors_refusal
  · dsimp only
    rw [copied.kind]
    by_cases isBlock : body.kind = "statement_block"
    · refine ⟨bound || parametersBind swap.old tree || node.named.any (introduces swap.old), ?_⟩
      refine mirrors_next (mirrors_parameters twins isClosure) fun given => ?_
      refine mirrors_view fun first second views => ?_
      rw [twins.typeSuffix_eq views types, isBlock]
      exact mirrors_map (mirrors_blockBody _ _ _ copied isBlock)
    · refine ⟨bound || parametersBind swap.old tree, ?_⟩
      refine mirrors_next (mirrors_parameters twins isClosure) fun given => ?_
      refine mirrors_view fun first second views => ?_
      rw [twins.typeSuffix_eq views types, beq_eq_false_iff_ne.mpr isBlock]
      exact mirrors_map (mirrors_expressionBody _ _ copied)

theorem mirrors_functionLike (signature : String) (role : FunctionRole) :
    Echoes swap bound (functionLike signature part role) (functionLike signature copy role) := by
  obtain ⟨after, inside⟩ := mirrors_functionInside twins isClosure signature role
  exact mirrors_withScope (mirrors_withJump .function inside)

theorem Twins.closureHas (kind : String) : copy.has kind = part.has kind := by
  have rows : ∀ kind ∈ closureKinds, kind ∉ ["object", "object_pattern"] := by decide
  exact twins.has rfl kind (rows _ isClosure)

theorem mirrors_checkFlavor : Echoes swap bound (checkFlavor part) (checkFlavor copy) := by
  rw [checkFlavor, checkFlavor, twins.closureHas isClosure, twins.closureHas isClosure]
  refine mirrors_guard fun _ => ?_
  exact mirrors_guard fun _ => mirrors_pure rfl

theorem mirrors_namedFunction (before name : String) :
    Echoes swap bound (namedFunction before name part) (namedFunction before name copy) := by
  have types : copy.field? "type_parameters" = part.field? "type_parameters" :=
    twins.closureKept isClosure (by decide)
  unfold namedFunction
  refine mirrors_next (mirrors_checkFlavor twins isClosure) fun _ => ?_
  refine mirrors_view fun first second views => ?_
  rw [types, twins.source.field?_eq, typeParameters_congr views (twins.typed)]
  exact mirrors_map (mirrors_functionLike twins isClosure _ _)

theorem mirrors_functionValue : Echoes swap bound (functionValue part) (functionValue copy) := by
  unfold functionValue
  rw [twins.kind, twins.closureHas isClosure, twins.closureHas isClosure]
  refine mirrors_next (mirrors_checkFlavor twins isClosure) fun _ => ?_
  refine mirrors_guard fun _ => ?_
  exact mirrors_map (mirrors_functionLike twins isClosure _ _)

end Functions

end Haxify.Lower
