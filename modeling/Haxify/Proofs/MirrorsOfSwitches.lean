import Haxify.Proofs.MirrorsOfFunctions

/-!
# Switches of a copy

The clauses of a switch are read alike from a tree and from its copy, so they form the same arms,
with bodies that mirror each other. What runs on and what ends a body are matters of kinds.
-/

namespace Haxify.Lower

open Lowering List
open TypeScript (Node Tree isTypeKind)
open TypeScript.Scope

variable {swap : Swap} {bound : Bool} {tree : Node} {part copy : Part}

section Labels

theorem mirrors_statements {nodes : List Node} {parts copies : List Part}
    (sequenced : Sequenced swap bound nodes parts copies) :
    Rebinds swap bound (nodes.any (introduces swap.old)) (statements parts) (statements copies) :=
  mirrors_map (mirrors_forEach_eq sequenced.chained)

theorem isNegativeNumber_congr (copied : Copied swap .code bound tree part copy) :
    isNegativeNumber copy = isNegativeNumber part := by
  rw [isNegativeNumber, isNegativeNumber, copied.kind]
  by_cases isUnary : part.kind = "unary_expression"
  · have twins := copied.code isUnary (by decide)
    rw [twins.inert isUnary "operator" (by decide)]
    refine twins.eachCode isUnary "argument" (by decide) rfl fun inner => ?_
    rw [Option.any_some, Option.any_some, inner.kind]
  · simp only [beq_eq_false_iff_ne.mpr isUnary, Bool.false_and]

theorem isDottedName_eq (part : Part) :
    isDottedName part =
      (part.kind == "identifier" || part.kind == "property_identifier"
        || part.kind == "member_expression" && !part.has "optional_chain"
          && (part.field? "object").any isDottedName &&
            (part.field? "property").any isDottedName) := by
  obtain ⟨token, value, children⟩ := part
  rw [isDottedName, Tree.annotate_node, Tree.value]
  simp only [find?_map, Option.any_map, any_map, Function.comp_def,
    Tree.kind_annotate, Tree.token_annotate]
  rfl

theorem kind_rendered_enter (tree : Node) :
    (rendered (enter swap.old swap.new .code bound tree)).kind = (rendered tree).kind := by
  rw [kind_rendered, kind_rendered, kind_enter]

theorem isDottedName_enter (tree : Node) :
    isDottedName (rendered (enter swap.old swap.new .code bound tree)) =
      isDottedName (rendered tree) := by
  induction tree using Tree.tree_induction with
  | node token value children below =>
    rw [isDottedName_eq, isDottedName_eq, kind_rendered_enter]
    by_cases isMember : (rendered (.node token value children)).kind = "member_expression"
    · rw [kind_rendered] at isMember
      have object : swap.Becomes .code bound (.node token value children) "object" .code bound := by
        rw [Swap.Becomes, field?_code (by rw [isMember]; decide), isMember,
          opens_code_of_not_mem (by rw [isMember]; decide), Bool.or_false]
        rfl
      unfold Swap.Becomes at object
      have property : (inOrder.resolve swap.old swap.new .code bound
          (.node token value children)).field? "property" =
          (TypeScript.Tree.node token value children).field? "property" := by
        rw [field?_code (by rw [isMember]; decide), isMember]
        cases (TypeScript.Tree.node token value children).field? "property" with
        | none => rfl
        | some found => exact congrArg some (enter_inert found)
      have same : ∀ child ∈ (TypeScript.Tree.node token value children).field? "object",
          isDottedName (rendered (enter swap.old swap.new .code bound child)) =
            isDottedName (rendered child) :=
        fun child found => below child (Tree.mem_children_of_field? found)
      rw [enter_of_kind_ne (by rw [isMember]; decide)]
      simp only [(shows_rendered _).has, field?_rendered, object, property,
        has_resolve (expansion?_eq_none (by rw [isMember]; decide))]
      cases found : (TypeScript.Tree.node token value children).field? "object" with
      | none => rfl
      | some child =>
        simp only [Option.map_some, Option.any_some]
        rw [same child found]
    · simp only [beq_eq_false_iff_ne.mpr isMember, Bool.false_and]

theorem mirrors_caseLabel (copied : Copied swap .code bound tree part copy) :
    Echoes swap bound (caseLabel part) (caseLabel copy) := by
  have source : part.unparenthesized = rendered tree.unparenthesized := by
    rw [copied.part_eq]
    exact Tree.unparenthesized_annotate rendering tree
  have twin : copy.unparenthesized =
      rendered (enter swap.old swap.new .code bound tree).unparenthesized := by
    rw [copied.copy_eq]
    exact Tree.unparenthesized_annotate rendering _
  have inside : (enter swap.old swap.new .code bound tree).unparenthesized =
        enter swap.old swap.new .code bound tree.unparenthesized ∨
      isTypeKind tree.unparenthesized.kind := unparenthesized_enter tree
  unfold caseLabel
  dsimp only
  rcases inside with same | isType
  · rw [source, twin, same]
    have label : Copied swap .code bound tree.unparenthesized (rendered tree.unparenthesized)
        (rendered (enter swap.old swap.new .code bound tree.unparenthesized)) :=
      ⟨copied.reflected.unparenthesized, rfl, rfl⟩
    rw [label.kind, isNegativeNumber_congr label, isDottedName_enter]
    split
    · exact label.expression
    split
    · rename_i isNegative
      have isUnary : (rendered tree.unparenthesized).kind = "unary_expression" := by
        simp only [isNegativeNumber, Bool.and_eq_true, beq_iff_eq] at isNegative
        exact isNegative.1.1
      rw [label.twins.sameText isUnary (by decide)]
      exact mirrors_pure rfl
    · split
      · exact label.expression
      · exact mirrors_guard fun _ => mirrors_refusal
  · -- A type is no label, so nothing comes of it.
    have kind : part.unparenthesized.kind = tree.unparenthesized.kind := by
      rw [source, kind_rendered]
    have rows : ∀ kind ∈ ["number", "string", "true", "false", "null", "unary_expression",
        "member_expression"], isTypeKind kind = false := by decide
    have other : part.unparenthesized.kind ∉ ["number", "string", "true", "false", "null",
        "unary_expression", "member_expression"] := by
      intro member
      rw [← kind, rows _ member] at isType
      exact Bool.noConfusion isType
    simp only [mem_cons, not_mem_nil, or_false, not_or] at other
    rw [if_neg (by simp [other]), if_neg (by simp [isNegativeNumber, other]),
      if_neg (by simp [other])]
    split
    all_goals exact mirrors_refusal

end Labels

section Bodies

theorem terminates_eq (part : Part) :
    terminates part =
      (isJump part || part.kind == "statement_block" && part.named.getLast?.any terminates) := by
  obtain ⟨token, value, children⟩ := part
  rw [terminates_node, named_eq_namedAmong]
  rfl

theorem terminates_enter (tree : Node) :
    terminates (rendered (enter swap.old swap.new .code bound tree)) =
      terminates (rendered tree) := by
  induction tree using Tree.tree_induction generalizing bound with
  | node token value children below =>
    rw [terminates_eq, terminates_eq, isJump, isJump, kind_rendered_enter]
    by_cases isBlock : (rendered (.node token value children)).kind = "statement_block"
    · rw [kind_rendered] at isBlock
      rw [enter_of_kind_ne (by rw [isBlock]; decide), named_rendered,
        named_rendered, named_block isBlock, getLast?_map, getLast?_map]
      obtain ⟨inside, last⟩ := getLast?_thread (introduces swap.old)
        (enter swap.old swap.new .code) bound (TypeScript.Tree.node token value children).named
      rw [last]
      cases found : (TypeScript.Tree.node token value children).named.getLast? with
      | none => rfl
      | some child =>
        have member := Tree.mem_children_of_mem_named (mem_of_getLast? found)
        simp only [Option.map_some, Option.any_some]
        rw [below child member]
    · simp only [beq_eq_false_iff_ne.mpr isBlock, Bool.false_and]

namespace Sequenced

variable {nodes : List Node} {parts copies : List Part}
variable (sequenced : Sequenced swap bound nodes parts copies)
include sequenced

theorem last {last : Part} (found : parts.getLast? = some last) :
    ∃ inside node twin, copies.getLast? = some twin ∧ Copied swap .code inside node last twin := by
  rw [sequenced.parts_eq, getLast?_map] at found
  obtain ⟨node, foundNode, rfl⟩ := Option.map_eq_some_iff.mp found
  obtain ⟨inside, lastCopy⟩ := getLast?_thread (introduces swap.old)
    (enter swap.old swap.new .code) bound nodes
  refine ⟨inside, node, _, ?_, sequenced.reflected node (mem_of_getLast? foundNode), rfl, rfl⟩
  rw [sequenced.copies_eq, getLast?_map, lastCopy, foundNode]
  rfl

theorem noLast (absent : parts.getLast? = none) : copies.getLast? = none := by
  have isEmpty := sequenced.isEmpty
  rw [getLast?_eq_none_iff] at absent ⊢
  rw [absent, List.isEmpty_nil, List.isEmpty_iff] at isEmpty
  exact isEmpty

theorem terminates : copies.getLast?.any terminates = parts.getLast?.any Lower.terminates := by
  cases found : parts.getLast? with
  | none => rw [sequenced.noLast found]
  | some last =>
    obtain ⟨inside, node, twin, foundTwin, copied⟩ := sequenced.last found
    rw [foundTwin, Option.any_some, Option.any_some, copied.copy_eq, copied.part_eq,
      terminates_enter]

theorem openedBody :
    ∃ inner, Sequenced swap bound inner (openedBody parts) (Lower.openedBody copies) := by
  obtain ⟨reflected, rfl, rfl⟩ := sequenced
  match nodes with
  | [] => exact ⟨[], reflected, rfl, rfl⟩
  | [node] =>
    have copied : Copied swap .code bound node (rendered node)
      (rendered (enter swap.old swap.new .code bound node)) :=
      ⟨reflected node (.head _), rfl, rfl⟩
    change ∃ inner, Sequenced swap bound inner
      (if (rendered node).kind == "statement_block" then (rendered node).named else [rendered node])
      (if (rendered (enter swap.old swap.new .code bound node)).kind == "statement_block" then
        (rendered (enter swap.old swap.new .code bound node)).named
      else [rendered (enter swap.old swap.new .code bound node)])
    rw [copied.kind]
    split
    · rename_i isBlock
      have isBlock : (rendered node).kind = "statement_block" := eq_of_beq isBlock
      exact ⟨node.named, .of_block (copied.code isBlock (by decide)) isBlock⟩
    · exact ⟨[node], reflected, rfl, rfl⟩
  | node :: next :: rest => exact ⟨node :: next :: rest, reflected, rfl, rfl⟩

theorem withoutBreak :
    ∃ inner, Sequenced swap bound inner (withoutBreak parts) (Lower.withoutBreak copies) := by
  have shorter : Sequenced swap bound nodes.dropLast parts.dropLast copies.dropLast := by
    obtain ⟨reflected, rfl, rfl⟩ := sequenced
    refine ⟨fun node member => reflected node (dropLast_subset _ member), ?_, ?_⟩
    · rw [map_dropLast]
    · rw [← dropLast_thread, map_dropLast]
  rw [Lower.withoutBreak, Lower.withoutBreak]
  cases found : parts.getLast? with
  | none =>
    rw [sequenced.noLast found]
    exact ⟨nodes, sequenced⟩
  | some last =>
    obtain ⟨inside, node, twin, foundTwin, copied⟩ := sequenced.last found
    rw [foundTwin]
    dsimp only
    rw [copied.kind]
    by_cases isBreak : last.kind = "break_statement"
    · have twins := copied.code isBreak (by decide)
      have label : twin.field? "label" = last.field? "label" := by
        have kind : node.kind = "break_statement" := by rw [← copied.kind_part, isBreak]
        rw [twins.copied.field?, twins.source.field?, Tree.field?,
          children_of_not_mem (by rw [kind]; decide), Tree.field?]
      rw [label]
      split
      · exact ⟨nodes.dropLast, shorter⟩
      · exact ⟨nodes, sequenced⟩
    · simp only [beq_eq_false_iff_ne.mpr isBreak, Bool.false_and, Bool.false_eq_true, ↓reduceIte]
      exact ⟨nodes, sequenced⟩

end Sequenced

end Bodies

section Arms

/-- A clause and its copy: the same label, and statements that mirror each other. -/
structure ClauseCopied (swap : Swap) (bound : Bool)
    (clause twin : Clause Part) : Prop where
  label : twin.label = clause.label
  body : ∃ nodes, Sequenced swap bound nodes clause.body twin.body

/-- An arm and its copy: the same labels, and statements that mirror each other. -/
structure ArmCopied (swap : Swap) (bound : Bool) (arm twin : Arm Part) :
    Prop where
  labels : twin.labels = arm.labels
  isDefault : twin.isDefault = arm.isDefault
  body : ∃ nodes, Sequenced swap bound nodes arm.body twin.body

theorem mirrors_switchClause (copied : Copied swap .clause bound tree part copy) :
    Mirrors swap bound bound (ClauseCopied swap bound) (switchClause part) (switchClause copy) := by
  have twins := copied.apart (by decide)
  have body : Sequenced swap bound (tree.fields "body") (part.fields "body")
      (copy.fields "body") := by
    refine ⟨fun node member => ?_, twins.source.fields "body", ?_⟩
    · exact twins.parts node (Tree.mem_children_of_mem_named (Tree.mem_named_of_mem_fields member))
    · rw [twins.copied.fields, fields_clause]
  unfold switchClause
  rw [copied.kind]
  split
  · refine twins.each field?_clause mirrors_refusal_bind fun _ inner => ?_
    refine mirrors_next (mirrors_caseLabel inner) fun text => ?_
    exact mirrors_pure ⟨rfl, _, body⟩
  · split
    · exact mirrors_pure ⟨rfl, _, body⟩
    · exact mirrors_refusal_bind

theorem forall₂_arms {clauses twins : List (Clause Part)}
    (paired : Forall₂ (ClauseCopied swap bound) clauses twins) :
    Forall₂ (ArmCopied swap bound) (arms openedBody clauses) (arms openedBody twins) := by
  induction paired with
  | nil => exact .nil
  | @cons clause twin clauses twins head _ rest_paired =>
    obtain ⟨label, nodes, sequenced⟩ := head
    rw [arms, arms, sequenced.isEmpty]
    split
    · cases ours : arms openedBody clauses with
      | nil =>
        rw [ours] at rest_paired
        rw [forall₂_nil_left_iff.mp rest_paired]
        refine .cons ⟨?_, ?_, [], by simp, rfl, rfl⟩ .nil
        · rw [Clause.arm, label, Clause.arm]
        · rw [Clause.arm, label, Clause.arm]
      | cons next others =>
        rw [ours] at rest_paired
        obtain ⟨nextTwin, otherTwins, nextCopied, othersPaired, same⟩ :=
          forall₂_cons_left_iff.mp rest_paired
        rw [same]
        refine .cons ⟨?_, ?_, nextCopied.body⟩ othersPaired
        · rw [Arm.joining, label, nextCopied.labels, Arm.joining]
        · rw [Arm.joining, label, nextCopied.isDefault, Arm.joining]
    · refine .cons ⟨?_, ?_, sequenced.openedBody⟩ rest_paired
      · rw [Clause.arm, label, Clause.arm]
      · rw [Clause.arm, label, Clause.arm]

theorem fallsThrough?_eq_none {ours theirs : List (Arm Part)}
    (paired : Forall₂ (ArmCopied swap bound) ours theirs)
    (ends : fallsThrough? terminates ours = none) : fallsThrough? terminates theirs = none := by
  induction paired with
  | nil => rfl
  | @cons arm twin rest twins head tail rest_ends =>
    cases tail with
    | nil => rfl
    | cons next others =>
      obtain ⟨_, _, nodes, sequenced⟩ := head
      rw [fallsThrough?] at ends ⊢
      rw [sequenced.isEmpty, sequenced.terminates]
      split at ends
      · cases ends
      rename_i keeps
      rw [if_neg keeps]
      exact rest_ends ends

theorem mirrors_armCode {arm twin : Arm Part} (copied : ArmCopied swap bound arm twin)
    (heading : String) : Echoes swap bound (armCode heading arm) (armCode heading twin) := by
  obtain ⟨_, _, _, sequenced⟩ := copied
  obtain ⟨_, inner⟩ := sequenced.withoutBreak
  unfold armCode
  exact mirrors_map (mirrors_withScope (mirrors_withJump .switch (mirrors_statements inner)))

theorem forall₂_getLast? {α β : Type} {held : α → β → Prop} {items : List α} {twins : List β}
    (paired : Forall₂ held items twins) :
    Forall₂ held items.getLast?.toList twins.getLast?.toList := by
  induction paired with
  | nil => exact .nil
  | cons head tail rest_paired =>
    cases tail with
    | nil => exact .cons head .nil
    | cons next others => exact rest_paired

theorem mirrors_switchCode {ours theirs : List (Arm Part)} (subject : String)
    (paired : Forall₂ (ArmCopied swap bound) ours theirs) :
    Echoes swap bound (switchCode subject ours) (switchCode subject theirs) := by
  have cases : Forall₂ (ArmCopied swap bound) (ours.filter (!·.isDefault))
      (theirs.filter (!·.isDefault)) :=
    rel_filter (fun arm twin copied => by simp [copied.isDefault]) paired
  have default : Forall₂ (ArmCopied swap bound) (ours.filter (·.isDefault))
      (theirs.filter (·.isDefault)) :=
    rel_filter (fun arm twin copied => by simp [copied.isDefault]) paired
  unfold switchCode
  refine mirrors_next (mirrors_forEach_eq (chained_of_forall₂ cases fun arm twin copied => ?_))
    fun codes => ?_
  · have heading : twin.heading = arm.heading := by rw [Arm.heading, copied.labels, Arm.heading]
    rw [heading]
    exact mirrors_armCode copied _
  · refine mirrors_map (mirrors_forEach_eq ?_)
    exact chained_of_forall₂ (forall₂_getLast? default) fun arm twin copied =>
      mirrors_armCode copied _

theorem mirrors_switchStatement (twins : Twins swap .code bound tree part copy)
    (same : part.kind = "switch_statement") :
    Echoes swap bound (switchStatement part) (switchStatement copy) := by
  have becomes : swap.Becomes .code bound tree "body" .clauses bound := twins.plain same (by decide)
  unfold switchStatement
  refine twins.eachCode same "value" (by decide) mirrors_refusal fun valueCopied => ?_
  refine twins.each becomes mirrors_refusal fun _ bodyCopied => ?_
  refine mirrors_next valueCopied.expression fun subject => ?_
  have clauses := (bodyCopied.apart (by decide)).named children_clauses
  refine mirrors_bind (mirrors_forEach (chained_of_forall₂ clauses fun _ _ clause =>
    mirrors_switchClause clause.choose_spec)) fun ours theirs paired => ?_
  have arms := forall₂_arms paired
  dsimp only
  split
  · exact mirrors_unsupportedToken
  rename_i ends
  rw [fallsThrough?_eq_none arms ends]
  exact mirrors_switchCode _ arms

end Arms

end Haxify.Lower
