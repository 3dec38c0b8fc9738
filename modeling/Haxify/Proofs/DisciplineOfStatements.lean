import Haxify.Proofs.DisciplineOfExpressions
import Mathlib.Data.List.Forall2

/-!
# The discipline of statements

One statement for each rule, as for expressions, and from them one for every node of a
rendered tree: what is accepted passes from the nodes below a node to the node. Of a switch,
only those statements are settled that are written: where two clauses are defaults, the
statements of the first are dropped.
-/

namespace Haxify.Lower

open List
open Haxe (Balanced Unmarked balanced_joinWith Code)
open Haxe.Code (Closed)
open TypeScript (Slot grammar Tree Node)
open TypeScript.Tree (forall_of_eq_none forall_of_eq_some forall_of_filter forall_of_imp ofClauses)

variable {body : List Part} {part : Part} {holds : Part → Prop} {all : List (Arm Part)}
  {field : String}
variable {α : Type} {law : Discipline} {around : List Jump} {node : Part}

theorem allowed_statements {parts : List Part} (covered : ∀ part ∈ parts, law.Covers part)
    (admitted : ∀ part ∈ parts, law.Admits ⟨around, part⟩) :
    law.Makes around Closed (∀ part ∈ parts, law.Settles ⟨around, part⟩) (statements parts) :=
  makes_map (allowed_each fun part member =>
    (covered part member).top.statement (admitted part member)) (fun _ each => .flatten each) id

section Switches

theorem allowed_caseLabel (covered : law.Covers node) (plain : law.legible →
      isNegativeNumber node.unparenthesized → Unmarked node.unparenthesized.text) :
    law.Vets around node.unparenthesized Balanced (caseLabel node) := by
  have inside := covered.unparenthesized
  simp only [caseLabel]
  split
  · exact inside.top.expression
  split
  · rename_i isNegative
    have text (legible : law.legible) := (unmarked_without (plain legible isNegative) ' ').balanced
    simp only [isNegativeNumber, Bool.and_eq_true, beq_iff_eq, Option.any_eq_true] at isNegative
    obtain ⟨⟨isUnary, _⟩, argument, found, isNumber⟩ := isNegative
    exact makes_pure text (settled_argument (by simp [isUnary, prefixKinds]) found
      (settled_of_quiet (by rw [isNumber]; decide)))
  · split
    · exact inside.top.expression
    · exact allowed_guard fun _ => allowed_refusal

/-- What is known of a clause that is read: its statements, whether it is a default, and that
its label is settled. -/
structure ReadsClause (law : Discipline) (node : Part) (clause : Clause Part) : Prop where
  isClause : node.kind ∈ ["switch_case", "switch_default"]
  body : clause.body = node.fields "body"
  isDefault : clause.label.isNone = (node.kind == "switch_default")
  label : node.kind = "switch_case" → ∀ part ∈ Slot.label.pick node, law.Settled part
  text : law.legible → ∀ label ∈ clause.label, Balanced label

theorem allowed_switchClause (covered : law.Covers node) :
    law.Allows around (ReadsClause law node) (switchClause node) := by
  rw [switchClause]
  dsimp only
  split
  · rename_i isCase
    have same := eq_of_beq isCase
    split
    · rename_i label found
      refine allowed_bind (allowed_caseLabel (covered.field found) fun legible =>
        (covered.top.sound legible).legible.label same label found) fun text both => ?_
      rw [pure_bind]
      exact allowed_pure ⟨by simp [same], rfl, by simp [same], fun _ =>
        forall_of_eq_some (by rw [found]; rfl) both.2, fun legible => by simpa using both.1 legible⟩
    · exact allowed_bind (allowed_refusal) fun _ (read : ReadsClause _ _ _) =>
        allowed_pure read
  · split
    · rename_i isDefault
      have same := eq_of_beq isDefault
      rw [pure_bind]
      exact allowed_pure ⟨by simp [same], rfl, by simp [same], by simp [same], by simp⟩
    · exact allowed_bind (allowed_refusal) fun _ (read : ReadsClause _ _ _) =>
        allowed_pure read

theorem mem_of_mem_withoutBreak (member : part ∈ withoutBreak body) : part ∈ body := by
  rw [withoutBreak] at member
  split at member
  · split at member
    · exact (dropLast_sublist body).subset member
    · exact member
  · exact member

theorem mem_openedBody (member : part ∈ openedBody body) :
    part ∈ body ∨ ∃ block ∈ body, block.kind = "statement_block" ∧ part ∈ block.named := by
  rw [openedBody.eq_def] at member
  split at member
  · rename_i only
    split at member
    · exact .inr ⟨only, .head _, eq_of_beq ‹_›, member⟩
    · exact .inl member
  · exact .inl member

variable {opened : List α → List α} {clauses : List (Clause α)} {arm : Arm α}

/-- What holds of the arms that clauses make by themselves, and of an arm that a clause is put in
front of, holds of all arms. -/
theorem arms_induction {holds : Arm α → Prop}
    (own : ∀ clause ∈ clauses, ∀ body ∈ [[], opened clause.body], holds (clause.arm body))
    (joining : ∀ clause ∈ clauses, ∀ arm, holds arm → holds (arm.joining clause)) :
    ∀ arm ∈ arms opened clauses, holds arm := by
  induction clauses with
  | nil => simp [arms]
  | cons clause rest rest_holds =>
    rw [forall_mem_cons] at own joining
    have others := rest_holds own.2 joining.2
    rw [arms]
    split
    · split
      · exact forall_mem_singleton.mpr (own.1 _ (.head _))
      · rename_i next more joined
        rw [joined, forall_mem_cons] at others
        exact forall_mem_cons.mpr ⟨joining.1 _ others.1, others.2⟩
    · exact forall_mem_cons.mpr ⟨own.1 _ (.tail _ (.head _)), others⟩

theorem mem_arms_body {holds : α → Prop} {part : α}
    (every : ∀ clause ∈ clauses, ∀ part ∈ opened clause.body, holds part)
    (member : arm ∈ arms opened clauses) (inside : part ∈ arm.body) : holds part := by
  have all := @arms_induction α opened clauses fun arm => ∀ part ∈ arm.body, holds part
  refine all (fun clause listed body made => ?_) (fun _ _ _ before => before) arm member part inside
  rcases mem_pair.mp made with rfl | rfl
  · exact fun _ within => absurd within not_mem_nil
  · exact every clause listed

theorem mem_arms_labels {holds : String → Prop}
    (every : ∀ clause ∈ clauses, ∀ label ∈ clause.label, holds label)
    (member : arm ∈ arms opened clauses) : ∀ label ∈ arm.labels, holds label := by
  have own (clause : Clause α) (listed : clause ∈ clauses) :
      ∀ label ∈ clause.label.toList, holds label := fun label within =>
    every clause listed label (Option.mem_toList.mp within)
  exact arms_induction (fun clause listed _ _ => own clause listed) (fun clause listed _ before =>
    forall_mem_append.mpr ⟨own clause listed, before⟩) arm member

theorem switchClause_eq_ok {context : Context} {state after : State} {clause : Clause Part}
    (run : (switchClause node).evaluate context state = (.ok clause, after)) :
    clause.body = node.fields "body" ∧
      ((node.kind = "switch_case" ∧ ∃ label text, node.field? "value" = some label ∧
          (caseLabel label).evaluate context state = (.ok text, after) ∧ clause.label = some text) ∨
        (node.kind = "switch_default" ∧ clause.label = none)) := by
  rw [switchClause] at run
  dsimp only at run
  split at run
  · rename_i isCase
    split at run
    · rename_i label found
      obtain ⟨text, between, read, rest⟩ := Lowering.bind_eq_ok.mp run
      rw [pure_bind] at rest
      obtain ⟨rfl, rfl⟩ := Lowering.pure_eq_ok.mp rest
      exact ⟨rfl, .inl ⟨eq_of_beq isCase, label, text, found, read, rfl⟩⟩
    · obtain ⟨_, _, failed, _⟩ := Lowering.bind_eq_ok.mp run
      simp at failed
  · split at run
    · rename_i isDefault
      rw [pure_bind] at run
      obtain ⟨rfl, rfl⟩ := Lowering.pure_eq_ok.mp run
      exact ⟨rfl, .inr ⟨eq_of_beq isDefault, rfl⟩⟩
    · obtain ⟨_, _, failed, _⟩ := Lowering.bind_eq_ok.mp run
      simp at failed

/-- The statements of those arms have a property that are no default or have no default behind
them; `shared` says whether the first arm shares its statements with a default before it. -/
def Kept (holds : Part → Prop) (shared : Bool) : List (Arm Part) → Prop
  | [] => True
  | arm :: rest =>
    (((shared || arm.isDefault) && rest.any (·.isDefault)) = false →
      ∀ part ∈ withoutBreak arm.body, holds part) ∧ Kept holds false rest

theorem kept_of_written
    (cases : ∀ arm ∈ all, arm.isDefault = false → ∀ part ∈ withoutBreak arm.body, holds part)
    (default : ∀ arm, (all.filter (·.isDefault)).getLast? = some arm →
      ∀ part ∈ withoutBreak arm.body, holds part) : Kept holds false all := by
  induction all with
  | nil => trivial
  | cons arm rest rest_kept =>
    refine ⟨fun kept => ?_, rest_kept (fun other member => cases other (.tail _ member)) ?_⟩
    · rw [Bool.false_or, Bool.and_eq_false_iff] at kept
      rcases kept with ordinary | last
      · exact cases arm (.head _) ordinary
      · by_cases isDefault : arm.isDefault
        · refine default arm ?_
          have none : rest.filter (·.isDefault) = [] := by simpa using last
          rw [filter_cons_of_pos isDefault, none]
          rfl
        · exact cases arm (.head _) (by simpa using isDefault)
    · intro other found
      refine default other ?_
      rw [filter_cons]
      split
      · rw [getLast?_cons, found, Option.getD_some]
      · exact found

theorem any_isDefault_arms (opened : List α → List α) (clauses : List (Clause α)) :
    (arms opened clauses).any (·.isDefault) = clauses.any (·.label.isNone) := by
  induction clauses with
  | nil => rfl
  | cons clause rest rest_any =>
    rw [arms, any_cons, ← rest_any]
    split
    · split
      · rename_i empty
        simp [empty, Clause.arm]
      · rename_i next others joined
        simp [joined, Arm.joining, Bool.or_assoc]
    · rfl

theorem holds_of_mem_clauseLines {shared : Bool} {nodes : List Part}
    {clauses : List (Clause Part)} (settled : ∀ part, law.Settled part → holds part)
    (read : Forall₂ (ReadsClause law) nodes clauses)
    (kept : Kept holds shared (arms openedBody clauses)) :
    ∀ part ∈ clauseLines shared nodes, holds part := by
  rw [clauseLines]
  induction read generalizing shared with
  | nil => simp [ofClauses]
  | @cons node clause nodes clauses first others others_hold =>
    have defaults : nodes.any (·.kind == "switch_default") =
        (arms openedBody clauses).any (·.isDefault) := by
      rw [any_isDefault_arms]
      clear others_hold kept
      induction others with
      | nil => rfl
      | cons read _ same => rw [any_cons, any_cons, read.isDefault, same]
    have head : ∀ part ∈ clauseHead node, holds part := by
      intro part member
      rw [clauseHead] at member
      split at member
      · exact settled part (first.label (eq_of_beq ‹_›) part member)
      rename_i noCase
      have isDefault : node.kind = "switch_default" := by
        simpa [beq_iff_eq.not.mp noCase] using first.isClause
      simp [isDefault] at member
    simp only [ofClauses, ← first.isDefault, ← first.body, defaults]
    rw [arms] at kept
    by_cases empty : clause.body.isEmpty
    · rw [if_pos empty] at kept ⊢
      have none : withoutBreak (openedBody clause.body) = [] := by rw [isEmpty_iff.mp empty]; rfl
      rw [none, append_nil]
      refine forall_mem_append.mpr ⟨head, others_hold ?_⟩
      split at kept
      · rename_i none
        rw [none]
        trivial
      · rename_i next later joined
        rw [joined]
        refine ⟨fun free => kept.1 ?_, kept.2⟩
        rw [Arm.joining, ← Bool.or_assoc]
        exact free
    · rw [if_neg empty] at kept ⊢
      obtain ⟨own, rest⟩ := kept
      split
      · exact forall_mem_append.mpr ⟨head, others_hold rest⟩
      · rename_i free
        have body := own (Bool.not_eq_true _ ▸ free)
        exact forall_mem_append.mpr ⟨forall_mem_append.mpr ⟨head, body⟩, others_hold rest⟩

theorem allowed_armCode {heading : String} {arm : Arm Part}
    (head : law.legible → Balanced heading)
    (covered : ∀ part ∈ arm.body, law.Covers part ∧ law.Admits ⟨.switch :: around, part⟩) :
    law.Makes around Closed (∀ part ∈ withoutBreak arm.body, law.Settles ⟨.switch :: around, part⟩)
      (armCode heading arm) := by
  rw [armCode]
  refine makes_map (law.scope (law.jump .switch (by decide) (allowed_statements ?_ ?_)))
    (fun legible inside => ?_) id
  · exact fun part member => (covered part (mem_of_mem_withoutBreak member)).1
  · exact fun part member => (covered part (mem_of_mem_withoutBreak member)).2
  · simp [Closed, (head legible).read, inside.read]

theorem allowed_switchCode {subject : String}
    (head : law.legible → Balanced subject)
    (labels : law.legible → ∀ arm ∈ all, ∀ label ∈ arm.labels, Balanced label)
    (covered : ∀ arm ∈ all, ∀ part ∈ arm.body,
      law.Covers part ∧ law.Admits ⟨.switch :: around, part⟩) :
    law.Makes around Closed (Kept (fun part => law.Settles ⟨.switch :: around, part⟩) false all)
      (switchCode subject all) := by
  rw [switchCode]
  refine makes_bind (allowed_each fun arm member => allowed_armCode (fun legible => ?_)
    (covered arm (mem_filter.mp member).1)) fun _ first cases => ?_
  · exact ((by decide : Balanced "case ").append (balanced_joinWith (by decide)
      (labels legible arm (mem_filter.mp member).1))).append (by decide)
  refine makes_map (allowed_each fun arm member => allowed_armCode (fun _ => by decide) ?_)
    (fun legible last => ?_)
    fun default => kept_of_written (fun arm member ordinary => ?_) fun arm found => ?_
  · have listed := mem_of_mem_getLast? (Option.mem_toList.mp member)
    exact covered arm (mem_filter.mp listed).1
  · exact Code.closed_block ((by decide : Balanced "switch ").append (head legible))
      ((Closed.flatten (first legible)).append (Closed.flatten last))
  · exact cases arm (mem_filter.mpr ⟨member, by simpa using ordinary⟩)
  · exact default arm (Option.mem_toList.mpr found)

theorem admits_clause {body clause : Part} (isSwitch : node.kind = "switch_statement")
    (found : node.field? "body" = some body) (admitted : law.Admits ⟨around, node⟩)
    (member : clause ∈ body.named) : law.Admits ⟨.switch :: around, clause⟩ := by
  have target : Site.part ⟨around, node⟩ body = ⟨.switch :: around, body⟩ :=
    part_body .switch (by simp [isSwitch, bodyTargets]) found
  have field : body.token.field = "body" := by simpa using find?_some found
  have stands := mem_inner_of_passed around
    (Tree.mem_children_of_field? found) (by simp [Site.isPassed, isSwitch, field])
    (Tree.mem_children_of_mem_named member)
  rw [target] at stands
  exact admits_of_mem_inner admitted stands

theorem exists_mem_of_forall₂ {β : Type} {relates : α → β → Prop} {items : List α}
    {results : List β} {item : α} (related : Forall₂ relates items results)
    (member : item ∈ items) : ∃ result ∈ results, relates item result := by
  induction related with
  | nil => cases member
  | cons first _ rest_related =>
    rcases mem_cons.mp member with rfl | later
    · exact ⟨_, .head _, first⟩
    · obtain ⟨result, listed, found⟩ := rest_related later
      exact ⟨result, .tail _ listed, found⟩

theorem covers_openedBody (isClause : node.kind ∈ ["switch_case", "switch_default"])
    (covered : law.Covers node) (admitted : law.Admits ⟨around, node⟩)
    (member : part ∈ openedBody (node.fields "body")) :
    law.Covers part ∧ law.Admits ⟨around, part⟩ := by
  have plain : ∀ kind ∈ ["switch_case", "switch_default"], kind ∉ shiftingKinds := by decide
  have own {part : Part} (listed : part ∈ node.fields "body") :
      law.Covers part ∧ law.Admits ⟨around, part⟩ :=
    have named := Tree.mem_named_of_mem_fields listed
    ⟨covered.named named,
      admits_plain (plain _ isClause) admitted (Tree.mem_children_of_mem_named named)⟩
  rcases mem_openedBody member with here | ⟨block, found, isBlock, below⟩
  · exact own here
  · exact ⟨(own found).1.named below, admits_block isBlock (own found).2 part below⟩

theorem allowed_switchStatement (isSwitch : node.kind = "switch_statement")
    (covered : law.Covers node) (admitted : law.Admits ⟨around, node⟩) :
    law.Tracks around node Closed (switchStatement node) := by
  rw [switchStatement]
  split
  · rename_i value body foundValue foundBody
    have inside := covered.field foundBody
    refine makes_bind (covered.field foundValue).top.expression fun subject head settledValue => ?_
    have clause : ∀ part ∈ body.named, law.Allows around (fun clause =>
        (law.Covers part ∧ law.Admits ⟨.switch :: around, part⟩) ∧ ReadsClause law part clause)
        (switchClause part) := fun part member =>
      allowed_imp (allowed_switchClause (inside.named member)) fun _ read =>
        ⟨⟨inside.named member, admits_clause isSwitch foundBody admitted member⟩, read⟩
    refine allowed_bind (allowed_forEach clause) fun clauses read => ?_
    have bodies : ∀ clause ∈ clauses, ∀ part ∈ openedBody clause.body,
        law.Covers part ∧ law.Admits ⟨.switch :: around, part⟩ := by
      intro clause listed
      obtain ⟨source, _, ⟨known, stands⟩, reads⟩ := exists_mem_of_forall₂ read.flip listed
      rw [reads.body]
      exact fun part => covers_openedBody reads.isClause known stands
    have labels (legible : law.legible) :
        ∀ arm ∈ arms openedBody clauses, ∀ label ∈ arm.labels, Balanced label := by
      refine fun arm => mem_arms_labels fun clause listed => ?_
      obtain ⟨_, _, _, reads⟩ := exists_mem_of_forall₂ read.flip listed
      exact reads.text legible
    dsimp only
    split
    · exact allowed_unsupportedToken
    refine makes_imp (allowed_switchCode (fun legible => Haxe.balanced_parenthesize (head legible))
      labels fun arm member part => mem_arms_body bodies member) fun kept => ?_
    refine settles_of_covered [.field "value", .listed "body" "switch_body"] isSwitch
      (by simp [grammar]) (.cons (forall_of_eq_some foundValue (settledValue _))
        (.cons (forall_of_filter foundBody fun isBody => ?_) .nil))
    rw [part_body .switch (by simp [isSwitch, bodyTargets]) foundBody]
    have same := eq_of_beq isBody
    refine settles_of_parts (by simp [Tree.isUnlowerable,
      Tree.unlowerableKinds, same]) (by simp [same]) fun part member => ?_
    rw [loweredParts, same] at member
    rw [part_plain (by rw [same]; decide)]
    exact holds_of_mem_clauseLines (fun part settled => settled _)
      (read.imp fun _ _ known => known.2) kept part member
  · exact allowed_refusal

end Switches

section Bodies

/-- Kinds of nodes with code in the first child alone. -/
def wrapperKinds : List String :=
  ["expression_statement", "else_clause", "return_statement", "throw_statement"]

theorem settles_wrapper (isWrapper : node.kind ∈ wrapperKinds)
    (settles : ∀ part ∈ Slot.first.pick node, law.Settles ⟨around, part⟩) :
    law.Settles ⟨around, node⟩ := by
  have row : ∀ kind ∈ wrapperKinds, (kind, [.first]) ∈ grammar := by simp [wrapperKinds, grammar]
  have plain : ∀ kind ∈ wrapperKinds, kind ∉ shiftingKinds := by decide
  exact settles_of_plain _ rfl (row _ isWrapper) (plain _ isWrapper) (.cons settles .nil)

theorem settled_wrapper (isWrapper : node.kind ∈ wrapperKinds)
    (settled : ∀ part ∈ Slot.first.pick node, law.Settled part) : law.Settled node :=
  fun _ => settles_wrapper isWrapper fun part member => settled part member _

theorem settled_declarator {name : Part} (isDeclarator : node.kind = "variable_declarator")
    (found : node.field? "name" = some name) (settledName : law.Settled name)
    (settledValue : ∀ part ∈ (Slot.field "value").pick node, law.Settled part) : law.Settled node :=
  settled_of_covered [.field "name", .field "value"] isDeclarator (by simp [grammar])
    (.cons (forall_of_eq_some found settledName) (.cons settledValue .nil))

def variableKinds : List String := ["lexical_declaration", "variable_declaration"]

theorem settled_declaration (isDeclaration : node.kind ∈ variableKinds)
    (settled : ∀ part ∈ node.named.filter (·.kind == "variable_declarator"), law.Settled part) :
    law.Settled node := by
  have row : ∀ kind ∈ variableKinds, (kind, [.everyOf ["variable_declarator"]]) ∈ grammar := by
    simp [variableKinds, grammar]
  refine settled_of_covered _ rfl (row _ isDeclaration)
    (.cons (fun part member => settled part ?_) .nil)
  simpa [Slot.pick] using member

variable (covered : law.Covers node)
include covered

theorem allowed_blockStatements (isBlock : node.kind = "statement_block")
    (admitted : law.Admits ⟨around, node⟩) :
    law.Tracks around node Closed (blockStatements node) :=
  law.scope (makes_imp (allowed_statements (fun _ member => covered.named member)
    (admits_block isBlock admitted)) (settles_block isBlock))

theorem allowed_bodyOf (field : String)
    (admitted : ∀ part, node.field? field = some part → law.Admits ⟨around, part⟩) :
    law.Makes around Closed (∀ part ∈ (Slot.field field).pick node, law.Settles ⟨around, part⟩)
      (bodyOf (node.field? field)) := by
  rw [bodyOf.eq_def]
  split
  · rename_i part found
    have inside := covered.field found
    have stands := admitted part found
    split
    · exact makes_imp (allowed_blockStatements inside (eq_of_beq ‹_›) stands) fun settles =>
        forall_of_eq_some found settles
    · exact makes_imp (law.scope (inside.top.statement stands)) fun settles =>
        forall_of_eq_some found settles
  · exact makes_pure (fun _ => closed_nil) (forall_of_eq_none ‹_›)

theorem allowed_loopBody (jump : Jump) (listed : (node.kind, jump) ∈ bodyTargets)
    (admitted : law.Admits ⟨around, node⟩) :
    law.Makes around Closed (∀ part ∈ (Slot.field "body").pick node,
      law.Settles (Site.part ⟨around, node⟩ part)) (loopBody jump node) := by
  have each : ∀ entry ∈ bodyTargets, entry.2 ≠ .function := by decide
  have stands {part : Part} (found : node.field? "body" = some part) :
      Site.part ⟨around, node⟩ part = ⟨jump :: around, part⟩ := part_body jump listed found
  refine law.jump jump (each _ listed) ?_
  refine makes_imp (allowed_bodyOf covered "body" fun part found => ?_) fun settles => ?_
  · exact stands found ▸ admits_part admitted (Tree.mem_children_of_field? found)
  · intro part member
    rw [stands (Option.mem_toList.mp member)]
    exact settles part member

theorem allowed_condition :
    law.VetsAll around ((Slot.field "condition").pick node) Balanced (condition node) := by
  rw [condition]
  split
  · rename_i part found
    exact makes_map (covered.field found).top.expression
      (fun _ text => Haxe.balanced_parenthesize text) (forall_of_eq_some found)
  · exact allowed_refusal

theorem allowed_expressionLine : law.Vets around node Closed (expressionLine node) := by
  rw [expressionLine]
  split
  · rename_i pattern source found
    rw [patternAssigned?] at found
    split at found
    · rename_i isAssignment
      have isOperation : node.kind ∈ operationKinds := by
        simp [eq_of_beq isAssignment, operationKinds]
      split at found
      · rename_i left right foundLeft foundRight
        split at found
        · cases found
          exact makes_map
            (allowed_destructure (.inl rfl) (covered.field foundLeft) (covered.field foundRight))
            (fun _ taken => closed_stepLines taken.2)
            fun settled => settled_operation isOperation foundLeft settled.1 foundRight settled.2
        · cases found
      · cases found
    · cases found
  · exact makes_map covered.top.expression (fun _ text => closed_statement text) id

theorem allowed_expressionStatement (isStatement : node.kind ∈ wrapperKinds) :
    law.Vets around node Closed (expressionStatement node) := by
  rw [expressionStatement]
  split
  · exact makes_pure (fun _ => closed_nil) (settled_wrapper isStatement (forall_of_eq_none ‹_›))
  rename_i expression found
  have inside := covered.first found
  dsimp only
  split
  · rename_i isSequence
    refine makes_map (allowed_each fun part member => allowed_expressionLine (inside.named member))
      (fun _ each => .flatten each)
      fun settled => settled_wrapper isStatement (forall_of_eq_some found ?_)
    exact settled_of_covered [.every] (eq_of_beq isSequence) (by simp [grammar])
      (.cons settled .nil)
  · refine makes_map (allowed_each fun part member => ?_) (fun _ each => .flatten each)
      fun settled => settled_wrapper isStatement
        (forall_of_eq_some found (settled expression (.head _)))
    rw [mem_singleton.mp member]
    exact allowed_expressionLine inside

theorem allowed_declarator (free : .function ∉ around) (isConstant : Bool)
    (isDeclarator : node.kind = "variable_declarator") :
    law.Vets around node Closed (declarator isConstant node) := by
  rw [declarator]
  split
  · exact allowed_refusal
  rename_i name foundName
  split
  · rename_i isName
    have settledName : law.Settled name := settled_name (eq_of_beq isName)
    have word : Unmarked (if isConstant then "final" else "var") := by cases isConstant <;> decide
    rw [nameDeclarator]
    refine allowed_bind (law.binding _ free) fun _ _ => ?_
    refine allowed_view (fun agrees => ?_) fun view spelled => ?_
    · simp only [typeSuffix_congr agrees covered.typed]
    have head (legible : law.legible) := ((word.append
      (by decide : Unmarked " ")).append (Haxe.unmarked_sanitize name.text)).balanced.append
      (balanced_typeSuffix (spelled legible) (covered.sound legible) "type")
    dsimp only
    split
    · rename_i value found
      exact makes_map (covered.field found).top.expression
        (fun legible text => closed_statement (((head legible).append (by decide)).append text))
        fun settled =>
          settled_declarator isDeclarator foundName settledName (forall_of_eq_some found settled)
    · exact makes_pure (fun legible => closed_statement (head legible))
        (settled_declarator isDeclarator foundName settledName (forall_of_eq_none ‹_›))
  · split
    · exact allowed_refusal
    rename_i value found
    exact makes_map
      (allowed_destructure (.inr free) (covered.field foundName) (covered.field found))
      (fun _ taken => closed_stepLines taken.2) fun settled =>
        settled_declarator isDeclarator foundName settled.1 (forall_of_eq_some found settled.2)

theorem allowed_declaration (free : .function ∉ around)
    (isDeclaration : node.kind ∈ variableKinds) :
    law.Vets around node Closed (declaration node) := by
  refine makes_map (allowed_each fun part member => ?_) (fun _ each => .flatten each)
    (settled_declaration isDeclaration)
  obtain ⟨inside, isDeclarator⟩ := mem_filter.mp member
  exact allowed_declarator (covered.named inside) free _ (eq_of_beq isDeclarator)

end Bodies

section Branches

theorem admits_passed {branch : Part} (plain : node.kind ∉ shiftingKinds)
    (passed : (node.kind, field) ∈ [("if_statement", "alternative"), ("switch_statement", "body"),
      ("try_statement", "handler")])
    (found : node.field? field = some branch) (admitted : law.Admits ⟨around, node⟩)
    (member : part ∈ branch.children) : law.Admits ⟨around, part⟩ := by
  have same : branch.token.field = field := by simpa using find?_some found
  have stands := mem_inner_of_passed around (Tree.mem_children_of_field? found)
    (by simpa [Site.isPassed, same] using passed) member
  rw [part_plain plain] at stands
  exact admits_of_mem_inner admitted stands

theorem allowed_caughtName (free : .function ∉ around) (field : String) (node : Part) :
    law.VetsAll around ((Slot.field field).pick node) Unmarked
      (caughtName (node.field? field)) := by
  rw [caughtName.eq_def]
  split
  · exact makes_pure (fun _ => by decide) (forall_of_eq_none ‹_›)
  rename_i parameter found
  split
  · exact allowed_bind (law.binding _ free) fun _ _ =>
      makes_pure (fun _ => Haxe.unmarked_sanitize _)
      (forall_of_eq_some found (settled_name (eq_of_beq ‹_›)))
  · exact allowed_refusal

variable (covered : law.Covers node)
include covered

theorem allowed_loopStart (field : String)
    (admitted : ∀ part, node.field? field = some part → law.Admits ⟨around, part⟩) :
    law.Makes around Closed (∀ part ∈ (Slot.field field).pick node, law.Settles ⟨around, part⟩)
      (loopStart (node.field? field)) := by
  rw [loopStart.eq_def]
  split
  · exact makes_pure (fun _ => closed_nil) (forall_of_eq_none ‹_›)
  rename_i start found
  have inside := covered.field found
  split
  · exact makes_imp (inside.top.statement (admitted start found)) fun settles =>
      forall_of_eq_some found settles
  · split
    · rename_i isEmpty
      rw [Bool.or_eq_true, beq_iff_eq, beq_iff_eq] at isEmpty
      refine makes_pure (fun _ => closed_nil) (forall_of_eq_some found (settled_of_quiet ?_ _))
      rcases isEmpty with same | same <;> rw [same] <;> decide
    · exact makes_imp (allowed_expressionLine inside) fun settled =>
        forall_of_eq_some found (settled _)

theorem allowed_loopCondition (field : String) :
    law.VetsAll around ((Slot.field field).pick node) Balanced
      (loopCondition (node.field? field)) := by
  have always (_ : law.legible) : Balanced "true" := by decide
  rw [loopCondition.eq_def]
  split
  · exact makes_pure always (forall_of_eq_none ‹_›)
  rename_i condition found
  have inside := covered.field found
  split
  · rename_i isStatement
    have isWrapper : condition.kind ∈ wrapperKinds := by
      simp [eq_of_beq isStatement, wrapperKinds]
    split
    · rename_i expression first
      exact makes_imp (inside.first first).top.expression fun settled =>
        forall_of_eq_some found (settled_wrapper isWrapper (forall_of_eq_some first settled))
    · exact makes_pure always
        (forall_of_eq_some found (settled_wrapper isWrapper (forall_of_eq_none ‹_›)))
  · split
    · exact makes_imp inside.top.expression (forall_of_eq_some found)
    -- Neither an empty statement nor a mere semicolon holds code.
    rename_i isEmpty
    refine makes_pure always (forall_of_eq_some found ?_)
    by_cases isNamed : condition.isNamed
    · refine settled_of_quiet ?_
      have same : condition.kind = "empty_statement" := by simpa [isNamed] using isEmpty
      rw [same]
      decide
    · exact settled_of_not_isNamed (by simpa using isNamed)

theorem allowed_loopStep (field : String) :
    law.VetsAll around ((Slot.field field).pick node) Closed (loopStep (node.field? field)) := by
  rw [loopStep.eq_def]
  split
  · rename_i step found
    exact makes_imp (allowed_expressionLine (covered.field found)) (forall_of_eq_some found)
  · exact makes_pure (fun _ => closed_nil) (forall_of_eq_none ‹_›)

theorem allowed_loopVariable (free : .function ∉ around) (mode : BindingMode) :
    law.Vets around node (fun bound => Unmarked bound.1 ∧ Closed bound.2)
      (loopVariable mode node) := by
  rw [loopVariable]
  split
  · exact allowed_bind (law.binding _ free) fun _ _ => makes_pure
      (fun _ => ⟨Haxe.unmarked_sanitize _, closed_nil⟩) (settled_name (eq_of_beq ‹_›))
  split
  · refine allowed_bind allowed_freshTemp fun temp plain => ?_
    exact makes_map (allowed_unpackFrom (.inr free) (fun _ => plain) covered)
      (fun _ steps => ⟨plain, closed_stepLines steps⟩) id
  · exact allowed_refusal

theorem allowed_returnStatement (isReturn : node.kind ∈ wrapperKinds) :
    law.Vets around node Closed (returnStatement node) := by
  rw [returnStatement]
  split
  · rename_i value found
    exact makes_map (covered.first found).top.expression
      (fun _ text => closed_statement ((by decide : Balanced "return ").append text))
      fun settled => settled_wrapper isReturn (forall_of_eq_some found settled)
  · exact makes_pure (fun _ => closed_line (by decide))
      (settled_wrapper isReturn (forall_of_eq_none ‹_›))

theorem allowed_throwStatement (isThrow : node.kind ∈ wrapperKinds) :
    law.Vets around node Closed (throwStatement node) := by
  rw [throwStatement]
  split
  · rename_i value found
    exact makes_map (covered.first found).top.expression
      (fun _ text => closed_statement ((by decide : Balanced "throw ").append text))
      fun settled => settled_wrapper isThrow (forall_of_eq_some found settled)
  · exact allowed_refusal

theorem allowed_localFunction (free : .function ∉ around) (isFunction : node.kind ∈ functionKinds) :
    law.Vets around node Closed (localFunction node) := by
  have line (name : String) : law.Vets around node Closed (do
      return [.line (← namedFunction "" name node)]) :=
    makes_map (allowed_namedFunction (by decide) name isFunction covered)
      (fun _ text => closed_line text) id
  simp only [localFunction]
  split
  · exact allowed_bind (law.binding _ free) fun _ _ => line _
  · exact line _

variable (admitted : law.Admits ⟨around, node⟩)
include admitted

theorem allowed_otherwise (isConditional : node.kind = "if_statement") :
    law.Makes around ClosesBranch (∀ part ∈ (Slot.listed "alternative" "else_clause").pick node,
      law.Settles ⟨around, part⟩) (otherwise node) := by
  rw [otherwise]
  split
  · rename_i next found
    obtain ⟨branch, foundBranch, first⟩ := Option.bind_eq_some_iff.mp found
    have stands : law.Admits ⟨around, next⟩ :=
      admits_passed (by rw [isConditional]; decide) (by simp [isConditional]) foundBranch admitted
        (Tree.mem_children_of_mem_named (Tree.mem_named_of_first? first))
    refine makes_imp (((covered.field foundBranch).first first).top.alternative stands)
      fun settles => forall_of_filter foundBranch fun isElse => ?_
    exact settles_wrapper (by simp [eq_of_beq isElse, wrapperKinds])
      (forall_of_eq_some first settles)
  · rename_i missing
    refine makes_pure (by simp [ClosesBranch]) (forall_of_imp fun branch given => ?_)
    obtain ⟨found, isElse⟩ := Option.filter_eq_some_iff.mp given
    exact settles_wrapper (by simp [eq_of_beq isElse, wrapperKinds])
      (forall_of_eq_none (by simpa [found] using missing))

omit covered in
theorem admits_field (plain : node.kind ∉ shiftingKinds) :
    ∀ part, node.field? field = some part → law.Admits ⟨around, part⟩ := fun _ found =>
  admits_plain plain admitted (Tree.mem_children_of_field? found)

theorem allowed_conditional {opening : String} {opened : List Char}
    (start : ∀ rest, (Haxe.Reader.code opened).read (opening.toList ++ rest) =
      (Haxe.Reader.code []).read rest) (isConditional : node.kind = "if_statement") :
    law.Tracks around node (fun code => Code.readAll opened code = some [])
      (conditional opening node) := by
  rw [conditional]
  refine makes_bind (allowed_condition covered) fun _ balanced condition => ?_
  refine makes_bind (allowed_bodyOf covered _
    (admits_field admitted (by rw [isConditional]; decide))) fun _ inside consequence => ?_
  refine makes_map (allowed_otherwise covered admitted isConditional) (fun legible last => ?_)
    fun alternative => ?_
  · simp +decide [start, (balanced legible).read_append, (inside legible).read, last]
  · exact settles_of_plain
      [.field "condition", .field "consequence", .listed "alternative" "else_clause"] isConditional
      (by simp [grammar]) (by decide) (.cons (fun part member => condition part member _)
        (.cons consequence (.cons alternative .nil)))

theorem allowed_renderAlternative {statement : Lowering (List Code)}
    (plain : law.Tracks around node Closed statement) :
    law.Tracks around node ClosesBranch (renderAlternative node statement) := by
  rw [renderAlternative]
  split
  · exact allowed_conditional covered admitted (by simp +decide) (eq_of_beq ‹_›)
  split
  · exact makes_map (allowed_blockStatements covered (eq_of_beq ‹_›) admitted)
      (fun _ inside => closesBranch_braces inside) id
  · exact makes_map (law.scope plain) (fun _ inside => closesBranch_braces inside) id

theorem allowed_whileStatement (isLoop : node.kind = "while_statement") :
    law.Tracks around node Closed (whileStatement node) := by
  rw [whileStatement]
  refine makes_bind (allowed_condition covered) fun _ balanced condition => ?_
  refine makes_map (allowed_loopBody covered _ (by simp [isLoop, bodyTargets]) admitted)
    (fun legible inside => ?_) fun body => ?_
  · exact Code.closed_block ((by decide : Balanced "while ").append (balanced legible)) inside
  · exact settles_of_covered [.field "condition", .field "body"] isLoop (by simp [grammar])
      (.cons (fun part member => condition part member _) (.cons body .nil))

theorem allowed_doStatement (isLoop : node.kind = "do_statement") :
    law.Tracks around node Closed (doStatement node) := by
  rw [doStatement]
  refine makes_bind (allowed_loopBody covered _ (by simp [isLoop, bodyTargets]) admitted)
    fun _ inside body => ?_
  refine makes_map (allowed_condition covered) (fun legible balanced => ?_) fun condition => ?_
  · simp +decide [Closed, (inside legible).read, balanced.read_append]
  · exact settles_of_covered [.field "body", .field "condition"] isLoop (by simp [grammar])
      (.cons body (.cons (fun part member => condition part member _) .nil))

theorem allowed_forStatement (isLoop : node.kind = "for_statement") :
    law.Tracks around node Closed (forStatement node) := by
  have stands {part : Part} (found : node.field? "initializer" = some part) :
      Site.part ⟨around, node⟩ part = ⟨around, part⟩ :=
    part_field (by rw [isLoop]; decide) found (by decide)
  refine law.scope ?_
  refine makes_bind (allowed_loopStart covered "initializer" fun part found =>
    stands found ▸ admits_part admitted (Tree.mem_children_of_field? found))
    fun _ first start => ?_
  refine makes_bind (allowed_loopCondition covered _) fun _ balanced condition => ?_
  refine makes_bind (allowed_loopBody covered _ (by simp [isLoop, bodyTargets]) admitted)
    fun _ inside body => ?_
  refine makes_map (allowed_loopStep covered _) (fun legible last => ?_) fun step => ?_
  · have head := (by decide : Balanced "while ").append
      (Haxe.balanced_parenthesize (balanced legible))
    exact closed_braces ((first legible).append
      (Code.closed_block head ((inside legible).append last)))
  refine settles_of_covered
    [.field "initializer", .field "condition", .field "increment", .field "body"] isLoop
    (by simp [grammar]) (.cons (fun part member => ?_)
      (.cons (fun part member => condition part member _)
        (.cons (fun part member => step part member _) (.cons body .nil))))
  rw [stands (Option.mem_toList.mp member)]
  exact start part member

theorem allowed_forInStatement (isLoop : node.kind = "for_in_statement") :
    law.Tracks around node Closed (forInStatement node) := by
  rw [forInStatement]
  refine allowed_guard fun _ => ?_
  split
  · rename_i target source foundTarget foundSource
    refine makes_bind (covered.field foundSource).top.expression fun _ along settledSource => ?_
    refine law.scope ?_
    refine makes_bind (allowed_loopVariable (covered.field foundTarget) admitted.1 _)
      fun _ taken settledTarget => ?_
    refine makes_map (allowed_loopBody covered _ (by simp [isLoop, bodyTargets]) admitted)
      (fun legible inside => ?_) fun body => ?_
    · have front := (taken legible).1.balanced
      have items := along legible
      refine Code.closed_block ?_ ((taken legible).2.append inside)
      split <;> simp +decide [Haxe.Balanced, front.read_append, items.read_append]
    exact settles_of_covered [.field "left", .field "right", .field "body"] isLoop
      (by simp [grammar]) (.cons (forall_of_eq_some foundTarget (settledTarget _))
        (.cons (forall_of_eq_some foundSource (settledSource _)) (.cons body .nil)))
  · exact allowed_refusal

theorem allowed_tryStatement (isTry : node.kind = "try_statement") :
    law.Tracks around node Closed (tryStatement node) := by
  have plain : node.kind ∉ shiftingKinds := by
    rw [isTry]
    decide
  rw [tryStatement]
  split
  iterate 2 exact allowed_refusal
  rename_i handler noFinalizer foundHandler
  refine makes_bind (allowed_bodyOf covered _ (admits_field admitted plain))
    fun _ inside body => ?_
  have handled : law.Makes around (fun caught => Unmarked caught.1 ∧ Closed caught.2)
      ((∀ part ∈ (Slot.field "parameter").pick handler, law.Settled part) ∧
        ∀ part ∈ (Slot.field "body").pick handler, law.Settles ⟨around, part⟩)
      (do
        let name ← caughtName (handler.field? "parameter")
        return (name, ← bodyOf (handler.field? "body"))) := by
    refine makes_bind (allowed_caughtName admitted.1 "parameter" handler)
      fun _ named parameter => ?_
    refine makes_map (allowed_bodyOf (covered.field foundHandler) "body" fun part found => ?_)
      (fun legible within => ⟨named legible, within⟩) (⟨parameter, ·⟩)
    exact admits_passed plain (by simp [isTry]) foundHandler admitted
      (Tree.mem_children_of_field? found)
  refine makes_map (law.scope handled) (fun legible caught => ?_) fun settles => ?_
  · have name := caught.1.balanced
    simp +decide [Closed, (inside legible).read, name.read_append, caught.2.read]
  refine settles_of_plain
    [.field "body", .listed "handler" "catch_clause", .field "finalizer"] isTry
    (by simp [grammar]) (by decide)
    (.cons body (.cons (forall_of_filter foundHandler fun isCatch => ?_)
      (.cons (forall_of_eq_none noFinalizer) .nil)))
  exact settles_of_plain [.field "parameter", .field "body"] (eq_of_beq isCatch)
    (by simp [grammar]) (by decide)
    (.cons (fun part member => settles.1 part member _) (.cons settles.2 .nil))

end Branches

section Rules

theorem settles_jump (isJump : node.kind ∈ ["break_statement", "continue_statement"])
    (permits : law.Permits ⟨around, node⟩) : law.Settles ⟨around, node⟩ := by
  have each : ∀ kind ∈ ["break_statement", "continue_statement"],
      kind ∉ Tree.specialKinds ∧ TypeScript.slots kind = [] := by decide
  obtain ⟨plain, none⟩ := each _ isJump
  refine settles_of_permits permits fun part member => ?_
  have listed := mem_slots_of_mem_loweredParts plain member
  simp [none] at listed

theorem allowed_statementRules (covered : law.Covers node) (admitted : law.Admits ⟨around, node⟩) :
    ∀ rule ∈ statementRules, node.kind = rule.1 → law.Tracks around node Closed (rule.2 node) := by
  have anywhere {body : Lowering (List Code)} (vets : law.Vets around node Closed body) :
      law.Tracks around node Closed body := makes_imp vets fun settled => settled _
  have refused {kind detail : String} (_ : node.kind = kind) :
      law.Tracks around node Closed (refuseStatement detail node) :=
    allowed_refusal
  simp only [statementRules, forall_mem_cons]
  exact ⟨fun same => makes_map (allowed_blockStatements covered same admitted)
      (fun _ inside => closed_braces inside) id,
    fun same => anywhere (allowed_expressionStatement covered (by simp [same, wrapperKinds])),
    fun same => anywhere (allowed_declaration covered admitted.1 (by simp [same, variableKinds])),
    fun same => anywhere (allowed_declaration covered admitted.1 (by simp [same, variableKinds])),
    allowed_conditional covered admitted (by simp +decide),
    allowed_whileStatement covered admitted, allowed_doStatement covered admitted,
    allowed_forStatement covered admitted, allowed_forInStatement covered admitted,
    fun same => allowed_imp (law.gives (law.leave same) (closes_breakStatement node))
      fun _ both => ⟨fun _ => both.1, settles_jump (by simp [same]) both.2⟩,
    fun same => allowed_imp (law.gives (law.restart same (admitted.2 _ .refl))
      (closes_continueStatement node)) fun _ both =>
        ⟨fun _ => both.1, settles_jump (by simp [same]) both.2⟩,
    fun same => anywhere (allowed_returnStatement covered (by simp [same, wrapperKinds])),
    fun same => anywhere (allowed_throwStatement covered (by simp [same, wrapperKinds])),
    fun same => makes_pure (fun _ => closed_nil) (settled_of_quiet (by rw [same]; decide) _),
    fun same => anywhere (allowed_localFunction covered admitted.1 (by simp [same, functionKinds])),
    fun same => allowed_switchStatement same covered admitted,
    allowed_tryStatement covered admitted, refused, refused, refused, refused, refused,
      refused, by simp⟩

theorem allowed_renderStatement (covered : law.Covers node) (admitted : law.Admits ⟨around, node⟩) :
    law.Tracks around node Closed (renderStatement node) := by
  rw [renderStatement]
  split
  · rename_i rule found
    exact allowed_statementRules covered admitted (node.kind, rule) (mem_of_lookup found) rfl
  · exact allowed_refusal

end Rules

section Trees

variable {token : TypeScript.Token} {children : List Part}

theorem admits_partOf {value : Rendering}
    (admitted : law.Admits ⟨around, .node token value children⟩) :
    law.Admits ⟨around, partOf token children⟩ := by
  refine ⟨admitted.1, fun other contained => ?_⟩
  rcases contained.cases_head with rfl | ⟨next, member, rest⟩
  · exact law.expected (admitted.2 _ .refl)
  · exact admitted.2 other (.head member rest)

theorem settles_of_partOf (value : Rendering)
    (settles : law.Settles ⟨around, partOf token children⟩) :
    law.Settles ⟨around, .node token value children⟩ := by
  intro isNamed other contained
  rcases contained.cases_head with rfl | ⟨next, member, rest⟩
  · exact law.permitted (settles isNamed _ .refl)
  · exact settles isNamed other (.head member rest)

/-- Whether the statements in a function are as they are taken for granted. -/
abbrev Discipline.Hosts (law : Discipline) (node : Part) : Prop :=
  node.kind ∈ callableKinds → law.Admits ⟨[], node⟩

theorem accepts_rendering (below : ∀ child ∈ children, law.Covers child)
    (hosts : law.Hosts (.node token (rendering token children) children))
    (legible : law.legible → Legible (.node token (rendering token children) children)) :
    law.Accepts (.node token (rendering token children) children) := by
  have unknown : law.Accepts (partOf token children) :=
    { type := fun _ _ _ => rfl
      sound := fun here => ⟨⟨(legible here).copied, (legible here).spelled, (legible here).field,
        (legible here).label⟩, fun _ _ => (by decide : Balanced "Dynamic")⟩
      expression := allowed_unsupportedToken
      statement := fun _ => allowed_unsupportedToken
      alternative := fun _ => allowed_unsupportedToken
      unpack := fun _ _ => allowed_unsupportedToken
      function := fun isCallable => admits_partOf (hosts isCallable) }
  have covered : law.Covers (partOf token children) := .node unknown below
  have anywhere {β : Type} {formed : β → Prop} {around : List Jump} {body : Lowering β}
      (vets : law.Vets around (partOf token children) formed body) :
      law.Vets around (.node token (rendering token children) children) formed body :=
    makes_imp vets fun settled _ => settles_of_partOf _ (settled _)
  exact
    { type := fun _ _ agrees => renderType_congr agrees (agrees.spellsTypes _) covered.typed
      sound := fun here => ⟨legible here, fun _ spelled =>
        balanced_renderType spelled (covered.sound here)⟩
      expression := anywhere (allowed_renderExpression covered)
      statement := fun admitted => makes_imp
        (allowed_renderStatement covered (admits_partOf admitted)) (settles_of_partOf _)
      alternative := fun admitted => makes_imp (allowed_renderAlternative covered
        (admits_partOf admitted) (allowed_renderStatement covered (admits_partOf admitted)))
          (settles_of_partOf _)
      unpack := fun free plain => anywhere (allowed_renderUnpack free plain covered)
      function := hosts }

section Rendered

variable (tree : Node)

@[simp] theorem token_rendered : (rendered tree).token = tree.token := Tree.token_annotate ..

@[simp] theorem kind_rendered : (rendered tree).kind = tree.kind := Tree.kind_annotate ..

@[simp] theorem text_rendered : (rendered tree).text = tree.text := Tree.text_annotate ..

@[simp] theorem children_rendered : (rendered tree).children = tree.children.map rendered :=
  Tree.children_annotate ..

@[simp] theorem named_rendered : (rendered tree).named = tree.named.map rendered :=
  Tree.named_annotate ..

@[simp] theorem field?_rendered (field : String) :
    (rendered tree).field? field = (tree.field? field).map rendered := Tree.field?_annotate ..

variable {tree} {part : Node}

theorem rendered_of_field? (found : tree.field? field = some part) :
    (rendered tree).field? field = some (rendered part) := by
  rw [field?_rendered, found]
  rfl

theorem mem_named_rendered (inside : part ∈ tree.named) :
    rendered part ∈ (rendered tree).named := by
  rw [named_rendered]
  exact mem_map_of_mem inside

end Rendered

theorem rendered_covered (tree : Node) (hosts : (rendered tree).Throughout law.Hosts)
    (legible : law.legible → tree.Throughout Legible) : law.Covers (rendered tree) := by
  induction tree using Tree.tree_induction with
  | node token value children below =>
    have top (here : law.legible) := legible_annotate rendering (legible here).top
    simp only [Tree.annotate_node] at top
    rw [rendered, Tree.annotate_node] at hosts ⊢
    have inside : ∀ child ∈ children.map rendered, law.Covers child := by
      intro child member
      obtain ⟨source, listed, rfl⟩ := mem_map.mp member
      exact below source listed (hosts.child (mem_map_of_mem listed))
        fun here => (legible here).child listed
    exact .node (accepts_rendering inside hosts.top top) inside

end Trees

end Haxify.Lower
