import Haxify.Proofs.Switch

/-!
# Switches keep their meaning

The code of a lowered switch is read as a selection: the headings of its cases in order, the
default last, each with the code that its statements have in a switch. Main statement: for
every way in which the subject may equal labels, the statements of the arm that this
selection takes are those that run in the source, but for the two defects described beside
the comparison of clauses and arms.
-/

namespace Haxify.Lower

open List
open TypeScript (Tree Node)
open Lowering

variable {heading subject : String} {body : List Part} {part : Part}
variable {α β : Type} {context : Context} {state after : State} {code : List Haxe.Code}
variable {all : List (Arm Part)}

/-- The code of an arm: its heading and the code that its statements have in a switch. -/
def WritesArm (context : Context) (arm : String × List Part) (code : List Haxe.Code) : Prop :=
  ∃ state body after, leftBy state.jumps = some .switch ∧
    (statements arm.2).evaluate context state = (.ok body, after) ∧
    code = [.line arm.1, .nest body]

/-- The code of a switch on a subject: that of its arms in braces. -/
def Selection.Writes (context : Context) (subject : String) (selection : Selection Part)
    (code : List Haxe.Code) : Prop :=
  ∃ arms, Forall₂ (WritesArm context) selection.headed arms ∧
    code = Haxe.Code.block ("switch " ++ subject) arms.flatten

/-- What a clause of a switch says: a case with the text of its label, or a default, and its
statements. -/
def Clause.Reads (context : Context) (node : Part) (clause : Clause Part) : Prop :=
  clause.body = node.fields "body" ∧
    ((node.kind = "switch_case" ∧ ∃ label text state after, node.field? "value" = some label ∧
        (caseLabel label).evaluate context state = (.ok text, after) ∧ clause.label = some text) ∨
      (node.kind = "switch_default" ∧ clause.label = none))

/-- What a switch is read as and written as: its clauses one by one, and on its subject the
selection that their arms make. -/
structure SwitchLowers (context : Context) (node : Part) (clauses : List (Clause Part))
    (code : List Haxe.Code) : Prop where
  reads : ∃ body, node.field? "body" = some body ∧ Forall₂ (Clause.Reads context) body.named clauses
  writes : ∃ value subject before behind, node.field? "value" = some value ∧
    value.value.expression.evaluate context before = (.ok subject, behind) ∧
    (selectionOf (arms openedBody clauses)).Writes context (Haxe.parenthesize subject) code

theorem forall₂_of_forEach {items : List α} {body : α → Lowering β} {results : List β}
    (run : (forEach items body).evaluate context state = (.ok results, after)) :
    Forall₂ (fun item result => ∃ before behind,
      (body item).evaluate context before = (.ok result, behind)) items results := by
  induction items generalizing state results with
  | nil =>
    obtain ⟨rfl, _⟩ := pure_eq_ok.mp run
    exact .nil
  | cons item rest rest_run =>
    obtain ⟨result, between, others, first, second, rfl⟩ := forEach_cons_eq_ok.mp run
    exact .cons ⟨state, between, first⟩ (rest_run second)

theorem writesArm_of_armCode {arm : Arm Part}
    (run : (armCode heading arm).evaluate context state = (.ok code, after)) :
    WritesArm context (heading, withoutBreak arm.body) code := by
  obtain ⟨body, _, block, finish⟩ := bind_eq_ok.mp run
  obtain ⟨rfl, _⟩ := pure_eq_ok.mp finish
  obtain ⟨_, jumping, _⟩ := withScope_eq_ok.mp block
  obtain ⟨last, listed, _⟩ := withJump_eq_ok.mp jumping
  exact ⟨_, body, last, rfl, listed, rfl⟩

theorem writes_of_switchCode
    (run : (switchCode subject all).evaluate context state = (.ok code, after)) :
    (selectionOf all).Writes context subject code := by
  obtain ⟨cases, _, first, rest⟩ := bind_eq_ok.mp run
  obtain ⟨default, _, second, finish⟩ := bind_eq_ok.mp rest
  obtain ⟨rfl, _⟩ := pure_eq_ok.mp finish
  refine ⟨cases ++ default, ?_, by rw [flatten_append]⟩
  apply rel_append
  · rw [selectionOf, map_map, forall₂_map_left_iff]
    refine (forall₂_of_forEach first).imp ?_
    rintro arm code ⟨_, _, wrote⟩
    exact writesArm_of_armCode wrote
  · rw [selectionOf, Option.toList_map, map_map, forall₂_map_left_iff]
    refine (forall₂_of_forEach second).imp ?_
    rintro arm code ⟨_, _, wrote⟩
    exact writesArm_of_armCode wrote

theorem switchStatement_eq_ok {node : Part}
    (run : (switchStatement node).evaluate context state = (.ok code, after)) :
    ∃ clauses, SwitchLowers context node clauses code ∧
      fallsThrough? terminates (arms openedBody clauses) = none := by
  rw [switchStatement] at run
  split at run
  · rename_i value body foundValue foundBody
    obtain ⟨subject, between, subjectRun, rest⟩ := bind_eq_ok.mp run
    obtain ⟨clauses, _, clausesRun, written⟩ := bind_eq_ok.mp rest
    dsimp only at written
    split at written
    · simp at written
    rename_i stays
    have reads : Forall₂ (Clause.Reads context) body.named clauses := by
      refine (forall₂_of_forEach clausesRun).imp ?_
      rintro node clause ⟨before, behind, read⟩
      obtain ⟨same, isCase | isDefault⟩ := switchClause_eq_ok read
      · obtain ⟨kind, label, text, found, spelled, named⟩ := isCase
        exact ⟨same, .inl ⟨kind, label, text, before, behind, found, spelled, named⟩⟩
      · exact ⟨same, .inr isDefault⟩
    exact ⟨clauses, ⟨⟨body, foundBody, reads⟩, value, subject, state, between, foundValue,
      subjectRun, writes_of_switchCode written⟩, stays⟩
  · simp at run

theorem chosen_mem_headed (selection : Selection α) (equals : String → Bool) :
    selection.chosen equals = [] ∨
      ∃ heading, (heading, selection.chosen equals) ∈ selection.headed := by
  rw [Selection.chosen]
  split
  · rename_i taken found
    have listed := mem_map_of_mem (f := fun arm : List String × List α =>
      ("case " ++ Text.joinWith ", " arm.1 ++ ":", arm.2)) (mem_of_find?_eq_some found)
    exact .inr ⟨_, mem_append_left _ listed⟩
  · cases found : selection.default? with
    | none => exact .inl rfl
    | some body =>
      refine .inr ⟨"default:", mem_append_right _ ?_⟩
      rw [found]
      exact mem_singleton.mpr rfl

theorem mem_arm_of_mem_headed (member : (heading, body) ∈ (selectionOf all).headed) :
    ∃ arm ∈ all, body = withoutBreak arm.body := by
  rcases mem_append.mp member with isCase | isDefault
  · obtain ⟨_, taken, same⟩ := mem_map.mp isCase
    obtain ⟨arm, listed, rfl⟩ := mem_map.mp taken
    exact ⟨arm, (mem_filter.mp listed).1, (Prod.mk.inj same).2.symm⟩
  · obtain ⟨_, taken, same⟩ := mem_map.mp isDefault
    obtain ⟨arm, found, rfl⟩ := Option.map_eq_some_iff.mp (Option.mem_toList.mp taken)
    have listed := mem_of_mem_getLast? (Option.mem_def.mpr found)
    exact ⟨arm, (mem_filter.mp listed).1, (Prod.mk.inj same).2.symm⟩

theorem isRendered_openedBody
    (made : ∀ part ∈ body, IsRendered part) (member : part ∈ openedBody body) :
    IsRendered part := by
  rcases mem_openedBody member with own | ⟨block, found, _, below⟩
  · exact made part own
  · exact (made block found).named below

theorem Selection.Writes.no_break
    (writes : (selectionOf all).Writes context subject code)
    (made : ∀ arm ∈ all, ∀ part ∈ arm.body, IsRendered part) (equals : String → Bool) :
    ∀ statement ∈ runAll ((selectionOf all).chosen equals), statement.kind ≠ "break_statement" := by
  rcases chosen_mem_headed (selectionOf all) equals with nothing | ⟨heading, taken⟩
  · rw [nothing]
    simp [runAll]
  · obtain ⟨codes, written, _⟩ := writes
    obtain ⟨_, _, state, body, after, inside, run, _⟩ := exists_mem_of_forall₂ written taken
    obtain ⟨_, _, each, _⟩ := bind_eq_ok.mp run
    refine runAll_no_break (fun part member => ?_) each inside
    obtain ⟨arm, listed, same⟩ := mem_arm_of_mem_headed taken
    have rendered := made arm listed part (mem_of_mem_withoutBreak (same ▸ member))
    exact ⟨rendered.refusesBreak, rendered.framed⟩

theorem SwitchLowers.body_rendered {node : Part} {clauses : List (Clause Part)}
    (lowers : SwitchLowers context node clauses code)
    (made : IsRendered node) {clause : Clause Part} (member : clause ∈ clauses)
    (inside : part ∈ clause.body) : IsRendered part ∧ isStatement part := by
  obtain ⟨body, found, reads⟩ := lowers.reads
  obtain ⟨source, listed, same, _⟩ := exists_mem_of_forall₂ reads.flip member
  rw [same] at inside
  have named := Tree.mem_named_of_mem_fields inside
  have around := (made.child (Tree.mem_children_of_field? found)).named listed
  exact ⟨around.named named, isStatement_of_mem_named named⟩

namespace Sample

def node (kind field text : String) (children : List Node) : Node :=
  .node ⟨kind, true, false, field, 0, 0, ⟨1, 1⟩, text⟩ () children

def identifier (field name : String) : Node := node "identifier" field name []

def call (name : String) : Node :=
  node "expression_statement" "body" (name ++ "();") [node "call_expression" "" (name ++ "()")
    [identifier "function" name, node "arguments" "arguments" "()" []]]

def leave : Node := node "break_statement" "body" "break;" []

def clause (label : Option String) (body : List Node) : Node :=
  match label with
  | some text => node "switch_case" "" "" (node "number" "value" text [] :: body)
  | none => node "switch_default" "" "" body

def switch (clauses : List Node) : Node :=
  node "switch_statement" "" ""
    [node "parenthesized_expression" "value" "(a)" [identifier "" "a"],
      node "switch_body" "body" "" clauses]

@[simp] theorem text_node (kind field text : String) (children : List Node) :
    (node kind field text children).text = text := rfl

def around (tree : Node) : Context :=
  ⟨⟨none, ⟨""⟩, "", []⟩, .empty, 0,
    ⟨⟨"a.ts"⟩, ⟨"a.ts"⟩, .script, "", tree, ⟨"", "A"⟩, [], .empty⟩, "  ", [], []⟩

def lowered (tree : Node) : Except Unsupported (List Haxe.Code) × State :=
  (switchStatement (rendered tree)).evaluate (around tree) .initial

/-- The texts of what runs of a switch with fall-through, and of the selection that it is
lowered to. -/
def texts (equals : String → Bool) (tree : Node) :
    Except Unsupported (List String × List String) :=
  let parts := ((rendered tree).field? "body").elim [] (·.named)
  ((forEach parts switchClause).evaluate (around tree) .initial).1.map fun clauses =>
    ((sourceRun equals clauses).map (·.text),
      (runAll ((selectionOf (arms openedBody clauses)).chosen equals)).map (·.text))

def emptyBlock : Node :=
  switch [clause (some "1") [node "statement_block" "body" "" []], clause (some "2") [call "f"]]

def sharedDefault : Node :=
  switch [clause (some "1") [], clause none [call "f", leave], clause (some "1") [call "g"]]

end Sample

open Sample

theorem exists_of_isOk {run : Except Unsupported α × State} (accepted : run.1.isOk) :
    ∃ value, run = (.ok value, run.2) := by
  obtain ⟨result, after⟩ := run
  cases result with
  | ok value => exact ⟨value, rfl⟩
  | error reason => simp [Except.isOk, Except.toBool] at accepted

/-- A lowered switch runs what its source runs, whatever labels its subject equals. A subject
that does not stray runs the same statements exactly when it does not enter an empty block
with statements behind it. A subject that strays takes the statements of an arm behind the
one it enters. -/
theorem switchStatement_runs_as_source {tree : Node} {code : List Haxe.Code}
    (run : (switchStatement (rendered tree)).evaluate context state = (.ok code, after)) :
    ∃ clauses, SwitchLowers context (rendered tree) clauses code ∧
      ∀ equals : String → Bool,
        (¬Strays equals (arms openedBody clauses) →
          (sourceRun equals clauses =
              runAll ((selectionOf (arms openedBody clauses)).chosen equals) ↔
            ¬Drains equals (arms openedBody clauses))) ∧
        (Strays equals (arms openedBody clauses) →
          ∃ arm later other, enteredArms equals (arms openedBody clauses) = arm :: later ∧
            other ∈ later ∧
            (selectionOf (arms openedBody clauses)).chosen equals = withoutBreak other.body) := by
  obtain ⟨clauses, lowers, none⟩ := switchStatement_eq_ok run
  have bodies : ∀ clause ∈ clauses, ∀ part ∈ clause.body, IsRendered part ∧ isStatement part :=
    fun clause member part => lowers.body_rendered ⟨tree, rfl⟩ member
  have made : ∀ arm ∈ arms openedBody clauses, ∀ part ∈ arm.body, IsRendered part :=
    fun arm listed part => mem_arms_body (fun clause member part =>
      isRendered_openedBody fun part inside => (bodies clause member part inside).1) listed
  refine ⟨clauses, lowers, fun equals => ⟨fun stays => ?_, chosen_of_strays⟩⟩
  obtain ⟨_, _, _, _, _, _, writes⟩ := lowers.writes
  exact sourceRun_eq_chosen_iff (fun clause member part inside =>
    (bodies clause member part inside).2) none (writes.no_break made equals) stays

/-- A switch with an empty block is lowered, and so has clauses and code. -/
theorem emptyBlock_lowers : ∃ code clauses, lowered emptyBlock =
      (.ok code, (lowered emptyBlock).2) ∧
    SwitchLowers (around emptyBlock) (rendered emptyBlock) clauses code := by
  obtain ⟨code, run⟩ := exists_of_isOk (by decide : (lowered emptyBlock).1.isOk)
  obtain ⟨clauses, lowers, _⟩ := switchStatement_runs_as_source run
  exact ⟨code, clauses, run, lowers⟩

/-- Both defects show: behind an empty block nothing runs, and a label that shares the
statements of the default loses the subject to the same label further down. -/
theorem lowered_switches_run_otherwise :
    (lowered emptyBlock).1.isOk ∧
      (texts (· == "1") emptyBlock).toOption = some (["f();"], []) ∧
      (lowered sharedDefault).1.isOk ∧
      (texts (· == "1") sharedDefault).toOption = some (["f();"], ["g();"]) := by
  decide

end Haxify.Lower
