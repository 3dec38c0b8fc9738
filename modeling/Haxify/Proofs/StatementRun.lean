import Haxify.Proofs.Frame

/-!
# Which statements run

Statements run one behind the other up to the first jump; a block runs what it holds. The
run of a list of statements is what a switch is compared by before and after lowering.
Main statement: no break is ever among the statements that run in an arm of a lowered
switch, because a break that would leave the switch is refused.
-/

namespace Haxify.Lower

open List
open TypeScript (Tree Node)

variable {body : List Part} {part : Part} {code : List Haxe.Code}
variable {α : Type} {node : TypeScript.Tree α} {first second : List (TypeScript.Tree α)}
  {state after : State} {context : Context}

/-- Whether control never comes behind a statement because it is a jump. -/
def isJump (statement : TypeScript.Tree α) : Bool :=
  ["break_statement", "return_statement", "throw_statement", "continue_statement"].contains
    statement.kind

/-- Whether a child of a node stands for something that runs; comments and tokens do not. -/
def isStatement (node : TypeScript.Tree α) : Bool := node.isNamed && node.kind != "comment"

/-- What runs of two lists of statements one behind the other: the second only if the first
holds no jump. -/
def followedBy (first second : List (TypeScript.Tree α)) : List (TypeScript.Tree α) :=
  if first.any isJump then first else first ++ second

mutual

def runOf : TypeScript.Tree α → List (TypeScript.Tree α)
  | .node token value children =>
    if token.kind == "statement_block" then runAll children else [.node token value children]

/-- The statements that run when several nodes run in order, the first jump included and
nothing behind it. -/
def runAll : List (TypeScript.Tree α) → List (TypeScript.Tree α)
  | [] => []
  | node :: rest => followedBy (if isStatement node then runOf node else []) (runAll rest)

end

theorem followedBy_of_any (jumps : first.any isJump)
    (second : List (TypeScript.Tree α)) : followedBy first second = first := if_pos jumps

theorem followedBy_of_not_any (runsOn : first.any isJump = false)
    (second : List (TypeScript.Tree α)) : followedBy first second = first ++ second := by
  rw [followedBy, runsOn]
  rfl

@[simp] theorem followedBy_nil (first : List (TypeScript.Tree α)) :
    followedBy first [] = first := by
  by_cases jumps : first.any isJump
  · exact followedBy_of_any jumps []
  · rw [followedBy_of_not_any ((Bool.not_eq_true _).mp jumps), append_nil]

@[simp] theorem nil_followedBy (second : List (TypeScript.Tree α)) :
    followedBy [] second = second := rfl

theorem mem_or_mem_of_mem_followedBy
    (member : node ∈ followedBy first second) : node ∈ first ∨ node ∈ second := by
  rw [followedBy] at member
  split at member
  · exact .inl member
  · exact mem_append.mp member

theorem followedBy_assoc (first second third : List (TypeScript.Tree α)) :
    followedBy (followedBy first second) third = followedBy first (followedBy second third) := by
  by_cases jumps : first.any isJump
  · simp only [followedBy_of_any jumps]
  · have runsOn := (Bool.not_eq_true _).mp jumps
    simp only [followedBy_of_not_any runsOn]
    rw [followedBy, any_append, runsOn, Bool.false_or, followedBy]
    split
    · rfl
    · exact append_assoc first second third

theorem runOf_of_ne (plain : node.kind ≠ "statement_block") : runOf node = [node] := by
  cases node with
  | node token value children =>
    have other : (token.kind == "statement_block") = false := by
      rw [beq_eq_false_iff_ne]
      exact plain
    rw [runOf, other]
    rfl

theorem runOf_of_eq (block : node.kind = "statement_block") :
    runOf node = runAll node.children := by
  cases node with
  | node token value children =>
    have same : (token.kind == "statement_block") = true := beq_iff_eq.mpr block
    rw [runOf, same]
    rfl

theorem runAll_append (first second : List (TypeScript.Tree α)) :
    runAll (first ++ second) = followedBy (runAll first) (runAll second) := by
  induction first with
  | nil => rfl
  | cons node rest rest_append =>
    rw [cons_append, runAll, rest_append, runAll, followedBy_assoc]

theorem runAll_filter (nodes : List (TypeScript.Tree α)) :
    runAll (nodes.filter isStatement) = runAll nodes := by
  induction nodes with
  | nil => rfl
  | cons node rest rest_filter =>
    by_cases statement : isStatement node
    · rw [filter_cons_of_pos statement, runAll, runAll, rest_filter]
    · rw [filter_cons_of_neg statement, rest_filter, runAll, if_neg statement, nil_followedBy]

theorem named_eq_filter (node : TypeScript.Tree α) :
    node.named = node.children.filter isStatement := by
  rw [Tree.named, Tree.parts, filter_filter]
  rfl

theorem isStatement_of_mem_named {part : TypeScript.Tree α} (member : part ∈ node.named) :
    isStatement part := by
  rw [named_eq_filter] at member
  exact (mem_filter.mp member).2

theorem runAll_named (node : TypeScript.Tree α) : runAll node.named = runAll node.children := by
  rw [named_eq_filter, runAll_filter]

theorem runAll_singleton (statement : isStatement node) : runAll [node] = runOf node := by
  rw [runAll, if_pos statement, runAll, followedBy_nil]

theorem isStatement_openedBody
    (statements : ∀ part ∈ body, isStatement part) (member : part ∈ openedBody body) :
    isStatement part := by
  rcases mem_openedBody member with own | ⟨block, _, _, below⟩
  · exact statements part own
  · exact isStatement_of_mem_named below

theorem runAll_openedBody (statements : ∀ part ∈ body, isStatement part) :
    runAll (openedBody body) = runAll body := by
  rw [openedBody.eq_def]
  split
  · rename_i only
    split
    · rename_i block
      rw [runAll_named, runAll_singleton (statements only (.head _)), runOf_of_eq (eq_of_beq block)]
    · rfl
  · rfl

theorem any_runAll_of_getLast? {nodes : List (TypeScript.Tree α)}
    (ends : (nodes.filter isStatement).getLast?.any fun last => (runOf last).any isJump) :
    (runAll nodes).any isJump := by
  induction nodes with
  | nil => simp at ends
  | cons node rest rest_ends =>
    rw [runAll]
    by_cases statement : isStatement node
    · rw [if_pos statement]
      by_cases jumps : (runOf node).any isJump
      · rw [followedBy_of_any jumps]
        exact jumps
      · have runsOn := (Bool.not_eq_true _).mp jumps
        rw [followedBy_of_not_any runsOn, any_append, runsOn, Bool.false_or]
        apply rest_ends
        rw [filter_cons_of_pos statement] at ends
        cases behind : rest.filter isStatement with
        | nil =>
          rw [behind] at ends
          exact absurd ends jumps
        | cons next others =>
          rw [behind] at ends
          exact ends
    · rw [if_neg statement, nil_followedBy]
      apply rest_ends
      rwa [filter_cons_of_neg statement] at ends

theorem terminates_node (token : TypeScript.Token) (value : Rendering) (children : List Part) :
    terminates (.node token value children) =
      (isJump (TypeScript.Tree.node token value children) || token.kind == "statement_block" &&
        (children.filter isStatement).getLast?.any terminates) := by
  have kept (value : TypeScript.Token → List (TypeScript.Tree Bool) → Bool) :
      ((fun part : TypeScript.Tree Bool => part.isNamed && part.kind != "comment") ∘
          Tree.annotate value) = (isStatement : Part → Bool) := by
    funext part
    simp [isStatement, Tree.isNamed, Tree.kind]
  rw [terminates, Tree.annotate_node, Tree.value, filter_map, kept, getLast?_map, Option.any_map]
  rfl

theorem any_runOf_of_terminates {statement : Part} (ends : terminates statement) :
    (runOf statement).any isJump := by
  induction statement using Tree.tree_induction with
  | node token value children below =>
    rw [terminates_node, Bool.or_eq_true, Bool.and_eq_true] at ends
    rcases ends with jump | ⟨block, last⟩
    · have plain : (TypeScript.Tree.node token value children).kind ≠ "statement_block" := by
        intro block
        rw [isJump, block] at jump
        simp at jump
      rw [runOf_of_ne plain, any_cons, jump]
      rfl
    · have same : (TypeScript.Tree.node token value children).kind = "statement_block" :=
        eq_of_beq block
      rw [runOf_of_eq same, Tree.children]
      apply any_runAll_of_getLast?
      cases found : (children.filter isStatement).getLast? with
      | none => simp [found] at last
      | some final =>
        rw [found] at last
        have member := mem_of_mem_getLast? (Option.mem_def.mpr found)
        exact below final (mem_filter.mp member).1 last

def IsRendered (part : Part) : Prop := ∃ tree : Node, rendered tree = part

namespace IsRendered

theorem child {node : Part} (made : IsRendered node) (member : part ∈ node.children) :
    IsRendered part := by
  obtain ⟨tree, rfl⟩ := made
  rw [rendered, Tree.children_annotate] at member
  obtain ⟨source, _, same⟩ := mem_map.mp member
  exact ⟨source, same⟩

theorem named {node : Part} (made : IsRendered node) (member : part ∈ node.named) :
    IsRendered part := made.child (Tree.mem_children_of_mem_named member)

theorem value_eq {node : Part} (made : IsRendered node) :
    node.value = rendering node.token node.children := by
  obtain ⟨tree, rfl⟩ := made
  rw [rendered, Tree.value_annotate, Tree.token_annotate]

theorem framed {node : Part} (made : IsRendered node) : framing.Accepts node := by
  obtain ⟨tree, rfl⟩ := made
  exact (rendered_framed tree).top

end IsRendered

/-- A node that, rendered as a statement of a switch, has no break among what it runs. -/
def RefusesBreak (part : Part) : Prop :=
  ∀ (context : Context) (state : State) (code : List Haxe.Code) (after : State),
    part.value.statement.evaluate context state = (.ok code, after) →
      leftBy state.jumps = some .switch →
        ∀ statement ∈ runOf part, statement.kind ≠ "break_statement"

/-- Statements of a switch that each refuse a break have none among what they run. The jump
targets are those of the switch at every one of them, because each keeps the frame. -/
theorem runAll_no_break {parts : List Part} {codes : List (List Haxe.Code)}
    (each : ∀ part ∈ parts, RefusesBreak part ∧ framing.Accepts part)
    (run : (forEach parts fun part => part.value.statement).evaluate context state =
      (.ok codes, after)) (inside : leftBy state.jumps = some .switch) :
    ∀ statement ∈ runAll parts, statement.kind ≠ "break_statement" := by
  induction parts generalizing state codes with
  | nil => simp [runAll]
  | cons part rest rest_none =>
    obtain ⟨code, between, others, head, tail, _⟩ := forEach_cons_eq_ok.mp run
    obtain ⟨refuses, framed⟩ := each part (.head _)
    have same : between.jumps = state.jumps := by
      have kept := (framed_statement framed context state).jumps
      rwa [head] at kept
    have behind := rest_none (fun other member => each other (.tail _ member)) tail
      (by rw [same]; exact inside)
    have first : ∀ statement ∈ (if isStatement part then runOf part else []),
        statement.kind ≠ "break_statement" := by
      split
      · exact refuses context state code between head inside
      · simp
    intro statement member
    rw [runAll] at member
    rcases mem_or_mem_of_mem_followedBy member with here | later
    · exact first statement here
    · exact behind statement later

theorem evaluate_breakStatement_ne_ok {node : Part} (inside : leftBy state.jumps = some .switch) :
    (breakStatement node).evaluate context state ≠ (.ok code, after) := by
  intro run
  obtain ⟨_, ⟨_, left⟩, _⟩ := breakStatement_eq_ok.mp run
  cases left.symm.trans inside

theorem blockStatement_eq_ok {node : Part}
    (run : (blockStatement node).evaluate context state = (.ok code, after)) :
    ∃ codes inside, (forEach node.named fun part => part.value.statement).evaluate context
      { state with scopes := [] :: state.scopes } = (.ok codes, inside) := by
  obtain ⟨body, _, block, _⟩ := Lowering.bind_eq_ok.mp run
  obtain ⟨inside, listed, _⟩ := Lowering.withScope_eq_ok.mp block
  obtain ⟨codes, between, each, _⟩ := Lowering.bind_eq_ok.mp listed
  exact ⟨codes, between, each⟩

theorem IsRendered.refusesBreak (made : IsRendered part) : RefusesBreak part := by
  induction part using Tree.tree_induction with
  | node token value children below =>
    intro context state code after run inside
    have rule : (TypeScript.Tree.node token value children).value.statement =
        renderStatement (partOf token children) := by
      rw [made.value_eq]
      rfl
    rw [rule, renderStatement] at run
    by_cases block : token.kind = "statement_block"
    · have found : statementRules.lookup (partOf token children).kind = some blockStatement := by
        rw [show (partOf token children).kind = "statement_block" from block]
        rfl
      rw [found] at run
      obtain ⟨codes, _, each⟩ := blockStatement_eq_ok run
      rw [runOf_of_eq (show (TypeScript.Tree.node token value children).kind = _ from block),
        ← runAll_named]
      refine runAll_no_break (fun child member => ?_) each inside
      have listed : child ∈ children := Tree.mem_children_of_mem_named member
      exact ⟨below child listed (made.child listed), (made.child listed).framed⟩
    · by_cases leaves : token.kind = "break_statement"
      · have found : statementRules.lookup (partOf token children).kind = some breakStatement := by
          rw [show (partOf token children).kind = "break_statement" from leaves]
          rfl
        rw [found] at run
        exact absurd run (evaluate_breakStatement_ne_ok inside)
      · rw [runOf_of_ne (show (TypeScript.Tree.node token value children).kind ≠ _ from block)]
        intro statement member
        rw [mem_singleton.mp member]
        exact leaves

end Haxify.Lower
