import Haxify.Proofs.Renaming

/-!
# Code that is lowered is clean

To give something only if everything that is written has a Haxe form is a discipline. What is
written lacks the braces around the statements of a clause and the jump at their end, which have
a Haxe form anyway. Main statement: the code of a lowered file is clean wherever the lowering
looks at it, and in value position altogether where it overlooks nothing.
-/

namespace Haxify.Lower

open List
open TypeScript (Slot slots Tree Node)
open TypeScript.Tree (Clean Covered Reaches clauseParts ofClauses overlooks renderedParts
  specialKinds valueParts clean_of_annotate clean_of_attended forall_of_holdsWithin holdsWithin
  not_clean_of_reachedWithin)

section Discipline

variable {context : Context}

/-- The names that the file imports. -/
def Context.importedNames (context : Context) : List String := context.spellings.map (·.1)

theorem mem_importedNames {view : View} {name member path : String}
    (found : view.moduleMember name member = .ok (some path)) :
    name ∈ view.context.importedNames := by
  cases spelled : view.spelling? name with
  | none => simp [View.moduleMember, spelled] at found
  | some spelling =>
    rw [View.spelling?] at spelled
    split at spelled
    · cases spelled
    · exact mem_map.mpr ⟨(name, spelling), mem_of_lookup spelled, rfl⟩

/-- To give something only if all written code has a Haxe form is a discipline. -/
def refusing (context : Context) : Discipline where
  Allows _ holds body := Gives context holds body
  Expects _ := True
  Permits site := site.node.isUnlowerable = false
  foreign := context.importedNames.contains
  legible := False
  value := gives_pure
  chain := gives_bind
  refusal := gives_throw
  gives allowed known state value after run :=
    ⟨known context state value after run, allowed state value after run⟩
  names _ each := gives_view fun view same => each view (fun _ _ _ found =>
    contains_iff_mem.mpr (same ▸ mem_importedNames found)) False.elim
  surroundings _ each := gives_read (each context False.elim)
  binding _ _ := gives_of_forall fun _ => trivial
  temporary := gives_of_forall fun _ => trivial
  scope := gives_withScope
  jump jump _ := gives_withJump jump
  function inside := gives_withScope (gives_withJump _ inside)
  leave same := gives_of_forall fun _ => by
    simp [Tree.isUnlowerable, Tree.unlowerableKinds, same]
  restart same _ := gives_of_forall fun _ => by
    simp [Tree.isUnlowerable, Tree.unlowerableKinds, same]
  ordinary lowerable _ := lowerable
  expected := id
  permitted := id

theorem rendered_refusing (context : Context) (tree : Node) :
    (refusing context).Covers (rendered tree) :=
  rendered_covered tree (fun _ _ _ => ⟨not_mem_nil, fun _ _ => trivial⟩) False.elim

end Discipline

section Settled

variable {context : Context} {node part : Part} {body : List Part} {around : List Jump}

/-- Code in which all parts that are looked at have a Haxe form down to settled ones. -/
inductive Vouched (context : Context) : Part → Prop where
  | settled {around : List Jump} {node : Part}
      (settles : (refusing context).Settles ⟨around, node⟩) :
      Vouched context node
  | parts {node : Part} (lowerable : node.isUnlowerable = false)
      (parts : ∀ part ∈ renderedParts context.importedNames node, Vouched context part) :
      Vouched context node

theorem vouched_of_not_isNamed (plain : node.isNamed = false) : Vouched context node :=
  .parts (by simp [Tree.isUnlowerable, plain]) (by simp [renderedParts, plain])

theorem vouched_of_covered {kind : String} (row : List Slot) (same : node.kind = kind)
    (plain : kind ∉ specialKinds) (slots : slots kind = row)
    (covered : Covered (Vouched context) node row) : Vouched context node := by
  rw [← same] at plain
  refine .parts (isUnlowerable_of_plain plain) fun part member => covered.all part ?_
  rw [← slots, ← same]
  exact mem_slots_of_mem_renderedParts plain member

theorem vouched_of_mem_withoutBreak (each : ∀ part ∈ withoutBreak body, Vouched context part) :
    ∀ part ∈ body, Vouched context part := by
  intro part member
  rw [withoutBreak] at each
  split at each
  · rename_i last found
    split at each
    · rename_i closed
      rw [Bool.and_eq_true, beq_iff_eq] at closed
      rw [← dropLast_append_getLast? last found, mem_append, mem_singleton] at member
      rcases member with before | rfl
      · exact each part before
      · exact vouched_of_covered [] closed.1 (by decide) (by decide) .nil
    · exact each part member
  · exact each part member

theorem vouched_of_mem_openedBody (each : ∀ part ∈ openedBody body, Vouched context part) :
    ∀ part ∈ body, Vouched context part := by
  intro part member
  rw [openedBody.eq_def] at each
  split at each
  · split at each
    · rename_i isBlock
      rw [mem_singleton.mp member]
      exact vouched_of_covered [.every] (eq_of_beq isBlock) (by decide) (by decide)
        (.cons each .nil)
    · exact each part member
  · exact each part member

theorem vouched_of_clause {clause : Part}
    (head : ∀ part ∈ clauseHead clause, Vouched context part)
    (body : ∀ part ∈ clause.fields "body", Vouched context part) : Vouched context clause := by
  rw [clauseHead] at head
  split at head
  · exact vouched_of_covered [.label, .allIn "body"] (eq_of_beq ‹_›) (by decide) (by decide)
      (.cons head (.cons body .nil))
  split at head
  · exact vouched_of_covered [.allIn "body"] (eq_of_beq ‹_›) (by decide) (by decide)
      (.cons body .nil)
  · exact head clause (.head _)

theorem vouched_of_mem_clauseParts {shared : Bool} {clauses : List Part}
    (lines : ∀ part ∈ clauseLines shared clauses, Vouched context part) :
    ∀ part ∈ clauseParts shared clauses, Vouched context part := by
  rw [clauseLines] at lines
  rw [clauseParts]
  induction clauses generalizing shared with
  | nil => simp [ofClauses]
  | cons clause rest rest_vouched =>
    have whole (lines : ∀ part ∈ clauseHead clause ++
        withoutBreak (openedBody (clause.fields "body")), Vouched context part) :
        ∀ part ∈ [clause], Vouched context part := by
      obtain ⟨head, body⟩ := forall_mem_append.mp lines
      exact forall_mem_singleton.mpr (vouched_of_clause head
        (vouched_of_mem_openedBody (vouched_of_mem_withoutBreak body)))
    simp only [ofClauses] at lines ⊢
    split
    · rename_i empty
      rw [if_pos empty] at lines
      obtain ⟨first, others⟩ := forall_mem_append.mp lines
      exact forall_mem_append.mpr ⟨whole first, rest_vouched others⟩
    · rename_i filled
      rw [if_neg filled] at lines
      split
      · rename_i dropped
        rw [if_pos dropped] at lines
        obtain ⟨head, others⟩ := forall_mem_append.mp lines
        refine forall_mem_append.mpr ⟨?_, rest_vouched others⟩
        rw [clauseHead] at head
        split
        · rename_i isCase
          rwa [if_pos isCase] at head
        · simp
      · rename_i kept
        rw [if_neg kept] at lines
        obtain ⟨first, others⟩ := forall_mem_append.mp lines
        exact forall_mem_append.mpr ⟨whole first, rest_vouched others⟩

variable (settles : (refusing context).Settles ⟨around, node⟩)
include settles

theorem vouched_of_mem_renderedParts
    (member : part ∈ renderedParts context.importedNames node) : Vouched context part := by
  rw [renderedParts] at member
  split at member
  · rename_i isNamed
    have written : ∀ part ∈ loweredParts (refusing context).foreign node, Vouched context part := by
      intro part listed
      by_cases named : part.isNamed
      · exact .settled fun _ other contained => settles isNamed other
          (.head (mem_map_of_mem (mem_filter.mpr ⟨listed, named⟩)) contained)
      · exact vouched_of_not_isNamed (by simpa using named)
    rw [loweredParts, renderedParts, if_pos isNamed] at written
    split at member
    iterate 3
      · rename_i same
        simp only [same] at written
        exact written part member
    · rename_i same
      simp only [same] at written
      exact vouched_of_mem_clauseParts written part member
    · split at written
      iterate 2 contradiction
      split at written
      iterate 4 contradiction
      exact written part member
  · simp at member

theorem clean_of_settles : Clean (renderedParts context.importedNames) node := by
  intro other reached
  have vouched : Vouched context other := by
    induction reached with
    | refl => exact .settled settles
    | tail _ member vouched =>
      cases vouched with
      | settled settles => exact vouched_of_mem_renderedParts settles member
      | parts _ parts => exact parts _ member
  cases vouched with
  | parts lowerable _ => exact lowerable
  | settled settles =>
    by_cases isNamed : other.isNamed
    · exact settles isNamed _ .refl
    · simp [Tree.isUnlowerable, isNamed]

end Settled

section Files

variable {context : Context} {names : List String}

/-- Code that was checked: it is clean where it is looked at, and clean in value position
altogether if nothing in value position is overlooked. -/
def Checked (names : List String) (tree : Node) : Prop :=
  Clean (renderedParts names) tree ∧
    ((∀ node, Reaches valueParts tree node → overlooks names node = false) → Clean valueParts tree)

theorem checked_of_rendered {tree : Node}
    (clean : Clean (renderedParts names) (rendered tree)) : Checked names tree :=
  have plain := clean_of_annotate rendering clean
  ⟨plain, fun attended => clean_of_attended attended plain⟩

theorem checked_of_settles {around : List Jump} {tree : Node}
    (settles : (refusing context).Settles ⟨around, rendered tree⟩) :
    Checked context.importedNames tree := checked_of_rendered (clean_of_settles settles)

theorem gives_fileItems : Gives context (fun _ => ∀ item ∈ context.file.tree.named,
    isValueItem item → Checked context.importedNames item) fileItems := by
  rw [fileItems_eq]
  have allowed : (refusing context).Allows [] _ (itemsOf context.file.tree) :=
    allowed_itemsOf _ (fun _ _ _ => ⟨not_mem_nil, fun _ _ => trivial⟩) False.elim
  refine gives_read fun state items after run item member isItem => ?_
  refine checked_of_settles
    ((allowed state items after run).2 (rendered item) ?_ (by simpa using isItem))
  rw [rendered, Tree.named_annotate]
  exact mem_map_of_mem member

theorem checked_of_lowerFile {program : Program} {registry : Foreign.Registry} {indent : String}
    {index : Nat} {file : SourceFile} {output : Haxe.File}
    (lowered : (lowerFile program registry indent index file).result = .ok output) :
    ∃ imports, importsOf program registry file = .ok imports ∧
      ∀ item ∈ file.tree.named, isValueItem item → Checked (imports.spellings.map (·.1)) item := by
  obtain ⟨imports, items, state, found, run, _⟩ := lowerFile_eq_ok lowered
  exact ⟨imports, found, gives_fileItems _ _ _ run⟩

namespace Sample

def function (body : List Node) : Node :=
  node "function_declaration" "" "" [identifier "name" "f",
    node "formal_parameters" "parameters" "()" [], node "statement_block" "body" "" body]

def classOf (field : String) (members : List Node) : Node :=
  node "class_declaration" field ""
    [node "type_identifier" "name" "C" [], node "class_body" "body" "" members]

def singleDefault : Node :=
  function [switch [clause (some "1") [call "f", leave], clause none [call "g"]]]

def doubleDefault : Node :=
  function [switch [clause none [node "debugger_statement" "body" "debugger;" [], leave],
    clause none [call "g"]]]

def decorated : Node :=
  node "export_statement" "" ""
    [node "decorator" "decorator" "@d(/x/)" [node "call_expression" "" "d(/x/)"
      [identifier "function" "d", node "arguments" "arguments" "(/x/)" [node "regex" "" "/x/" []]]],
      classOf "declaration" []]

def generatorConstructor : Node :=
  classOf "" [node "method_definition" "" "*constructor() \x7b\x7d"
    [.node ⟨"*", false, false, "", 0, 0, ⟨1, 1⟩, "*"⟩ () [],
      node "property_identifier" "name" "constructor" [],
      node "formal_parameters" "parameters" "()" [], node "statement_block" "body" "\x7b\x7d" []]]

def fileOf (item : Node) : SourceFile := (around (node "program" "" "" [item])).file

def alone (item : Node) : Outcome :=
  lowerFile ⟨none, ⟨""⟩, "", []⟩ .empty "  " 0 (fileOf item)

def Slips (item : Node) : Prop :=
  (alone item).result.isOk ∧ isValueItem item ∧ ¬Clean valueParts item

end Sample

open Sample

/-- Code that has a Haxe form was checked: every expression, every statement, and every value
declared or exported at the top of a file. A file with a construct without a Haxe form in a
place that is looked at is therefore given up. -/
theorem lowered_code_is_checked (context : Context) (state after : State)
    (tree : Node) (program : Program) (registry : Foreign.Registry) (indent : String)
    (index : Nat) (file : SourceFile) :
    (∀ text, (rendered tree).value.expression.evaluate context state = (.ok text, after) →
      Checked context.importedNames tree) ∧
    (∀ code, (rendered tree).value.statement.evaluate context state = (.ok code, after) →
      Checked context.importedNames tree) ∧
    (∀ items, isValueItem tree →
      (topLevel (rendered tree)).evaluate context state = (.ok items, after) →
        Checked context.importedNames tree) ∧
    ∀ output, (lowerFile program registry indent index file).result = .ok output →
      ∃ imports, importsOf program registry file = .ok imports ∧
        ∀ item ∈ file.tree.named, isValueItem item →
          Checked (imports.spellings.map (·.1)) item := by
  have covered := rendered_refusing context tree
  have admitted : (refusing context).Admits ⟨[], rendered tree⟩ := ⟨not_mem_nil, fun _ _ => trivial⟩
  have value : (refusing context).Vets [] _ _ _ := covered.top.expression
  have item : (refusing context).Allows [] _ _ := allowed_topLevel covered
  refine ⟨fun text run => ?_, fun code run => ?_, fun items isItem run => ?_, fun output => ?_⟩
  · exact checked_of_settles ((value _ _ _ run).2 [])
  · exact checked_of_settles (covered.top.statement admitted _ _ _ run).2
  · exact checked_of_settles ((item _ _ _ run).2 (by simpa using isItem))
  · exact checked_of_lowerFile

/-- A function with a case and a default is lowered and overlooks nothing, and so is clean. -/
theorem single_default_is_clean :
    (alone singleDefault).result.isOk ∧ isValueItem singleDefault ∧
      Clean valueParts singleDefault := by
  have attended : holdsWithin (!overlooks [] ·) valueParts 8 singleDefault := by
    decide +kernel
  have accepted : (alone singleDefault).result.isOk := by decide +kernel
  have isItem : isValueItem singleDefault := by decide
  refine ⟨accepted, isItem, ?_⟩
  obtain ⟨output, lowered⟩ := Program.exists_eq_ok accepted
  obtain ⟨imports, found, checked⟩ := (lowered_code_is_checked
    (around singleDefault) .initial .initial singleDefault
    ⟨none, ⟨""⟩, "", []⟩ .empty "  " 0 (fileOf singleDefault)).2.2.2 output lowered
  obtain rfl : Imports.none = imports := Except.ok.inj found
  have inside : singleDefault ∈ (fileOf singleDefault).tree.named :=
    mem_filter.mpr ⟨mem_filter.mpr ⟨.head _, by decide⟩, rfl⟩
  refine (checked singleDefault inside isItem).2 fun part reached => ?_
  have plain := forall_of_holdsWithin attended part reached
  exact (Bool.not_eq_true' _).mp plain

/-- Three kinds of code are overlooked: decorators in front of an export, a default that another
one follows, and the star of a constructor. -/
theorem overlooked_code_is_lowered :
    Sample.Slips decorated ∧ Sample.Slips doubleDefault ∧ Sample.Slips generatorConstructor := by
  refine ⟨⟨by decide +kernel, by decide, ?_⟩, ⟨by decide +kernel, by decide, ?_⟩,
    ⟨by decide +kernel, by decide, ?_⟩⟩
  · exact not_clean_of_reachedWithin 4 (by decide +kernel)
  · exact not_clean_of_reachedWithin 5 (by decide +kernel)
  · exact not_clean_of_reachedWithin 2 (by decide +kernel)

end Files

end Haxify.Lower
