import Haxify.Lower.Switch
import Haxify.Proofs.ValuePositions

/-!
# Sites

A site is a node with the jump targets that are open around it in its function, the innermost
first. The body of a loop or of a switch stands inside one more target than the rest of the
statement, and whatever stands in a function starts without any.

Two walks go down from a site. One enters every child. The other enters the parts that the
lowering writes: those it looks at, but neither the braces around the statements of a clause
nor the jump that ends them.
-/

namespace Haxify.Lower

open List
open TypeScript (Slot slots)
open TypeScript.Tree (isMemberOfNamesake ofClauses renderedParts specialKinds)

variable {foreign : String → Bool}
variable {α : Type}

/-- A node with the jump targets around it, the innermost first, up to its function. -/
structure Site (α : Type) where
  /-- The open jump targets. -/
  around : List Jump
  node : TypeScript.Tree α

/-- The kinds of functions, which no jump leaves. -/
def callableKinds : List String :=
  ["arrow_function", "function_expression", "function", "function_declaration",
   "method_definition", "generator_function", "generator_function_declaration"]

/-- What a jump leaves or restarts that stands in the body of a statement. -/
def bodyTargets : List (String × Jump) :=
  [("for_statement", .loop true), ("while_statement", .loop false), ("do_statement", .loop false),
   ("for_in_statement", .loop false), ("switch_statement", .switch)]

/-- The kinds of nodes that change the jump targets for some of their parts. -/
def shiftingKinds : List String := callableKinds ++ bodyTargets.map (·.1)

namespace Site

/-- The site of a part of a node. -/
def part (site : Site α) (part : TypeScript.Tree α) : Site α where
  around :=
    if callableKinds.contains site.node.kind then []
    else if part.token.field == "body" then
      (bodyTargets.lookup site.node.kind).toList ++ site.around
    else site.around
  node := part

/-- Whether a part is only there to hold others: an else clause, the clauses of a switch, and
what handles an exception. -/
def isPassed (node part : TypeScript.Tree α) : Bool :=
  [("if_statement", "alternative"), ("switch_statement", "body"),
    ("try_statement", "handler")].contains
    (node.kind, part.token.field)

/-- The sites of all children. The children of a part that only holds them stand at its site,
whatever kind it is of. -/
def inner (site : Site α) : List (Site α) :=
  site.node.children.flatMap fun part =>
    site.part part ::
      if isPassed site.node part then part.children.map (⟨(site.part part).around, ·⟩) else []

/-- A site is led to by some steps from each one to further ones. -/
def Contains (steps : Site α → List (Site α)) : Site α → Site α → Prop :=
  Relation.ReflTransGen fun site other => other ∈ steps site

end Site

/-- What a clause of a switch is without its statements: the label of a case, and the whole of
whatever is no clause. -/
def clauseHead (clause : TypeScript.Tree α) : List (TypeScript.Tree α) :=
  if clause.kind == "switch_case" then Slot.label.pick clause
  else if clause.kind == "switch_default" then [] else [clause]

/-- The parts of the clauses of a switch that are written: the labels of cases, the statements
of each clause, and whatever is no clause. -/
def clauseLines : Bool → List (TypeScript.Tree α) → List (TypeScript.Tree α) :=
  ofClauses (fun clause => clauseHead clause ++ withoutBreak (openedBody (clause.fields "body")))
    clauseHead

def loweredParts (foreign : String → Bool) (node : TypeScript.Tree α) : List (TypeScript.Tree α) :=
  match node.kind with
  | "extends_clause" => (node.field? "value").toList.filter (!isMemberOfNamesake foreign ·)
  | "switch_body" => clauseLines false node.named
  | _ => renderedParts [] node

/-- The sites of the parts that are written, punctuation aside. -/
def Site.lowered (foreign : String → Bool) (site : Site α) : List (Site α) :=
  ((loweredParts foreign site.node).filter (·.isNamed)).map site.part

section Parts

variable {around : List Jump} {node part : TypeScript.Tree α}

theorem loweredParts_eq (plain : node.kind ∉ ["extends_clause", "switch_body"]) :
    loweredParts foreign node = renderedParts [] node := by
  rw [loweredParts]
  split
  · simp_all
  · simp_all
  · rfl

variable (plain : node.kind ∉ specialKinds)
include plain

theorem isUnlowerable_of_plain : node.isUnlowerable = false := by
  simp only [specialKinds, mem_append, mem_cons, not_or] at plain
  simp [TypeScript.Tree.isUnlowerable, plain.1, plain.2.1]

theorem mem_slots_of_mem_renderedParts {names : List String}
    (member : part ∈ renderedParts names node) :
    part ∈ (slots node.kind).flatMap (·.pick node) := by
  simp only [specialKinds, mem_append, not_or, mem_cons, not_mem_nil,
    not_false_eq_true, and_true] at plain
  obtain ⟨_, _, noExport, noBase, noClass, noSwitch⟩ := plain
  rw [renderedParts] at member
  split at member
  · split at member
    · exact absurd ‹_› noExport
    · exact absurd ‹_› noBase
    · exact absurd ‹_› noClass
    · exact absurd ‹_› noSwitch
    · exact member
  · simp at member

theorem mem_slots_of_mem_loweredParts (member : part ∈ loweredParts foreign node) :
    part ∈ (slots node.kind).flatMap (·.pick node) := by
  have each : ∀ kind ∈ ["extends_clause", "switch_body"], kind ∈ specialKinds := by decide
  rw [loweredParts_eq fun special => plain (each _ special)] at member
  exact mem_slots_of_mem_renderedParts plain member

omit plain

theorem part_callable (isCallable : node.kind ∈ callableKinds) :
    Site.part ⟨around, node⟩ part = ⟨[], part⟩ := by
  simp [Site.part, isCallable]

theorem part_plain (plain : node.kind ∉ shiftingKinds) :
    Site.part ⟨around, node⟩ part = ⟨around, part⟩ := by
  rw [shiftingKinds, mem_append, not_or] at plain
  have none : bodyTargets.lookup node.kind = none := by
    rw [lookup_eq_none_iff]
    intro entry listed
    have other : node.kind ≠ entry.1 := fun same => plain.2 (same ▸ mem_map_of_mem listed)
    simpa using other
  simp [Site.part, plain.1, none]

theorem part_field {field : String} (plain : node.kind ∉ callableKinds)
    (found : node.field? field = some part) (other : field ≠ "body") :
    Site.part ⟨around, node⟩ part = ⟨around, part⟩ := by
  have same : part.token.field = field := by simpa using find?_some found
  simp [Site.part, plain, same, other]

theorem part_body (jump : Jump) (listed : (node.kind, jump) ∈ bodyTargets)
    (found : node.field? "body" = some part) :
    Site.part ⟨around, node⟩ part = ⟨jump :: around, part⟩ := by
  have each : ∀ entry ∈ bodyTargets,
      entry.1 ∉ callableKinds ∧ bodyTargets.lookup entry.1 = some entry.2 := by decide
  obtain ⟨plain, target⟩ := each _ listed
  have same : part.token.field = "body" := by simpa using find?_some found
  simp [Site.part, plain, target, same]

theorem mem_inner (around : List Jump) (member : part ∈ node.children) :
    Site.part ⟨around, node⟩ part ∈ Site.inner ⟨around, node⟩ :=
  mem_flatMap.mpr ⟨part, member, .head _⟩

theorem mem_inner_of_passed (around : List Jump) {child : TypeScript.Tree α}
    (member : part ∈ node.children) (passed : Site.isPassed node part)
    (inside : child ∈ part.children) :
    ⟨(Site.part ⟨around, node⟩ part).around, child⟩ ∈ Site.inner ⟨around, node⟩ := by
  refine mem_flatMap.mpr ⟨part, member, .tail _ ?_⟩
  rw [if_pos passed]
  exact mem_map_of_mem inside

end Parts

end Haxify.Lower
