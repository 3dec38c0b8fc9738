import Haxify.Proofs.BracketsOfExpressions

/-!
# Brackets in statements

Code is closed where the lines are that it is made of. The branches of a conditional are the one
place where a rule leaves a brace for another to close.
-/

namespace Haxify.Lower

open TypeScript (Tree)
open Haxe (Balanced Code)
open Haxe.Code (Closed)

variable {text : String} {body : List Code}

theorem closed_nil : Closed [] := Code.readAll_nil []

theorem closed_line (balanced : Balanced text) : Closed [.line text] :=
  Code.closed_lines (List.forall_mem_singleton.mpr balanced)

theorem closed_statement (balanced : Balanced text) : Closed [.line (text ++ ";")] :=
  closed_line (balanced.append (by decide))

theorem closed_stepLines {steps : List BindingStep} (balanced : BalancedSteps steps) :
    Closed (stepLines steps) :=
  Code.closed_lines (List.forall_mem_map.mpr balanced)

theorem closed_braces (inside : Closed body) : Closed [.line "\x7b", .nest body, .line "\x7d"] := by
  simp [Closed, inside.read]

/-- Code behind the first branch of a conditional, whose brace is open. -/
abbrev ClosesBranch (code : List Code) : Prop := Code.readAll ['\x7b'] code = some []

theorem closesBranch_braces (inside : Closed body) :
    ClosesBranch [.line "\x7d else \x7b", .nest body, .line "\x7d"] := by
  have front : Code.readAll ['\x7b'] [.line "\x7d else \x7b"] = some ['\x7b'] := by decide
  have back : Code.readAll ['\x7b'] [.line "\x7d"] = some [] := by decide
  have whole := Code.readAll_append ['\x7b'] [.line "\x7d else \x7b"] [.nest body, .line "\x7d"]
  rw [front, Option.bind_some, Code.readAll_nest, inside.read, Option.bind_some, back] at whole
  exact whole

theorem closes_breakStatement (node : Part) (context : Context) :
    Gives context Closed (breakStatement node) := by
  rw [breakStatement]
  refine gives_guard fun _ => ?_
  refine gives_next fun state => ?_
  split
  · exact gives_refusal
  · exact gives_pure (closed_line (by decide))
  · exact gives_refusal

theorem closes_continueStatement (node : Part) (context : Context) :
    Gives context Closed (continueStatement node) := by
  have line : Gives context Closed (return [.line "continue;"]) :=
    gives_pure (closed_line (by decide))
  rw [continueStatement]
  refine gives_guard fun _ => ?_
  refine gives_next fun state => ?_
  dsimp only
  split
  · exact gives_next fun _ => line
  · exact line

theorem isNegativeNumber_annotate {α β : Type}
    (value : TypeScript.Token → List (TypeScript.Tree β) → β) (label : TypeScript.Tree α) :
    isNegativeNumber (label.annotate value) = isNegativeNumber label := by
  simp [isNegativeNumber, Option.any_map]

/-- To be legible is a matter of the source: whatever values are computed at the nodes, the
same texts are copied. -/
theorem legible_annotate {α β : Type} (value : TypeScript.Token → List (TypeScript.Tree β) → β)
    {tree : TypeScript.Tree α} (legible : Legible tree) : Legible (tree.annotate value) where
  copied listed := by
    rw [Tree.kind_annotate] at listed
    rw [Tree.text_annotate]
    exact legible.copied listed
  spelled listed := by
    rw [Tree.kind_annotate] at listed
    rw [Tree.text_annotate, Tree.kind_annotate]
    exact legible.spelled listed
  field slot listed kind part found := by
    rw [Tree.kind_annotate] at kind
    rw [Tree.field?_annotate, Option.mem_def, Option.map_eq_some_iff] at found
    obtain ⟨source, filled, rfl⟩ := found
    rw [Tree.kind_annotate]
    exact legible.field slot listed kind source filled
  label kind part found negative := by
    rw [Tree.kind_annotate] at kind
    rw [Tree.field?_annotate, Option.mem_def, Option.map_eq_some_iff] at found
    obtain ⟨source, filled, rfl⟩ := found
    rw [Tree.unparenthesized_annotate, isNegativeNumber_annotate] at negative
    rw [Tree.unparenthesized_annotate, Tree.text_annotate]
    exact legible.label kind source filled negative

end Haxify.Lower
