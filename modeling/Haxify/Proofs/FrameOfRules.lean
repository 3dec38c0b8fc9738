import Haxify.Proofs.DisciplineOfFiles
import Haxify.Proofs.Frame

/-!
# The frame of every rule

Statements, expressions, patterns and declarations are lowered by rules that call one another
and may give up at any point in between. Each of them keeps the frame of the state, so a rule
that calls another one finds the jump targets and the outer scopes as it left them, also where
the other one gave up. What a file is lowered against is not part of the state, and no rule
changes it for what comes behind. The code of a statement is written at one level and leaves
the writer at that level.
-/

namespace Haxify.Haxe.Code

mutual

theorem level_write (writer : Writer) : (code : Code) → (code.write writer).level = writer.level
  | .line _ => rfl
  | .nest body => by
    rw [write, Writer.dedent, level_writeAll writer.indent body]
    rfl

theorem level_writeAll (writer : Writer) :
    (codes : List Code) → (writeAll writer codes).level = writer.level
  | [] => rfl
  | code :: rest => by
    rw [writeAll, level_writeAll (code.write writer) rest, level_write writer code]

end

end Haxify.Haxe.Code

namespace Haxify.Lower

variable {α : Type}

/-- What a lowering leaves for whatever comes behind it, whether it gives a value or gives up. -/
structure LeavesFrame (body : Lowering α) : Prop where
  /-- Jump targets and outer scopes are as they were, and temporaries only go on. -/
  state : Framed body
  /-- Spellings, names that look like temporaries and all else in the context are the same. No
  lowering can change them, so this holds of each by its type. -/
  surroundings : ∀ context state,
    (observing body >>= fun _ => read).evaluate context state =
      (.ok context, (body.evaluate context state).2)

theorem evaluate_observing (body : Lowering α) (context : Context) (state : State) :
    (observing body : Lowering (Except Unsupported α)).evaluate context state =
      (.ok (body.evaluate context state).1, (body.evaluate context state).2) := by
  simp only [observing, tryCatch, tryCatchThe, MonadExceptOf.tryCatch, ExceptT.tryCatch, ExceptT.mk,
    Lowering.evaluate, bind, ReaderT.bind, ExceptT.bind, StateT.bind]
  generalize body context state.frame = run
  obtain ⟨⟨result, frame⟩, gaps⟩ := run
  have same : gaps ++ [] ++ [] = gaps := by rw [List.append_nil, List.append_nil]
  cases result <;> exact congrArg (fun found => (_, state.behind ((_, frame), found))) same

theorem leavesFrame_of_framed {body : Lowering α} (framed : Framed body) : LeavesFrame body where
  state := framed
  surroundings context state := by
    rw [Lowering.evaluate_bind, evaluate_observing]
    rfl

/-- Whatever is lowered, and whether that succeeds or not, the frame is kept: as a statement, as
a value, as a pattern for a new value or for one that a temporary holds, and at the top of a file.
The code of a statement leaves a writer at the level it found, as all code does by its type. -/
theorem every_rule_leaves_frame (tree source : TypeScript.Node) (mode : BindingMode)
    (temp : String) :
    LeavesFrame (rendered tree).value.statement ∧
      LeavesFrame (rendered tree).value.expression ∧
      LeavesFrame (destructure mode (rendered tree) (rendered source)) ∧
      LeavesFrame (unpackFrom mode (rendered tree) temp) ∧
      LeavesFrame (topLevel (rendered tree)) ∧
      ∀ context, Gives context
        (fun code => ∀ writer, (Haxe.Code.writeAll writer code).level = writer.level)
        (rendered tree).value.statement := by
  have framed := rendered_framed tree
  have {β : Type} {holds : β → Prop} {body : Lowering β} (allowed : framing.Allows [] holds body) :
      LeavesFrame body := leavesFrame_of_framed allowed.1.framed
  have free : mode.BindsAt [] := .inr List.not_mem_nil
  refine ⟨leavesFrame_of_framed (framed_statement framed.top),
    leavesFrame_of_framed (framed_expression framed.top []).framed,
    this (allowed_destructure free framed (rendered_framed source)),
    this (allowed_unpackFrom free False.elim framed), this (allowed_topLevel framed),
    fun context => ?_⟩
  exact gives_of_forall fun code writer => Haxe.Code.level_writeAll writer code

end Haxify.Lower
