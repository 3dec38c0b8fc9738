import Haxify.Proofs.MirrorsOfStatements
import Haxify.Proofs.Refusal

/-!
# Declarations that hide imports

A scoping says which values of a function are an import and which belong to a declaration inside.
A function is lowered by a scoping if it may be copied by it: the values that are the import have
another name in the copy, and under the old name nothing but a declaration is a value. Main
statement: functions are lowered by the order in which their declarations stand, and so by the rules
of ECMAScript as far as both tell the same.
-/

namespace Haxify.Lower

open Lowering List
open TypeScript (Node)
open TypeScript.Scope

variable {name : Node}

/-- Whether some scope binds a name. -/
def State.binds (state : State) (name : String) : Bool := state.scopes.any (·.contains name)

/-- A function is lowered by a scoping: what it is lowered to, its copy is lowered to as well. In
the copy the new name stands for the import, and the old name for a type only. -/
def LoweredBy (scoping : Scoping) (rename : Rename) (context : Context) (state : State)
    (function : Node) : Prop :=
  ∀ signature role text after,
    (functionLike signature (rendered function) role).evaluate context state = (.ok text, after) →
      (functionLike signature (rendered (scoping.resolve rename.old rename.new .code
        (state.binds rename.old) function)) role).evaluate (rename.extend context) state =
          (.ok text, after)

section Functions

variable {rename : Rename} {context : Context} {state : State} {function : Node}

theorem loweredBy_inOrder (fits : rename.Fits context) (isFunction : function.kind ∈ closureKinds)
    (spares : function.Throughout rename.Spares) (unbound : state.binds rename.new = false) :
    LoweredBy inOrder rename context state function := by
  intro signature role text after run
  let swap : Swap := ⟨rename, context, fits⟩
  have reflected : Reflected swap function := reflected_of_spares spares
  have twins : Twins swap .code (state.binds rename.old) function (rendered function)
      (rendered (inOrder.resolve rename.old rename.new .code (state.binds rename.old) function)) :=
    ⟨shows_rendered _, shows_rendered _, spares.top, fun child member => reflected.child member⟩
  have isClosure : (rendered function).kind ∈ closureKinds := kind_rendered function ▸ isFunction
  obtain ⟨left, mirrors⟩ := mirrors_functionInside twins isClosure signature role
  obtain ⟨within, withinRun, rfl⟩ := withScope_eq_ok.mp run
  obtain ⟨inside, insideRun, rfl⟩ := withJump_eq_ok.mp withinRun
  -- Within the scope of the function it does not matter whether it stands in one itself.
  have holds : rename.Holds (state.binds rename.old)
      { state with scopes := [] :: state.scopes, jumps := .function :: state.jumps } :=
    ⟨by simp, by simp [State.binds], by simpa [State.binds] using unbound⟩
  obtain ⟨copied, copyRun, rfl, _, _⟩ := mirrors _ text inside holds insideRun
  exact withScope_eq_ok.mpr ⟨_, withJump_eq_ok.mpr ⟨inside, copyRun, rfl⟩, rfl⟩

theorem spelling?_of_unbound {name : String} (unbound : state.binds name = false) :
    View.spelling? ⟨context, state.scopes⟩ name = context.spellings.lookup name := by
  have free : View.isLocal ⟨context, state.scopes⟩ name = false := unbound
  rw [View.spelling?, if_neg (by simp [free])]

theorem value_of_new (fits : rename.Fits context) {path : String}
    (isName : name.kind = "identifier") (isNew : name.text = rename.new)
    (unbound : state.binds rename.new = false)
    (foreign : rename.spelling = .foreign path ∨ rename.spelling = .foreignModule path) :
    (rendered name).value.expression.evaluate (rename.extend context) state =
      (.ok path, state) := by
  have known : (rename.new == "undefined") = false := by
    rw [beq_eq_false_iff_ne]
    exact fun same => fits.new (same ▸ mem_cons_self)
  have spelled : (rename.extend context).spellings.lookup rename.new = some rename.spelling := by
    simp [Rename.extend]
  rw [expression_of_identifier isName, evaluate_nameValue, text_rendered name, isNew,
    if_neg (by simp [known]), spelling?_of_unbound unbound, spelled]
  rcases foreign with foreign | foreign <;> rw [foreign] <;> rfl

theorem value_of_old (fits : rename.Fits context) (isName : name.kind = "identifier")
    (isOld : name.text = rename.old) (unbound : state.binds rename.old = false) :
    ∃ reason, (rendered name).value.expression.evaluate (rename.extend context) state =
      (.error reason, state) := by
  have known : (rename.old == "undefined") = false := by
    rw [beq_eq_false_iff_ne]
    exact fun same => fits.old (same ▸ mem_cons_self)
  have spelled : (rename.extend context).spellings.lookup rename.old = some .foreignType := by
    have apart : (rename.old == rename.new) = false := by simpa using fits.distinct.symm
    simp [Rename.extend, lookup_cons, apart]
  rw [expression_of_identifier isName, evaluate_nameValue, text_rendered name, isOld,
    if_neg (by simp [known]), spelling?_of_unbound unbound, spelled]
  exact ⟨_, rfl⟩

end Functions

namespace Sample

def innerVariable : Node :=
  function [call "g", node "statement_block" "" ""
    [variableWith "g" (node "number" "value" "1" []), call "g"]]

def calledEarly : Node :=
  function [call "g", node "function_declaration" "" "" [identifier "name" "g",
    node "formal_parameters" "parameters" "()" [], node "statement_block" "body" "" []]]

def callsItself : Node :=
  function [node "return_statement" "" "" [node "function_expression" "" ""
    [identifier "name" "g", node "formal_parameters" "parameters" "()" [],
      node "statement_block" "body" "" [call "g"]]]]

def declaredInBlock : Node :=
  function [node "statement_block" "" "" [node "variable_declaration" "" ""
    [node "variable_declarator" "" ""
      [identifier "name" "g", node "number" "value" "1" []]]], call "g"]

def importContext : Context :=
  { around (node "program" "" "" []) with spellings := [("g", .foreign "app.externs.Lib.g")] }

def otherName : Rename := ⟨"g", "h", .foreign "app.externs.Lib.g"⟩

def functionText? (context : Context) (tree : Node) : Option String :=
  ((functionLike "function f" (rendered tree) .plain).evaluate context .initial).1.toOption.map
    (·.text)

theorem spares_of_texts {tree : Node}
    (unused : tree.descendants.all fun node => node.text != "h" && (node.field? "module").isNone) :
    tree.Throughout otherName.Spares := by
  intro node inside
  have plain := all_eq_true.mp unused node inside
  simp only [Bool.and_eq_true, bne_iff_ne, Option.isNone_iff_eq_none] at plain
  refine ⟨plain.1, fun owner found => ?_⟩
  rw [plain.2] at found
  cases found

theorem otherName_fits : otherName.Fits importContext := ⟨rfl, by decide, by decide, by decide⟩

end Sample

open Sample

/-- Functions are lowered by the order in which their declarations stand, and by the rules of
ECMAScript if these tell the same of the function. In the copies, the new name is written as the
path of the import wherever no scope binds it, and the old name is no value without a scope that
binds it. -/
theorem declarations_hide_imports_in_order {rename : Rename} {context : Context} {state : State}
    {function : Node} (fits : rename.Fits context) (isFunction : function.kind ∈ closureKinds)
    (spares : function.Throughout rename.Spares) (unbound : state.binds rename.new = false) :
    LoweredBy inOrder rename context state function ∧
    (ecmaScript.resolve rename.old rename.new .code (state.binds rename.old) function =
        inOrder.resolve rename.old rename.new .code (state.binds rename.old) function →
      LoweredBy ecmaScript rename context state function) ∧
    ∀ (name : Node) (inside : State), name.kind = "identifier" →
      (name.text = rename.new → inside.binds rename.new = false →
        ∀ path, rename.spelling = .foreign path ∨ rename.spelling = .foreignModule path →
          (rendered name).value.expression.evaluate (rename.extend context) inside =
            (.ok path, inside)) ∧
      (name.text = rename.old → inside.binds rename.old = false →
        ∃ reason, (rendered name).value.expression.evaluate (rename.extend context) inside =
          (.error reason, inside)) := by
  have inOrder := loweredBy_inOrder fits isFunction spares unbound
  refine ⟨inOrder, fun same => ?_, fun name inside isName => ⟨?_, ?_⟩⟩
  · intro signature role text after run
    rw [same]
    exact inOrder signature role text after run
  · exact fun isNew free path foreign => value_of_new fits isName isNew free foreign
  · exact fun isOld free => value_of_old fits isName isOld free

/-- A variable in a block hides the import in the block and nowhere else. -/
theorem inner_variable_hides_import :
    functionText? importContext innerVariable =
      some ("function f() \x7b\n  app.externs.Lib.g();\n  \x7b\n    var g = 1;\n    g();\n  \x7d" ++
        "\n\x7d") ∧
      LoweredBy ecmaScript otherName importContext .initial innerVariable :=
  ⟨by decide +kernel, (declarations_hide_imports_in_order otherName_fits (by decide)
    (spares_of_texts (by decide +kernel)) rfl).2.1 rfl⟩

/-- A function in front of its declaration, a function expression by its own name and a `var` behind
its block all belong to a declaration inside, but are taken for the import. -/
theorem hoisted_names_are_taken_for_imports :
    (∀ tree ∈ [calledEarly, callsItself, declaredInBlock],
      ecmaScript.resolve "g" "h" .code false tree = tree ∧
        ¬LoweredBy ecmaScript otherName importContext .initial tree) ∧
    functionText? importContext calledEarly =
      some "function f() \x7b\n  app.externs.Lib.g();\n  function g() \x7b\x7d\n\x7d" ∧
    functionText? importContext callsItself =
      some "function f() \x7b\n  return function() \x7b\n    app.externs.Lib.g();\n  \x7d;\n\x7d" ∧
    functionText? importContext declaredInBlock =
      some "function f() \x7b\n  \x7b\n    var g = 1;\n  \x7d\n  app.externs.Lib.g();\n\x7d" := by
  -- Nothing is renamed in the copies, so they are refused where the functions are lowered.
  have refused (tree : Node) (bound : ecmaScript.resolve "g" "h" .code false tree = tree)
      (accepted : (functionText? importContext tree).isSome)
      (lost : functionText? (otherName.extend importContext) tree = none) :
      ecmaScript.resolve "g" "h" .code false tree = tree ∧
        ¬LoweredBy ecmaScript otherName importContext .initial tree := by
    refine ⟨bound, fun lowered => ?_⟩
    have runs := lowered "function f" .plain
    have copy : ecmaScript.resolve otherName.old otherName.new .code
        (State.initial.binds otherName.old) tree = tree := bound
    rw [copy] at runs
    rw [functionText?] at accepted lost
    cases run :
      (functionLike "function f" (rendered tree) .plain).evaluate importContext .initial with
    | mk result after =>
      rw [run] at accepted
      cases result with
      | error reason => simp [Except.toOption] at accepted
      | ok text =>
        rw [runs text after run] at lost
        simp [Except.toOption] at lost
  refine ⟨?_, by decide +kernel, by decide +kernel, by decide +kernel⟩
  simp only [forall_mem_cons, not_mem_nil, false_implies, implies_true, and_true]
  exact ⟨refused _ rfl (by decide +kernel) (by decide +kernel),
    refused _ rfl (by decide +kernel) (by decide +kernel),
    refused _ rfl (by decide +kernel) (by decide +kernel)⟩

end Haxify.Lower
