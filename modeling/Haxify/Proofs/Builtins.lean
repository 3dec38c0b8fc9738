import Haxify.Proofs.ForeignUses
import Haxify.Proofs.Renaming

/-!
# Builtin spellings and bound names

Calls of global objects, global constructors and global types have spellings of their own,
which are chosen by the name alone. A name that the file binds itself should be left alone.
Whether it is depends on how it is bound: a scope hides the global values, the import of a
foreign name hides the global types, and a declaration or import of the project hides nothing.
A name that stands for a module is never left alone, because methods without arguments are
spelled differently whatever they are called on.
-/

namespace Haxify.Lower

open List
open Foreign (Registry registryOf)
open Lowering
open TypeScript (Node Tree)

/-- The global objects and constructors with spellings of their own. -/
def globalValues : List String := ["JSON", "console", "Error", "Promise"]

/-- The global types with spellings of their own. -/
def globalTypes : List String :=
  ["Array", "ReadonlyArray", "Record", "Promise", "Error", "String", "Number", "Boolean",
    "Object", "Function", "Partial", "Required", "Readonly", "Pick", "Omit"]

/-- The ways in which a name of a file is bound, as far as its spelling goes. -/
inductive BindingForm where
  | enclosed
  | whole
  | foreign
  /-- By a declaration at the top of the file, or by an import of one of another file. -/
  | own
deriving DecidableEq, Repr

/-- How a name is bound that an import spells or does not. -/
def BindingForm.ofSpelling : Option Spelling → BindingForm
  | some (.foreign _) | some .foreignType => .foreign
  | some (.foreignModule _) | some (.projectModule _) | some .ambientModule => .whole
  | none => .own

/-- How a name is bound at some place in a file. -/
def View.formOf (view : View) (name : String) : BindingForm :=
  if view.isLocal name then .enclosed else .ofSpelling (view.context.spellings.lookup name)

open View (formOf)
open BindingForm (ofSpelling)

/-- The names bound in a form that no builtin spelling is applied to. -/
def BindingForm.Spares (form : BindingForm) (name : String) : Prop :=
  match form with
  | .enclosed => name ∉ globalTypes
  | .whole => False
  | .foreign => name ∉ globalValues
  | .own => name ∉ globalValues ∧ name ∉ globalTypes

structure CallsMethod (callee object property : Node) : Prop where
  kind : callee.kind = "member_expression"
  plain : callee.has "optional_chain" = false
  inside : callee.field? "object" = some object
  selected : callee.field? "property" = some property
  named : object.kind = "identifier"

/-- No builtin spelling is applied to a name at some place in a file. -/
structure LeavesAlone (context : Context) (state : State) (name : String) : Prop where
  globals : ∀ callee object property, ∀ arguments : List Node,
    CallsMethod callee object property → object.text = name →
      (builtinCall? (rendered callee) (arguments.map rendered)).evaluate context state =
        (methodCall? (rendered object) property.text (arguments.map rendered)).evaluate context
          state
  /-- A function of a module is not taken for a method. -/
  methods : formOf ⟨context, state.scopes⟩ name = .whole →
    ∀ callee object property, ∀ arguments : List Node,
      CallsMethod callee object property → object.text = name →
        (builtinCall? (rendered callee) (arguments.map rendered)).evaluate context state =
          (.ok none, state)
  constructions : ∀ constructor : Node, constructor.kind = "identifier" →
    constructor.text = name →
      (constructedClass (rendered constructor)).evaluate context state =
        (rendered constructor).value.expression.evaluate context state
  types : View.spelling? ⟨context, state.scopes⟩ name = none →
    ∀ arguments, namedType ⟨context, state.scopes⟩ name arguments = withArguments name arguments

/-- What is known about names where a lowering is in some state. -/
abbrev State.view (state : State) (context : Context) : View := ⟨context, state.scopes⟩

section Rules

variable {context : Context} {state : State}

theorem evaluate_globalCallsOf (object : Part) (method : String) :
    (globalCallsOf object method).evaluate context state =
      (.ok (if object.kind == "identifier" && !(state.view context).isLocal object.text then
        globalCalls.filter fun call => call.object == object.text && call.method == method
      else []), state) := by
  have unfolded : (globalCallsOf object method).evaluate context state =
      (if object.kind == "identifier" && !(state.view context).isLocal object.text then
        (return globalCalls.filter fun call =>
          call.object == object.text && call.method == method : Lowering _)
      else return []).evaluate context state := rfl
  rw [unfolded]
  split <;> rfl

theorem evaluate_builtinCall? {callee object property : Node}
    (calls : CallsMethod callee object property) (arguments : List Part) :
    (builtinCall? (rendered callee) arguments).evaluate context state =
      let known := if (state.view context).isLocal object.text then []
        else globalCalls.filter fun call =>
          call.object == object.text && call.method == property.text
      if known.isEmpty then
        (methodCall? (rendered object) property.text arguments).evaluate context state
      else (do return some (← globalCall (rendered callee) (rendered object) property.text known
        arguments) : Lowering (Option String)).evaluate context state := by
  rw [builtinCall?, if_neg (by simp [rendered, calls.kind, calls.plain]), field?_rendered,
    field?_rendered, calls.inside, calls.selected]
  simp only [Option.map_some, text_rendered]
  rw [evaluate_bind, evaluate_globalCallsOf, text_rendered, kind_rendered, calls.named]
  cases (state.view context).isLocal object.text with
  | true => rfl
  | false =>
    simp only [beq_self_eq_true, Bool.not_false, Bool.and_self, ↓reduceIte, Bool.false_eq_true]
    split <;> rfl

theorem evaluate_methodCall?_ne_none {object : Part} {method : String}
    {render : String → String} (listed : methodCalls.lookup method = some render) :
    (methodCall? object method []).evaluate context state ≠ (.ok none, state) := by
  rw [methodCall?, if_pos isEmpty_nil, listed, evaluate_bind]
  cases outcome : object.value.expression.evaluate context state with
  | mk result after =>
    cases result with
    | ok text => simp
    | error reason => simp

theorem value_rendered (tree : Node) :
    (rendered tree).value = rendering tree.token (tree.children.map rendered) := by
  rw [rendered, Tree.value_annotate, Tree.children_annotate]
  rfl

theorem expression_of_name {node : Node} (isName : node.kind = "identifier") :
    (rendered node).value.expression =
      nameValue (partOf node.token (node.children.map rendered)) := by
  have kind : (partOf node.token (node.children.map rendered)).kind = "identifier" := isName
  have looked : expressionRules.lookup "identifier" = some nameValue := rfl
  rw [value_rendered]
  change renderExpression (partOf _ _) = _
  rw [renderExpression, kind, looked]

theorem expression_of_identifier {node : Node} (isName : node.kind = "identifier") :
    (rendered node).value.expression.evaluate context state =
      (nameValue (rendered node)).evaluate context state := by
  obtain ⟨token, value, children⟩ := node
  rw [expression_of_name isName]
  rfl

theorem evaluate_constructedClass {constructor : Node} (isName : constructor.kind = "identifier") :
    (constructedClass (rendered constructor)).evaluate context state =
      match constructorName? constructor.text with
      | some builtin =>
        if (state.view context).isLocal constructor.text then
          (rendered constructor).value.expression.evaluate context state
        else (.ok builtin, state)
      | none => (rendered constructor).value.expression.evaluate context state := by
  have unfolded : (constructedClass (rendered constructor)).evaluate context state =
      (match constructorName? (rendered constructor).text with
        | some builtin =>
          if (rendered constructor).kind == "identifier"
              && !(state.view context).isLocal (rendered constructor).text then
            (return builtin : Lowering String)
          else (rendered constructor).value.expression
        | none => (rendered constructor).value.expression).evaluate context state := rfl
  rw [unfolded, text_rendered, kind_rendered, isName]
  cases constructorName? constructor.text with
  | none => rfl
  | some builtin => cases (state.view context).isLocal constructor.text <;> rfl

theorem namedType_of_not_mem {view : View} {name : String} (plain : view.spelling? name = none)
    (other : name ∉ globalTypes) (arguments : List String) :
    namedType view name arguments = withArguments name arguments := by
  unfold namedType
  rw [if_neg (by simp [plain])]
  split
  case h_16 => rfl
  all_goals exact absurd (by decide) other

end Rules

namespace Sample

def access (name method : String) : Node :=
  node "member_expression" "function" (name ++ "." ++ method)
    [node "identifier" "object" name [], node "property_identifier" "property" method []]

theorem access_calls (name method : String) :
    CallsMethod (access name method) (node "identifier" "object" name [])
      (node "property_identifier" "property" method []) :=
  ⟨rfl, by simp [access, node, Tree.has, Tree.children, Tree.kind, Tree.token], rfl, rfl, rfl⟩

end Sample

open Sample

section Forms

variable {context : Context} {state : State} {name : String}

theorem ofSpelling_ne_enclosed (spelling? : Option Spelling) :
    ofSpelling spelling? ≠ .enclosed := by
  cases spelling? with
  | none => simp [ofSpelling]
  | some spelling => cases spelling <;> simp [ofSpelling]

theorem spelling?_eq_none_iff {view : View} :
    view.spelling? name = none ↔ view.formOf name = .enclosed ∨ view.formOf name = .own := by
  unfold View.spelling? formOf
  cases view.isLocal name with
  | true => simp
  | false =>
    cases found : view.context.spellings.lookup name with
    | none => simp [ofSpelling]
    | some spelling => cases spelling <;> simp [ofSpelling]

theorem leavesAlone_of_spares (spared : ((state.view context).formOf name).Spares name) :
    LeavesAlone context state name := by
  have hidden : (state.view context).isLocal name = true ∨ name ∉ globalValues := by
    rw [formOf] at spared
    split at spared
    · exact .inl ‹_›
    · refine .inr ?_
      dsimp only at spared
      cases form : ofSpelling (context.spellings.lookup name) <;> rw [form] at spared
      case enclosed => exact absurd form (ofSpelling_ne_enclosed _)
      case whole => exact spared.elim
      case foreign => exact spared
      case own => exact spared.1
  constructor
  case globals =>
    rintro callee object property arguments calls rfl
    rw [evaluate_builtinCall? calls]
    have nothing : (if (state.view context).isLocal object.text then []
        else globalCalls.filter fun call =>
          call.object == object.text && call.method == property.text) = [] := by
      rcases hidden with bound | other
      · rw [if_pos bound]
      · have unknown : ∀ call ∈ globalCalls, call.object ≠ object.text := by
          intro call listed same
          have objects : ∀ call ∈ globalCalls, call.object ∈ globalValues := by decide
          exact other (same ▸ objects call listed)
        split
        · rfl
        rw [filter_eq_nil_iff]
        intro call listed
        simp [unknown call listed]
    simp only [nothing, isEmpty_nil, ↓reduceIte]
  case methods =>
    intro whole
    rw [whole] at spared
    exact spared.elim
  case constructions =>
    rintro constructor isName rfl
    rw [evaluate_constructedClass isName]
    split
    · rename_i builtin found
      rcases hidden with bound | other
      · rw [if_pos bound]
      · unfold constructorName? at found
        split at found
        iterate 2 exact absurd (by simp [globalValues, *]) other
        · cases found
    · rfl
  case types =>
    intro plain
    have other : name ∉ globalTypes := by
      rcases spelling?_eq_none_iff.mp plain with form | form
      · rw [form] at spared
        exact spared
      · rw [form] at spared
        exact spared.2
    exact namedType_of_not_mem plain other

theorem namedType_ne_of_mem {view : View} (plain : view.spelling? name = none)
    (listed : name ∈ globalTypes) :
    namedType view name ["A", "B"] ≠ withArguments name ["A", "B"] := by
  let bare : View := ⟨around (node "program" "" "" []), []⟩
  have same : namedType view name ["A", "B"] = namedType bare name ["A", "B"] := by
    have unspelled : bare.spelling? name = none := rfl
    unfold namedType
    rw [plain, unspelled]
  have all : ∀ name ∈ globalTypes,
      namedType bare name ["A", "B"] ≠ withArguments name ["A", "B"] := by decide
  rw [same]
  exact all name listed

theorem not_mem_globalTypes (alone : LeavesAlone context state name)
    (plain : (state.view context).spelling? name = none) : name ∉ globalTypes :=
  fun listed => namedType_ne_of_mem plain listed (alone.types plain ["A", "B"])

theorem formOf_ne_whole (alone : LeavesAlone context state name) :
    (state.view context).formOf name ≠ .whole := by
  intro whole
  have calls := access_calls name "trim"
  have passed := alone.methods whole _ _ _ [] calls rfl
  rw [evaluate_builtinCall? calls] at passed
  have unknown : ∀ call ∈ globalCalls, call.method ≠ "trim" := by decide
  have nothing : (globalCalls.filter fun call =>
      call.object == name && call.method == "trim") = [] := by
    rw [filter_eq_nil_iff]
    intro call listed
    simp [unknown call listed]
  simp only [text_node, nothing, ite_self, isEmpty_nil, ↓reduceIte, map_nil] at passed
  exact evaluate_methodCall?_ne_none (by rfl) passed

/-- A global object that no scope binds is not left alone: a call without arguments is refused,
where any other name has a method of its own. -/
theorem not_leavesAlone_of_object {known : GlobalCall} (listed : known ∈ globalCalls)
    (free : (state.view context).isLocal known.object = false) :
    ¬LeavesAlone context state known.object := by
  intro alone
  have calls := access_calls known.object known.method
  have passed := alone.globals _ _ _ [] calls rfl
  have entries : ∀ call ∈ globalCalls, call.arity = 1 ∧ methodCalls.lookup call.method = none := by
    decide
  have generic : (methodCall? (rendered (node "identifier" "object" known.object []))
      known.method []).evaluate context state = (.ok none, state) := by
    rw [methodCall?, if_pos isEmpty_nil, (entries known listed).2]
    rfl
  rw [evaluate_builtinCall? calls] at passed
  simp only [text_node, free, Bool.false_eq_true, ↓reduceIte, map_nil, generic] at passed
  generalize matched : globalCalls.filter (fun call =>
    call.object == known.object && call.method == known.method) = matching at passed
  have some : matching.isEmpty = false := by
    have found : known ∈ matching := matched ▸ mem_filter.mpr ⟨listed, by simp⟩
    exact isEmpty_eq_false_iff.mpr (ne_nil_of_mem found)
  have unmatched : matching.find? (·.arity == ([] : List Part).length) = none := by
    rw [find?_eq_none]
    intro call inside
    rw [(entries call (mem_filter.mp (matched ▸ inside)).1).1]
    decide
  simp only [some, Bool.false_eq_true, ↓reduceIte, evaluate_bind, globalCall, unmatched,
    evaluate_unsupported] at passed
  cases passed

theorem evaluate_nameValue (node : Part) :
    (nameValue node).evaluate context state =
      if node.text == "undefined" then (.ok "null", state)
      else (match (state.view context).spelling? node.text with
        | some (.foreign path) | some (.foreignModule path) => return path
        | some .foreignType => unsupported node "type-only import used as a value"
        | some (.projectModule _) | some .ambientModule =>
          unsupported node ("namespace " ++ node.text ++ " used as a value")
        | none => return Haxe.sanitize node.text : Lowering String).evaluate context state := by
  rw [nameValue]
  split <;> rfl

theorem not_leavesAlone_of_constructor {builtin : String}
    (found : constructorName? name = some builtin)
    (free : (state.view context).isLocal name = false)
    (paths : ∀ path, (name, Spelling.foreign path) ∈ context.spellings → 'x' ∈ path.toList) :
    ¬LeavesAlone context state name := by
  intro alone
  have built : name ≠ "undefined" ∧ 'x' ∉ builtin.toList ∧ Haxe.sanitize name ≠ builtin := by
    unfold constructorName? at found
    split at found
    · cases found
      decide
    · cases found
      decide
    · cases found
  let constructor := node "identifier" "constructor" name []
  have passed := alone.constructions constructor rfl rfl
  rw [evaluate_constructedClass rfl, expression_of_identifier rfl, evaluate_nameValue,
    text_rendered,
    text_node, found, if_neg (by simpa using built.1)] at passed
  have notWhole := formOf_ne_whole alone
  unfold View.spelling? at passed
  unfold formOf at notWhole
  simp only [free, Bool.false_eq_true, ↓reduceIte] at passed notWhole
  cases spelled : context.spellings.lookup name with
  | none =>
    rw [spelled] at passed
    cases passed
    exact built.2.2 rfl
  | some spelling =>
    rw [spelled] at passed notWhole
    cases spelling with
    | foreign path =>
      cases passed
      exact built.2.1 (paths builtin (mem_of_lookup spelled))
    | foreignType => cases passed
    | foreignModule path | projectModule index | ambientModule => exact notWhole rfl

theorem spares_of_leavesAlone (alone : LeavesAlone context state name)
    (paths : ∀ path, (name, Spelling.foreign path) ∈ context.spellings → 'x' ∈ path.toList) :
    ((state.view context).formOf name).Spares name := by
  have noValue (free : (state.view context).isLocal name = false) : name ∉ globalValues := by
    intro listed
    have tables : ∀ name ∈ globalValues, (∃ call ∈ globalCalls, call.object = name) ∨
        (constructorName? name).isSome := by decide
    rcases tables name listed with ⟨call, known, rfl⟩ | constructed
    · exact not_leavesAlone_of_object known free alone
    · obtain ⟨builtin, found⟩ := Option.isSome_iff_exists.mp constructed
      exact not_leavesAlone_of_constructor found free paths alone
  have noType (plain : (state.view context).spelling? name = none) :=
    not_mem_globalTypes alone plain
  rw [spelling?_eq_none_iff] at noType
  have open_of_ne (form : (state.view context).formOf name ≠ .enclosed) :
      (state.view context).isLocal name = false := by
    unfold formOf at form
    cases bound : (state.view context).isLocal name with
    | true =>
      rw [bound, if_pos rfl] at form
      exact absurd rfl form
    | false => rfl
  cases form : (state.view context).formOf name with
  | enclosed => exact noType (.inl form)
  | whole => exact formOf_ne_whole alone form
  | foreign => exact noValue (open_of_ne (by simp [form]))
  | own => exact ⟨noValue (open_of_ne (by simp [form])), noType (.inr form)⟩

end Forms

section Imports

variable {imports after : Imports} {registry : Registry}
  {binding : TypeScript.ImportBinding} {name : String}
variable {program : Program} {specifier : String} {file : SourceFile}
variable {target : Nat}

theorem mem_joinWith {separator part : String} {parts : List String} {char : Char}
    (listed : part ∈ parts) (inside : char ∈ part.toList) :
    char ∈ (Text.joinWith separator parts).toList := by
  induction parts with
  | nil => cases listed
  | cons first rest rest_mem =>
    cases rest with
    | nil =>
      rw [mem_singleton.mp listed] at inside
      exact inside
    | cons next others =>
      rw [Text.joinWith, String.toList_append, String.toList_append]
      rcases mem_cons.mp listed with rfl | later
      · simp [inside]
      · exact mem_append_right _ (rest_mem later)

theorem mem_memberPath? {path : String} {member : Option String}
    (known : (registryOf program).memberPath? specifier member = some path) :
    'x' ∈ path.toList := by
  rw [Registry.memberPath?, Option.map_eq_some_iff] at known
  obtain ⟨address, found, rfl⟩ := known
  rw [Registry.address?, Option.map_eq_some_iff] at found
  obtain ⟨binding, listed, rfl⟩ := found
  have package := (Foreign.mem_assign (mem_of_find?_eq_some listed)).1
  have inside : 'x' ∈ binding.address.packagePath.toList := by
    rw [package, Registry.packageOf, Haxe.packagePath]
    have externs : "externs" ∈ (List.map Text.trim (Text.splitOn '.' program.basePackage ++
        [Foreign.externPackage])).filter (· != "") := by
      rw [map_append, filter_append]
      exact mem_append_right _ (by decide)
    exact mem_joinWith externs (by decide)
  have some : binding.address.packagePath ≠ "" := by
    intro empty
    rw [empty] at inside
    cases inside
  rw [Haxe.Address.qualified, if_neg (by simpa using some)]
  simp [inside]

theorem mem_foreign_path {path : String}
    (found : importsOf program (registryOf program) file = .ok imports)
    (spelled : (name, Spelling.foreign path) ∈ imports.spellings) : 'x' ∈ path.toList := by
  obtain ⟨specifier, member, known⟩ := memberPath?_of_spelled found spelled
  exact mem_memberPath? known

theorem mem_boundByImport {path : Path} {spelling : Spelling}
    (brings : StatementBrings program registry path binding (.spelled name spelling)) :
    name ∈ boundByImport binding := by
  simp only [boundByImport, mem_append, Option.mem_toList, mem_map]
  cases brings with
  | foreign resolved brings =>
    cases brings with
    | default bound spells => exact .inl (.inl bound)
    | whole bound same => exact .inl (.inr bound)
    | named listed spells => exact .inr ⟨_, listed, rfl⟩
  | whole resolved bound same => exact .inl (.inr bound)
  | @named target wanted _ resolved made listed brings =>
    have same : name = wanted.2 := by cases brings <;> rfl
    rcases mem_append.mp listed with default | entry
    · obtain ⟨given, bound, rfl⟩ := mem_map.mp default
      exact .inl (.inl (same ▸ Option.mem_toList.mp bound))
    · obtain ⟨given, inside, rfl⟩ := mem_map.mp entry
      exact .inr ⟨given, inside, same.symm⟩

variable (found : importsOf program registry file = .ok imports)
include found

theorem lookup_eq_none_of_unbound
    (unbound : ∀ binding ∈ file.imports, name ∉ boundByImport binding) :
    imports.spellings.lookup name = none := by
  cases spelled : imports.spellings.lookup name with
  | none => rfl
  | some spelling =>
    obtain ⟨binding, listed, brings⟩ :=
      (has_importsOf found (.spelled name spelling)).mp (mem_of_lookup spelled)
    exact absurd (mem_boundByImport brings) (unbound binding listed)

theorem spells_of_external
    (listed : binding ∈ file.imports)
    (resolved : program.resolveFrom file.path binding.specifier = .external specifier)
    (bound : name ∈ boundByImport binding) : ∃ spelling, (name, spelling) ∈ imports.spellings := by
  obtain ⟨before, after, taken⟩ :=
    (brings_foldlM found fun _ _ _ => brings_importStatement).2 binding listed
  rw [importStatement, resolved] at taken
  obtain ⟨spelling, brings⟩ := (brings_importForeign taken).2 name bound
  exact ⟨spelling, (has_importsOf found (.spelled name spelling)).mpr
    ⟨binding, listed, .foreign resolved brings⟩⟩

end Imports

namespace Sample

def importName (name specifier : String) : Node :=
  node "import_statement" "" ""
    [node "import_clause" "" "" [node "named_imports" "" ""
      [node "import_specifier" "" "" [identifier "name" name]]],
      node "string" "source" ("'" ++ specifier ++ "'") []]

def importWhole (name specifier : String) : Node :=
  node "import_statement" "" ""
    [node "import_clause" "" "" [node "namespace_import" "" "" [identifier "" name]],
      node "string" "source" ("'" ++ specifier ++ "'") []]

def variableWith (name : String) (part : Node) : Node :=
  node "lexical_declaration" "" "" [node "variable_declarator" "" "" [identifier "name" name, part]]

def methodCall (name method : String) (arguments : List Node) : Node :=
  node "call_expression" "value" "" [access name method, node "arguments" "arguments" "" arguments]

def captured : SourceFile :=
  Program.fileOf "app" ⟨"/project/main.ts"⟩ ⟨"main.ts"⟩ .script "" (node "program" "" ""
    [importName "JSON" "lib", importWhole "text" "text",
      node "class_declaration" "" "" [node "type_identifier" "name" "Error" [],
        node "class_body" "body" "" []],
      node "interface_declaration" "" "" [node "type_identifier" "name" "Record" [],
        node "interface_body" "body" "" []],
      variableWith "a" (methodCall "JSON" "parse" [node "number" "" "1" []]),
      variableWith "b" (methodCall "text" "trim" []),
      variableWith "c" (node "new_expression" "value" ""
        [identifier "constructor" "Error", node "arguments" "arguments" "" []]),
      variableWith "d" (node "type_annotation" "type" ": Record"
        [node "type_identifier" "" "Record" []])])

def capturedProgram : Program := ⟨none, ⟨"/project"⟩, "app", [captured]⟩

def capturedImports : Imports :=
  ⟨[], [("text", .foreignModule "app.externs.Text"), ("JSON", .foreign "app.externs.Lib.JSON")]⟩

theorem capturedImports_eq :
    importsOf capturedProgram (registryOf capturedProgram) captured =
      .ok capturedImports := by
  have given : (importsOf capturedProgram (registryOf capturedProgram)
      captured).toOption = some capturedImports := by decide +kernel
  cases run : importsOf capturedProgram (registryOf capturedProgram) captured with
  | error reason => simp [run, Except.toOption] at given
  | ok imports => simpa [run, Except.toOption] using given

def capturedContext : Context :=
  fileContext capturedProgram (registryOf capturedProgram) "  " 0 captured capturedImports

end Sample

/-- The builtin spellings leave a name of a file alone at some place exactly when the form it is
bound in there spares it. Where no scope binds it, a name that no import binds is one of the
file's own, and one that is imported from a foreign module is not. -/
theorem builtins_leave_alone_iff {program : Program} {file : SourceFile} {imports : Imports}
    (found : importsOf program (registryOf program) file = .ok imports) (indent : String)
    (index : Nat) (state : State) (name : String) :
    let context := fileContext program (registryOf program) indent index file imports
    let view : View := ⟨context, state.scopes⟩
    (LeavesAlone context state name ↔ (view.formOf name).Spares name) ∧
    (view.isLocal name = true → view.formOf name = .enclosed) ∧
    (view.isLocal name = false →
      ((∀ binding ∈ file.imports, name ∉ boundByImport binding) → view.formOf name = .own) ∧
      ∀ binding ∈ file.imports, name ∈ boundByImport binding →
        ∀ specifier, program.resolveFrom file.path binding.specifier = .external specifier →
          view.formOf name = .foreign ∨ view.formOf name = .whole) := by
  intro context view
  refine ⟨⟨fun alone => ?_, leavesAlone_of_spares⟩, fun bound => ?_, fun free => ⟨?_, ?_⟩⟩
  · exact spares_of_leavesAlone alone fun path spelled => mem_foreign_path found spelled
  · rw [formOf, if_pos bound]
  · intro unbound
    have unspelled : context.spellings.lookup name = none := lookup_eq_none_of_unbound found unbound
    rw [formOf, if_neg (by simp [free]), unspelled]
    rfl
  · intro binding listed bound specifier resolved
    obtain ⟨spelling, inside⟩ := spells_of_external found listed resolved bound
    rw [formOf, if_neg (by simp [free])]
    cases looked : context.spellings.lookup name with
    | none =>
      rw [lookup_eq_none_iff] at looked
      simpa using looked _ inside
    | some spelling => cases spelling <;> simp [ofSpelling]

/-- A parameter of a function hides the imported name, and no builtin spelling is applied
to it. -/
theorem parameter_is_left_alone :
    importsOf capturedProgram (registryOf capturedProgram) captured =
        .ok capturedImports ∧
      LeavesAlone capturedContext ⟨[["JSON"]], [], 0, []⟩ "JSON" := by
  have spared := builtins_leave_alone_iff capturedImports_eq "  " 0 ⟨[["JSON"]], [], 0, []⟩ "JSON"
  have form : formOf ⟨capturedContext, [["JSON"]]⟩ "JSON" = .enclosed := spared.2.1 (by decide)
  refine ⟨capturedImports_eq, spared.1.mpr ?_⟩
  change (formOf ⟨capturedContext, [["JSON"]]⟩ "JSON").Spares "JSON"
  rw [form]
  change "JSON" ∉ globalTypes
  decide

/-- An imported object, a module, a class and an interface of a file are all taken for builtin
ones. -/
theorem bound_names_are_captured :
    (lowerFile capturedProgram (registryOf capturedProgram) "  " 0
        captured).result.toOption.map (·.text) =
      some ("package app;\n\nprivate class Error \x7b\n" ++
        "  public function new() \x7b\x7d\n\x7d\n\n" ++
        "private typedef Record = \x7b\x7d\n\nprivate var a = haxe.Json.parse(1);\n\n" ++
        "private var b = StringTools.trim(app.externs.Text);\n\n" ++
        "private var c = new js.lib.Error();\n\n" ++
        "private var d: haxe.DynamicAccess<Dynamic>;\n") ∧
    ∀ name ∈ ["JSON", "text", "Error", "Record"],
      ((∃ binding ∈ captured.imports, name ∈ boundByImport binding) ∨
        name ∈ captured.exports.declarations.map (·.1)) ∧
      ¬LeavesAlone capturedContext .initial name := by
  refine ⟨by decide +kernel, fun name listed => ⟨?_, fun alone => ?_⟩⟩
  · have bound : ∀ name ∈ ["JSON", "text", "Error", "Record"],
        (∃ binding ∈ captured.imports, name ∈ boundByImport binding) ∨
          name ∈ captured.exports.declarations.map (·.1) := by decide +kernel
    exact bound name listed
  · have spared := spares_of_leavesAlone alone fun path spelled =>
      mem_foreign_path capturedImports_eq spelled
    have forms : ∀ name ∈ ["JSON", "text", "Error", "Record"],
        (formOf ⟨capturedContext, []⟩ name = .foreign ∧ name ∈ globalValues) ∨
          formOf ⟨capturedContext, []⟩ name = .whole ∨
            formOf ⟨capturedContext, []⟩ name = .own ∧
              (name ∈ globalValues ∨ name ∈ globalTypes) := by decide +kernel
    change (formOf ⟨capturedContext, []⟩ name).Spares name at spared
    rcases forms name listed with ⟨form, known⟩ | form | ⟨form, known⟩
    · rw [form] at spared
      exact spared known
    · rw [form] at spared
      exact spared
    · rw [form] at spared
      rcases known with value | type
      · exact spared.1 value
      · exact spared.2 type

end Haxify.Lower
