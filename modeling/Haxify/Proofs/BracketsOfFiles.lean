import Haxify.Emit.Plan
import Haxify.Proofs.Builtins
import Haxify.Proofs.Refusal

/-!
# Modules are balanced

The names in the paths of a program are sanitized, made of letters and digits, or come from
the base package and the directories of the project. With that, every place that a file is
lowered in spells names without marks, and the rules for expressions, statements and
declarations carry over to whole modules. Main statement: if a file copies only texts without
brackets and quotes, the text of its module is balanced, and so is every value of its nodes.
-/

namespace Haxify

open List
open Haxe (Address Code IndentStyle unmarked_sanitize)

open Haxe (Balanced Unmarked balanced_joinWith)
open Foreign (registryOf)

variable {name : String}
variable {text indent : String} {program : Program} {index : Nat}
variable {kind : TypeScript.DeclarationKind} {file : SourceFile} {imports : Imports}

section Addresses

variable {address : Address}

/-- An address that is spelled without marks. -/
structure Haxe.Address.Unmarked (address : Address) : Prop where
  package : Haxe.Unmarked address.packagePath
  module : Haxe.Unmarked address.moduleName

theorem unmarked_qualified (plain : address.Unmarked) : Unmarked address.qualified := by
  rw [Address.qualified]
  split
  · exact plain.module
  · exact (plain.package.append (by decide)).append plain.module

theorem unmarked_member (plain : address.Unmarked)
    (named : Unmarked name) : Unmarked (address.member name) := by
  rw [Address.member]
  split
  · exact unmarked_qualified plain
  · exact ((unmarked_qualified plain).append (by decide)).append named

theorem unmarked_declaration (plain : address.Unmarked) : Unmarked address.declaration := by
  rw [Address.declaration]
  split
  · decide
  · exact (Unmarked.append (by decide) plain.package).append (by decide)

theorem unmarked_packagePath {segments : List String}
    (each : ∀ segment ∈ segments, Unmarked segment) : Unmarked (Haxe.packagePath segments) := by
  refine Haxe.unmarked_joinWith (by decide) fun part member => ?_
  obtain ⟨segment, listed, rfl⟩ := mem_map.mp (mem_filter.mp member).1
  exact (each segment listed).mono fun _ => Text.mem_of_mem_trim

theorem unmarked_of_mem_splitOn (plain : Unmarked text) {separator : Char} :
    ∀ piece ∈ Text.splitOn separator text, Unmarked piece :=
  fun _ member => plain.mono fun _ inside => (Text.mem_of_mem_splitOn member inside).1

theorem unmarked_made {package : String} (plain : Unmarked package) (text : String) :
    Address.Unmarked ⟨package, Haxe.moduleName text⟩ :=
  ⟨plain, Haxe.unmarked_of_forall Char.isAlphanum (by decide) fun _ =>
    Haxe.isAlphanum_of_mem_moduleName⟩

theorem unmarked_ofSource {relative : Path} {basePackage : String} (base : Unmarked basePackage)
    (directories : ∀ name ∈ (Address.namesOf relative).dropLast, Unmarked name) :
    (Address.ofSource relative basePackage).Unmarked := by
  rw [Address.ofSource]
  refine unmarked_made (unmarked_packagePath (forall_mem_append.mpr ⟨?_, directories⟩)) _
  intro part member
  exact unmarked_of_mem_splitOn base part (mem_filter.mp member).1

theorem unmarked_of_mem_registryOf (base : Unmarked program.basePackage) :
    ∀ binding ∈ (registryOf program).bindings, binding.address.Unmarked := by
  intro binding member
  obtain ⟨package, _, word⟩ := Foreign.named_of_mem_assign member
  constructor
  · rw [package]
    refine unmarked_packagePath (forall_mem_append.mpr ⟨unmarked_of_mem_splitOn base, ?_⟩)
    exact forall_mem_singleton.mpr (by decide)
  · exact Haxe.unmarked_of_forall Char.isAlphanum (by decide) word

end Addresses

section Exported

def Exports.Origin.Unmarked : Origin → Prop
  | .found (.member _ name _) => Haxe.Unmarked name
  | _ => True

/-- A member that a step comes to has a name without marks. -/
def Exports.Step.Unmarked : Step → Prop
  | .renamed member _ => Haxe.Unmarked member
  | .plain origin => origin.Unmarked

namespace Exports

theorem unmarked_importOrigin (program : Program) (file : SourceFile)
    (specifier imported : String) : (importOrigin program file specifier imported).Unmarked := by
  rw [importOrigin]
  split
  · split <;> trivial
  · split <;> trivial
  · trivial

theorem unmarked_localOrigin (program : Program) (index : Nat) (file : SourceFile)
    (localName : String) : (localOrigin program index file localName).Unmarked := by
  rw [localOrigin]
  split
  · exact unmarked_sanitize localName
  dsimp only
  split
  · exact unmarked_importOrigin program file _ _
  · trivial

theorem unmarked_step (program : Program) (query : Query) : (step program query).Unmarked := by
  rw [step]
  split
  · trivial
  split
  · trivial
  split
  · exact unmarked_localOrigin program _ _ _
  · exact (by decide : Haxe.Unmarked Haxe.defaultMember)
  rw [namedStep]
  split
  · dsimp only
    split
    · exact unmarked_sanitize _
    · exact unmarked_localOrigin program _ _ _
  · rw [passedOn]
    split
    · exact unmarked_importOrigin program _ _ _
    · split <;> trivial

theorem unmarked_of_search {unasked pending : List Query}
    (found : search program unasked pending = some (.member index name kind)) :
    Haxe.Unmarked name := by
  fun_induction search program unasked pending with
  | case1 => cases found
  | case2 unasked query rest asked result same | case4 unasked query rest asked member result same
  | case5 unasked query rest asked member queries same =>
    have plain := unmarked_step program query
    cases found
    rw [same] at plain
    exact plain
  | case3 unasked query rest asked queries same rest_found
  | case6 unasked query rest skipped rest_found => exact rest_found found

end Exports

end Exported

namespace Lower

section Contexts

theorem unmarked_memberPath? (base : Unmarked program.basePackage) {specifier path : String}
    {member : Option String}
    (known : (registryOf program).memberPath? specifier member = some path) :
    Unmarked path := by
  obtain ⟨address, found, rfl⟩ := Option.map_eq_some_iff.mp known
  obtain ⟨binding, listed, rfl⟩ := Option.map_eq_some_iff.mp found
  have plain := unmarked_of_mem_registryOf base binding (mem_of_find?_eq_some listed)
  refine ((unmarked_qualified plain).append (by decide)).append ?_
  cases member with
  | none => exact (by decide : Unmarked Haxe.defaultMember)
  | some name => exact unmarked_sanitize name

theorem unmarked_memberPath (addresses : ∀ file ∈ program.files, file.address.Unmarked)
    {target : Nat} {found : String}
    (resolved : Exports.resolve program target name = some (.member index found kind)) :
    Unmarked (program.memberPath index found) := by
  have named := Exports.unmarked_of_search resolved
  rw [Program.memberPath]
  split
  · rename_i file listed
    exact unmarked_member (addresses file (mem_of_getElem? listed)) named
  · exact named

theorem spelled_fileContext (base : Unmarked program.basePackage)
    (addresses : ∀ file ∈ program.files, file.address.Unmarked) (blank : Unmarked indent)
    (index : Nat) (found : importsOf program (registryOf program) file = .ok imports) :
    (fileContext program (registryOf program) indent index file imports).Spelled where
  value name path listed := by
    obtain ⟨specifier, member, known⟩ := memberPath?_of_spelled found listed
    exact unmarked_memberPath? base known
  whole name path listed := by
    obtain ⟨_, _, specifier, address, _, _, _, known, rfl⟩ := whole_of_spelled found listed
    obtain ⟨binding, inside, rfl⟩ := Option.map_eq_some_iff.mp known
    exact unmarked_qualified (unmarked_of_mem_registryOf base binding (mem_of_find?_eq_some inside))
  member _ _ _ _ _ resolved := unmarked_memberPath addresses resolved
  foreign _ _ _ known := unmarked_memberPath? base known
  indent := blank

theorem balanced_importLine {path : String} (plain : Unmarked path) (member localName : String) :
    Balanced (Imports.line path member localName) := by
  have front := (by decide : Unmarked "import ").append plain
  simp only [Imports.line]
  split
  · exact (front.append (by decide)).balanced
  · exact (((front.append (by decide)).append
      (unmarked_sanitize localName)).append (by decide)).balanced

theorem balanced_of_mem_lines (addresses : ∀ file ∈ program.files, file.address.Unmarked)
    {registry : Foreign.Registry} (found : importsOf program registry file = .ok imports) :
    ∀ line ∈ imports.lines, Balanced line := by
  intro line listed
  obtain ⟨binding, _, brings⟩ := (has_importsOf found (.line line)).mp listed
  cases brings with
  | foreign resolved brings => cases brings
  | named resolved made wanted brings =>
    cases brings with
    | member exported => exact balanced_importLine (unmarked_memberPath addresses exported) _ _

end Contexts

section Items

theorem balanced_moduleText {address : Address} (plain : address.Unmarked)
    {lines items : List String} (imports : ∀ line ∈ lines, Balanced line)
    (each : ∀ item ∈ items, Balanced item) : Balanced (moduleText address lines items) := by
  have head : Balanced (address.declaration ++ "\n\n") :=
    ((unmarked_declaration plain).append (by decide)).balanced
  have middle : Balanced (if lines.isEmpty then "" else Text.joinWith "\n" lines ++ "\n\n") := by
    split
    · exact (by decide : Balanced "")
    · exact (balanced_joinWith (by decide) imports).append (by decide)
  have body : Balanced (Text.joinWith "\n\n" items) := balanced_joinWith (by decide) each
  exact (Haxe.balanced_trimEnd ((head.append middle).append body)).append (by decide)

end Items

end Lower

namespace Foreign

theorem unmarked_of_mem_statics (descriptor : Descriptor) :
    ∀ static ∈ descriptor.statics, Unmarked static.name := by
  refine forall_mem_append.mpr ⟨?_, fun static member => ?_⟩
  · split
    · exact forall_mem_singleton.mpr (by decide : Unmarked Haxe.defaultMember)
    · simp
  · obtain ⟨name, _, rfl⟩ := mem_map.mp member
    exact unmarked_sanitize name

theorem balanced_static {static : Static} (plain : Unmarked static.name) :
    Balanced static.render := by
  have named := plain.balanced
  simp only [Static.render]
  split
  · rename_i native _
    have quoted := Haxe.balanced_quote native
    simp +decide [Haxe.Balanced, quoted.read_append, named.read_append]
  · simp +decide [Haxe.Balanced, named.read_append]

theorem balanced_externFile {binding : Binding} (plain : binding.address.Unmarked)
    (blank : Unmarked indent) : Balanced (binding.file indent).text := by
  have header : Balanced ("@:jsRequire(" ++ Haxe.quote binding.descriptor.specifier ++
      ") extern class " ++ binding.address.moduleName) := by
    have quoted := Haxe.balanced_quote binding.descriptor.specifier
    have named := plain.module.balanced
    simp +decide [Haxe.Balanced, quoted.read_append, named.read]
  have body : Code.Closed (binding.descriptor.statics.map fun static =>
      Code.line static.render) := by
    have statics : ∀ text ∈ binding.descriptor.statics.map Static.render, Balanced text := by
      intro text member
      obtain ⟨static, listed, rfl⟩ := mem_map.mp member
      exact balanced_static (unmarked_of_mem_statics binding.descriptor static listed)
    have closed := Code.closed_lines statics
    rwa [map_map] at closed
  have front : Code.Closed [.line binding.address.declaration, .line ""] :=
    Code.closed_lines (forall_mem_cons.mpr
      ⟨(unmarked_declaration plain).balanced, forall_mem_singleton.mpr (by decide)⟩)
  have whole := front.append (Code.closed_block header body)
  exact (Code.balanced_render blank whole).append (by decide)

end Foreign

namespace Lower

open TypeScript (Node)

section Grammars

def commentKinds : List String := ["comment", "html_comment"]

/-- Whether a character may stand between two tokens: white space, or one of the invisible
characters that the language counts to it. -/
def isFiller (char : Char) : Bool :=
  Text.isBlank char || ['\u200b', '\u2060', '\ufeff'].contains char

/-- A node as it stands in a tree of the language. -/
structure Regular (node : Node) : Prop where
  spelled : node.kind ∈ spelledKinds → node.text = node.kind
  field : ∀ slot ∈ copiedFields, node.kind = slot.1 → ∀ part ∈ node.field? slot.2.1,
    part.kind ∈ slot.2.2
  signed : node.kind = "unary_expression" → (∀ child ∈ node.children, child.kind ∉ commentKinds) →
    ∀ operator ∈ node.field? "operator", ∀ argument ∈ node.field? "argument",
      ∃ filler : String, filler.toList.all isFiller ∧
        node.text = operator.text ++ filler ++ argument.text

/-- A grammar whose trees without faults are those of the language. -/
def GivesRegular (grammar : Grammar) : Prop :=
  ∀ kind source tree, grammar kind source = some tree → tree.firstFault? = none →
    tree.Throughout Regular

/-- A node whose names and numbers have no brackets and quotes, and that has no comment in a
negative case label. -/
structure Unbracketed (node : Node) : Prop where
  copied : node.kind ∈ copiedKinds → Unmarked node.text
  label : node.kind = "switch_case" → ∀ part ∈ node.field? "value",
    isNegativeNumber part.unparenthesized →
      ∀ child ∈ part.unparenthesized.children, child.kind ∉ commentKinds

theorem unmarked_filler (filler : text.toList.all isFiller) : Unmarked text :=
  Haxe.unmarked_of_forall isFiller (by decide) (all_eq_true.mp filler)

theorem unmarked_negativeNumber {label : Node} (regular : Regular label)
    (plain : label.Throughout Unbracketed) (negative : isNegativeNumber label)
    (clean : ∀ child ∈ label.children, child.kind ∉ commentKinds) : Unmarked label.text := by
  simp only [isNegativeNumber, Bool.and_eq_true, beq_iff_eq, Option.any_eq_true] at negative
  obtain ⟨⟨isUnary, operator, foundOperator, minus⟩, argument, foundArgument, isNumber⟩ := negative
  obtain ⟨filler, blank, same⟩ :=
    regular.signed isUnary clean operator foundOperator argument foundArgument
  have number := (plain.field foundArgument).top.copied (by rw [isNumber]; decide)
  rw [same, minus]
  exact ((by decide : Unmarked "-").append (unmarked_filler blank)).append number

theorem legible_of_unbracketed {tree : Node} (regular : tree.Throughout Regular)
    (plain : tree.Throughout Unbracketed) : tree.Throughout Legible := by
  induction tree using TypeScript.Tree.tree_induction with
  | node token value children below =>
    refine .node ⟨plain.top.copied, regular.top.spelled, regular.top.field, ?_⟩ fun child inside =>
      below child inside (regular.child inside) (plain.child inside)
    intro kind part found negative
    have label := (plain.field found).unparenthesized
    have clean := plain.top.label kind part found negative
    exact unmarked_negativeNumber (regular.field found).unparenthesized.top label negative clean

end Grammars

section Modules

theorem unmarked_unit (style : IndentStyle) : Unmarked style.unit := by
  cases style with
  | spaces count => exact Code.unmarked_copies (by decide) count
  | tabs => exact (by decide : Unmarked "\t")

/-- What is lowered where names are spelled without marks is a discipline. -/
def balancing (context : Context) (spelled : context.Spelled) : Discipline :=
  { refusing context with
    legible := True
    names _ each := gives_view fun view same => each view (fun _ _ _ found =>
      contains_iff_mem.mpr (same ▸ mem_importedNames found)) fun _ => same ▸ spelled
    surroundings _ each := gives_read (each context fun _ => spelled) }

theorem balanced_lowerFile (base : Unmarked program.basePackage)
    (addresses : ∀ file ∈ program.files, file.address.Unmarked) (blank : Unmarked indent)
    (member : file ∈ program.files) (legible : file.tree.Throughout Legible) {output : Haxe.File}
    (made : (lowerFile program (registryOf program) indent index file).result =
      .ok output) : Balanced output.text := by
  obtain ⟨imports, items, state, found, run, rfl⟩ := lowerFile_eq_ok made
  rw [fileItems_eq] at run
  obtain ⟨_, _, look, behind⟩ := Lowering.bind_eq_ok.mp run
  cases look
  have allowed : (balancing _ (spelled_fileContext base addresses blank index found)).Allows [] _
    (itemsOf file.tree) :=
      allowed_itemsOf _ (fun _ _ _ => ⟨not_mem_nil, fun _ _ => trivial⟩) fun _ => legible
  exact balanced_moduleText (addresses file member) (balanced_of_mem_lines addresses found)
    ((allowed _ _ _ behind).1 trivial)

end Modules

namespace Sample

def minus : Node := .node ⟨"-", false, false, "operator", 0, 0, ⟨1, 1⟩, "-"⟩ () []

def signText : String :=
  "function f(a) \x7b switch (a) \x7b case (- 1): a.g(\"]\"); \x7d \x7d"

def sign : Node :=
  node "program" "" signText [node "function_declaration" "" signText
    [identifier "name" "f",
      node "formal_parameters" "parameters" "(a)" [parameter "a"],
      node "statement_block" "body" "\x7b switch (a) \x7b case (- 1): a.g(\"]\"); \x7d \x7d"
        [switch [node "switch_case" "" "case (- 1): a.g(\"]\");"
          [node "parenthesized_expression" "value" "(- 1)"
              [node "unary_expression" "" "- 1" [minus, node "number" "argument" "1" []]],
            node "expression_statement" "body" "a.g(\"]\");"
              [node "call_expression" "" "a.g(\"]\")"
                [node "member_expression" "function" "a.g"
                    [identifier "object" "a", node "property_identifier" "property" "g" []],
                  node "arguments" "arguments" "(\"]\")" [node "string" "" "\"]\"" []]]]]]]]]

theorem sign_regular : sign.Throughout Regular := by
  have words : sign.descendants.all (fun node => !spelledKinds.contains node.kind) := by
    decide +kernel
  have fields : sign.descendants.all (fun node => copiedFields.all fun slot =>
      node.kind != slot.1 || (node.field? slot.2.1).all (slot.2.2.contains ·.kind)) := by
    decide +kernel
  have signs : sign.descendants.all (fun node => node.kind != "unary_expression" ||
      (node.text == "- 1" && (node.field? "operator").all (·.text == "-") &&
        (node.field? "argument").all (·.text == "1"))) := by
    decide +kernel
  intro node member
  have words := all_eq_true.mp words node member
  have fields := all_eq_true.mp fields node member
  have signs := all_eq_true.mp signs node member
  refine ⟨fun listed => ?_, fun slot listed kind part found => ?_,
    fun kind _ operator first argument second => ⟨" ", by decide, ?_⟩⟩
  · simp [listed] at words
  · simpa [kind, Option.mem_def.mp found] using all_eq_true.mp fields slot listed
  · simp only [kind, Option.mem_def.mp first, Option.mem_def.mp second, bne_self_eq_false,
      Bool.false_or, Option.all_some, Bool.and_eq_true, beq_iff_eq] at signs
    rw [signs.1.1, signs.1.2, signs.2]
    rfl

theorem sign_unbracketed : sign.Throughout Unbracketed := by
  have names : sign.descendants.all (fun node => !copiedKinds.contains node.kind ||
      decide (Unmarked node.text)) := by
    decide +kernel
  have labels : sign.descendants.all (fun node => (node.field? "value").all fun part =>
      part.unparenthesized.children.all fun child => !commentKinds.contains child.kind) := by
    decide +kernel
  intro node member
  have names := all_eq_true.mp names node member
  have labels := all_eq_true.mp labels node member
  refine ⟨fun listed => by simpa [listed] using names, fun _ part found _ child inside => ?_⟩
  rw [Option.mem_def.mp found, Option.all_some, all_eq_true] at labels
  simpa using labels child inside

def signFile : SourceFile :=
  Program.fileOf "app" ⟨"/project/lib/main.ts"⟩ ⟨"lib/main.ts"⟩ .script signText sign

def signProgram : Program := ⟨none, ⟨"/project"⟩, "app", [signFile]⟩

theorem signProgram_eq : Program.assemble (reading signText sign) ⟨"/project"⟩ "app"
    [(⟨"/project/lib/main.ts"⟩, signText)] = .ok signProgram := by
  rw [Program.assemble_of_sorted (by simp)]
  rfl

end Sample

open Sample

/-- Every module made of a file is balanced, if the names and numbers of its tree, the
directories of the project and the base package have no brackets and quotes and no comment
stands in a negative case label. So is every value of a node of the tree, in whatever state
it is lowered, and the extern classes are balanced whatever the files hold. -/
theorem emitted_text_is_balanced {grammar : Grammar} (regular : GivesRegular grammar)
    {root : Path} {basePackage : String} {sources : List (Path × String)} {program : Program}
    (assembled : Program.assemble grammar root basePackage sources =
      .ok { program with configPath := none })
    (base : Unmarked basePackage)
    (directories : ∀ file ∈ program.files,
      ∀ name ∈ (Address.namesOf file.relative).dropLast, Unmarked name)
    (style : IndentStyle) :
    (∀ index file, program.files[index]? = some file → file.tree.Throughout Unbracketed →
      (∀ output,
        (Emit.Plan.file program (registryOf program) style.unit index file).result =
          .ok output → Balanced output.text) ∧
      ∀ imports, importsOf program (registryOf program) file = .ok imports →
        ∀ node ∈ (rendered file.tree).descendants, ∀ state text after,
          node.value.expression.evaluate (fileContext program (registryOf program)
            style.unit index file imports) state = (.ok text, after) → Balanced text) ∧
    ∀ output ∈ (Emit.Plan.make program style.unit).externs, Balanced output.text := by
  have package : program.basePackage = basePackage := (Program.basePackage_of_assemble assembled :)
  rw [← package] at base
  have addresses : ∀ file ∈ program.files, file.address.Unmarked := by
    intro file member
    rw [Program.address_eq_ofSource assembled file member, ← package]
    exact unmarked_ofSource base (directories file member)
  have blank := unmarked_unit style
  refine ⟨fun index file here plain => ?_, fun output listed => ?_⟩
  · have member := mem_of_getElem? here
    obtain ⟨_, _, _, _, _, parsed, same⟩ := Program.exists_fileOf_of_assemble assembled file member
    obtain ⟨given, faultless⟩ := Program.parse_eq_ok.mp parsed
    have shape : file.tree.Throughout Regular := by
      rw [same]
      exact regular _ _ _ given faultless
    have legible := legible_of_unbracketed shape plain
    refine ⟨fun output made => ?_, fun imports found node listed => ?_⟩
    · exact balanced_lowerFile base addresses blank member legible made
    · have covered :
          (balancing _ (spelled_fileContext base addresses blank index found)).Covers _ :=
        rendered_covered file.tree (fun _ _ _ => ⟨not_mem_nil, fun _ _ => trivial⟩) fun _ => legible
      have value : (balancing _ _).Vets [] _ _ _ := (covered node listed).expression
      exact fun state text after run => (value state text after run).1 trivial
  · obtain ⟨binding, known, rfl⟩ := mem_map.mp listed
    exact Foreign.balanced_externFile (unmarked_of_mem_registryOf base binding known) blank

/-- A function with a negative label and a bracket in a literal has a balanced module. -/
theorem sign_module_is_balanced :
    GivesRegular (reading signText sign) ∧
      signFile.tree.Throughout Unbracketed ∧
      ∃ output, (Emit.Plan.file signProgram (registryOf signProgram)
          IndentStyle.usual.unit 0 signFile).result = .ok output ∧
        output.text = "package app.lib;\n\nprivate function f(a) \x7b\n  switch (a) \x7b\n" ++
          "    case -1:\n      a.g(\"]\");\n  \x7d\n\x7d\n" ∧
        Balanced output.text := by
  have regular : GivesRegular (reading signText sign) := by
    intro kind source tree parsed _
    simp only [reading, Option.ite_none_right_eq_some, Option.some.injEq] at parsed
    exact parsed.2 ▸ sign_regular
  have directories : ∀ file ∈ signProgram.files,
      ∀ name ∈ (Address.namesOf file.relative).dropLast, Unmarked name := by
    have names : (Address.namesOf signFile.relative).dropLast = ["lib"] := by
      decide +kernel
    refine forall_mem_singleton.mpr ?_
    rw [names]
    exact forall_mem_singleton.mpr (by decide)
  have written : (Emit.Plan.file signProgram (registryOf signProgram)
      IndentStyle.usual.unit 0 signFile).result.toOption.map (·.text) =
        some ("package app.lib;\n\nprivate function f(a) \x7b\n  switch (a) \x7b\n" ++
          "    case -1:\n      a.g(\"]\");\n  \x7d\n\x7d\n") := by
    decide +kernel
  obtain ⟨modules, _⟩ :=
    emitted_text_is_balanced regular signProgram_eq (by decide) directories .usual
  have balanced := (modules 0 signFile rfl sign_unbracketed).1
  cases made : (Emit.Plan.file signProgram (registryOf signProgram)
      IndentStyle.usual.unit 0 signFile).result with
  | error reason => simp [made, Except.toOption] at written
  | ok output =>
    rw [made] at written
    exact ⟨regular, sign_unbracketed, output, rfl, Option.some.inj written, balanced output made⟩

end Lower

end Haxify
